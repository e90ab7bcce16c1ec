import Spinny.Lib.Bytes

/-!
# `boost::filesystem::path`

A path is the text it keeps. On POSIX every element passes the name check in use, and an element
`..` is appended as any other name is.

* `appendElements`, `dropRootParents`, `appended`: what `m_path_append` makes of a path;
  `pathAppend`: with its assertion; `toPath`, `slash`: the constructor from a text and `operator /`.
* `elements`, `normalElements`: the names of a path, and those of its lexical normal form.
* `slash_below`: a path appended without `..` only adds names.
* `normalElements_below`: such names stay in the normal form.
-/

namespace Boost.Path

open Bytes

/-- The elements of a text, appended to the path `m`. A name has at least one byte, whatever it
is; it is looked for `/` from its second byte on only. -/
def appendElements (m : Bytes) : Bytes → Bytes
  | [] => m
  | b :: s =>
    let m := if m = lit "." then [] else m
    if b = 46 ∧ (s = [] ∨ s.head? = some 47) then
      -- a directory placeholder
      appendElements (if m = [] then lit "." else m) (s.drop 1)
    else
      let m := if m ≠ [] ∧ m.getLast? ≠ some 47 then m ++ [47] else m
      appendElements (m ++ b :: s.takeWhile (· ≠ 47)) ((s.dropWhile (· ≠ 47)).drop 1)
  termination_by src => src.length
  decreasing_by
    · simp only [List.length_drop, List.length_cons]
      omega
    · have : (s.dropWhile (· ≠ 47)).length ≤ s.length := (List.dropWhile_suffix _).length_le
      simp only [List.length_drop, List.length_cons]
      omega

/-- The text behind the root directory without the elements `..` it starts with. -/
def dropParents : Bytes → Bytes
  | [46, 46] => []
  | 46 :: 46 :: 47 :: s => dropParents s
  | s => s

/-- The special case at the end: one or more leading `/..` are removed. -/
def dropRootParents : Bytes → Bytes
  | 47 :: s => 47 :: dropParents s
  | m => m

/-- The path behind the assertions of `m_path_append`. -/
def appended (m : Bytes) : Bytes → Bytes
  | [] => m
  | b :: s =>
    if b = 47 then dropRootParents (appendElements (if m = [] then [47] else m) s)
    else dropRootParents (appendElements m (b :: s))

/-- `m_path_append`; `none` where it asserts that the text has no embedded NUL. -/
def pathAppend (m src : Bytes) : Option Bytes :=
  if src.contains 0 then none else some (appended m src)

/-- `path( src )`. -/
def toPath (src : Bytes) : Option Bytes := pathAppend [] src

/-- `operator /`. -/
def slash (m rhs : Bytes) : Option Bytes := pathAppend m rhs

/-- The names between the slashes, without the placeholders. -/
def elements (p : Bytes) : List Bytes :=
  (p.splitOn 47).filter fun e => e ≠ [] ∧ e ≠ lit "."

/-- One more name of a lexical normal form: `..` takes the last name back, and is lost at the
root directory. -/
def enter (rooted : Bool) (names : List Bytes) (e : Bytes) : List Bytes :=
  if e ≠ lit ".." then names ++ [e]
  else if names = [] then if rooted then [] else [e]
  else if names.getLast? = some e then names ++ [e]
  else names.dropLast

/-- The names of the lexical normal form. -/
def normalElements (p : Bytes) : List Bytes :=
  (elements p).foldl (enter (p.head? = some 47)) []

/-! ## Texts that meet at a slash -/

/-- No name of the two texts runs over the place where they meet. -/
def Joined (a t : Bytes) : Prop :=
  a = [] ∨ t = [] ∨ a.getLast? = some 47 ∨ t.head? = some 47

theorem Joined.of_append {a c t : Bytes} (h : Joined (a ++ c) t) (hc : c ≠ []) : Joined c t := by
  obtain h | h | h | h := h
  · exact absurd (List.append_eq_nil_iff.mp h).2 hc
  · exact .inr (.inl h)
  · exact .inr (.inr (.inl (by rwa [List.getLast?_append_of_ne_nil _ hc] at h)))
  · exact .inr (.inr (.inr h))

theorem Joined.tail {b : UInt8} {a t : Bytes} (h : Joined (b :: a) t) : Joined a t := by
  cases a with
  | nil => exact .inl rfl
  | cons c a => exact Joined.of_append (a := [b]) h (by simp)

/-- Two dots in a row, anywhere in the text. -/
abbrev TwoDots (t : Bytes) : Prop := [46, 46] <:+: t

/-- Where two texts meet at a slash no dots of the one meet dots of the other. -/
theorem not_twoDots_joined {a t : Bytes} (h : Joined a t) (ha : ¬ TwoDots a) (ht : ¬ TwoDots t) :
    ¬ TwoDots (a ++ t) := by
  induction a with
  | nil => exact ht
  | cons b a ih =>
    have hrest := ih h.tail fun hd => ha (List.infix_cons_iff.mpr (.inr hd))
    intro hd
    obtain hd | hd := List.infix_cons_iff.mp hd
    · cases a with
      | cons c a =>
        refine ha (List.infix_cons_iff.mpr (.inl ?_))
        simpa [List.cons_prefix_cons] using hd
      | nil =>
        cases t with
        | nil => simp [List.cons_prefix_cons] at hd
        | cons c t =>
          obtain ⟨rfl, hd'⟩ := List.cons_prefix_cons.mp hd
          have hc := (List.cons_prefix_cons.mp hd').1
          simp [Joined, ← hc] at h
    · exact hrest hd

theorem elements_joined {a t : Bytes} (h : Joined a t) :
    elements (a ++ t) = elements a ++ elements t := by
  have hslash : ∀ a t : Bytes, elements (a ++ 47 :: t) = elements a ++ elements t := by
    intro a t
    unfold elements
    rw [List.splitOn_append_cons_self, List.filter_append]
  have hnil : elements [] = [] := rfl
  obtain rfl | rfl | h | h := h
  · rw [hnil]
    rfl
  · rw [List.append_nil, hnil, List.append_nil]
  · obtain ⟨a, rfl⟩ := List.getLast?_eq_some_iff.mp h
    rw [hslash a [], hnil, List.append_nil, List.append_assoc]
    exact hslash a t
  · obtain ⟨t, rfl⟩ := List.head?_eq_some_iff.mp h
    have hroot := hslash [] t
    rw [hnil] at hroot
    rw [hslash, ← List.nil_append (47 :: t), hroot]
    rfl

theorem infix_intercalate {sep e : Bytes} {l : List Bytes} (h : e ∈ l) :
    e <:+: sep.intercalate l := by
  induction l with
  | nil => cases h
  | cons x l ih =>
    by_cases hl : l = []
    · subst hl
      rw [List.mem_singleton.mp h, List.intercalate_singleton]
    · rw [List.intercalate_cons_of_ne_nil hl]
      obtain rfl | h := List.mem_cons.mp h
      · exact ⟨[], sep ++ sep.intercalate l, by rw [List.nil_append, List.append_assoc]⟩
      · exact (ih h).trans (List.suffix_append _ _).isInfix

theorem infix_of_mem_elements {e p : Bytes} (h : e ∈ elements p) : e <:+: p := by
  have hmem := @infix_intercalate [47] e _ (List.mem_of_mem_filter h)
  rwa [List.intercalate_splitOn] at hmem

/-! ## What is appended -/

theorem appendElements_cons (m : Bytes) (b : UInt8) (s : Bytes) :
    appendElements m (b :: s) =
      let m := if m = lit "." then [] else m
      if b = 46 ∧ (s = [] ∨ s.head? = some 47) then
        appendElements (if m = [] then lit "." else m) (s.drop 1)
      else
        let m := if m ≠ [] ∧ m.getLast? ≠ some 47 then m ++ [47] else m
        appendElements (m ++ b :: s.takeWhile (· ≠ 47)) ((s.dropWhile (· ≠ 47)).drop 1) := by
  rw [appendElements]

/-- A placeholder in the path gives way to the first element. -/
theorem appendElements_dot {src : Bytes} (h : src ≠ []) :
    appendElements (lit ".") src = appendElements [] src := by
  obtain ⟨b, s, rfl⟩ := List.exists_cons_of_ne_nil h
  rw [appendElements_cons, appendElements_cons]
  rfl

/-- `t` is appended to `m` from `src`: it stands apart, and two dots in it are two of `src`. -/
def Appended (m src t : Bytes) : Prop :=
  appendElements m src = m ++ t ∧ Joined m t ∧ (¬ TwoDots src → ¬ TwoDots t)

theorem Appended.of_suffix {m src src' t : Bytes} (h : Appended m src t) (hs : src <:+ src') :
    Joined m t ∧ (¬ TwoDots src' → ¬ TwoDots t) :=
  ⟨h.2.1, fun hd => h.2.2 fun hd' => hd (hd'.trans hs.isInfix)⟩

/-- A name of `src` and the slash before it, and then the rest. -/
theorem Appended.name {m sep name rest src t : Bytes} (h : Appended (m ++ sep ++ name) rest t)
    (hsep : sep = [47] ∨ sep = [] ∧ (m = [] ∨ m.getLast? = some 47)) (hne : name ≠ [])
    (hname : name <+: src) (hrest : rest <:+ src) :
    Joined m (sep ++ name ++ t) ∧ (¬ TwoDots src → ¬ TwoDots (sep ++ name ++ t)) := by
  constructor
  · obtain rfl | ⟨rfl, hm | hm⟩ := hsep
    · exact .inr (.inr (.inr rfl))
    · exact .inl hm
    · exact .inr (.inr (.inl hm))
  · intro hd
    have ht := (h.of_suffix hrest).2 hd
    have hjoin : Joined (sep ++ name) t := by
      refine Joined.of_append (a := m) ?_ (by simp [hne])
      rw [← List.append_assoc]
      exact h.2.1
    refine not_twoDots_joined hjoin ?_ ht
    have hplain : ¬ TwoDots name := fun hd' => hd (hd'.trans hname.isInfix)
    obtain rfl | ⟨rfl, -⟩ := hsep
    · intro hd'
      obtain hd' | hd' := List.infix_cons_iff.mp hd'
      · exact absurd (List.cons_prefix_cons.mp hd').1 (by decide)
      · exact hplain hd'
    · exact hplain

/-- A name that is not a placeholder makes no placeholder of the path. -/
theorem name_ne_dot {m : Bytes} {b : UInt8} {s : Bytes}
    (h : ¬ (b = 46 ∧ (s = [] ∨ s.head? = some 47))) :
    m ++ b :: s.takeWhile (· ≠ 47) ≠ lit "." := by
  intro he
  cases m with
  | cons c m =>
    have := congrArg List.length he
    simp [lit] at this
  | nil =>
    obtain ⟨rfl, htake⟩ := List.cons.inj he
    refine h ⟨rfl, ?_⟩
    cases s with
    | nil => exact .inl rfl
    | cons c s =>
      by_cases hc : c = 47
      · exact .inr (by rw [hc]; rfl)
      · rw [List.takeWhile_cons_of_pos (by simpa using hc)] at htake
        cases htake

theorem appendElements_appended {m src : Bytes} (hm : m ≠ lit ".") : ∃ t, Appended m src t := by
  induction hn : src.length using Nat.strong_induction_on generalizing m src with
  | _ n ih =>
    cases src with
    | nil => exact ⟨[], by rw [appendElements, List.append_nil], .inr (.inl rfl), id⟩
    | cons b s =>
      have hdrop : ∀ s' : Bytes, s' <:+ s → s'.length < n := fun s' hs => by
        have := hs.length_le
        rw [← hn, List.length_cons]
        omega
      have hnext : s.drop 1 <:+ b :: s := (List.drop_suffix 1 s).trans (List.suffix_cons b s)
      have hnextLt := hdrop _ (List.drop_suffix 1 s)
      have hrest : (s.dropWhile (· ≠ 47)).drop 1 <:+ s :=
        (List.drop_suffix 1 _).trans (List.dropWhile_suffix _)
      have hrestLt := hdrop _ hrest
      have hname : b :: s.takeWhile (· ≠ 47) <+: b :: s :=
        List.cons_prefix_cons.mpr ⟨rfl, List.takeWhile_prefix _⟩
      unfold Appended
      rw [appendElements_cons, if_neg hm]
      dsimp only
      split_ifs with hdot hempty hsep
      · -- a placeholder is kept only until the next element
        subst hempty
        by_cases hs : s.drop 1 = []
        · refine ⟨lit ".", ?_, .inl rfl, fun _ => by decide⟩
          rw [hs, appendElements]
          rfl
        · obtain ⟨t, ht⟩ := @ih _ hnextLt [] _ (by decide) rfl
          rw [appendElements_dot hs]
          exact ⟨t, ht.1, ht.of_suffix hnext⟩
      · obtain ⟨t, ht⟩ := ih _ hnextLt hm rfl
        exact ⟨t, ht.1, ht.of_suffix hnext⟩
      · obtain ⟨t, ht⟩ := ih _ hrestLt (name_ne_dot (m := m ++ [47]) hdot) rfl
        refine ⟨[47] ++ b :: s.takeWhile (· ≠ 47) ++ t, ?_, ht.name (.inl rfl) (by simp) hname
          (hrest.trans (List.suffix_cons b s))⟩
        rw [ht.1]
        simp
      · obtain ⟨t, ht⟩ := ih _ hrestLt (name_ne_dot (m := m ++ []) hdot) rfl
        refine ⟨[] ++ b :: s.takeWhile (· ≠ 47) ++ t, ?_, ht.name (.inr ⟨rfl, ?_⟩) (by simp) hname
          (hrest.trans (List.suffix_cons b s))⟩
        · have h := ht.1
          simp only [List.append_nil] at h
          rw [h]
          simp
        · by_cases h : m = []
          · exact .inl h
          · exact .inr (by_contra fun hl => hsep ⟨h, hl⟩)

/-! ## The special case of the root directory -/

/-- The first element behind the root directory is `..`. -/
def LeadsUp (p : Bytes) : Prop :=
  ∃ s, p = 47 :: 46 :: 46 :: s ∧ (s = [] ∨ s.head? = some 47)

theorem dropRootParents_of_not {p : Bytes} (h : ¬ LeadsUp p) : dropRootParents p = p := by
  unfold dropRootParents
  split
  next s =>
    unfold dropParents
    split
    · exact absurd ⟨_, rfl, .inl rfl⟩ h
    · exact absurd ⟨_, rfl, .inr rfl⟩ h
    · rfl
  · rfl

theorem not_leadsUp_dropRootParents (p : Bytes) : ¬ LeadsUp (dropRootParents p) := by
  have hdrop : ∀ s : Bytes, ¬ LeadsUp (47 :: dropParents s) := by
    intro s
    induction s using dropParents.induct with
    | case1 => simp [dropParents, LeadsUp]
    | case2 s ih => rwa [dropParents]
    | case3 s h₁ h₂ =>
      rw [dropParents.eq_3 s h₁ h₂]
      rintro ⟨t, h, rfl | ht⟩
      · exact h₁ (List.cons.inj h).2
      · obtain ⟨t, rfl⟩ := List.head?_eq_some_iff.mp ht
        exact h₂ t (List.cons.inj h).2
  unfold dropRootParents
  split
  · exact hdrop _
  next hroot =>
    rintro ⟨t, h, -⟩
    exact hroot _ h

theorem not_leadsUp_of_not_twoDots {p : Bytes} (h : ¬ TwoDots p) : ¬ LeadsUp p := by
  rintro ⟨t, rfl, -⟩
  exact h ⟨[47], t, rfl⟩

theorem not_leadsUp_joined {m t : Bytes} (hm : ¬ LeadsUp m) (hj : Joined m t) (ht : ¬ TwoDots t) :
    ¬ LeadsUp (m ++ t) := by
  rintro ⟨u, h, hu⟩
  obtain _ | ⟨a, _ | ⟨b, _ | ⟨c, m⟩⟩⟩ := m
  · exact not_leadsUp_of_not_twoDots ht ⟨u, h, hu⟩
  · exact ht ⟨[], u, (List.cons.inj h).2.symm⟩
  · -- the path would end in a single dot and the text begin with one
    simp only [List.cons_append, List.nil_append, List.cons.injEq] at h
    obtain ⟨-, rfl, rfl⟩ := h
    simp [Joined] at hj
  · simp only [List.cons_append, List.cons.injEq] at h
    obtain ⟨rfl, rfl, rfl, rfl⟩ := h
    refine hm ⟨m, rfl, ?_⟩
    cases m with
    | nil => exact .inl rfl
    | cons d m => exact .inr (hu.resolve_left (by simp))

/-! ## What `operator /` comes to -/

/-- A path made by the constructor does not lead up from the root directory. -/
theorem not_leadsUp_appended (src : Bytes) : ¬ LeadsUp (appended [] src) := by
  unfold appended
  split
  · simp [LeadsUp]
  · split
    · exact not_leadsUp_dropRootParents _
    · exact not_leadsUp_dropRootParents _

/-- `q` is `t` behind the path `m`, which goes if it is the placeholder. -/
def Adds (m t q : Bytes) : Prop :=
  (q = m ++ t ∧ Joined m t ∨ m = lit "." ∧ q = t) ∧ ¬ TwoDots t

theorem appendElements_adds {m src : Bytes} (hm : ¬ LeadsUp m) (hsrc : ¬ TwoDots src) :
    ∃ t, Adds m t (dropRootParents (appendElements m src)) := by
  by_cases hdot : m = lit "."
  · subst hdot
    by_cases hs : src = []
    · subst hs
      rw [appendElements, dropRootParents_of_not hm]
      exact ⟨[], .inl ⟨rfl, .inr (.inl rfl)⟩, by decide⟩
    · obtain ⟨t, ht, -, hd⟩ := @appendElements_appended [] src (by decide)
      rw [appendElements_dot hs, ht, List.nil_append,
        dropRootParents_of_not (not_leadsUp_of_not_twoDots (hd hsrc))]
      exact ⟨t, .inr ⟨rfl, rfl⟩, hd hsrc⟩
  · obtain ⟨t, ht, hj, hd⟩ := @appendElements_appended m src hdot
    rw [ht, dropRootParents_of_not (not_leadsUp_joined hm hj (hd hsrc))]
    exact ⟨t, .inl ⟨rfl, hj⟩, hd hsrc⟩

/-- A text without two dots in a row is appended without any. -/
theorem appended_adds {m src : Bytes} (hm : ¬ LeadsUp m) (hsrc : ¬ TwoDots src) :
    ∃ t, Adds m t (appended m src) := by
  unfold appended
  split
  · exact ⟨[], .inl ⟨(List.append_nil m).symm, .inr (.inl rfl)⟩, hsrc⟩
  next b s =>
    have hs : ¬ TwoDots s := fun hd => hsrc (hd.trans (List.suffix_cons b s).isInfix)
    split
    · by_cases hempty : m = []
      · -- the root directory is written only here
        subst hempty
        rw [if_pos rfl]
        obtain ⟨t, ⟨ht, hj⟩ | ⟨h, -⟩, hd⟩ := @appendElements_adds [47] s (by simp [LeadsUp]) hs
        · rw [ht]
          refine ⟨[47] ++ t, .inl ⟨rfl, .inl rfl⟩, not_twoDots_joined hj (by decide) hd⟩
        · exact absurd h (by decide)
      · rw [if_neg hempty]
        exact appendElements_adds hm hs
    · exact appendElements_adds hm hsrc

theorem appended_not_twoDots {src : Bytes} (h : ¬ TwoDots src) : ¬ TwoDots (appended [] src) := by
  obtain ⟨t, ⟨ht, -⟩ | ⟨ht, -⟩, hd⟩ := @appended_adds [] src (by simp [LeadsUp]) h
  · rwa [ht]
  · exact absurd ht (by decide)

/-! ## The assertion -/

theorem pathAppend_eq_some {m src q : Bytes} :
    pathAppend m src = some q ↔ 0 ∉ src ∧ appended m src = q := by
  unfold pathAppend
  split_ifs with h
  · simpa using fun hn => absurd h (by simpa using hn)
  · rw [Option.some_inj]
    exact (and_iff_right (by simpa using h)).symm

theorem toPath_of_not_mem {src : Bytes} (h : 0 ∉ src) : toPath src = some (appended [] src) :=
  pathAppend_eq_some.mpr ⟨h, rfl⟩

theorem toPath_eq_none {src : Bytes} : toPath src = none ↔ 0 ∈ src := by
  unfold toPath pathAppend
  split_ifs with h
  · exact iff_of_true rfl (by simpa using h)
  · exact iff_of_false (by simp) (by simpa using h)

theorem zero_not_mem_appendElements {m src : Bytes} (hm : 0 ∉ m) (hs : 0 ∉ src) :
    0 ∉ appendElements m src := by
  fun_induction appendElements m src with
  | case1 m => exact hm
  | case2 m b s m' hdot ih =>
    have hm' : 0 ∉ m' := by
      by_cases h : m = lit "." <;> simp [m', h, hm]
    refine ih ?_ fun h => hs (List.mem_cons_of_mem _ (List.mem_of_mem_drop h))
    split_ifs with hempty
    · decide
    · exact hm'
  | case3 m b s m' hdot m'' ih =>
    have hm' : 0 ∉ m' := by
      by_cases h : m = lit "." <;> simp [m', h, hm]
    have hm'' : 0 ∉ m'' := by
      by_cases h : m' ≠ [] ∧ m'.getLast? ≠ some 47 <;> simp [m'', h, hm']
    refine ih ?_ fun h => hs (List.mem_cons_of_mem _ ?_)
    · rw [List.mem_append, List.mem_cons]
      rintro (h | rfl | h)
      · exact hm'' h
      · exact hs List.mem_cons_self
      · exact hs (List.mem_cons_of_mem _ ((List.takeWhile_prefix _).subset h))
    · exact (List.dropWhile_suffix _).subset (List.mem_of_mem_drop h)

theorem dropParents_suffix (s : Bytes) : dropParents s <:+ s := by
  induction s using dropParents.induct with
  | case1 => exact List.nil_suffix
  | case2 s ih =>
    rw [dropParents]
    exact ih.trans (List.suffix_append [46, 46, 47] s)
  | case3 s h₁ h₂ => rw [dropParents.eq_3 s h₁ h₂]

theorem zero_not_mem_dropRootParents {m : Bytes} (hm : 0 ∉ m) : 0 ∉ dropRootParents m := by
  unfold dropRootParents
  split
  next s =>
    rw [List.mem_cons, not_or] at hm ⊢
    exact ⟨hm.1, fun h => hm.2 ((dropParents_suffix s).subset h)⟩
  · exact hm

/-- A path has no embedded NUL, so it can be appended to another. -/
theorem zero_not_mem_appended {m src : Bytes} (hm : 0 ∉ m) (hs : 0 ∉ src) :
    0 ∉ appended m src := by
  unfold appended
  split
  · exact hm
  next b s =>
    have htail : 0 ∉ s := fun h => hs (List.mem_cons_of_mem b h)
    split_ifs with hb hempty
    · exact zero_not_mem_dropRootParents (zero_not_mem_appendElements (by simp) htail)
    · exact zero_not_mem_dropRootParents (zero_not_mem_appendElements hm htail)
    · exact zero_not_mem_dropRootParents (zero_not_mem_appendElements hm hs)

/-! ## Paths below a path -/

/-- `q` is the path `m` with more names, none of them `..`. -/
structure Below (m q : Bytes) : Prop where
  /-- The text of the path stands in front, but for the placeholder. -/
  text : m = lit "." ∨ m <+: q
  names : ∃ es, elements q = elements m ++ es ∧ lit ".." ∉ es
  /-- The lexical normal form of the path stands in front of that of the other. -/
  normal : normalElements m <+: normalElements q

theorem foldl_enter {rooted : Bool} {names es : List Bytes} (h : lit ".." ∉ es) :
    es.foldl (enter rooted) names = names ++ es := by
  induction es generalizing names with
  | nil => exact (List.append_nil names).symm
  | cons e es ih =>
    have he : e ≠ lit ".." := fun he => h (he ▸ List.mem_cons_self)
    rw [List.foldl_cons, ih fun hmem => h (List.mem_cons_of_mem _ hmem), enter, if_pos he,
      List.append_assoc]
    rfl

theorem Adds.below {m t q : Bytes} (h : Adds m t q) : Below m q := by
  obtain ⟨h, hd⟩ := h
  have hes : lit ".." ∉ elements t := fun hmem => hd (infix_of_mem_elements hmem)
  have hnames : elements q = elements m ++ elements t := by
    obtain ⟨rfl, hj⟩ | ⟨rfl, rfl⟩ := h
    · exact elements_joined hj
    · rfl
  refine ⟨?_, ⟨_, hnames, hes⟩, ?_⟩
  · obtain ⟨rfl, -⟩ | ⟨hm, -⟩ := h
    · exact .inr (List.prefix_append m t)
    · exact .inl hm
  · obtain hempty | hm : elements m = [] ∨ q.head? = m.head? := by
      obtain ⟨rfl, -⟩ | ⟨rfl, -⟩ := h
      · cases m with
        | nil => exact .inl rfl
        | cons b m => exact .inr rfl
      · exact .inl rfl
    · unfold normalElements
      rw [hempty]
      exact List.nil_prefix
    · unfold normalElements
      rw [hnames, hm, List.foldl_append, foldl_enter hes]
      exact List.prefix_append _ _

/-- What is appended to a path without two dots in a row stays below the path. -/
theorem slash_below {dir root src p : Bytes} (hroot : toPath dir = some root)
    (hp : toPath src = some p) (h : ¬ TwoDots src) :
    ∃ q, slash root p = some q ∧ Below root q := by
  obtain ⟨-, rfl⟩ := pathAppend_eq_some.mp hroot
  obtain ⟨hzero, rfl⟩ := pathAppend_eq_some.mp hp
  obtain ⟨t, ht⟩ := appended_adds (not_leadsUp_appended dir) (appended_not_twoDots h)
  exact ⟨_, pathAppend_eq_some.mpr ⟨zero_not_mem_appended List.not_mem_nil hzero, rfl⟩, ht.below⟩

end Boost.Path
