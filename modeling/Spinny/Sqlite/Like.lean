import Spinny.Sqlite.Values

/-!
# The operator `LIKE`

What `patternCompare` decides about the patterns that the program writes: a text with `%` around it
and a text with `%` behind it.

* `patternCompare_begins`: a plain text with `%` behind it is a prefix of what it matches.
* `patternCompare_char`: the same for every single character.
* `likeAround_iff`: a searchable text with `%` around it is a part of what it matches.
* `exists_unlike`: for any other text a title tells the pattern and the text apart.
-/

namespace Sqlite

open Bytes

variable {b c : UInt8} {p s t query : Bytes} {passing any : Bool}

/-- Neither of the characters with a meaning in a pattern. -/
def IsPlain (t : Bytes) : Prop := 37 ∉ t ∧ 95 ∉ t

instance (t : Bytes) : Decidable (IsPlain t) := inferInstanceAs (Decidable (_ ∧ _))

theorem isPlain_cons : IsPlain (c :: t) ↔ c ≠ 37 ∧ c ≠ 95 ∧ IsPlain t := by
  simp only [IsPlain, List.mem_cons, not_or, ne_comm (a := c)]
  tauto

/-- A text that `LIKE` searches as it stands: no character with a meaning in a pattern, and it does
not begin inside a UTF-8 character. -/
def Searchable (t : Bytes) : Prop :=
  IsPlain t ∧ (t.length ≤ 1 ∨ ∀ b ∈ t.head?, isContinuation b = false)

instance (t : Bytes) : Decidable (Searchable t) := inferInstanceAs (Decidable (_ ∧ _))

/-! ## Letters -/

theorem lowerAscii_of_continuation (h : isContinuation b = true) : lowerAscii b = b := by
  simp only [isContinuation, Bool.and_eq_true, decide_eq_true_eq, UInt8.le_iff_toNat_le,
    UInt8.reduceToNat] at h
  refine if_neg ?_
  simp only [UInt8.le_iff_toNat_le, UInt8.reduceToNat]
  omega

/-- A lower case letter stands for a capital one or for itself. -/
theorem lowerAscii_cases (b : UInt8) :
    lowerAscii b = b ∨ (65 ≤ b.toNat ∧ b.toNat ≤ 90 ∧ (lowerAscii b).toNat = b.toNat + 32) := by
  unfold lowerAscii
  split
  · rename_i h
    simp only [UInt8.le_iff_toNat_le, UInt8.reduceToNat] at h
    refine .inr ⟨h.1, h.2, ?_⟩
    rw [UInt8.toNat_add]
    simp only [UInt8.reduceToNat]
    omega
  · exact .inl rfl

theorem isContinuation_lowerAscii (b : UInt8) : isContinuation (lowerAscii b) = isContinuation b := by
  rcases lowerAscii_cases b with h | ⟨h₁, h₂, h⟩
  · rw [h]
  · rw [Bool.eq_iff_iff]
    simp only [isContinuation, Bool.and_eq_true, decide_eq_true_eq, UInt8.le_iff_toNat_le,
      UInt8.lt_iff_toNat_lt, UInt8.reduceToNat]
    omega

theorem isContinuation_eq (h : lowerAscii b = lowerAscii c) :
    isContinuation b = isContinuation c := by
  rw [← isContinuation_lowerAscii b, h, isContinuation_lowerAscii c]

/-- What is no letter is the lower case of nothing else. -/
theorem lowerAscii_eq_iff (hb : b.toNat < 65) : lowerAscii c = b ↔ c = b := by
  have hself : lowerAscii b = b := by
    refine if_neg ?_
    simp only [UInt8.le_iff_toNat_le, UInt8.reduceToNat]
    omega
  constructor
  · intro h
    rcases lowerAscii_cases c with h' | ⟨h₁, h₂, h'⟩
    · rw [← h', h]
    · rw [h] at h'
      omega
  · rintro rfl
    exact hself

/-- A capital letter stands for a lower case one or for itself. -/
theorem upperAscii_cases (b : UInt8) :
    (upperAscii b = b ∧ ¬(97 ≤ b.toNat ∧ b.toNat ≤ 122)) ∨
      (97 ≤ b.toNat ∧ b.toNat ≤ 122 ∧ (upperAscii b).toNat = b.toNat - 32) := by
  unfold upperAscii
  split
  · rename_i h
    simp only [UInt8.le_iff_toNat_le, UInt8.reduceToNat] at h
    have h32 : (32 : UInt8) ≤ b := by
      rw [UInt8.le_iff_toNat_le]
      simp only [UInt8.reduceToNat]
      omega
    exact .inr ⟨h.1, h.2, UInt8.toNat_sub_of_le _ _ h32⟩
  · rename_i h
    simp only [UInt8.le_iff_toNat_le, UInt8.reduceToNat] at h
    exact .inl ⟨rfl, h⟩

theorem isContinuation_upperAscii (b : UInt8) : isContinuation (upperAscii b) = isContinuation b := by
  rcases upperAscii_cases b with ⟨h, -⟩ | ⟨h₁, h₂, h⟩
  · rw [h]
  · rw [Bool.eq_iff_iff]
    simp only [isContinuation, Bool.and_eq_true, decide_eq_true_eq, UInt8.le_iff_toNat_le,
      UInt8.lt_iff_toNat_lt, UInt8.reduceToNat]
    omega

/-- What is no letter is the capital of nothing else. -/
theorem upperAscii_eq_iff (hb : b.toNat < 65 ∨ b.toNat = 95) : upperAscii c = b ↔ c = b := by
  constructor
  · intro h
    rcases upperAscii_cases c with ⟨h', -⟩ | ⟨h₁, h₂, h'⟩
    · rw [← h', h]
    · rw [h] at h'
      omega
  · rintro rfl
    rcases upperAscii_cases c with ⟨h', -⟩ | ⟨h₁, h₂, -⟩
    · exact h'
    · omega

theorem upperAscii_lowerAscii (b : UInt8) : upperAscii (lowerAscii b) = upperAscii b := by
  rcases lowerAscii_cases b with h | ⟨h₁, h₂, h⟩
  · rw [h]
  · refine UInt8.toNat_inj.mp ?_
    rcases upperAscii_cases b with ⟨h', -⟩ | ⟨_, _, h'⟩ <;>
      rcases upperAscii_cases (lowerAscii b) with ⟨h'', hno⟩ | ⟨_, _, h''⟩
    · omega
    · rw [h', h'', h]
      omega
    · omega
    · omega

theorem lowerAscii_upperAscii (b : UInt8) : lowerAscii (upperAscii b) = lowerAscii b := by
  rcases upperAscii_cases b with ⟨h, -⟩ | ⟨h₁, h₂, h⟩
  · rw [h]
  · have hself : lowerAscii b = b := by
      refine if_neg ?_
      simp only [UInt8.le_iff_toNat_le, UInt8.reduceToNat]
      omega
    have hback : lowerAscii (upperAscii b) = upperAscii b + 32 := by
      refine if_pos ?_
      simp only [UInt8.le_iff_toNat_le, UInt8.reduceToNat]
      omega
    refine UInt8.toNat_inj.mp ?_
    rw [hself, hback, UInt8.toNat_add, h]
    simp only [UInt8.reduceToNat]
    omega

/-- Two letters with one lower case have one capital. -/
theorem lowerAscii_inj_upper :
    lowerAscii (upperAscii b) = lowerAscii (upperAscii c) ↔ upperAscii b = upperAscii c := by
  constructor
  · intro h
    rw [lowerAscii_upperAscii, lowerAscii_upperAscii] at h
    rw [← upperAscii_lowerAscii b, h, upperAscii_lowerAscii]
  · exact congrArg lowerAscii

/-! ## The first character -/

theorem firstChar_of_not_continuation (h : isContinuation b = false) :
    firstChar (b :: t) = b :: t.takeWhile isContinuation := by
  rw [firstChar, List.dropWhile_cons_of_neg (by simp [h])]

/-- The first character begins with a byte of the text that does not lie inside a character. -/
theorem firstChar_eq_cons (h : firstChar t = b :: s) : isContinuation b = false ∧ b ∈ t := by
  unfold firstChar at h
  cases hd : t.dropWhile isContinuation with
  | nil =>
    rw [hd] at h
    cases h
  | cons a u =>
    rw [hd] at h
    obtain ⟨rfl, -⟩ := List.cons.inj h
    refine ⟨?_, (List.dropWhile_suffix _).subset (hd ▸ List.mem_cons_self)⟩
    have hne : t.dropWhile isContinuation ≠ [] := by simp [hd]
    have hhead := List.head_dropWhile_not isContinuation hne
    simpa only [hd, List.head_cons] using hhead

theorem charLength_pos : 0 < charLength t ↔ firstChar t ≠ [] := by
  have hnil : firstChar t = [] ↔ t.dropWhile isContinuation = [] := by
    unfold firstChar
    cases t.dropWhile isContinuation <;> simp
  rw [Ne, hnil, List.dropWhile_eq_nil_iff, charLength, List.length_pos_iff, Ne,
    List.filter_eq_nil_iff]
  simp

/-! ## The places where a pattern goes on -/

theorem suffix_of_mem_candidates (h : s ∈ candidates c passing t) :
    ∃ b, b :: s <:+ t ∧ lowerAscii b = lowerAscii c := by
  induction t generalizing passing with
  | nil => cases h
  | cons a t ih =>
    rw [candidates] at h
    have hlater : ∀ {passing}, s ∈ candidates c passing t →
        ∃ b, b :: s <:+ a :: t ∧ lowerAscii b = lowerAscii c := by
      intro passing h
      obtain ⟨b, hb, hbc⟩ := ih h
      exact ⟨b, hb.trans (List.suffix_cons a t), hbc⟩
    split at h
    · exact hlater h
    · split at h
      · rename_i hac
        rcases List.mem_cons.mp h with rfl | h
        · exact ⟨a, List.suffix_rfl, hac⟩
        · exact hlater h
      · exact hlater h

theorem length_lt_of_mem_candidates (h : s ∈ candidates c passing t) : s.length < t.length := by
  obtain ⟨b, hb, -⟩ := suffix_of_mem_candidates h
  exact hb.length_le

/-- What is passed over after a failed try holds no place for a character that does not lie inside
a UTF-8 character. -/
theorem mem_candidates_of_suffix (hc : isContinuation c = false) (h : b :: s <:+ t)
    (hbc : lowerAscii b = lowerAscii c) : s ∈ candidates c passing t := by
  induction t generalizing passing with
  | nil => simp at h
  | cons a t ih =>
    rw [candidates]
    rcases List.suffix_cons_iff.mp h with heq | h
    · obtain ⟨rfl, rfl⟩ := List.cons.inj heq
      rw [isContinuation_eq hbc, hc, Bool.and_false, if_neg Bool.false_ne_true, if_pos hbc]
      exact List.mem_cons_self
    · split
      · exact ih h
      · split
        · exact List.mem_cons_of_mem _ (ih h)
        · exact ih h

/-- The first place is found for every character. -/
theorem candidates_eq_nil : candidates c false t = [] ↔ ∀ b ∈ t, lowerAscii b ≠ lowerAscii c := by
  induction t with
  | nil => simp [candidates]
  | cons a t ih =>
    rw [candidates, Bool.false_and, if_neg Bool.false_ne_true, List.forall_mem_cons]
    split
    · rename_i h
      simp [h]
    · rename_i h
      rw [ih, and_iff_right h]

/-! ## Plain patterns -/

theorem patternCompare_literal (h₁ : c ≠ 37) (h₂ : c ≠ 95) :
    patternCompare false (c :: p) (b :: t) =
      (decide (lowerAscii b = lowerAscii c) && patternCompare false p t) := by
  simp only [patternCompare, if_neg h₁, if_neg h₂, if_neg Bool.false_ne_true]

theorem patternCompare_any_literal (h₁ : c ≠ 37) (h₂ : c ≠ 95) :
    patternCompare true (c :: p) t =
      (candidates c false t).any fun t => patternCompare false p t := by
  rw [patternCompare.eq_def]
  simp only [if_neg h₁, if_neg h₂, if_pos]

/-- A plain text with `%` behind it matches what begins with it. -/
theorem patternCompare_begins (hp : IsPlain p) :
    patternCompare false (p ++ [37]) t = true ↔ lower p <+: lower t := by
  induction p generalizing t with
  | nil => simp [patternCompare, lower]
  | cons c p ih =>
    obtain ⟨h₁, h₂, hp⟩ := isPlain_cons.mp hp
    cases t with
    | nil => simp [patternCompare, h₁, h₂, lower]
    | cons b t =>
      rw [List.cons_append, patternCompare_literal h₁ h₂, Bool.and_eq_true, ih hp,
        decide_eq_true_eq]
      change _ ↔ lowerAscii c :: lower p <+: lowerAscii b :: lower t
      rw [List.cons_prefix_cons, eq_comm]

/-- One character with `%` behind it matches what begins with it, up to the case of letters; `%`
matches everything and `_` everything but the empty text. -/
theorem patternCompare_char :
    patternCompare false [c, 37] t = true ↔
      c = 37 ∨ (c = 95 ∧ t ≠ []) ∨
        (c ≠ 37 ∧ c ≠ 95 ∧ ∃ b s, t = b :: s ∧ lowerAscii b = lowerAscii c) := by
  by_cases h₁ : c = 37
  · simp [h₁, patternCompare]
  · by_cases h₂ : c = 95
    · simp [h₂, patternCompare]
    · have hplain : IsPlain [c] := isPlain_cons.mpr ⟨h₁, h₂, by decide⟩
      rw [show [c, 37] = [c] ++ [37] from rfl, patternCompare_begins hplain]
      cases t with
      | nil => simp [h₁, h₂, lower]
      | cons b s => simp [h₁, h₂, lower, eq_comm]

theorem lower_suffix (h : s <:+ t) : lower s <:+ lower t := h.map lowerAscii

/-- The parts of a text that begin with a character, up to the case of letters. -/
theorem infix_lower_cons :
    lower (c :: p) <:+: lower t ↔
      ∃ b s, b :: s <:+ t ∧ lowerAscii b = lowerAscii c ∧ lower p <+: lower s := by
  constructor
  · intro h
    induction t with
    | nil => simp [lower] at h
    | cons a t ih =>
      rcases List.infix_cons_iff.mp h with h | h
      · obtain ⟨hc, hp⟩ := List.cons_prefix_cons.mp h
        exact ⟨a, t, List.suffix_rfl, hc.symm, hp⟩
      · obtain ⟨b, s, hs, hbc, hp⟩ := ih h
        exact ⟨b, s, hs.trans (List.suffix_cons a t), hbc, hp⟩
  · rintro ⟨b, s, hs, hbc, hp⟩
    refine List.IsInfix.trans (List.IsPrefix.isInfix ?_) (lower_suffix hs).isInfix
    exact List.cons_prefix_cons.mpr ⟨hbc.symm, hp⟩

/-- A searchable text with `%` around it matches what it is a part of. -/
theorem likeAround_iff (h : Searchable query) :
    likeAround query t = true ↔ lower query <:+: lower t := by
  cases query with
  | nil => simp [likeAround, patternCompare, lower]
  | cons c p =>
    obtain ⟨hplain, hhead⟩ := h
    obtain ⟨h₁, h₂, hp⟩ := isPlain_cons.mp hplain
    change patternCompare true (c :: (p ++ [37])) t = true ↔ _
    rw [patternCompare_any_literal h₁ h₂, infix_lower_cons, List.any_eq_true]
    constructor
    · rintro ⟨s, hs, hmatch⟩
      obtain ⟨b, hb, hbc⟩ := suffix_of_mem_candidates hs
      exact ⟨b, s, hb, hbc, (patternCompare_begins hp).mp hmatch⟩
    · rintro ⟨b, s, hb, hbc, hbegins⟩
      rcases hhead with hshort | hc
      · -- One character: the first place is enough.
        obtain rfl : p = [] := List.length_eq_zero_iff.mp (by simpa using hshort)
        have hne : candidates c false t ≠ [] := fun hnil =>
          candidates_eq_nil.mp hnil b (hb.subset List.mem_cons_self) hbc
        obtain ⟨s', hs'⟩ := List.exists_mem_of_ne_nil _ hne
        exact ⟨s', hs', (patternCompare_begins hp).mpr (List.nil_prefix)⟩
      · exact ⟨s, mem_candidates_of_suffix (hc c rfl) hb hbc,
          (patternCompare_begins hp).mpr hbegins⟩

/-! ## Titles that tell a pattern and its text apart -/

/-- A change of bytes that a pattern does not see: it keeps all but `%` and `_`, which a pattern
never compares. -/
structure Unseen (σ : UInt8 → UInt8) : Prop where
  compared : ∀ c, c ≠ 37 → c ≠ 95 → ∀ b, lowerAscii (σ b) = lowerAscii c ↔
    lowerAscii b = lowerAscii c
  continues : ∀ b, isContinuation (σ b) = isContinuation b

section

variable {σ : UInt8 → UInt8}

theorem Unseen.dropWhile (h : Unseen σ) (t : Bytes) :
    (t.map σ).dropWhile isContinuation = (t.dropWhile isContinuation).map σ := by
  rw [List.dropWhile_map]
  congr 2
  exact funext h.continues

theorem Unseen.nextChar (h : Unseen σ) (t : Bytes) :
    nextChar (t.map σ) = (nextChar t).map σ := by
  rw [Sqlite.nextChar, ← List.map_tail, h.dropWhile]
  rfl

theorem Unseen.candidates (h : Unseen σ) (h₁ : c ≠ 37) (h₂ : c ≠ 95) (passing : Bool) (t : Bytes) :
    candidates c passing (t.map σ) = (candidates c passing t).map (List.map σ) := by
  induction t generalizing passing with
  | nil => rfl
  | cons a t ih =>
    rw [List.map_cons, Sqlite.candidates, Sqlite.candidates, h.continues]
    by_cases hpass : (passing && isContinuation a) = true
    · rw [if_pos hpass, if_pos hpass, ih]
    · rw [if_neg hpass, if_neg hpass]
      by_cases hac : lowerAscii a = lowerAscii c
      · rw [if_pos ((h.compared c h₁ h₂ a).mpr hac), if_pos hac, ih, List.map_cons]
      · rw [if_neg (mt (h.compared c h₁ h₂ a).mp hac), if_neg hac, ih]

/-- A pattern does not see the change. -/
theorem Unseen.patternCompare (h : Unseen σ) (any : Bool) (p t : Bytes) :
    patternCompare any p (t.map σ) = patternCompare any p t := by
  induction p generalizing any t with
  | nil => simp [Sqlite.patternCompare]
  | cons c p ih =>
    by_cases h₁ : c = 37
    · simp only [Sqlite.patternCompare, if_pos h₁, ih]
    · by_cases h₂ : c = 95
      · simp only [Sqlite.patternCompare, if_neg h₁, if_pos h₂, h.nextChar, ih, List.isEmpty_map]
      · cases any with
        | true =>
          rw [patternCompare_any_literal h₁ h₂, patternCompare_any_literal h₁ h₂,
            h.candidates h₁ h₂, List.any_map]
          congr 1
          exact funext fun s => ih _ _
        | false =>
          cases t with
          | nil => rfl
          | cons b t =>
            rw [List.map_cons, patternCompare_literal h₁ h₂, patternCompare_literal h₁ h₂, ih,
              decide_eq_decide.mpr (h.compared c h₁ h₂ b)]

end

/-- Every `a` is made a `b`. -/
def replaceByte (a b : UInt8) (x : UInt8) : UInt8 := if x = a then b else x

theorem unseen_replaceByte {a b : UInt8} (ha : a = 37 ∨ a = 95) (hb : b = 37 ∨ b = 95) :
    Unseen (replaceByte a b) where
  compared c h₁ h₂ x := by
    have hmeta : ∀ y : UInt8, y = 37 ∨ y = 95 → lowerAscii y ≠ lowerAscii c := by
      rintro y (rfl | rfl) heq
      · exact h₁ ((lowerAscii_eq_iff (by decide)).mp heq.symm)
      · rcases lowerAscii_cases c with h | ⟨hlo, hhi, h⟩
        · rw [h] at heq
          exact h₂ heq.symm
        · rw [← heq] at h
          have h95 : (lowerAscii 95).toNat = 95 := by decide
          omega
    unfold replaceByte
    split
    · rename_i hx
      exact iff_of_false (hmeta b hb) (hmeta x (hx ▸ ha))
    · rfl
  continues x := by
    unfold replaceByte
    split
    · rename_i hx
      subst hx
      rcases ha with rfl | rfl <;> rcases hb with rfl | rfl <;> rfl
    · rfl

/-- With a `%` or `_` in the text, either the title that is the text, or the one that has another
character there, tells them apart. -/
theorem exists_unlike_of_meta (h : ¬IsPlain query) :
    ∃ t, (0 ∉ query → 0 ∉ t) ∧
      ¬(likeAround query (97 :: t) = true ↔ lower query <:+: lower (97 :: t)) := by
  obtain ⟨a, b, ha, hb, hab, hmem⟩ : ∃ a b : UInt8, (a = 37 ∨ a = 95) ∧ (b = 37 ∨ b = 95) ∧
      a ≠ b ∧ a ∈ query := by
    by_cases h37 : 37 ∈ query
    · exact ⟨37, 95, .inl rfl, .inr rfl, by decide, h37⟩
    · refine ⟨95, 37, .inr rfl, .inl rfl, by decide, ?_⟩
      by_contra h95
      exact h ⟨h37, h95⟩
  have hzero : a ≠ 0 ∧ b ≠ 0 ∧ a ≠ 97 := by
    rcases ha with rfl | rfl <;> rcases hb with rfl | rfl <;> decide
  have hlower : ∀ x : UInt8, lowerAscii x = lowerAscii a → x = a := by
    intro x hx
    by_contra hne
    rcases ha with rfl | rfl
    · exact hne ((lowerAscii_eq_iff (by decide)).mp hx)
    · rcases lowerAscii_cases x with h | ⟨hlo, hhi, h⟩
      · rw [h] at hx
        exact hne hx
      · rw [hx] at h
        have h95 : (lowerAscii 95).toNat = 95 := by decide
        omega
  by_cases hmatch : likeAround query (97 :: query) = true
  · have hmap : (97 :: query).map (replaceByte a b) = 97 :: query.map (replaceByte a b) := by
      rw [List.map_cons, replaceByte, if_neg (Ne.symm hzero.2.2)]
    refine ⟨query.map (replaceByte a b), fun hq => ?_, fun hiff => ?_⟩
    · intro hmem0
      obtain ⟨x, hx, hx0⟩ := List.mem_map.mp hmem0
      unfold replaceByte at hx0
      split at hx0
      · exact hzero.2.1 hx0
      · exact hq (hx0 ▸ hx)
    · have hmatch' : likeAround query (97 :: query.map (replaceByte a b)) = true := by
        rw [← hmap, likeAround, (unseen_replaceByte ha hb).patternCompare]
        exact hmatch
      have hin : lowerAscii a ∈ lower (97 :: query.map (replaceByte a b)) :=
        (hiff.mp hmatch').subset (List.mem_map_of_mem hmem)
      obtain ⟨x, hx, hxa⟩ := List.mem_map.mp hin
      obtain rfl := hlower x hxa
      rcases List.mem_cons.mp hx with rfl | hx
      · exact hzero.2.2 rfl
      · obtain ⟨y, -, hy⟩ := List.mem_map.mp hx
        unfold replaceByte at hy
        split at hy
        · exact hab hy.symm
        · rename_i hne
          exact hne hy
  · refine ⟨query, id, fun hiff => hmatch (hiff.mpr ?_)⟩
    exact (lower_suffix (List.suffix_cons 97 query)).isInfix

/-- A text of more than one byte that begins inside a UTF-8 character is passed over after a place
where it does not match. -/
theorem exists_unlike_of_continuation {d : UInt8} {rest : Bytes} (hp : IsPlain (c :: d :: rest))
    (hc : isContinuation c = true) :
    ∃ e, e ≠ 0 ∧ ¬(likeAround (c :: d :: rest) (97 :: c :: e :: c :: d :: rest) = true ↔
      lower (c :: d :: rest) <:+: lower (97 :: c :: e :: c :: d :: rest)) := by
  obtain ⟨h₁, h₂, hp⟩ := isPlain_cons.mp hp
  obtain ⟨e, hzero, he, hed⟩ : ∃ e : UInt8, e ≠ 0 ∧ isContinuation e = true ∧ e ≠ d := by
    by_cases hd : d = 128
    · exact ⟨129, by decide, by decide, by simp [hd]⟩
    · exact ⟨128, by decide, by decide, Ne.symm hd⟩
  refine ⟨e, hzero, fun hiff => ?_⟩
  have hmatch := hiff.mpr ?_
  · have hno : lowerAscii 97 ≠ lowerAscii c := by
      intro h
      have := isContinuation_eq h
      rw [hc] at this
      exact absurd this (by decide)
    change patternCompare true (c :: ((d :: rest) ++ [37])) _ = true at hmatch
    rw [patternCompare_any_literal h₁ h₂] at hmatch
    simp only [candidates, Bool.false_and, Bool.true_and, Bool.false_eq_true, if_false, hno, hc, he,
      if_true, List.any_cons, Bool.or_eq_true, List.any_eq_true] at hmatch
    rcases hmatch with hmatch | ⟨s, hs, hmatch⟩
    · have hde := (List.cons_prefix_cons.mp ((patternCompare_begins hp).mp hmatch)).1
      have hd : lowerAscii d = d := lowerAscii_of_continuation ((isContinuation_eq hde).trans he)
      rw [hd, lowerAscii_of_continuation he] at hde
      exact hed hde.symm
    · have hle := ((patternCompare_begins hp).mp hmatch).length_le
      have hmem : s ∈ candidates c true (d :: rest) := by
        rw [candidates]
        exact hs
      have hlt := length_lt_of_mem_candidates hmem
      simp only [lower, List.length_map] at hle
      omega
  · have hsuffix : c :: d :: rest <:+ 97 :: c :: e :: c :: d :: rest :=
      ⟨[97, c, e], rfl⟩
    exact (lower_suffix hsuffix).isInfix

/-- For a text that is not searchable a title tells the pattern and the text apart. -/
theorem exists_unlike (h : ¬Searchable query) :
    ∃ t, (0 ∉ query → 0 ∉ t) ∧
      ¬(likeAround query (97 :: t) = true ↔ lower query <:+: lower (97 :: t)) := by
  by_cases hp : IsPlain query
  · match query, hp, h with
    | [], hp, h => exact absurd ⟨hp, .inl (by simp)⟩ h
    | [c], hp, h => exact absurd ⟨hp, .inl (by simp)⟩ h
    | c :: d :: rest, hp, h =>
      have hc : isContinuation c = true := by
        by_contra hc
        refine h ⟨hp, .inr fun b hb => ?_⟩
        obtain rfl := Option.some.inj hb
        exact Bool.eq_false_iff.mpr hc
      obtain ⟨e, he, hunlike⟩ := exists_unlike_of_continuation hp hc
      refine ⟨c :: e :: c :: d :: rest, fun hq => ?_, hunlike⟩
      simp only [List.mem_cons, not_or] at hq ⊢
      exact ⟨hq.1, he.symm, hq⟩
  · exact exists_unlike_of_meta hp

end Sqlite
