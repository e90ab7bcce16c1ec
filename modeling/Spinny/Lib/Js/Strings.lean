import Spinny.Lib.Js.Scan

/-!
# Strings of JavaScript

A string between quotes `q`, before whose bytes `x` a backslash was put and before no others.

* `survives`: the strings that are read back.
* `Within`: a string is read to no more bytes than its text has; `not_scan_taken`: so a backslash
  that was taken for an escape cannot be made up for.
* `scan_of_survives`, `survives_of_scan`: what survives is read back, and nothing else is.
-/

namespace Js

open Bytes

/-- A text with a backslash before every byte `e`. -/
def escaped (e : Option UInt8) (s : Bytes) : Bytes :=
  s.flatMap fun b => if some b = e then [92, b] else [b]

/-- The string is read back from its escaped text between quotes `q`: where a quote that does not
close the string is escaped, a backslash before it takes the escaping for its own. -/
def survives (q : UInt8) (e : Option UInt8) : Bytes → Bool
  | [] => true
  | b :: t =>
    if b = 92 then
      match t with
      | c :: t => decide (some c = e ∧ c ≠ q) && survives q e t
      | [] => false
    else (b != 10 && b != 13 && (b != q || decide (e = some q))) && survives q e t

/-- Where the quotes are escaped, what survives has no backslash and no line end. -/
theorem survives_quoted {q : UInt8} {s : Bytes} :
    survives q (some q) s = true ↔ ∀ b ∈ s, b ≠ 92 ∧ b ≠ 10 ∧ b ≠ 13 := by
  fun_induction survives q (some q) s with
  | case1 => simp
  | case2 c t ih => simp
  | case3 => simp
  | case4 b t hb ih => grind

/-- Where nothing is escaped, what survives has no quote either. -/
theorem survives_plain {q : UInt8} {s : Bytes} :
    survives q none s = true ↔ ∀ b ∈ s, b ≠ q ∧ b ≠ 92 ∧ b ≠ 10 ∧ b ≠ 13 := by
  fun_induction survives q none s with
  | case1 => simp
  | case2 c t ih => simp
  | case3 => simp
  | case4 b t hb ih => grind

/-- `q` is a quote, and what is escaped is one. -/
structure IsQuote (q : UInt8) (e : Option UInt8) : Prop where
  quote : q = 39 ∨ q = 34
  escape : ∀ b, some b = e → b = 39 ∨ b = 34

/-- At most as many bytes belong to the string so far. -/
def size (read : Bytes) : Escape → Nat
  | .none | .cr => read.length
  | .start => read.length + 1
  | .hex _ value | .octal _ value => read.length + (utf8 value).length
  | .brace value => read.length + (utf8 (value.getD 0)).length

/-- The string has been closed with fewer than `n` bytes, or goes on with `n` at most. -/
inductive Within (q : UInt8) (read : Bytes) (n : Nat) : List Token × Mode → Prop where
  | closed {v : Bytes} {ts : List Token} {m : Mode} : v.length < n → read <+: v →
    Within q read n (.string v :: ts, m)
  | more {read' : Bytes} {e : Escape} : size read' e ≤ n → read <+: read' →
    Within q read n ([], .quoted q read' e)

@[simp] theorem escaped_nil (e : Option UInt8) : escaped e [] = [] := rfl

theorem escaped_cons_of_eq {e : Option UInt8} {b : UInt8} (h : some b = e) (s : Bytes) :
    escaped e (b :: s) = 92 :: b :: escaped e s := by
  simp [escaped, h]

theorem escaped_cons_of_ne {e : Option UInt8} {b : UInt8} (h : some b ≠ e) (s : Bytes) :
    escaped e (b :: s) = b :: escaped e s := by
  simp [escaped, h]

theorem escaped_append (e : Option UInt8) (s t : Bytes) :
    escaped e (s ++ t) = escaped e s ++ escaped e t := List.flatMap_append

theorem utf8_length_pos (n : Nat) : 0 < (utf8 n).length := by
  unfold utf8
  repeat' split
  all_goals simp

/-- One digit more is one byte more at most. -/
theorem utf8_length_digit {n v : Nat} (h : n ≤ 16 * v + 15) :
    (utf8 n).length ≤ (utf8 v).length + 1 := by
  unfold utf8
  repeat' split
  all_goals simp only [List.length_cons, List.length_nil]
  all_goals omega

theorem hexValue_lt {b : UInt8} {d : Nat} (h : hexValue b = some d) : d ≤ 15 := by
  have hb := b.toNat_lt
  simp only [hexValue, isDigit, digitVal, Bool.and_eq_true, decide_eq_true_eq,
    UInt8.le_iff_toNat_le, UInt8.reduceToNat] at h
  split_ifs at h <;> simp only [Option.some.injEq] at h <;> omega

theorem Within.mono {q : UInt8} {read read' : Bytes} {n n' : Nat} {r : List Token × Mode}
    (h : Within q read' n r) (hle : n ≤ n') (hp : read <+: read') : Within q read n' r := by
  cases h with
  | closed hv hpre => exact .closed (by omega) (hp.trans hpre)
  | more hs hpre => exact .more (by omega) (hp.trans hpre)

theorem plainStep_within {q : UInt8} {read : Bytes} {b : UInt8} {r : List Token × Mode}
    (h : plainStep q read b = some r) : Within q read (read.length + 1) r := by
  unfold plainStep at h
  split_ifs at h
  · obtain rfl := Option.some.inj h
    exact .closed (Nat.lt_succ_self _) List.prefix_rfl
  · obtain rfl := Option.some.inj h
    exact .more (Nat.le_refl _) List.prefix_rfl
  · obtain rfl := Option.some.inj h
    exact .more (by simp [size]) (List.prefix_append _ _)

/-- What stands behind a backslash and the byte after it is no more than one byte. -/
theorem startStep_within (q : UInt8) (read : Bytes) (b : UInt8) :
    Within q read (read.length + 1) (startStep q read b) := by
  have hdigit : (48 ≤ b ∧ b ≤ 51) ∨ (52 ≤ b ∧ b ≤ 55) → (utf8 (digitVal b)).length = 1 := by
    intro hb
    have hlt : digitVal b < 0x80 := by
      simp only [UInt8.le_iff_toNat_le, UInt8.reduceToNat] at hb
      unfold digitVal
      omega
    simp [utf8, hlt]
  unfold startStep
  split_ifs with h1 h2 h3 h4 h5 h6
  · exact .more (Nat.le_succ _) List.prefix_rfl
  · exact .more (Nat.le_succ _) List.prefix_rfl
  · exact .more (Nat.le_refl _) List.prefix_rfl
  · exact .more (Nat.le_refl _) List.prefix_rfl
  · exact .more (by rw [size, hdigit (.inl h5)]) List.prefix_rfl
  · exact .more (by rw [size, hdigit (.inr h6)]) List.prefix_rfl
  · exact .more (by simp [size]) (List.prefix_append _ _)

/-- A byte makes a string longer by one byte at most. -/
theorem quotedStep_within {q : UInt8} {read : Bytes} {e : Escape} {b : UInt8}
    {r : List Token × Mode} (h : quotedStep q read e b = some r) :
    Within q read (size read e + 1) r := by
  cases e with
  | none => exact plainStep_within h
  | start =>
    obtain rfl := Option.some.inj h
    exact (startStep_within q read b).mono (by simp [size]) List.prefix_rfl
  | hex left value =>
    simp only [quotedStep] at h
    split at h
    · rename_i d hd
      have hlen := utf8_length_digit (n := 16 * value + d) (v := value) (by
        have := hexValue_lt hd
        omega)
      split_ifs at h
      · obtain rfl := Option.some.inj h
        refine .more ?_ (List.prefix_append _ _)
        simp only [size, List.length_append]
        omega
      · obtain rfl := Option.some.inj h
        refine .more ?_ List.prefix_rfl
        simp only [size]
        omega
    · split_ifs at h
      obtain rfl := Option.some.inj h
      refine .more ?_ List.prefix_rfl
      have := utf8_length_pos value
      simp only [size, Option.getD_none, show (utf8 0).length = 1 from rfl]
      omega
  | brace value =>
    simp only [quotedStep] at h
    split at h
    · rename_i d hd
      have hlen := utf8_length_digit (n := 16 * value.getD 0 + d) (v := value.getD 0) (by
        have := hexValue_lt hd
        omega)
      split_ifs at h
      obtain rfl := Option.some.inj h
      refine .more ?_ List.prefix_rfl
      simp only [size, Option.getD_some]
      omega
    · split_ifs at h
      obtain ⟨n, rfl, rfl⟩ := Option.map_eq_some_iff.mp h
      refine .more ?_ (List.prefix_append _ _)
      simp [size]
  | octal left value =>
    simp only [quotedStep] at h
    split_ifs at h with hc
    · obtain rfl := Option.some.inj h
      have hlen := utf8_length_digit (n := 8 * value + digitVal b) (v := value) (by
        simp only [UInt8.le_iff_toNat_le, UInt8.reduceToNat] at hc
        unfold digitVal
        omega)
      refine .more ?_ List.prefix_rfl
      simp only [size]
      omega
    · refine (plainStep_within h).mono ?_ (List.prefix_append _ _)
      simp [size]
  | cr =>
    simp only [quotedStep] at h
    split_ifs at h
    · obtain rfl := Option.some.inj h
      exact .more (Nat.le_succ _) List.prefix_rfl
    · exact plainStep_within h

section

variable {q : UInt8} {x : Option UInt8}

theorem scan_cons (m : Mode) (b : UInt8) (t : Bytes) :
    scan m (b :: t) = (step m b).bind fun r => (scan r.2 t).map fun r' => (r.1 ++ r'.1, r'.2) := rfl

theorem scan_append {m : Mode} {s t : Bytes} :
    scan m (s ++ t) = (scan m s).bind fun r => (scan r.2 t).map fun r' => (r.1 ++ r'.1, r'.2) :=
  Reader.scan_append

/-- A step that completes no token. -/
theorem scan_cons_of_step {m m' : Mode} {b : UInt8} (h : step m b = some ([], m')) (t : Bytes) :
    scan m (b :: t) = scan m' t := Reader.scan_cons_of_step (R := reader) h t

theorem plainStep_other {read : Bytes} {b : UInt8} (hq : b ≠ q) (h92 : b ≠ 92) (h10 : b ≠ 10)
    (h13 : b ≠ 13) : plainStep q read b = some ([], .quoted q (read ++ [b]) .none) := by
  rw [plainStep, if_neg hq, if_neg h92, if_neg (by simp [h10, h13])]

theorem plainStep_quote (q : UInt8) (read : Bytes) :
    plainStep q read q = some ([.string read], .idle) := if_pos rfl

theorem plainStep_backslash (hq : q ≠ 92) (read : Bytes) :
    plainStep q read 92 = some ([], .quoted q read .start) := by
  rw [plainStep, if_neg (Ne.symm hq), if_pos rfl]

theorem startStep_quote {b : UInt8} (hb : b = 39 ∨ b = 34) (read : Bytes) :
    startStep q read b = ([], .quoted q (read ++ [b]) .none) := by
  rcases hb with rfl | rfl <;> rfl

theorem startStep_backslash (read : Bytes) :
    startStep q read 92 = ([], .quoted q (read ++ [92]) .none) := rfl

theorem IsQuote.ne (h : IsQuote q x) : q ≠ 92 ∧ q ≠ 10 ∧ q ≠ 13 := by
  rcases h.quote with rfl | rfl <;> decide

theorem IsQuote.escape_ne (h : IsQuote q x) {b : UInt8} (hb : some b = x) :
    b ≠ 92 ∧ b ≠ 10 ∧ b ≠ 13 := by
  rcases h.escape b hb with rfl | rfl <;> decide

/-- An escaped byte makes a string longer by one byte at most. -/
theorem pair_within (h : IsQuote q x) {read : Bytes} {e : Escape} {b : UInt8}
    (hb : some b = x) {r : List Token × Mode} (hr : scan (.quoted q read e) [92, b] = some r) :
    Within q read (size read e + 1) r := by
  have hquote := h.escape b hb
  -- Outside an escape the backslash begins one, and the byte ends it.
  have hplain : ∀ read', read <+: read' → read'.length ≤ size read e →
      ((plainStep q read' 92).bind fun r => (scan r.2 [b]).map fun r' => (r.1 ++ r'.1, r'.2)) =
        some r → Within q read (size read e + 1) r := by
    intro read' hpre hlen hstep
    have hb : step (.quoted q read' .start) b = some ([], .quoted q (read' ++ [b]) .none) :=
      congrArg some (startStep_quote hquote read')
    rw [plainStep_backslash h.ne.1, Option.bind_some, scan_cons_of_step hb] at hstep
    obtain rfl := Option.some.inj hstep
    have hsize : size (read' ++ [b]) .none = read'.length + 1 := by simp [size]
    exact .more (by omega) (hpre.trans (List.prefix_append _ _))
  rw [scan_cons] at hr
  cases e with
  | none => exact hplain read List.prefix_rfl (Nat.le_refl _) hr
  | start =>
    have hstart : step (.quoted q read .start) 92 = some ([], .quoted q (read ++ [92]) .none) :=
      congrArg some (startStep_backslash read)
    rw [hstart, Option.bind_some] at hr
    by_cases hq : b = q
    · have hlast : scan (.quoted q (read ++ [92]) .none) [b] =
          some ([.string (read ++ [92])], .idle) := by
        rw [scan_cons, hq]
        simp only [step, quotedStep, plainStep_quote, Option.bind_some, scan, Reader.scan_nil, Option.map_some,
          List.append_nil]
      rw [hlast] at hr
      obtain rfl := Option.some.inj hr
      exact .closed (by simp [size]) (List.prefix_append _ _)
    · obtain ⟨h92, h10, h13⟩ := h.escape_ne hb
      have hlast : step (.quoted q (read ++ [92]) .none) b =
          some ([], .quoted q (read ++ [92] ++ [b]) .none) := plainStep_other hq h92 h10 h13
      rw [scan_cons_of_step hlast] at hr
      obtain rfl := Option.some.inj hr
      refine .more ?_ ((List.prefix_append read [92]).trans (List.prefix_append _ _))
      simp [size]
  | hex left value =>
    have hnone : step (.quoted q read (.hex left value)) 92 = none := by
      simp [step, quotedStep, show hexValue 92 = none from rfl]
    rw [hnone] at hr
    cases hr
  | brace value =>
    have hnone : step (.quoted q read (.brace value)) 92 = none := by
      simp [step, quotedStep, show hexValue 92 = none from rfl]
    rw [hnone] at hr
    cases hr
  | octal left value =>
    have hstep : step (.quoted q read (.octal left value)) 92 =
        plainStep q (read ++ utf8 value) 92 := if_neg (by simp)
    rw [hstep] at hr
    exact hplain _ (List.prefix_append _ _) (by simp [size]) hr
  | cr => exact hplain read List.prefix_rfl (Nat.le_refl _) hr

/-- A text makes a string longer by its length at most. -/
theorem scan_within (h : IsQuote q x) {read : Bytes} {e : Escape} {t : Bytes}
    {r : List Token × Mode} (hr : scan (.quoted q read e) (escaped x t) = some r) :
    Within q read (size read e + t.length) r := by
  induction t generalizing read e with
  | nil =>
    obtain rfl := Option.some.inj hr
    exact .more (Nat.le_refl _) List.prefix_rfl
  | cons b t ih =>
    -- After the bytes of `b` the string is closed or goes on.
    have key : ∀ s, (∀ r', scan (.quoted q read e) s = some r' →
        Within q read (size read e + 1) r') →
          scan (.quoted q read e) (s ++ escaped x t) = some r →
            Within q read (size read e + (b :: t).length) r := by
      intro s hs hscan
      rw [scan_append] at hscan
      obtain ⟨r₁, hr₁, hscan⟩ := Option.bind_eq_some_iff.mp hscan
      obtain ⟨r₂, hr₂, rfl⟩ := Option.map_eq_some_iff.mp hscan
      cases hs r₁ hr₁ with
      | closed hlen hpre =>
        exact .closed (by rw [List.length_cons]; omega) hpre
      | more hlen hpre =>
        exact (ih hr₂).mono (by rw [List.length_cons]; omega) hpre
    by_cases hb : some b = x
    · rw [escaped_cons_of_eq hb] at hr
      exact key [92, b] (fun r' hr' => pair_within h hb hr') hr
    · rw [escaped_cons_of_ne hb] at hr
      refine key [b] (fun r' hr' => ?_) hr
      rw [scan_cons] at hr'
      obtain ⟨r₁, hr₁, hr'⟩ := Option.bind_eq_some_iff.mp hr'
      simp only [scan, Reader.scan_nil, Option.map_some, List.append_nil, Option.some.injEq] at hr'
      exact hr' ▸ quotedStep_within hr₁

theorem plainStep_start {q' : UInt8} {read read' : Bytes} {b : UInt8}
    (h : plainStep q' read b = some ([], .quoted q read' .start)) : b = 92 := by
  unfold plainStep at h
  split_ifs at h with h1 h2 h3
  · cases h
  · exact h2
  · cases h

/-- A reading stands behind a backslash only when it has read one. -/
theorem step_start {m : Mode} {b : UInt8} {read : Bytes}
    (h : step m b = some ([], .quoted q read .start)) : b = 92 := by
  have hidle : (idleStep b).2 ≠ .quoted q read .start := by
    unfold idleStep
    split_ifs <;> simp
  cases m with
  | idle =>
    simp only [step, Option.some.injEq] at h
    exact absurd (congrArg Prod.snd h) hidle
  | word w =>
    simp only [step] at h
    split_ifs at h <;> cases h
  | number d =>
    simp only [step] at h
    split_ifs at h <;> cases h
  | quoted q' read' e =>
    simp only [step] at h
    cases e with
    | none => exact plainStep_start h
    | start =>
      simp only [quotedStep, startStep, Option.some.injEq] at h
      split_ifs at h <;> cases h
    | hex left value =>
      simp only [quotedStep] at h
      split at h <;> split_ifs at h <;> cases h
    | brace value =>
      simp only [quotedStep] at h
      split at h <;> split_ifs at h
      · cases h
      · obtain ⟨n, -, hn⟩ := Option.map_eq_some_iff.mp h
        cases hn
    | octal left value =>
      simp only [quotedStep] at h
      split_ifs at h
      · cases h
      · exact plainStep_start h
    | cr =>
      simp only [quotedStep] at h
      split_ifs at h
      · cases h
      · exact plainStep_start h

theorem scan_start (h : IsQuote q x) {m : Mode} {read : Bytes} {t : Bytes} (ht : t ≠ [])
    (hr : scan m (escaped x t) = some ([], .quoted q read .start)) : t.getLast? = some 92 := by
  obtain ⟨t, b, rfl⟩ := List.eq_nil_or_concat t |>.resolve_left ht
  have hlast : ∀ s, scan m (s ++ [b]) = some ([], .quoted q read .start) → b = 92 := by
    intro s hs
    rw [scan_append] at hs
    obtain ⟨r, -, hs⟩ := Option.bind_eq_some_iff.mp hs
    obtain ⟨r', hr', hs⟩ := Option.map_eq_some_iff.mp hs
    obtain ⟨h1, h2⟩ := Prod.mk.inj hs
    rw [scan_cons] at hr'
    obtain ⟨r₁, hstep, hr'⟩ := Option.bind_eq_some_iff.mp hr'
    simp only [scan, Reader.scan_nil, Option.map_some, List.append_nil, Option.some.injEq] at hr'
    subst hr'
    have hnil : r₁.1 = [] := (List.append_eq_nil_iff.mp h1).2
    exact step_start (hstep.trans (congrArg some (Prod.ext hnil h2)))
  rw [List.concat_eq_append] at hr ⊢
  rw [escaped_append] at hr
  by_cases hb : some b = x
  · have hpair : escaped x [b] = [92] ++ [b] := escaped_cons_of_eq hb []
    rw [hpair, ← List.append_assoc] at hr
    exact absurd (hlast _ hr) (h.escape_ne hb).1
  · rw [escaped_cons_of_ne hb, escaped_nil] at hr
    simp [hlast _ hr]

/-- A string that was closed behind a text without backslashes does not end in one. -/
theorem scan_calm {read after v : Bytes} {ts : List Token} {m : Mode}
    (hr : scan (.quoted q read .none) after = some (.string v :: ts, m))
    (hcalm : 92 ∉ after.takeWhile fun b => b != q && b != 10 && b != 13)
    (hread : read.getLast? ≠ some 92) : v.getLast? ≠ some 92 := by
  induction after generalizing read with
  | nil => cases hr
  | cons b after ih =>
    rw [scan_cons] at hr
    obtain ⟨r, hstep, hr⟩ := Option.bind_eq_some_iff.mp hr
    change plainStep q read b = some r at hstep
    unfold plainStep at hstep
    split_ifs at hstep with h1 h2 h3
    · obtain rfl := Option.some.inj hstep
      obtain ⟨r', -, hr⟩ := Option.map_eq_some_iff.mp hr
      simp only [List.cons_append, List.nil_append, Prod.mk.injEq, List.cons.injEq,
        Token.string.injEq] at hr
      exact hr.1.1 ▸ hread
    · subst h2
      refine absurd ?_ hcalm
      rw [List.takeWhile_cons_of_pos (by simp [h1])]
      exact List.mem_cons_self
    · obtain rfl := Option.some.inj hstep
      obtain ⟨r', hr', hr⟩ := Option.map_eq_some_iff.mp hr
      have hrest : scan (.quoted q (read ++ [b]) .none) after = some (.string v :: ts, m) := by
        rw [hr']
        exact congrArg some hr
      refine ih hrest (fun hmem => hcalm ?_) ?_
      · rw [List.takeWhile_cons_of_pos (by simp only [not_or] at h3; simp [h1, h3.1, h3.2])]
        exact List.mem_cons_of_mem _ hmem
      · simpa using h2

/-- What survives is read back. -/
theorem scan_of_survives (h : IsQuote q x) {s read : Bytes} (hs : survives q x s = true) :
    scan (.quoted q read .none) (escaped x s ++ [q]) = some ([.string (read ++ s)], .idle) := by
  have hstep : ∀ read b, b ≠ q → b ≠ 92 → b ≠ 10 → b ≠ 13 →
      step (.quoted q read .none) b = some ([], .quoted q (read ++ [b]) .none) :=
    fun read b h₁ h₂ h₃ h₄ => plainStep_other h₁ h₂ h₃ h₄
  have hback : ∀ read, step (.quoted q read .none) 92 = some ([], .quoted q read .start) :=
    plainStep_backslash h.ne.1
  fun_induction survives q x s generalizing read with
  | case1 =>
    rw [escaped_nil, List.nil_append, scan_cons,
      show step (.quoted q read .none) q = some ([.string read], .idle) from plainStep_quote q read]
    simp [scan]
  | case2 c t ih =>
    simp only [Bool.and_eq_true, decide_eq_true_eq] at hs
    obtain ⟨⟨hc, hcq⟩, ht⟩ := hs
    obtain ⟨h92, h10, h13⟩ := h.escape_ne hc
    have hstart : step (.quoted q read .start) 92 = some ([], .quoted q (read ++ [92]) .none) :=
      congrArg some (startStep_backslash read)
    rw [escaped_cons_of_ne (by rw [← hc]; simpa using Ne.symm h92), escaped_cons_of_eq hc]
    simp only [List.cons_append]
    rw [scan_cons_of_step (hback read), scan_cons_of_step hstart,
      scan_cons_of_step (hstep _ c hcq h92 h10 h13), ih ht]
    simp
  | case3 => cases hs
  | case4 b t hb ih =>
    simp only [Bool.and_eq_true, bne_iff_ne, Bool.or_eq_true, decide_eq_true_eq] at hs
    obtain ⟨⟨⟨h10, h13⟩, hq⟩, ht⟩ := hs
    by_cases hbx : some b = x
    · have hstart : step (.quoted q read .start) b = some ([], .quoted q (read ++ [b]) .none) :=
        congrArg some (startStep_quote (h.escape b hbx) read)
      rw [escaped_cons_of_eq hbx]
      simp only [List.cons_append]
      rw [scan_cons_of_step (hback read), scan_cons_of_step hstart, ih ht]
      simp
    · have hbq : b ≠ q := by
        rintro rfl
        exact hbx (hq.resolve_left (by simp)).symm
      rw [escaped_cons_of_ne hbx, List.cons_append, scan_cons_of_step (hstep _ b hbq hb h10 h13),
        ih ht]
      simp

theorem startStep_ne_start (read read' : Bytes) (b : UInt8) :
    startStep q read b ≠ ([], .quoted q read' .start) := by
  unfold startStep
  split_ifs <;> simp

/-- A step that completes tokens, or goes on with others. -/
theorem scan_cons_eq {m m' : Mode} {b : UInt8} {t : Bytes} {r : List Token × Mode}
    {ts : List Token} (h : step m b = some r) (hr : scan m (b :: t) = some (ts, m')) :
    ∃ ts', scan r.2 t = some (ts', m') ∧ ts = r.1 ++ ts' := by
  rw [scan_cons, h, Option.bind_some] at hr
  obtain ⟨r', hr', heq⟩ := Option.map_eq_some_iff.mp hr
  obtain ⟨rfl, rfl⟩ := Prod.mk.inj heq
  exact ⟨r'.1, hr', rfl⟩

/-- What the closing quote makes of a string. -/
theorem scan_quote (h : IsQuote q x) {read after v : Bytes} {e : Escape} {ts : List Token}
    {m : Mode} (hcalm : 92 ∉ after.takeWhile fun b => b != q && b != 10 && b != 13)
    (hr : scan (.quoted q read e) (q :: after) = some (.string v :: ts, m)) :
    e ≠ .start ∧ v.length ≤ size read e ∨ e = .start ∧ v.getLast? ≠ some 92 := by
  obtain ⟨h92, h10, h13⟩ := h.ne
  have hclosed : ∀ read', step (.quoted q read e) q = some ([.string read'], .idle) →
      v = read' := by
    intro read' hstep
    obtain ⟨ts', -, heq⟩ := scan_cons_eq hstep hr
    simp only [List.cons_append, List.nil_append, List.cons.injEq, Token.string.injEq] at heq
    exact heq.1
  have hhex : hexValue q = none := by
    rcases h.quote with rfl | rfl <;> rfl
  have hbrace : q ≠ 123 ∧ q ≠ 125 := by
    rcases h.quote with rfl | rfl <;> decide
  have hoctal : ¬ (48 ≤ q ∧ q ≤ 55) := by
    rcases h.quote with rfl | rfl <;> decide
  cases e with
  | none => exact .inl ⟨by simp, by rw [hclosed read (plainStep_quote q read), size]⟩
  | start =>
    have hstep : step (.quoted q read .start) q = some ([], .quoted q (read ++ [q]) .none) :=
      congrArg some (startStep_quote h.quote read)
    rw [scan_cons_of_step hstep] at hr
    exact .inr ⟨rfl, scan_calm hr hcalm (by simpa using h92)⟩
  | hex left value =>
    have hnone : step (.quoted q read (.hex left value)) q = none := by
      simp [step, quotedStep, hhex, hbrace.1]
    rw [scan_cons, hnone] at hr
    cases hr
  | brace value =>
    have hnone : step (.quoted q read (.brace value)) q = none := by
      simp [step, quotedStep, hhex, hbrace.2]
    rw [scan_cons, hnone] at hr
    cases hr
  | octal left value =>
    have hstep : step (.quoted q read (.octal left value)) q =
        some ([.string (read ++ utf8 value)], .idle) := by
      simp only [step, quotedStep, plainStep_quote]
      exact if_neg fun hc => hoctal hc.2
    rw [hclosed _ hstep]
    exact .inl ⟨by simp, by simp [size]⟩
  | cr =>
    have hstep : step (.quoted q read .cr) q = some ([.string read], .idle) := by
      simp only [step, quotedStep, if_neg h10, plainStep_quote]
    exact .inl ⟨by simp, by rw [hclosed read hstep, size]⟩

/-- A backslash that takes a byte for its own cannot be made up for. -/
theorem not_scan_taken (h : IsQuote q x) {read after : Bytes} {c : UInt8} {t : Bytes}
    {ts : List Token} {m : Mode}
    (hcalm : 92 ∉ after.takeWhile fun b => b != q && b != 10 && b != 13) :
    scan (.quoted q read .start) (c :: (escaped x t ++ q :: after)) ≠
      some (.string (read ++ 92 :: c :: t) :: ts, m) := by
  intro hr
  have hstep : step (.quoted q read .start) c = some (startStep q read c) := rfl
  obtain ⟨ts₁, hr₁, heq₁⟩ := scan_cons_eq hstep hr
  have hlen : (read ++ 92 :: c :: t).length = read.length + t.length + 2 := by
    simp only [List.length_append, List.length_cons]
    omega
  have hw := startStep_within q read c
  generalize hst : startStep q read c = r at hw hr₁ heq₁
  cases hw with
  | closed hv _ =>
    simp only [List.cons_append, List.cons.injEq, Token.string.injEq] at heq₁
    rw [← heq₁.1] at hv
    omega
  | @more read' e hle _ =>
    rw [List.nil_append] at heq₁
    subst heq₁
    rw [scan_append] at hr₁
    obtain ⟨r₁, hscan, hr₂⟩ := Option.bind_eq_some_iff.mp hr₁
    obtain ⟨r₂, hlast, heq₂⟩ := Option.map_eq_some_iff.mp hr₂
    obtain ⟨hts, -⟩ := Prod.mk.inj heq₂
    cases scan_within h hscan with
    | closed hv _ =>
      simp only [List.cons_append, List.cons.injEq, Token.string.injEq] at hts
      rw [hts.1] at hv
      omega
    | @more read'' e' hle' _ =>
      rw [List.nil_append] at hts
      have hlast' : scan (.quoted q read'' e') (q :: after) =
          some (.string (read ++ 92 :: c :: t) :: ts, r₂.2) := by
        rw [hlast, ← hts]
      rcases scan_quote h hcalm hlast' with ⟨-, hv⟩ | ⟨rfl, hv⟩
      · omega
      · refine hv ?_
        cases t with
        | nil =>
          simp only [escaped_nil, scan, Reader.scan_nil, Option.some.injEq, Prod.mk.injEq, Mode.quoted.injEq,
            true_and] at hscan
          rw [hscan.1, hscan.2] at hst
          exact absurd hst (startStep_ne_start _ _ _)
        | cons b t =>
          have hend := scan_start h (List.cons_ne_nil b t) hscan
          simp [List.getLast?_append, List.getLast?_cons_cons, hend]

/-- What is read back survives, where no backslash stands before the next quote or the end of the
line. -/
theorem survives_of_scan (h : IsQuote q x) {s read after : Bytes} {ts : List Token} {m : Mode}
    (hcalm : 92 ∉ after.takeWhile fun b => b != q && b != 10 && b != 13)
    (hr : scan (.quoted q read .none) (escaped x s ++ q :: after) =
      some (.string (read ++ s) :: ts, m)) : survives q x s = true := by
  have hback : ∀ read, step (.quoted q read .none) 92 = some ([], .quoted q read .start) :=
    plainStep_backslash h.ne.1
  have h92 : some (92 : UInt8) ≠ x := fun hx => (h.escape_ne hx).1 rfl
  have happ : ∀ (read : Bytes) b t, read ++ b :: t = read ++ [b] ++ t := fun _ _ _ => by simp
  have hnot : ∀ {read v : Bytes} {t},
      scan (.quoted q read .none) (q :: t) = some (.string (read ++ v) :: ts, m) → v = [] := by
    intro read v t hq
    have hstep : step (.quoted q read .none) q = some ([.string read], .idle) :=
      plainStep_quote q read
    obtain ⟨ts', -, heq⟩ := scan_cons_eq hstep hq
    simp only [List.cons_append, List.nil_append, List.cons.injEq, Token.string.injEq] at heq
    exact List.append_right_eq_self.mp heq.1
  fun_induction survives q x s generalizing read with
  | case1 => rfl
  | case2 c t ih =>
    rw [escaped_cons_of_ne h92, List.cons_append, scan_cons_of_step (hback read)] at hr
    by_cases hc : some c = x
    · have hstart : step (.quoted q read .start) 92 = some ([], .quoted q (read ++ [92]) .none) :=
        congrArg some (startStep_backslash read)
      obtain ⟨hc92, hc10, hc13⟩ := h.escape_ne hc
      rw [escaped_cons_of_eq hc, List.cons_append, List.cons_append, scan_cons_of_step hstart,
        happ read 92 (c :: t)] at hr
      by_cases hcq : c = q
      · subst hcq
        exact absurd (hnot hr) (List.cons_ne_nil _ _)
      · have hplain : step (.quoted q (read ++ [92]) .none) c =
            some ([], .quoted q (read ++ [92] ++ [c]) .none) :=
          plainStep_other hcq hc92 hc10 hc13
        rw [scan_cons_of_step hplain, happ _ c t] at hr
        rw [ih hr]
        simp [hc, hcq]
    · rw [escaped_cons_of_ne hc, List.cons_append] at hr
      exact absurd hr (not_scan_taken h hcalm)
  | case3 =>
    rw [escaped_cons_of_ne h92, List.cons_append, scan_cons_of_step (hback read)] at hr
    rcases scan_quote h hcalm hr with ⟨hv, -⟩ | ⟨-, hv⟩
    · exact absurd rfl hv
    · simp at hv
  | case4 b t hb ih =>
    by_cases hbx : some b = x
    · have hstart : step (.quoted q read .start) b = some ([], .quoted q (read ++ [b]) .none) :=
        congrArg some (startStep_quote (h.escape b hbx) read)
      obtain ⟨-, h10, h13⟩ := h.escape_ne hbx
      rw [escaped_cons_of_eq hbx, List.cons_append, List.cons_append,
        scan_cons_of_step (hback read), scan_cons_of_step hstart, happ read b t] at hr
      rw [ih hr]
      simpa [h10, h13, ← hbx] using (em (b = q)).symm
    · rw [escaped_cons_of_ne hbx, List.cons_append] at hr
      by_cases hbq : b = q
      · subst hbq
        exact absurd (hnot hr) (List.cons_ne_nil _ _)
      · by_cases hline : b = 10 ∨ b = 13
        · have hnone : step (.quoted q read .none) b = none := by
            simp only [step, quotedStep, plainStep, if_neg hbq, if_neg hb, if_pos hline]
          rw [scan_cons, hnone] at hr
          cases hr
        · obtain ⟨h10, h13⟩ := not_or.mp hline
          have hplain : step (.quoted q read .none) b =
              some ([], .quoted q (read ++ [b]) .none) := plainStep_other hbq hb h10 h13
          rw [scan_cons_of_step hplain, happ read b t] at hr
          rw [ih hr]
          simp [h10, h13, hbq]

end

end Js
