import Spinny.Sqlite.Values

/-!
# The tokens of SQL

`getToken` of `tokenize.c` on a byte string. White space and `--` comments are passed over; the
tokens that no statement in the program has (operators other than `=` and `-`, variables, blob
literals, names in brackets) come out as the single byte they begin with.

* `tokens`: the tokens of a text, `none` where a quote is not closed.
* `StopsAt`: what a word, a number or a quoted text must not go on with.
* `tokens_word`, `tokens_decimal`, `tokens_quoted`: how a text is read piece by piece.
* `tokens_open`: a text that ends inside quotes has no tokens.
-/

namespace Sqlite

open Bytes Boost

/-- A token. -/
inductive Token where
  /-- A name or a keyword. -/
  | word (w : Bytes)
  /-- `TK_INTEGER`, or `TK_FLOAT` with its integer part. -/
  | number (digits : Bytes) (isInteger : Bool)
  /-- A text between quotes, with the doubled quotes in it single. -/
  | string (t : Bytes)
  | lp | rp | comma | eq | minus
  | other (b : UInt8)
  deriving DecidableEq

/-- `IdChar`. -/
def isIdChar (b : UInt8) : Bool :=
  128 ≤ b || isDigit b || isAlpha b || b == 36 || b == 95

/-- A byte that begins white space; `isspace` has the vertical tab too. -/
def isBlank (b : UInt8) : Bool := b == 32 || b == 9 || b == 10 || b == 12 || b == 13

/-- The text up to the closing quote `delim`, and what follows it. -/
def scanString (delim : UInt8) : Bytes → Option (Bytes × Bytes)
  | [] => none
  | c :: s =>
    if c = delim then
      match s with
      | [] => some ([], [])
      | c' :: s' =>
        if c' = delim then (scanString delim s').map fun r => (delim :: r.1, r.2)
        else some ([], c' :: s')
    else (scanString delim s).map fun r => (c :: r.1, r.2)

/-- The exponent of a number, if there is one. -/
def dropExponent : Bytes → Bytes
  | e :: s =>
    if e = 101 ∨ e = 69 then
      match s with
      | d :: s' =>
        if isDigit d then s'.dropWhile isDigit
        else
          match s' with
          | d' :: s'' =>
            if (d = 43 ∨ d = 45) ∧ isDigit d' then s''.dropWhile isDigit else e :: s
          | [] => e :: s
      | [] => e :: s
    else e :: s
  | [] => []

/-- The fraction of a number, if there is one. -/
def dropFraction : Bytes → Bytes
  | 46 :: s => s.dropWhile isDigit
  | s => s

/-- A number and what follows it. -/
def scanNumber (s : Bytes) : Token × Bytes :=
  let rest := s.dropWhile isDigit
  let rest' := dropExponent (dropFraction rest)
  (.number (s.takeWhile isDigit) (rest' == rest), rest')

/-- `getToken`: a token, or nothing for white space and comments, and the rest of the text; `none`
for `TK_ILLEGAL`. -/
def step : Bytes → Option (Option Token × Bytes)
  | [] => none
  | b :: s =>
    if isBlank b then some (none, s.dropWhile isSpace)
    else if b = 45 then
      match s with
      | 45 :: s => some (none, s.dropWhile (· ≠ 10))
      | s => some (some .minus, s)
    else if b = 40 then some (some .lp, s)
    else if b = 41 then some (some .rp, s)
    else if b = 44 then some (some .comma, s)
    else if b = 61 then some (some .eq, s)
    else if b = 39 ∨ b = 34 ∨ b = 96 then
      (scanString b s).map fun r => (some (.string r.1), r.2)
    else if isDigit b then
      let r := scanNumber (b :: s)
      some (some r.1, r.2)
    else if (b = 120 ∨ b = 88) ∧ (s.head? = some 39 ∨ s.head? = some 34) then
      some (some (.other b), s)
    else if isIdChar b ∧ b ≠ 36 then
      some (some (.word (b :: s.takeWhile isIdChar)), s.dropWhile isIdChar)
    else some (some (.other b), s)

/-- The tokens of a text, with `fuel` for the number of steps. -/
def tokensFrom : Nat → Bytes → Option (List Token)
  | _, [] => some []
  | 0, _ => none
  | n + 1, s =>
    match step s with
    | none => none
    | some (none, rest) => tokensFrom n rest
    | some (some t, rest) => (tokensFrom n rest).map (t :: ·)

/-- The tokens of a text. -/
def tokens (s : Bytes) : Option (List Token) := tokensFrom s.length s

/-- The keywords of `keywordhash.h`. -/
def keywords : List Bytes :=
  [lit "ABORT", lit "TABLE", lit "LEFT", lit "TEMP", lit "TEMPORARY", lit "OR", lit "ADD",
    lit "DATABASE", lit "AS", lit "SELECT", lit "THEN", lit "END", lit "DEFAULT",
    lit "TRANSACTION", lit "ON", lit "NATURAL", lit "ALTER", lit "RAISE", lit "EACH",
    lit "CHECK", lit "KEY", lit "AFTER", lit "REFERENCES", lit "ESCAPE", lit "ELSE",
    lit "EXCEPT", lit "TRIGGER", lit "REGEXP", lit "EXPLAIN", lit "INITIALLY", lit "ALL",
    lit "ANALYZE", lit "EXCLUSIVE", lit "EXISTS", lit "STATEMENT", lit "AND", lit "DEFERRABLE",
    lit "ATTACH", lit "HAVING", lit "GLOB", lit "BEFORE", lit "FOR", lit "FOREIGN", lit "IGNORE",
    lit "REINDEX", lit "INDEX", lit "AUTOINCREMENT", lit "TO", lit "IN", lit "BEGIN",
    lit "INNER", lit "RENAME", lit "BETWEEN", lit "NOT", lit "NOTNULL", lit "NULL", lit "LIKE",
    lit "BY", lit "CASCADE", lit "ASC", lit "DEFERRED", lit "DELETE", lit "CASE", lit "CAST",
    lit "COLLATE", lit "COLUMN", lit "COMMIT", lit "CONFLICT", lit "CONSTRAINT", lit "INTERSECT",
    lit "CREATE", lit "CROSS", lit "CURRENT_DATE", lit "CURRENT_TIME", lit "CURRENT_TIMESTAMP",
    lit "PLAN", lit "DESC", lit "DETACH", lit "DISTINCT", lit "IS", lit "DROP", lit "PRAGMA",
    lit "MATCH", lit "FAIL", lit "LIMIT", lit "FROM", lit "FULL", lit "GROUP", lit "UPDATE",
    lit "IF", lit "IMMEDIATE", lit "INSERT", lit "INSTEAD", lit "INTO", lit "OF", lit "OFFSET",
    lit "SET", lit "ISNULL", lit "JOIN", lit "ORDER", lit "REPLACE", lit "OUTER", lit "RESTRICT",
    lit "PRIMARY", lit "QUERY", lit "RIGHT", lit "ROLLBACK", lit "ROW", lit "WHEN", lit "UNION",
    lit "UNIQUE", lit "USING", lit "VACUUM", lit "VALUES", lit "VIEW", lit "WHERE"]

/-- A word that is no keyword, and so a name in every place. -/
def isName (w : Bytes) : Bool := !keywords.contains (toUpperCopy w)

/-! ## Step by step -/

theorem scanString_length {d : UInt8} {s : Bytes} {r : Bytes × Bytes}
    (h : scanString d s = some r) : r.2.length < s.length := by
  fun_induction scanString d s generalizing r with
  | case1 => cases h
  | case2 => cases h; simp
  | case3 s ih =>
    obtain ⟨r', hr', rfl⟩ := Option.map_eq_some_iff.mp h
    have := ih hr'
    simp only [List.length_cons]
    omega
  | case4 => cases h; simp
  | case5 c s hc ih =>
    obtain ⟨r', hr', rfl⟩ := Option.map_eq_some_iff.mp h
    have := ih hr'
    simp only [List.length_cons]
    omega

theorem length_dropWhile_le (p : UInt8 → Bool) (s : Bytes) :
    (s.dropWhile p).length ≤ s.length := (List.dropWhile_suffix p).length_le

theorem dropExponent_length (s : Bytes) : (dropExponent s).length ≤ s.length := by
  unfold dropExponent
  have h := length_dropWhile_le isDigit
  repeat' split
  all_goals simp only [List.length_cons, List.length_nil]
  all_goals grind

theorem dropFraction_length (s : Bytes) : (dropFraction s).length ≤ s.length := by
  unfold dropFraction
  split
  · have := length_dropWhile_le isDigit ‹Bytes›
    simp only [List.length_cons]
    omega
  · exact Nat.le_refl _

theorem scanNumber_length {b : UInt8} (s : Bytes) (h : isDigit b = true) :
    (scanNumber (b :: s)).2.length ≤ s.length := by
  simp only [scanNumber, List.dropWhile_cons_of_pos h]
  have h₁ := length_dropWhile_le isDigit s
  have h₂ := dropFraction_length (s.dropWhile isDigit)
  have h₃ := dropExponent_length (dropFraction (s.dropWhile isDigit))
  omega

/-- Every step takes at least one byte. -/
theorem step_length {s rest : Bytes} {o : Option Token} (h : step s = some (o, rest)) :
    rest.length < s.length := by
  cases s with
  | nil => cases h
  | cons b s =>
    rw [List.length_cons, Nat.lt_succ_iff]
    simp only [step] at h
    split_ifs at h with hspace hminus _ _ _ _ hquote hdigit
    · cases h
      exact length_dropWhile_le _ _
    · split at h
      · cases h
        have := length_dropWhile_le (· ≠ 10) ‹Bytes›
        simp only [List.length_cons]
        omega
      · cases h
        exact Nat.le_refl _
    · cases h
      exact Nat.le_refl _
    · cases h
      exact Nat.le_refl _
    · cases h
      exact Nat.le_refl _
    · cases h
      exact Nat.le_refl _
    · obtain ⟨r, hr, heq⟩ := Option.map_eq_some_iff.mp h
      cases heq
      exact (scanString_length hr).le
    · cases h
      exact scanNumber_length s hdigit
    · cases h
      exact Nat.le_refl _
    · cases h
      exact length_dropWhile_le _ _
    · cases h
      exact Nat.le_refl _

/-- More steps than bytes are as good as one for each byte. -/
theorem tokensFrom_eq {n m : Nat} {s : Bytes} (hn : s.length ≤ n) (hm : s.length ≤ m) :
    tokensFrom n s = tokensFrom m s := by
  induction n generalizing s m with
  | zero =>
    obtain rfl := List.eq_nil_of_length_eq_zero (Nat.le_zero.mp hn)
    cases m <;> rfl
  | succ n ih =>
    cases s with
    | nil => cases m <;> rfl
    | cons b s =>
      cases m with
      | zero => simp at hm
      | succ m =>
        have hrec : ∀ o rest, step (b :: s) = some (o, rest) →
            tokensFrom n rest = tokensFrom m rest := by
          intro o rest h
          have hlen := step_length h
          rw [List.length_cons] at hn hm hlen
          exact ih (by omega) (by omega)
        unfold tokensFrom
        split
        · rfl
        · rename_i h
          exact hrec _ _ h
        · rename_i h
          rw [hrec _ _ h]

/-- One step of `tokens`. -/
theorem tokens_step {s rest : Bytes} {o : Option Token} (h : step s = some (o, rest)) :
    tokens s = (tokens rest).map (o.toList ++ ·) := by
  have hlen := step_length h
  cases s with
  | nil => cases h
  | cons b s =>
    have hrest : tokensFrom s.length rest = tokens rest :=
      tokensFrom_eq (by rw [List.length_cons] at hlen; omega) (Nat.le_refl _)
    change tokensFrom (s.length + 1) (b :: s) = _
    unfold tokensFrom
    rw [h]
    cases o with
    | none => simp [hrest]
    | some t => simp [hrest]

/-- Where a step fails, the text has no tokens. -/
theorem tokens_illegal {s : Bytes} (hs : s ≠ []) (h : step s = none) : tokens s = none := by
  obtain ⟨b, s, rfl⟩ := List.exists_cons_of_ne_nil hs
  change tokensFrom (s.length + 1) (b :: s) = _
  unfold tokensFrom
  rw [h]

@[simp] theorem tokens_nil : tokens [] = some [] := rfl

/-! ## Pieces of a text -/

/-- A word that begins with a letter, and not with one that can begin a blob literal. -/
def isWord : Bytes → Bool
  | [] => false
  | b :: s => isAlpha b && b != 120 && b != 88 && s.all isIdChar

/-- The text does not go on with a byte of `p`. -/
def StopsAt (p : UInt8 → Bool) (s : Bytes) : Prop := ∀ b ∈ s.head?, p b = false

theorem StopsAt.dropWhile {p : UInt8 → Bool} {s : Bytes} (h : StopsAt p s) : s.dropWhile p = s := by
  cases s with
  | nil => rfl
  | cons b s => rw [List.dropWhile_cons_of_neg (by simp [h b rfl])]

theorem dropWhile_all_append {p : UInt8 → Bool} {w rest : Bytes} (hw : ∀ b ∈ w, p b = true)
    (h : StopsAt p rest) : (w ++ rest).dropWhile p = rest := by
  rw [List.dropWhile_append_of_pos hw, h.dropWhile]

theorem takeWhile_all_append {p : UInt8 → Bool} {w rest : Bytes} (hw : ∀ b ∈ w, p b = true)
    (h : StopsAt p rest) : (w ++ rest).takeWhile p = w := by
  rw [List.takeWhile_append_of_pos hw]
  cases rest with
  | nil => simp
  | cons b s => simp [h b rfl]

/-- A letter begins no other token. -/
theorem alpha_cases {b : UInt8} (h : isAlpha b = true) :
    isBlank b = false ∧ b ≠ 45 ∧ b ≠ 40 ∧ b ≠ 41 ∧ b ≠ 44 ∧ b ≠ 61 ∧ ¬ (b = 39 ∨ b = 34 ∨ b = 96) ∧
      isDigit b = false ∧ isIdChar b = true ∧ b ≠ 36 := by
  revert b
  decide +kernel

theorem tokens_word {w rest : Bytes} (hw : isWord w = true) (h : StopsAt isIdChar rest) :
    tokens (w ++ rest) = (tokens rest).map (.word w :: ·) := by
  cases w with
  | nil => cases hw
  | cons b w =>
    simp only [isWord, Bool.and_eq_true, bne_iff_ne, List.all_eq_true] at hw
    obtain ⟨⟨⟨halpha, hx⟩, hX⟩, hall⟩ := hw
    obtain ⟨h₁, h₂, h₃, h₄, h₅, h₆, h₇, h₈, h₉, h₁₀⟩ := alpha_cases halpha
    refine tokens_step (o := some (.word (b :: w))) ?_
    simp only [List.cons_append, step, h₁, h₂, h₃, h₄, h₅, h₆, h₇, h₈, h₉, h₁₀, hx, hX, or_self,
      false_and, if_false, Bool.false_eq_true, ne_eq, not_false_eq_true, and_self, if_true,
      takeWhile_all_append hall h, dropWhile_all_append hall h]

/-- A blank is passed over. One in front of a vertical tab would take it along. -/
theorem tokens_space {rest : Bytes} (h : StopsAt (· == 11) rest) :
    tokens (32 :: rest) = tokens rest := by
  have hstep : step (32 :: rest) = some (none, rest.dropWhile isSpace) := rfl
  rw [tokens_step hstep, Option.toList_none]
  simp only [List.nil_append, Option.map_id_fun', id]
  cases rest with
  | nil => rfl
  | cons b s =>
    have hb : b ≠ 11 := by simpa using h b rfl
    by_cases hblank : isBlank b = true
    · have hbyte : ∀ b, isBlank b = true → isSpace b = true := by decide +kernel
      have hstep : step (b :: s) = some (none, s.dropWhile isSpace) := by
        simp only [step, if_pos hblank]
      rw [List.dropWhile_cons_of_pos (hbyte b hblank), tokens_step hstep]
      simp
    · have hbyte : ∀ b, b ≠ 11 → isBlank b = false → isSpace b = false := by decide +kernel
      rw [List.dropWhile_cons_of_neg (by simp [hbyte b hb (by simpa using hblank)])]

theorem tokens_lp (rest : Bytes) : tokens (40 :: rest) = (tokens rest).map (.lp :: ·) :=
  tokens_step (o := some .lp) rfl

theorem tokens_rp (rest : Bytes) : tokens (41 :: rest) = (tokens rest).map (.rp :: ·) :=
  tokens_step (o := some .rp) rfl

theorem tokens_comma (rest : Bytes) : tokens (44 :: rest) = (tokens rest).map (.comma :: ·) :=
  tokens_step (o := some .comma) rfl

theorem tokens_eq (rest : Bytes) : tokens (61 :: rest) = (tokens rest).map (.eq :: ·) :=
  tokens_step (o := some .eq) rfl

theorem tokens_minus {rest : Bytes} (h : StopsAt (· == 45) rest) :
    tokens (45 :: rest) = (tokens rest).map (.minus :: ·) := by
  refine tokens_step (o := some .minus) ?_
  cases rest with
  | nil => rfl
  | cons b s =>
    have hb : b ≠ 45 := by simpa using h b rfl
    simp only [step, if_neg (show ¬ isBlank 45 = true by decide), if_true]
    split
    · rename_i heq
      exact absurd (List.cons.inj heq).1 hb
    · rfl

/-! ## Numbers -/

/-- No digit, fraction or exponent follows. -/
def endsNumber (b : UInt8) : Bool := isDigit b || b == 46 || b == 101 || b == 69

theorem dropFraction_of_stops {s : Bytes} (h : StopsAt endsNumber s) : dropFraction s = s := by
  cases s with
  | nil => rfl
  | cons b s =>
    have hb : b ≠ 46 := by
      rintro rfl
      exact absurd (h 46 rfl) (by decide)
    unfold dropFraction
    split
    · rename_i heq
      exact absurd (List.cons.inj heq).1 hb
    · rfl

theorem dropExponent_of_stops {s : Bytes} (h : StopsAt endsNumber s) : dropExponent s = s := by
  cases s with
  | nil => rfl
  | cons b s =>
    have hb : ¬ (b = 101 ∨ b = 69) := by
      rintro (rfl | rfl)
      · exact absurd (h 101 rfl) (by decide)
      · exact absurd (h 69 rfl) (by decide)
    simp only [dropExponent, if_neg hb]

/-- A digit begins a number and nothing else. -/
theorem digit_cases {b : UInt8} (h : isDigit b = true) :
    isBlank b = false ∧ b ≠ 45 ∧ b ≠ 40 ∧ b ≠ 41 ∧ b ≠ 44 ∧ b ≠ 61 ∧
      ¬ (b = 39 ∨ b = 34 ∨ b = 96) := by
  revert b
  decide +kernel

theorem tokens_decimal (n : Nat) {rest : Bytes} (h : StopsAt endsNumber rest) :
    tokens (decimal n ++ rest) = (tokens rest).map (.number (decimal n) true :: ·) := by
  have hdigits : ∀ b ∈ decimal n, isDigit b = true := fun _ hb => isDigit_of_mem_decimal hb
  have hstop : StopsAt isDigit rest := fun b hb => by
    have := h b hb
    simp only [endsNumber, Bool.or_eq_false_iff] at this
    exact this.1.1.1
  obtain ⟨b, s, hbs⟩ := List.exists_cons_of_ne_nil (decimal_ne_nil n)
  have hdigit : isDigit b = true := hdigits b (by rw [hbs]; exact List.mem_cons_self)
  obtain ⟨h₁, h₂, h₃, h₄, h₅, h₆, h₇⟩ := digit_cases hdigit
  have hscan : scanNumber (b :: (s ++ rest)) = (.number (decimal n) true, rest) := by
    rw [← List.cons_append, ← hbs]
    simp only [scanNumber, dropWhile_all_append hdigits hstop, takeWhile_all_append hdigits hstop,
      dropFraction_of_stops h, dropExponent_of_stops h, beq_self_eq_true]
  rw [hbs, List.cons_append]
  refine tokens_step (o := some (.number (b :: s) true)) ?_
  rw [← hbs]
  simp only [step, h₁, h₂, h₃, h₄, h₅, h₆, h₇, hdigit, if_false, if_true, Bool.false_eq_true, hscan]

/-! ## Quoted texts -/

theorem scanString_of_ne {d c : UInt8} {s : Bytes} (h : c ≠ d) :
    scanString d (c :: s) = (scanString d s).map fun r => (c :: r.1, r.2) := by
  rw [scanString.eq_def]
  simp only [if_neg h]

theorem scanString_quoted (t rest : Bytes) (h : StopsAt (· == 39) rest) :
    scanString 39 (replaceAll 39 [39, 39] t ++ 39 :: rest) = some (t, rest) := by
  induction t with
  | nil =>
    cases rest with
    | nil => rfl
    | cons b s =>
      have hb : b ≠ 39 := by simpa using h b rfl
      simp [replaceAll, scanString, hb]
  | cons b t ih =>
    by_cases hb : b = 39
    · subst hb
      change scanString 39 (39 :: 39 :: (replaceAll 39 [39, 39] t ++ 39 :: rest)) = _
      simp [scanString, ih]
    · have hcons : replaceAll 39 [39, 39] (b :: t) = b :: replaceAll 39 [39, 39] t := by
        simp [replaceAll, hb]
      simp only [hcons, List.cons_append, scanString_of_ne hb, ih, Option.map_some]

theorem scanString_open (t : Bytes) : scanString 39 (replaceAll 39 [39, 39] t) = none := by
  induction t with
  | nil => rfl
  | cons b t ih =>
    by_cases hb : b = 39
    · subst hb
      change scanString 39 (39 :: 39 :: replaceAll 39 [39, 39] t) = _
      simp [scanString, ih]
    · have hcons : replaceAll 39 [39, 39] (b :: t) = b :: replaceAll 39 [39, 39] t := by
        simp [replaceAll, hb]
      simp only [hcons, scanString_of_ne hb, ih, Option.map_none]

theorem step_quote (s : Bytes) :
    step (39 :: s) = (scanString 39 s).map fun r => (some (.string r.1), r.2) := rfl

theorem tokens_quoted (t : Bytes) {rest : Bytes} (h : StopsAt (· == 39) rest) :
    tokens (39 :: (replaceAll 39 [39, 39] t ++ 39 :: rest)) =
      (tokens rest).map (.string t :: ·) := by
  refine tokens_step (o := some (.string t)) ?_
  rw [step_quote, scanString_quoted t rest h]
  rfl

/-- A text that ends inside quotes has no tokens. -/
theorem tokens_open (t : Bytes) : tokens (39 :: replaceAll 39 [39, 39] t) = none := by
  refine tokens_illegal (by simp) ?_
  rw [step_quote, scanString_open]
  rfl

end Sqlite
