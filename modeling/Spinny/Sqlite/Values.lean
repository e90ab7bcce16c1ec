import Spinny.Boost.Strings

/-!
# The values of SQLite that the queries of the program rest on

* `Cell`, `store`, `Cell.print`: what a column declared `string` holds, what it makes of a literal
  and what it is read back as. SQLite knows no such type and gives the column the affinity
  NUMERIC: a text that looks like a number is stored as a number and read back as the number is
  printed.
* `Affinity`: the floating point that this rests on.
* `Text`: a value of such a column.
* `integerAffinity`: an instance for texts that are no fractions.
* `lower`, `firstChar`, `like`: `lower`, `substr( .., 1, 1 )` and the operator `LIKE` of `func.c`.
* `limitRows`: `limit first,count`.
-/

namespace Sqlite

open Bytes Boost

/-- An ASCII letter. -/
def isAlpha (b : UInt8) : Bool := (65 ≤ b && b ≤ 90) || (97 ≤ b && b ≤ 122)

/-! ## Numbers in texts -/

/-- `sqlite3IsNumber` behind the sign and the first digits. -/
def isNumberRest : Bytes → Bool
  | 46 :: b :: s => isDigit b && isExponent (s.dropWhile isDigit)
  | s => isExponent s
where
  /-- The exponent of a number, or nothing. -/
  isExponent : Bytes → Bool
    | [] => true
    | e :: s =>
      (e == 101 || e == 69) &&
        match s with
        | 43 :: b :: s => isDigit b && s.all isDigit
        | 45 :: b :: s => isDigit b && s.all isDigit
        | b :: s => isDigit b && s.all isDigit
        | [] => false

/-- A text without its sign. -/
def unsigned : Bytes → Bytes
  | 43 :: s => s
  | 45 :: s => s
  | s => s

/-- `sqlite3IsNumber`. -/
def isNumber (t : Bytes) : Bool :=
  match unsigned t with
  | b :: s => isDigit b && isNumberRest (s.dropWhile isDigit)
  | [] => false

/-- `sqlite3atoi64`: the number that a text begins with, and whether the whole text is an integer
of 64 bits. The digits are counted, so leading zeros can make a small number too long. -/
def atoi64 (t : Bytes) : Int × Bool :=
  let z := t.dropWhile isSpace
  let digits := (unsigned z).takeWhile isDigit
  let v : Int := if z.head? = some 45 then -(foldDigits 0 digits : Int) else foldDigits 0 digits
  (v.bmod (2 ^ 64),
    digits == unsigned z && 0 < digits.length &&
      (digits.length < 19 || digits.length == 19 && decide (digits ≤ lit "9223372036854775807")))

theorem unsigned_of_digit {b : UInt8} (s : Bytes) (h : isDigit b = true) :
    unsigned (b :: s) = b :: s := by
  unfold unsigned
  split
  · rename_i heq
    rw [(List.cons.inj heq).1] at h
    exact absurd h (by decide)
  · rename_i heq
    rw [(List.cons.inj heq).1] at h
    exact absurd h (by decide)
  · rfl

/-- A text that begins with a letter is no number. -/
theorem isNumber_alpha {b : UInt8} (t : Bytes) (h : isAlpha b = true) :
    isNumber (b :: t) = false := by
  simp only [isAlpha, Bool.or_eq_true, Bool.and_eq_true, decide_eq_true_eq,
    UInt8.le_iff_toNat_le, UInt8.reduceToNat] at h
  have hsign : unsigned (b :: t) = b :: t := by
    unfold unsigned
    split
    · rename_i heq
      rw [(List.cons.inj heq).1] at h
      simp at h
    · rename_i heq
      rw [(List.cons.inj heq).1] at h
      simp at h
    · rfl
  have hdigit : isDigit b = false := by
    rw [← Bool.not_eq_true, isDigit_iff]
    omega
  simp only [isNumber, hsign, hdigit, Bool.false_and]

/-- The bytes of numbers. -/
def isNumberByte (b : UInt8) : Bool :=
  isDigit b || b == 43 || b == 45 || b == 46 || b == 69 || b == 101

theorem isNumberByte_of_digit {b : UInt8} (h : isDigit b = true) : isNumberByte b = true := by
  simp [isNumberByte, h]

theorem all_isExponent {s : Bytes} (h : isNumberRest.isExponent s = true) :
    s.all isNumberByte = true := by
  have hdigits : ∀ {s : Bytes}, s.all isDigit = true → s.all isNumberByte = true := fun h =>
    List.all_eq_true.mpr fun b hb => isNumberByte_of_digit (List.all_eq_true.mp h b hb)
  cases s with
  | nil => rfl
  | cons e s =>
    simp only [isNumberRest.isExponent, Bool.and_eq_true, Bool.or_eq_true, beq_iff_eq] at h
    obtain ⟨he, hs⟩ := h
    have he' : isNumberByte e = true := by
      rcases he with rfl | rfl <;> decide
    split at hs
    all_goals
      first
      | cases hs
      | obtain ⟨hb, hs⟩ := Bool.and_eq_true_iff.mp hs
        simp [he', isNumberByte_of_digit hb, hdigits hs, show isNumberByte 43 = true from rfl,
          show isNumberByte 45 = true from rfl]

theorem all_dropWhile {p q : UInt8 → Bool} (hp : ∀ b, p b = true → q b = true) {s : Bytes}
    (h : (s.dropWhile p).all q = true) : s.all q = true := by
  rw [← List.takeWhile_append_dropWhile (p := p) (l := s), List.all_append, h, Bool.and_true]
  exact List.all_eq_true.mpr fun b hb => hp b (List.mem_takeWhile_imp hb)

/-- A number has no other bytes. -/
theorem all_isNumber {t : Bytes} (h : isNumber t = true) : t.all isNumberByte = true := by
  have hrest : ∀ {s : Bytes}, isNumberRest s = true → s.all isNumberByte = true := by
    intro s hs
    unfold isNumberRest at hs
    split at hs
    · obtain ⟨hb, hs⟩ := Bool.and_eq_true_iff.mp hs
      simp [isNumberByte_of_digit hb, show isNumberByte 46 = true from rfl,
        all_dropWhile (fun _ => isNumberByte_of_digit) (all_isExponent hs)]
    · exact all_isExponent hs
  have hsign : (unsigned t).all isNumberByte = true := by
    unfold isNumber at h
    split at h
    · rename_i b s heq
      obtain ⟨hb, hs⟩ := Bool.and_eq_true_iff.mp h
      rw [heq, List.all_cons, isNumberByte_of_digit hb, Bool.true_and]
      exact all_dropWhile (fun _ => isNumberByte_of_digit) (hrest hs)
    · cases h
  unfold unsigned at hsign
  split at hsign
  · rw [List.all_cons, hsign]
    rfl
  · rw [List.all_cons, hsign]
    rfl
  · exact hsign

/-! ## What a column stores -/

/-- A REAL, as the 64 bits of its double. -/
abbrev Double := UInt64

/-- The floating point behind the columns declared `string`: how SQLite reads, prints, converts
and compares doubles. -/
class Affinity where
  /-- `sqlite3AtoF`. -/
  atoF : Bytes → Double
  /-- The text that `"%!.15g"` prints. -/
  printDouble : Double → Bytes
  /-- `(i64)r`. -/
  ofDouble : Double → Int64
  /-- `(double)i`. -/
  toDouble : Int → Double
  /-- `r1 <= r2`. -/
  leDouble : Double → Double → Bool
  nulFree_printDouble : ∀ r, nulFree (printDouble r) = true
  /-- A double prints as a decimal number or as `NaN`. -/
  printDouble_head : ∀ r b, (printDouble r).head? = some b → b = 45 ∨ b = 78 ∨ isDigit b = true

export Affinity (atoF printDouble ofDouble toDouble leDouble nulFree_printDouble printDouble_head)

/-- A value in a column declared `string`. -/
inductive Cell where
  | integer (n : Int)
  | real (r : Double)
  | text (t : Bytes)
  deriving DecidableEq

theorem nulFree_decimal (n : Nat) : nulFree (decimal n) = true := by
  simp only [nulFree_iff]
  intro h
  have := isDigit_iff.mp (isDigit_of_mem_decimal h)
  simp at this

theorem nulFree_showInt (n : Int) : nulFree (showInt n) = true := by
  have h := nulFree_decimal n.natAbs
  unfold showInt
  split
  · simpa [nulFree] using h
  · exact h

theorem toId_alpha {b : UInt8} (t : Bytes) (h : isAlpha b = true) : toId (b :: t) = none := by
  simp only [isAlpha, Bool.or_eq_true, Bool.and_eq_true, decide_eq_true_eq,
    UInt8.le_iff_toNat_le, UInt8.reduceToNat] at h
  refine lexicalCastSigned_eq_none t ?_ ?_ ?_
  · rintro rfl
    simp at h
  · rintro rfl
    simp at h
  · rw [← Bool.not_eq_true, isDigit_iff]
    omega

/-- The floating point of a machine on which the only double is zero. No text without a fraction,
an exponent or a twentieth digit meets it. -/
@[reducible] def integerAffinity : Affinity where
  atoF _ := 0
  printDouble _ := lit "0.0"
  ofDouble _ := 0
  toDouble _ := 0
  leDouble _ _ := true
  nulFree_printDouble _ := by decide
  printDouble_head _ b h := by
    obtain rfl : 48 = b := Option.some.inj h
    decide

variable [Affinity]

/-- `sqlite3VdbeIntegerAffinity`: a double that is an integer is stored as one. -/
def integerCell (r : Double) : Cell :=
  let n := (ofDouble r).toInt
  if leDouble (toDouble n) r && leDouble r (toDouble n) then .integer n else .real r

/-- `applyAffinity`: what a literal is stored as. A fraction or an exponent keeps `atoi64` from
taking the whole text. -/
def store (t : Bytes) : Cell :=
  if isNumber t then
    if (atoi64 t).2 then .integer (atoi64 t).1 else integerCell (atoF t)
  else .text t

/-- `sqlite3VdbeMemStringify`: the text a value is read as. -/
def Cell.print : Cell → Bytes
  | .integer n => showInt n
  | .real r => printDouble r
  | .text t => t

/-- `sqlite3MemCompare`: numbers before texts, and texts byte by byte. -/
def Cell.le : Cell → Cell → Bool
  | .text s, .text t => decide (s ≤ t)
  | .text _, _ => false
  | _, .text _ => true
  | .integer m, .integer n => decide (m ≤ n)
  | .integer m, .real r => leDouble (toDouble m) r
  | .real r, .integer n => leDouble r (toDouble n)
  | .real r, .real s => leDouble r s

/-- What a literal reads back as once it is stored. -/
def coerce (t : Bytes) : Bytes := (store t).print

theorem store_of_not_number {t : Bytes} (h : isNumber t = false) : store t = .text t := by
  rw [store, h]
  rfl

theorem coerce_of_not_number {t : Bytes} (h : isNumber t = false) : coerce t = t := by
  rw [coerce, store_of_not_number h]
  rfl

theorem store_alpha (b : UInt8) (t : Bytes) (h : isAlpha b = true) :
    store (b :: t) = .text (b :: t) :=
  store_of_not_number (isNumber_alpha t h)

theorem coerce_alpha (b : UInt8) (t : Bytes) (h : isAlpha b = true) : coerce (b :: t) = b :: t :=
  coerce_of_not_number (isNumber_alpha t h)

/-- What is stored as a text is that text. -/
theorem eq_of_store_eq_text {t u : Bytes} (h : store t = .text u) : t = u := by
  rw [store] at h
  split at h
  · split at h
    · cases h
    · rw [integerCell] at h
      split at h <;> cases h
  · exact Cell.text.inj h

theorem nulFree_coerce (t : Bytes) (h : nulFree t = true) : nulFree (coerce t) = true := by
  rw [coerce]
  cases hs : store t with
  | integer n => exact nulFree_showInt n
  | real r => exact nulFree_printDouble r
  | text u => exact eq_of_store_eq_text hs ▸ h

/-- A value that a column declared `string` can hold: what it stores for a text without a NUL. -/
structure Text where
  cell : Cell
  stored : ∃ t, nulFree t = true ∧ store t = cell

@[ext]
theorem Text.ext {s t : Text} (h : s.cell = t.cell) : s = t := by
  cases s
  cases t
  cases h
  rfl

instance : DecidableEq Text := fun s t =>
  decidable_of_iff (s.cell = t.cell) ⟨Text.ext, fun h => h ▸ rfl⟩

/-- The text that a value is read as. -/
def Text.val (t : Text) : Bytes := t.cell.print

theorem Text.nulFree_val (t : Text) : nulFree t.val = true := by
  obtain ⟨s, hs, h⟩ := t.stored
  rw [val, ← h]
  exact nulFree_coerce s hs

/-- A lower-case letter. -/
def isLower (b : UInt8) : Bool := 97 ≤ b && b ≤ 122

/-- Only a text reads as something that begins with a lower-case letter. -/
theorem Cell.eq_text {c : Cell} {b : UInt8} {s : Bytes} (h : c.print = b :: s)
    (hb : isLower b = true) : c = .text (b :: s) := by
  simp only [isLower, Bool.and_eq_true, decide_eq_true_eq, UInt8.le_iff_toNat_le,
    UInt8.reduceToNat] at hb
  have hdigit : ¬isDigit b = true := by
    rw [isDigit_iff]
    omega
  cases c with
  | text t => rw [← h, print]
  | integer n =>
    refine absurd ?_ hdigit
    have hmem : ∀ x ∈ decimal n.natAbs, isDigit x = true := fun _ hx => isDigit_of_mem_decimal hx
    rw [print, showInt] at h
    split at h
    · obtain rfl := (List.cons.inj h).1
      simp at hb
    · exact hmem b (by simp [h])
  | real r =>
    have hhead : (printDouble r).head? = some b := by
      rw [show printDouble r = b :: s from h, List.head?_cons]
    rcases printDouble_head r b hhead with rfl | rfl | h'
    · simp at hb
    · simp at hb
    · exact absurd h' hdigit

/-- What a literal without a NUL is stored as. -/
def Text.ofLiteral (t : Bytes) (h : nulFree t = true) : Text := ⟨store t, t, h, rfl⟩

@[simp] theorem Text.cell_ofLiteral (t : Bytes) (h : nulFree t = true) :
    (ofLiteral t h).cell = store t := rfl

@[simp] theorem Text.val_ofLiteral (t : Bytes) (h : nulFree t = true) :
    (ofLiteral t h).val = coerce t := rfl

/-- A value that is read as a text and written back. A double is rounded when it is printed, so it
may be another one then. -/
def Text.resaved (t : Text) : Text := .ofLiteral t.val t.nulFree_val

/-- The empty text. -/
def Text.empty : Text := .ofLiteral [] rfl

instance : Inhabited Text := ⟨Text.empty⟩

/-- A literal compared with a column declared `string`. SQLite compares an INTEGER and a REAL as
doubles; of what a column stores, only the REAL that is two to the 63rd equals an INTEGER so, and
here the two are told apart. -/
def Text.eqLiteral (t : Text) (literal : Bytes) : Bool := t.cell == store literal

/-- `tolower` in the C locale. -/
def lowerAscii (b : UInt8) : UInt8 := if 65 ≤ b ∧ b ≤ 90 then b + 32 else b

/-- `lower`. -/
def lower (t : Bytes) : Bytes := t.map lowerAscii

/-- A byte inside a UTF-8 character. -/
def isContinuation (b : UInt8) : Bool := 128 ≤ b && b < 192

/-- `substr( t, 1, 1 )`. -/
def firstChar (t : Bytes) : Bytes :=
  match t.dropWhile isContinuation with
  | [] => []
  | b :: s => b :: s.takeWhile isContinuation

/-- `length`, in characters. -/
def charLength (t : Bytes) : Nat := (t.filter fun b => !isContinuation b).length

/-- `sqliteNextChar`. -/
def nextChar (t : Bytes) : Bytes := t.tail.dropWhile isContinuation

/-- What follows each place of a text where `patternCompare` tries to go on after `%` and the
character `c`: after a failed try the rest of the character is passed over. -/
def candidates (c : UInt8) (passing : Bool) : Bytes → List Bytes
  | [] => []
  | b :: t =>
    if passing && isContinuation b then candidates c true t
    else if lowerAscii b = lowerAscii c then t :: candidates c true t
    else candidates c false t

/-- `patternCompare` for `LIKE`; `any`: a `%` stands before the pattern. -/
def patternCompare (any : Bool) : Bytes → Bytes → Bool
  | [], t => any || t.isEmpty
  | c :: p, t =>
    if c = 37 then patternCompare true p t
    else if c = 95 then !t.isEmpty && patternCompare any p (nextChar t)
    else if any then (candidates c false t).any fun t => patternCompare false p t
    else
      match t with
      | [] => false
      | b :: t => decide (lowerAscii b = lowerAscii c) && patternCompare false p t

/-- `title like '%..%'`. -/
def likeAround (query title : Bytes) : Bool :=
  patternCompare false ([37] ++ query ++ [37]) title

example : likeAround (lit "oVe") (lit "A LOVE SUPREME") = true := by decide

/-- `limit first,count`: a negative `first` is 0 and a negative `count` is no limit. -/
def limitRows {α : Type} (first count : Int) (rows : List α) : List α :=
  let rows := rows.drop first.toNat
  if count < 0 then rows else rows.take count.toNat

/-- `order by upper( .. )`; rows that are equal keep their order. -/
def orderByUpper {α : Type} (key : α → Bytes) (rows : List α) : List α :=
  rows.mergeSort fun a b => decide (toUpperCopy (key a) ≤ toUpperCopy (key b))

end Sqlite
