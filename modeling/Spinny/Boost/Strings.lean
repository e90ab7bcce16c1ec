import Spinny.Lib.Bytes

/-!
# The boost and library string functions the request code calls

* `lexicalCastUnsigned`, `lexicalCastSigned`: `boost::lexical_cast` from a string to an integer
  type, the `operator >>` of a stream in base 10 without skipping white space, up to the end of
  the text.
* `hexGet`: `istringstream( s ) >> std::hex >> value` for a text of two characters.
* `splitSlash`: `boost::split( .., is_any_of( "/" ), token_compress_on )`.
-/

namespace Boost

open Bytes

/-- The digits of an unsigned reader: a whole text of at least one digit. -/
def digits (s : Bytes) : Option Nat :=
  if s ≠ [] ∧ s.all isDigit then some (foldDigits 0 s) else none

/-- `boost::lexical_cast` of a text to an unsigned type of `w` bits. The stream takes a sign and
negates modulo `2 ^ w`; a magnitude of `w` bits or more fails. -/
def lexicalCastUnsigned (w : Nat) : Bytes → Option Nat
  | 45 :: s => (digits s).bind fun n => if n < 2 ^ w then some ((2 ^ w - n) % 2 ^ w) else none
  | 43 :: s => (digits s).bind fun n => if n < 2 ^ w then some n else none
  | s => (digits s).bind fun n => if n < 2 ^ w then some n else none

/-- `boost::lexical_cast` of a text to a signed type of `w + 1` bits. -/
def lexicalCastSigned (w : Nat) : Bytes → Option Int
  | 45 :: s => (digits s).bind fun n => if n ≤ 2 ^ w then some (-n) else none
  | 43 :: s => (digits s).bind fun n => if n < 2 ^ w then some n else none
  | s => (digits s).bind fun n => if n < 2 ^ w then some n else none

/-- `boost::lexical_cast<unsigned int>`. -/
def toUnsigned : Bytes → Option Nat := lexicalCastUnsigned 32

/-- `boost::lexical_cast<int>`. -/
def toInt : Bytes → Option Int := lexicalCastSigned 31

/-- `boost::lexical_cast<sqlite::id_t>` (`long long`). -/
def toId : Bytes → Option Int := lexicalCastSigned 63

theorem digits_of_all {s : Bytes} (h : s ≠ []) (hd : ∀ b ∈ s, isDigit b = true) :
    digits s = some (foldDigits 0 s) := by
  rw [digits, if_pos ⟨h, List.all_eq_true.mpr hd⟩]

/-- A decimal number is not read as a signed one: its first byte is a digit. -/
theorem lexicalCastUnsigned_of_digits {w : Nat} {s : Bytes} (h : s ≠ [])
    (hd : ∀ b ∈ s, isDigit b = true) (hlt : foldDigits 0 s < 2 ^ w) :
    lexicalCastUnsigned w s = some (foldDigits 0 s) := by
  obtain ⟨b, t, rfl⟩ := List.exists_cons_of_ne_nil h
  have hb := isDigit_iff.mp (hd b (by simp))
  unfold lexicalCastUnsigned
  split
  · simp_all
  · simp_all
  · rw [digits_of_all h hd]
    simp only [Option.bind_some, if_pos hlt]

/-- The casts read back what an output stream prints. -/
theorem lexicalCastUnsigned_decimal {w n : Nat} (h : n < 2 ^ w) :
    lexicalCastUnsigned w (decimal n) = some n := by
  have h' : foldDigits 0 (decimal n) < 2 ^ w := by rwa [foldDigits_decimal]
  rw [lexicalCastUnsigned_of_digits (decimal_ne_nil n) (fun _ hb => isDigit_of_mem_decimal hb) h',
    foldDigits_decimal]

theorem lexicalCastSigned_of_digits {w : Nat} {s : Bytes} (h : s ≠ [])
    (hd : ∀ b ∈ s, isDigit b = true) :
    lexicalCastSigned w s =
      if foldDigits 0 s < 2 ^ w then some (foldDigits 0 s : Int) else none := by
  obtain ⟨b, t, rfl⟩ := List.exists_cons_of_ne_nil h
  have hb := isDigit_iff.mp (hd b (by simp))
  unfold lexicalCastSigned
  split
  · simp_all
  · simp_all
  · rw [digits_of_all h hd]
    rfl

/-- The casts to signed types read back what an output stream prints. -/
theorem lexicalCastSigned_showInt {w : Nat} {n : Int} (h₁ : -2 ^ w ≤ n) (h₂ : n < 2 ^ w) :
    lexicalCastSigned w (showInt n) = some n := by
  have hd : ∀ b ∈ decimal n.natAbs, isDigit b = true := fun _ hb => isDigit_of_mem_decimal hb
  have hne := decimal_ne_nil n.natAbs
  have hpow : ((2 ^ w : Nat) : Int) = 2 ^ w := by push_cast; rfl
  unfold showInt
  split
  · have hle : n.natAbs ≤ 2 ^ w := by omega
    simp only [lexicalCastSigned, digits_of_all hne hd, foldDigits_decimal, Option.bind_some,
      if_pos hle]
    congr 1
    omega
  · have hlt : n.natAbs < 2 ^ w := by omega
    rw [lexicalCastSigned_of_digits hne hd, foldDigits_decimal, if_pos hlt]
    congr 1
    omega

/-- A text whose first byte is no sign and no digit is no number. -/
theorem lexicalCastSigned_eq_none {w : Nat} {b : UInt8} (t : Bytes) (h₁ : b ≠ 45) (h₂ : b ≠ 43)
    (h₃ : isDigit b = false) : lexicalCastSigned w (b :: t) = none := by
  have hd : digits (b :: t) = none := by simp [digits, h₃]
  unfold lexicalCastSigned
  split
  · simp_all
  · simp_all
  · rw [hd]
    rfl

/-! ## Hexadecimal pairs -/

/-- The value of a hexadecimal digit. -/
def hexVal (b : UInt8) : Option Int :=
  if 48 ≤ b ∧ b ≤ 57 then some (b.toNat - 48 : Int)
  else if 65 ≤ b ∧ b ≤ 70 then some (b.toNat - 55 : Int)
  else if 97 ≤ b ∧ b ≤ 102 then some (b.toNat - 87 : Int)
  else none

/-- White space of the C locale, which `operator >>` skips. -/
def isSpace (b : UInt8) : Bool := b == 32 || (9 ≤ b && b ≤ 13)

/-- `istringstream( { a, b } ) >> std::hex >> value`: leading white space is skipped, a sign is
taken, a second character that is no digit ends the number, and `0x` is a prefix without digits. -/
def hexGet (a b : UInt8) : Option Int :=
  if isSpace a then hexVal b
  else if a == 43 then hexVal b
  else if a == 45 then (hexVal b).map fun v => -v
  else
    match hexVal a with
    | none => none
    | some v =>
      if a == 48 && (b == 120 || b == 88) then none
      else
        match hexVal b with
        | some v' => some (16 * v + v')
        | none => some v

/-! ## Splitting -/

/-- The elements of `s` between runs of `/`. `inDelim`: the last byte was a `/`; `cur`: the
element so far. -/
def splitFrom (inDelim : Bool) (cur : Bytes) : Bytes → List Bytes
  | [] => [cur]
  | b :: s =>
    if b = 47 then
      if inDelim then splitFrom true [] s else cur :: splitFrom true [] s
    else splitFrom false (cur ++ [b]) s

/-- `boost::split( .., s, is_any_of( "/" ), token_compress_on )`. -/
def splitSlash (s : Bytes) : List Bytes := splitFrom false [] s

example : splitSlash (lit "/pl//songs/") = [[], lit "pl", lit "songs", []] := by decide

end Boost
