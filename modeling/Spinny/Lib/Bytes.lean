import Mathlib

/-!
# Byte strings

Strings of the modelled program are sequences of bytes with no encoding: `Bytes` is
`List UInt8`. `lit` writes an ASCII text as bytes, `charVal` is the value of a signed `char`,
`decimal` prints a number as an output stream does, and `foldDigits` is the digit loop of a
decimal reader.

* `foldDigits_decimal`: the digit loop reads back what `decimal` prints.
* `upperAscii`: `toupper` in the C locale.
-/

/-- A string of bytes. -/
abbrev Bytes := List UInt8

namespace Bytes

/-- The bytes of an ASCII text. -/
def lit (s : String) : Bytes := s.toList.map fun c => UInt8.ofNat c.toNat

/-- The value of a byte held in a signed 8-bit `char`. -/
def charVal (b : UInt8) : Int := if b.toNat < 128 then b.toNat else (b.toNat : Int) - 256

theorem charVal_of_lt {b : UInt8} (h : b.toNat < 128) : charVal b = b.toNat := by
  simp [charVal, h]

theorem charVal_neg {b : UInt8} (h : 128 ≤ b.toNat) : charVal b < 0 := by
  have := b.toNat_lt
  simp only [charVal]
  split <;> omega

/-- An integer stored in a signed 8-bit `char`. -/
def toChar (n : Int) : Int := (n + 128) % 256 - 128

/-- An integer stored in a signed 32-bit `int` (the sum wraps). -/
def toInt32 (n : Int) : Int := (n + 2147483648) % 4294967296 - 2147483648

theorem toInt32_of_small {n : Int} (h₁ : -2147483648 ≤ n) (h₂ : n < 2147483648) :
    toInt32 n = n := by
  unfold toInt32; omega

/-- Wrapping the intermediate results of a sum does not change the wrapped sum. -/
theorem toInt32_add (a b : Int) : toInt32 (toInt32 a + b) = toInt32 (a + b) := by
  unfold toInt32; omega

/-- `toupper` in the C locale. -/
def upperAscii (b : UInt8) : UInt8 := if 97 ≤ b ∧ b ≤ 122 then b - 32 else b

/-- `boost::to_upper_copy` with the classic locale. -/
def toUpperCopy (s : Bytes) : Bytes := s.map upperAscii

/-- `boost::replace_all_copy` of the single byte `c`. -/
def replaceAll (c : UInt8) (by_ : Bytes) (s : Bytes) : Bytes :=
  s.flatMap fun b => if b = c then by_ else [b]

/-- The text holds no NUL, so a C interface sees all of it. -/
def nulFree (s : Bytes) : Bool := !s.contains 0

theorem nulFree_iff {s : Bytes} : nulFree s = true ↔ 0 ∉ s := by
  simp [nulFree]

/-- A decimal digit. -/
def isDigit (b : UInt8) : Bool := 48 ≤ b && b ≤ 57

/-- The value of a digit. -/
def digitVal (b : UInt8) : Nat := b.toNat - 48

/-- The digit loop of a decimal reader. -/
def foldDigits (acc : Nat) (s : Bytes) : Nat := s.foldl (fun a b => a * 10 + digitVal b) acc

@[simp] theorem foldDigits_nil (acc : Nat) : foldDigits acc [] = acc := rfl

@[simp] theorem foldDigits_cons (acc : Nat) (b : UInt8) (s : Bytes) :
    foldDigits acc (b :: s) = foldDigits (acc * 10 + digitVal b) s := by
  simp only [foldDigits, List.foldl_cons]

theorem foldDigits_append (acc : Nat) (s t : Bytes) :
    foldDigits acc (s ++ t) = foldDigits (foldDigits acc s) t := by
  simp [foldDigits]

/-- More digits never make the number smaller. -/
theorem le_foldDigits (acc : Nat) (s : Bytes) : acc ≤ foldDigits acc s := by
  induction s generalizing acc with
  | nil => exact Nat.le_refl _
  | cons b s ih =>
    have := ih (acc * 10 + digitVal b)
    simp only [foldDigits_cons]
    omega

theorem isDigit_iff {b : UInt8} : isDigit b = true ↔ 48 ≤ b.toNat ∧ b.toNat ≤ 57 := by
  simp [isDigit, UInt8.le_iff_toNat_le]

/-- The byte of an ASCII character. -/
def ofChar (c : Char) : UInt8 := UInt8.ofNat c.toNat

/-- A natural number as an output stream prints it. -/
def decimal (n : Nat) : Bytes := (Nat.toDigits 10 n).map ofChar

/-- An integer as an output stream prints it. -/
def showInt (n : Int) : Bytes := if n < 0 then 45 :: decimal n.natAbs else decimal n.natAbs

theorem toNat_ofChar {c : Char} (h : c.isDigit = true) :
    (ofChar c).toNat = c.toNat ∧ 48 ≤ c.toNat ∧ c.toNat ≤ 57 := by
  have h' : 48 ≤ c.toNat ∧ c.toNat ≤ 57 := by
    simp only [Char.isDigit, Bool.and_eq_true, decide_eq_true_eq, ge_iff_le,
      UInt32.le_iff_toNat_le] at h
    exact h
  refine ⟨?_, h'⟩
  simp only [ofChar, UInt8.toNat_ofNat']
  omega

theorem decimal_ne_nil (n : Nat) : decimal n ≠ [] := by
  simp [decimal, Nat.toDigits_ne_nil]

theorem isDigit_of_mem_decimal {n : Nat} {b : UInt8} (h : b ∈ decimal n) : isDigit b = true := by
  obtain ⟨c, hc, rfl⟩ := List.mem_map.mp h
  have hd := Nat.isDigit_of_mem_toDigits (by decide) (by decide) hc
  obtain ⟨he, h₁, h₂⟩ := toNat_ofChar hd
  exact isDigit_iff.mpr (by omega)

theorem foldDigits_map_ofChar (acc : Nat) (cs : List Char) (h : ∀ c ∈ cs, c.isDigit = true) :
    foldDigits acc (cs.map ofChar) = Nat.ofDigitChars 10 cs acc := by
  induction cs generalizing acc with
  | nil => simp
  | cons c cs ih =>
    have hc := (toNat_ofChar (h c (by simp))).1
    simp only [List.map_cons, foldDigits_cons, Nat.ofDigitChars_cons, digitVal, hc]
    rw [ih _ fun x hx => h x (by simp [hx]), Nat.mul_comm]
    rfl

/-- The digit loop reads back what `decimal` prints. -/
theorem foldDigits_decimal (n : Nat) : foldDigits 0 (decimal n) = n := by
  rw [decimal, foldDigits_map_ofChar _ _ fun c hc =>
    Nat.isDigit_of_mem_toDigits (by decide) (by decide) hc]
  exact Nat.ofDigitChars_toDigits (by decide) (by decide)

example : decimal 2147 = lit "2147" := by decide

end Bytes
