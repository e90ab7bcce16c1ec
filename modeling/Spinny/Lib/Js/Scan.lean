import Spinny.Lib.Reader

/-!
# The tokens of literals of JavaScript

The tokens of a text in JavaScript, read byte by byte, as far as literals go: names, decimal
numbers, strings in either quote with their escapes, and marks. The bytes of a character beyond
ASCII stand for themselves; an escape stands for the bytes of its character in UTF-8.

* `step`: what one byte does; `scan`, `tokens`: the reading of a text.
-/

namespace Js

open Bytes

/-- A token. -/
inductive Token where
  | word (w : Bytes)
  | number (digits : Bytes)
  | string (s : Bytes)
  | mark (b : UInt8)
  deriving DecidableEq

/-- How far an escape in a string has been read. -/
inductive Escape where
  | none
  /-- Behind the backslash. -/
  | start
  /-- Behind `\x` or `\u` and some hexadecimal digits; `left` are to come. -/
  | hex (left value : Nat)
  /-- Behind `\u{` and some digits. -/
  | brace (value : Option Nat)
  /-- Behind octal digits; `left` more may come. -/
  | octal (left value : Nat)
  /-- Behind a backslash and a carriage return. -/
  | cr
  deriving DecidableEq

/-- Where the reading of a text stands. -/
inductive Mode where
  | idle
  | word (w : Bytes)
  | number (digits : Bytes)
  | quoted (q : UInt8) (read : Bytes) (escape : Escape)
  deriving DecidableEq

/-- A letter, `_` or `$`. -/
def isNameStart (b : UInt8) : Bool :=
  (65 ≤ b && b ≤ 90) || (97 ≤ b && b ≤ 122) || b == 95 || b == 36

/-- White space and the ends of lines. -/
def isBlank (b : UInt8) : Bool := b == 32 || (9 ≤ b && b ≤ 13)

/-- The value of a hexadecimal digit. -/
def hexValue (b : UInt8) : Option Nat :=
  if isDigit b then some (digitVal b)
  else if 65 ≤ b ∧ b ≤ 70 then some (b.toNat - 55)
  else if 97 ≤ b ∧ b ≤ 102 then some (b.toNat - 87)
  else none

/-- A character in UTF-8. -/
def utf8 (n : Nat) : Bytes :=
  if n < 0x80 then [UInt8.ofNat n]
  else if n < 0x800 then [UInt8.ofNat (0xC0 + n / 0x40), UInt8.ofNat (0x80 + n % 0x40)]
  else if n < 0x10000 then
    [UInt8.ofNat (0xE0 + n / 0x1000), UInt8.ofNat (0x80 + n / 0x40 % 0x40),
      UInt8.ofNat (0x80 + n % 0x40)]
  else
    [UInt8.ofNat (0xF0 + n / 0x40000), UInt8.ofNat (0x80 + n / 0x1000 % 0x40),
      UInt8.ofNat (0x80 + n / 0x40 % 0x40), UInt8.ofNat (0x80 + n % 0x40)]

/-- A byte behind a backslash that begins no longer escape. -/
def unescaped (b : UInt8) : UInt8 :=
  if b = 98 then 8 else if b = 116 then 9 else if b = 110 then 10 else if b = 118 then 11
  else if b = 102 then 12 else if b = 114 then 13 else b

/-! ## Reading -/

/-- A byte between tokens. -/
def idleStep (b : UInt8) : List Token × Mode :=
  if isBlank b then ([], .idle)
  else if b = 39 ∨ b = 34 then ([], .quoted b [] .none)
  else if isDigit b then ([], .number [b])
  else if isNameStart b then ([], .word [b])
  else ([.mark b], .idle)

/-- A byte in a string. -/
def plainStep (q : UInt8) (read : Bytes) (b : UInt8) : Option (List Token × Mode) :=
  if b = q then some ([.string read], .idle)
  else if b = 92 then some ([], .quoted q read .start)
  else if b = 10 ∨ b = 13 then none
  else some ([], .quoted q (read ++ [b]) .none)

/-- A byte behind a backslash. -/
def startStep (q : UInt8) (read : Bytes) (b : UInt8) : List Token × Mode :=
  if b = 10 then ([], .quoted q read .none)
  else if b = 13 then ([], .quoted q read .cr)
  else if b = 120 then ([], .quoted q read (.hex 2 0))
  else if b = 117 then ([], .quoted q read (.hex 4 0))
  else if 48 ≤ b ∧ b ≤ 51 then ([], .quoted q read (.octal 2 (digitVal b)))
  else if 52 ≤ b ∧ b ≤ 55 then ([], .quoted q read (.octal 1 (digitVal b)))
  else ([], .quoted q (read ++ [unescaped b]) .none)

/-- A byte in a string, by the escape that it may belong to. -/
def quotedStep (q : UInt8) (read : Bytes) : Escape → UInt8 → Option (List Token × Mode)
  | .none, b => plainStep q read b
  | .start, b => some (startStep q read b)
  | .hex left value, b =>
    match hexValue b with
    | some d =>
      if left ≤ 1 then some ([], .quoted q (read ++ utf8 (16 * value + d)) .none)
      else some ([], .quoted q read (.hex (left - 1) (16 * value + d)))
    | none => if left = 4 ∧ b = 123 then some ([], .quoted q read (.brace none)) else none
  | .brace value, b =>
    match hexValue b with
    | some d =>
      let value := 16 * value.getD 0 + d
      if value ≤ 0x10FFFF then some ([], .quoted q read (.brace (some value))) else none
    | none => if b = 125 then value.map fun n => ([], .quoted q (read ++ utf8 n) .none) else none
  | .octal left value, b =>
    if 0 < left ∧ 48 ≤ b ∧ b ≤ 55 then
      some ([], .quoted q read (.octal (left - 1) (8 * value + digitVal b)))
    else plainStep q (read ++ utf8 value) b
  | .cr, b => if b = 10 then some ([], .quoted q read .none) else plainStep q read b

/-- One byte: the tokens that it completes, and how the reading goes on. -/
def step : Mode → UInt8 → Option (List Token × Mode)
  | .idle, b => some (idleStep b)
  | .word w, b =>
    if isNameStart b || isDigit b then some ([], .word (w ++ [b]))
    else some (.word w :: (idleStep b).1, (idleStep b).2)
  | .number d, b =>
    if isDigit b then some ([], .number (d ++ [b]))
    else some (.number d :: (idleStep b).1, (idleStep b).2)
  | .quoted q read e, b => quotedStep q read e b

/-- The token that the end of the text completes. -/
def finish : Mode → Option (List Token)
  | .idle => some []
  | .word w => some [.word w]
  | .number d => some [.number d]
  | .quoted .. => none

/-- The reading of literals. -/
@[reducible] def reader : Reader Token Mode := ⟨step, finish⟩

/-- The tokens that a text completes. -/
abbrev scan (m : Mode) (text : Bytes) : Option (List Token × Mode) := reader.scan m text

/-- The tokens of what is left of a text. -/
abbrev tokensFrom (m : Mode) (text : Bytes) : Option (List Token) := reader.tokensFrom m text

/-- The tokens of a text. -/
def tokens (text : Bytes) : Option (List Token) := tokensFrom .idle text

end Js
