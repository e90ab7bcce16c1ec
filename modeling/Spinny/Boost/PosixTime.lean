import Spinny.Boost.Strings

/-!
# Times as text

`boost::posix_time::ptime` with microseconds: a moment of the calendar, or one of the special
values. `toIsoString` writes `YYYYMMDDTHHMMSS`, with a fraction if there is one.

* `fromIsoString`: reads the texts that `toIsoString` writes.
* `fromIsoString_iff`: what is read back is what was written, except for the special values.
-/

namespace Boost

open Bytes

/-- `gregorian_calendar::end_of_month_day`. -/
def endOfMonthDay (year month : Nat) : Nat :=
  if month = 2 then
    if year % 4 = 0 ∧ (year % 100 ≠ 0 ∨ year % 400 = 0) then 29 else 28
  else if month = 4 ∨ month = 6 ∨ month = 9 ∨ month = 11 then 30
  else 31

/-- A date and a time of day. -/
structure Moment where
  year : Nat
  month : Nat
  day : Nat
  hours : Nat
  minutes : Nat
  seconds : Nat
  fraction : Nat
  date_valid : 1400 ≤ year ∧ year < 10000 ∧ 1 ≤ month ∧ month ≤ 12 ∧ 1 ≤ day ∧
    day ≤ endOfMonthDay year month
  time_valid : hours < 24 ∧ minutes < 60 ∧ seconds < 60 ∧ fraction < 1000000
  deriving DecidableEq

/-- A `ptime`. -/
inductive PTime where
  | notADateTime
  | posInfinity
  | negInfinity
  | moment (m : Moment)
  deriving DecidableEq

/-- A number below `10 ^ w` in a field of width `w`, filled with `0`. -/
def setw : Nat → Nat → Bytes
  | 0, _ => []
  | w + 1, n => setw w (n / 10) ++ [UInt8.ofNat (48 + n % 10)]

/-- `to_iso_string`. -/
def PTime.toIsoString : PTime → Bytes
  | notADateTime => lit "not-a-date-time"
  | posInfinity => lit "+infinity"
  | negInfinity => lit "-infinity"
  | moment m =>
    setw 4 m.year ++ setw 2 m.month ++ setw 2 m.day ++ lit "T" ++ setw 2 m.hours ++
      setw 2 m.minutes ++ setw 2 m.seconds ++
      if m.fraction = 0 then [] else lit "." ++ setw 6 m.fraction

/-- The fraction of a second, with the point. -/
def readFraction : Bytes → Option Nat
  | [] => some 0
  | 46 :: s => if s.length = 6 then lexicalCastUnsigned 63 s else none
  | _ => none

/-- A field of `w` bytes, cast to a type of `k` bits. -/
def readField (w k : Nat) (s : Bytes) : Option (Nat × Bytes) :=
  (lexicalCastUnsigned k (s.take w)).map fun n => (n, s.drop w)

/-- The moment with these parts, if there is one. -/
def ofParts (year month day hours minutes seconds fraction : Nat) : Option PTime :=
  if hd : 1400 ≤ year ∧ year < 10000 ∧ 1 ≤ month ∧ month ≤ 12 ∧ 1 ≤ day ∧
      day ≤ endOfMonthDay year month then
    if ht : hours < 24 ∧ minutes < 60 ∧ seconds < 60 ∧ fraction < 1000000 then
      some (.moment ⟨year, month, day, hours, minutes, seconds, fraction, hd, ht⟩)
    else none
  else none

/-- `from_iso_string`, on the texts `YYYYMMDDTHHMMSS` with or without six places behind a point. -/
def fromIsoString (s : Bytes) : Option PTime := do
  let (year, s) ← readField 4 16 s
  let (month, s) ← readField 2 16 s
  let (day, s) ← readField 2 16 s
  guard (s.head? = some 84)
  let (hours, s) ← readField 2 31 s.tail
  let (minutes, s) ← readField 2 15 s
  let (seconds, s) ← readField 2 15 s
  let fraction ← readFraction s
  ofParts year month day hours minutes seconds fraction

/-! ## Fields of digits -/

@[simp] theorem length_setw (w n : Nat) : (setw w n).length = w := by
  induction w generalizing n with
  | zero => rfl
  | succ w ih => simp [setw, ih]

theorem digit_of_lt {n : Nat} (h : n < 10) :
    isDigit (UInt8.ofNat (48 + n)) = true ∧ digitVal (UInt8.ofNat (48 + n)) = n := by
  have : (UInt8.ofNat (48 + n)).toNat = 48 + n := by
    rw [UInt8.toNat_ofNat']
    omega
  exact ⟨isDigit_iff.mpr (by omega), by rw [digitVal, this]; omega⟩

theorem isDigit_of_mem_setw {w n : Nat} {b : UInt8} (h : b ∈ setw w n) : isDigit b = true := by
  induction w generalizing n with
  | zero => cases h
  | succ w ih =>
    rcases List.mem_append.mp h with h | h
    · exact ih h
    · obtain rfl := List.mem_singleton.mp h
      exact (digit_of_lt (Nat.mod_lt _ (by decide))).1

theorem foldDigits_setw {w n : Nat} (h : n < 10 ^ w) : foldDigits 0 (setw w n) = n := by
  induction w generalizing n with
  | zero =>
    simp only [Nat.pow_zero, Nat.lt_one_iff] at h
    simp [setw, h]
  | succ w ih =>
    rw [setw, foldDigits_append, ih (by rw [Nat.pow_succ] at h; omega), foldDigits_cons,
      foldDigits_nil, (digit_of_lt (Nat.mod_lt _ (by decide))).2]
    omega

/-- A field of digits is read back. -/
theorem lexicalCastUnsigned_setw {w k n : Nat} (hw : w ≠ 0) (h : n < 10 ^ w) (hk : n < 2 ^ k) :
    lexicalCastUnsigned k (setw w n) = some n := by
  have hne : setw w n ≠ [] := by
    intro he
    have := length_setw w n
    rw [he] at this
    exact hw this.symm
  rw [lexicalCastUnsigned_of_digits hne (fun _ hb => isDigit_of_mem_setw hb)
    (by rwa [foldDigits_setw h]), foldDigits_setw h]

/-! ## Round trip -/

theorem readFraction_eq {n : Nat} (h : n < 1000000) :
    readFraction (if n = 0 then [] else lit "." ++ setw 6 n) = some n := by
  split
  · rename_i h0
    rw [h0]
    rfl
  · change (if (setw 6 n).length = 6 then lexicalCastUnsigned 63 (setw 6 n) else none) = some n
    rw [if_pos (length_setw 6 n), lexicalCastUnsigned_setw (by decide) h (by omega)]

theorem readField_setw {w k n : Nat} (hw : w ≠ 0) (h : n < 10 ^ w) (hk : n < 2 ^ k) (s : Bytes) :
    readField w k (setw w n ++ s) = some (n, s) := by
  rw [readField, List.take_left' (length_setw w n), List.drop_left' (length_setw w n),
    lexicalCastUnsigned_setw hw h hk]
  rfl

/-- A moment is read back. -/
theorem fromIsoString_moment (m : Moment) :
    fromIsoString (PTime.moment m).toIsoString = some (.moment m) := by
  obtain ⟨y, mo, d, h, mi, s, f, hd, ht⟩ := m
  have hday : d < 10 ^ 2 := by
    have : endOfMonthDay y mo ≤ 31 := by
      unfold endOfMonthDay
      split_ifs <;> omega
    omega
  have hT : lit "T" = [84] := by decide
  simp only [fromIsoString, PTime.toIsoString, hT, List.append_assoc, List.singleton_append,
    Option.bind_eq_bind]
  rw [readField_setw (by decide) (by omega) (by omega), Option.bind_some,
    readField_setw (by decide) (by omega) (by omega), Option.bind_some,
    readField_setw (by decide) hday (by omega), Option.bind_some]
  simp only [List.cons_append, List.head?_cons, List.tail_cons, guard_true, Option.pure_def,
    Option.bind_some]
  rw [readField_setw (by decide) (by omega) (by omega), Option.bind_some,
    readField_setw (by decide) (by omega) (by omega), Option.bind_some,
    readField_setw (by decide) (by omega) (by omega), Option.bind_some, readFraction_eq ht.2.2.2,
    Option.bind_some, ofParts, dif_pos hd, dif_pos ht]

/-- The time is a moment. -/
def PTime.isMoment : PTime → Bool
  | moment _ => true
  | _ => false

/-- **Round trip**: the special values are written as words, which no reader takes. -/
theorem fromIsoString_iff (t : PTime) :
    fromIsoString t.toIsoString = some t ↔ t.isMoment = true := by
  cases t with
  | moment m => exact iff_of_true (fromIsoString_moment m) rfl
  | notADateTime => decide
  | posInfinity => decide
  | negInfinity => decide

/-- A text that is written holds no NUL. -/
theorem nulFree_toIsoString (t : PTime) : nulFree t.toIsoString = true := by
  cases t with
  | moment m =>
    have hw : ∀ w n, 0 ∉ setw w n := fun w n h => absurd (isDigit_of_mem_setw h) (by decide)
    simp only [PTime.toIsoString, nulFree, Bool.not_eq_true', List.contains_eq_mem,
      decide_eq_false_iff_not, List.mem_append, hw, false_or, not_or]
    refine ⟨by decide, ?_⟩
    split
    · simp
    · simp only [List.mem_append, hw, or_false]
      decide
  | _ => decide

end Boost
