import Spinny.Ews.Urls

/-!
# Escapes that are not two hexadecimal digits

`decode_str` extracts an `int` from the two bytes behind a `%`, and a stream has its own ideas of
what a number is: it skips a blank, takes a sign and stops at the first byte that is no digit.

* `refDecode`: the decoder of bytes, which knows only two hexadecimal digits.
* `readsPartly`: the pairs from which a stream reads a number that are not two digits.
* `decodeStr_eq_iff`: the two decoders agree on a text exactly if no escape in it is such a pair.
-/

namespace Ews

open Bytes Boost

/-- The byte that two hexadecimal digits denote. -/
def digitPair (a b : UInt8) : Option UInt8 :=
  match hexVal a, hexVal b with
  | some v, some v' => some (UInt8.ofNat (16 * v + v').toNat)
  | _, _ => none

/-- The reference decoder: an escape that is not two hexadecimal digits yields nothing. -/
def refDecode : Bytes → Bytes
  | [] => []
  | 37 :: a :: b :: s => (digitPair a b).toList ++ refDecode s
  | 37 :: _ => []
  | b :: s => b :: refDecode s

/-- A byte that `operator >>` passes over before the digits: a blank or a sign. -/
def leadsIn (a : UInt8) : Bool := isSpace a || a == 43 || a == 45

/-- The pair is not two hexadecimal digits and a stream reads a number from it: a digit behind a
blank or a sign, or a digit before something else that does not make a `0x` of it. -/
def readsPartly (a b : UInt8) : Bool :=
  (leadsIn a && (hexVal b).isSome) ||
    ((hexVal a).isSome && (hexVal b).isNone && !(a == 48 && (b == 120 || b == 88)))

/-- No escape that the scan of a text meets is such a pair. -/
def wholeEscapes : Bytes → Bool
  | [] => true
  | 37 :: a :: b :: s => !readsPartly a b && wholeEscapes s
  | 37 :: _ => true
  | _ :: s => wholeEscapes s

/-! ## One escape -/

theorem hexVal_range {b : UInt8} {v : Int} (h : hexVal b = some v) : 0 ≤ v ∧ v < 16 := by
  have := b.toNat_lt
  unfold hexVal at h
  simp only [UInt8.le_iff_toNat_le, UInt8.reduceToNat] at h
  split at h
  · obtain rfl := Option.some.inj h
    omega
  · split at h
    · obtain rfl := Option.some.inj h
      omega
    · split at h
      · obtain rfl := Option.some.inj h
        omega
      · cases h

/-- A digit is no blank and no sign. -/
theorem hexVal_leadsIn {a : UInt8} (h : leadsIn a = true) : hexVal a = none := by
  have key : ∀ a : UInt8, leadsIn a = true → hexVal a = none := by decide +kernel
  exact key a h

theorem hexGet_leadsIn {a : UInt8} (h : leadsIn a = true) (b : UInt8) :
    (hexGet a b).isSome = (hexVal b).isSome := by
  simp only [leadsIn, Bool.or_eq_true] at h
  unfold hexGet
  split_ifs with h₁ h₂ h₃
  · rfl
  · rfl
  · rw [Option.isSome_map]
  · simp [h₁, h₂, h₃] at h
  · simp [h₁, h₂, h₃] at h

theorem hexGet_plain {a : UInt8} (h : leadsIn a = false) (b : UInt8) :
    hexGet a b = (hexVal a).bind fun v =>
      if a == 48 && (b == 120 || b == 88) then none
      else some ((hexVal b).elim v fun v' => 16 * v + v') := by
  simp only [leadsIn, Bool.or_eq_false_iff] at h
  simp only [hexGet, h, Bool.false_eq_true, if_false]
  cases hexVal a with
  | none => rfl
  | some v => cases hexVal b <;> rfl

/-- A stream reads a number from two digits and from a pair that is read in part. -/
theorem hexGet_isSome (a b : UInt8) :
    (hexGet a b).isSome = (readsPartly a b || (digitPair a b).isSome) := by
  cases h : leadsIn a with
  | true =>
    rw [hexGet_leadsIn h, readsPartly, digitPair, h, hexVal_leadsIn h]
    simp
  | false =>
    have hleads : (a == 48 && (b == 120 || b == 88)) = true → hexVal b = none := by
      intro hx
      simp only [Bool.and_eq_true, Bool.or_eq_true, beq_iff_eq] at hx
      rcases hx.2 with rfl | rfl <;> rfl
    rw [hexGet_plain h, readsPartly, digitPair, h]
    cases hexVal a with
    | none => simp
    | some v =>
      cases hb : hexVal b with
      | none => cases hx : (a == 48 && (b == 120 || b == 88)) <;> simp
      | some v' =>
        cases hx : (a == 48 && (b == 120 || b == 88)) with
        | true => exact nomatch hb.symm.trans (hleads hx)
        | false => simp

/-- A pair that is read in part is not two digits. -/
theorem digitPair_partly {a b : UInt8} (h : readsPartly a b = true) : digitPair a b = none := by
  unfold digitPair
  rcases Bool.or_eq_true_iff.mp h with hlead | hfirst
  · rw [hexVal_leadsIn (Bool.and_eq_true_iff.mp hlead).1]
  · simp only [Bool.and_eq_true, Option.isNone_iff_eq_none] at hfirst
    rw [hfirst.1.2]
    cases hexVal a <;> rfl

/-- From a pair that is read in part comes a byte. -/
theorem decodePair_partly {a b : UInt8} (h : readsPartly a b = true) :
    ∃ c, decodePair a b = [c] := by
  have hread := hexGet_isSome a b
  rw [h, Bool.true_or] at hread
  obtain ⟨v, hv⟩ := Option.isSome_iff_exists.mp hread
  exact ⟨UInt8.ofNat (v % 256).toNat, by rw [decodePair, hv]⟩

/-- From every other pair comes what the reference has. -/
theorem decodePair_whole {a b : UInt8} (h : readsPartly a b = false) :
    decodePair a b = (digitPair a b).toList := by
  have hread := hexGet_isSome a b
  rw [h, Bool.false_or] at hread
  cases hd : digitPair a b with
  | none =>
    rw [hd, Option.isSome_none, Option.isSome_eq_false_iff, Option.isNone_iff_eq_none] at hread
    rw [decodePair, hread, Option.toList_none]
  | some c =>
    unfold digitPair at hd
    split at hd
    · rename_i v v' ha hb
      have hv := hexVal_range ha
      have hv' := hexVal_range hb
      have hmod : (16 * v + v') % 256 = 16 * v + v' := by omega
      obtain rfl := Option.some.inj hd
      rw [decodePair, hexGet_digits ha hb, Option.toList_some]
      simp only [hmod]
    · cases hd

/-! ## Whole texts -/

/-- A `%` with fewer than two bytes behind it. -/
theorem decode_short {s : Bytes} (h : ∀ a b t, s = a :: b :: t → False) :
    decodeStr (37 :: s) = [] ∧ refDecode (37 :: s) = [] ∧ wholeEscapes (37 :: s) = true := by
  rcases s with _ | ⟨a, _ | ⟨b, t⟩⟩
  · exact ⟨rfl, rfl, rfl⟩
  · exact ⟨rfl, rfl, rfl⟩
  · exact absurd rfl (h a b t)

/-- A byte that begins no escape. -/
theorem decode_other {b : UInt8} (h : b ≠ 37) (s : Bytes) :
    refDecode (b :: s) = b :: refDecode s ∧ wholeEscapes (b :: s) = wholeEscapes s := by
  constructor
  · conv => lhs; unfold refDecode
    split <;> simp_all
  · conv => lhs; unfold wholeEscapes
    split <;> simp_all

/-- `decode_str` loses no byte of the reference. -/
theorem length_refDecode_le (s : Bytes) : (refDecode s).length ≤ (decodeStr s).length := by
  fun_induction refDecode s with
  | case1 => exact Nat.zero_le _
  | case2 a b s ih =>
    rw [decodeStr, List.length_append, List.length_append]
    cases h : readsPartly a b with
    | true =>
      obtain ⟨c, hc⟩ := decodePair_partly h
      rw [hc, digitPair_partly h, Option.toList_none, List.length_nil]
      omega
    | false =>
      rw [decodePair_whole h]
      omega
  | case3 s h => exact Nat.zero_le _
  | case4 b s _ hb ih =>
    rw [decodeStr_cons hb, List.length_cons, List.length_cons]
    omega

/-- **The decoders agree** on a text exactly if a stream reads a number from no escape in it but
from those that are two hexadecimal digits. -/
theorem decodeStr_eq_iff (s : Bytes) : decodeStr s = refDecode s ↔ wholeEscapes s = true := by
  fun_induction refDecode s with
  | case1 => exact iff_of_true rfl rfl
  | case2 a b s ih =>
    rw [decodeStr, wholeEscapes]
    cases h : readsPartly a b with
    | true =>
      refine iff_of_false (fun heq => ?_) (by simp)
      obtain ⟨c, hc⟩ := decodePair_partly h
      have hlen := congrArg List.length heq
      rw [hc, digitPair_partly h, List.length_append, List.length_append, Option.toList_none,
        List.length_nil, List.length_singleton] at hlen
      have := length_refDecode_le s
      omega
    | false =>
      rw [decodePair_whole h, List.append_right_inj, ih]
      rfl
  | case3 s h =>
    obtain ⟨hdecode, -, hwhole⟩ := decode_short h
    exact iff_of_true hdecode hwhole
  | case4 b s _ hb ih =>
    rw [decodeStr_cons hb, (decode_other hb s).2, List.cons_inj_right, ih]

/-- A sign before a digit: `+5` denotes no byte, and `decode_str` makes the byte 5 of it. -/
theorem signed_escape : decodeStr (lit "%+5") ≠ refDecode (lit "%+5") := by decide

end Ews
