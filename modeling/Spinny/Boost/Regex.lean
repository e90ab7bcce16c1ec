import Spinny.Lib.Bytes

/-!
# The form regex

`boost::regex( "[?]?([^?=]*)=([^&]*)&?" )` as the non-recursive matcher of the vendored boost
searches with it. The matcher counts the states it visits in one search and raises
`std::runtime_error` when a start position fails with the count over a limit that is linear in
the length of the text (`perl_matcher_common.hpp`, `estimate_max_state_count`), while a text
without a `=` costs a number of states quadratic in its length.

* `formMatches`: the matches of a whole text in order, and whether a search gave up.
* `formElements_of_lt`: the fuel of the iteration is enough.
* `formSearch_head`: the next match is at the first `=`, with the text behind the last `?` before it
  for a name.
* `formSearch_replicate`: a run of one ordinary byte makes the search give up when it is long.
* `givesUp_of_short`: texts of at most 1000 bytes are searched to their end.
-/

namespace Boost

open Bytes

/-- `re.size()` of the form regex. -/
def formStates : Nat := 22

/-- `max_state_count` for a text of `dist` bytes. -/
def maxStateCount (dist : Nat) : Nat := 100000 + formStates * formStates * dist

/-- `[^?=]`. -/
def nameByte (b : UInt8) : Bool := b != 63 && b != 61

/-- `[^&]`. -/
def valueByte (b : UInt8) : Bool := b != 38

/-- What the search for the next match comes to. -/
inductive FormSearch where
  | noMatch
  /-- `name` is the first group; `rest` follows the `=`. -/
  | found (name rest : Bytes)
  /-- More than `max` states were visited. -/
  | overrun
  deriving DecidableEq

/-- The text after an optional `?`. -/
def skipMark (b : UInt8) (s : Bytes) : Bytes := if b = 63 then s else b :: s

/-- `find_restart_any`: try each start position in turn. A failing position costs five states,
one for each byte of the group it gives back and one for a `?` it gives back. -/
def formSearch (max count : Nat) : Bytes → FormSearch
  | [] => .noMatch
  | b :: s =>
    match (skipMark b s).dropWhile nameByte with
    | 61 :: rest => .found ((skipMark b s).takeWhile nameByte) rest
    | _ =>
      if max < count + 5 then .overrun
      else
        formSearch max (count + 5 + ((skipMark b s).takeWhile nameByte).length +
          (if b = 63 then 1 else 0)) s

/-- The groups of the matches in `s` in order, and whether a search gave up. -/
def formElements : Nat → Bytes → List (Bytes × Bytes) × Bool
  | 0, _ => ([], false)
  | fuel + 1, s =>
    match formSearch (maxStateCount s.length) 0 s with
    | .noMatch => ([], false)
    | .overrun => ([], true)
    | .found name rest =>
      let es := formElements fuel ((rest.dropWhile valueByte).drop 1)
      ((name, rest.takeWhile valueByte) :: es.1, es.2)

/-- All matches of the form regex in a text. -/
def formMatches (s : Bytes) : List (Bytes × Bytes) × Bool := formElements (s.length + 1) s

/-- Some search over the text gives up, so iterating over the matches raises. -/
def givesUp (s : Bytes) : Bool := (formMatches s).2

theorem skipMark_length_le (b : UInt8) (s : Bytes) : (skipMark b s).length ≤ s.length + 1 := by
  unfold skipMark
  split <;> simp

/-- A match is never empty: it holds the `=`. -/
theorem formSearch_found_lt {max count : Nat} {s name rest : Bytes}
    (h : formSearch max count s = .found name rest) : rest.length < s.length := by
  induction s generalizing count with
  | nil => cases h
  | cons b s ih =>
    unfold formSearch at h
    split at h
    · rename_i rest' he
      obtain ⟨-, rfl⟩ := FormSearch.found.inj h
      have hd : ((skipMark b s).dropWhile nameByte).length ≤ (skipMark b s).length :=
        (List.dropWhile_sublist _).length_le
      have hs := skipMark_length_le b s
      rw [he] at hd
      simp only [List.length_cons] at hd ⊢
      omega
    · split at h
      · cases h
      · have := ih h
        simp only [List.length_cons]
        omega

/-- The rest of the text after the value and an optional `&` is no longer. -/
theorem afterValue_length_le (rest : Bytes) :
    ((rest.dropWhile valueByte).drop 1).length ≤ rest.length := by
  have : (rest.dropWhile valueByte).length ≤ rest.length := (List.dropWhile_sublist _).length_le
  simp only [List.length_drop]
  omega

/-- One unit of fuel for each byte is enough. -/
theorem formElements_of_lt {fuel fuel' : Nat} {s : Bytes} (h : s.length < fuel)
    (h' : s.length < fuel') : formElements fuel s = formElements fuel' s := by
  induction fuel generalizing fuel' s with
  | zero => omega
  | succ fuel ih =>
    obtain _ | fuel' := fuel'
    · omega
    · unfold formElements
      split
      · rfl
      · rfl
      · rename_i name rest he
        have h₁ := formSearch_found_lt he
        have h₂ := afterValue_length_le rest
        rw [@ih fuel' _ (by omega) (by omega)]

/-- The next match of a text, and the matches after it. -/
theorem formMatches_found {s name rest : Bytes}
    (h : formSearch (maxStateCount s.length) 0 s = .found name rest) :
    formMatches s =
      ((name, rest.takeWhile valueByte) :: (formMatches ((rest.dropWhile valueByte).drop 1)).1,
        (formMatches ((rest.dropWhile valueByte).drop 1)).2) := by
  have h₁ := formSearch_found_lt h
  have h₂ := afterValue_length_le rest
  unfold formMatches
  conv => lhs; unfold formElements
  rw [h]
  simp only
  rw [@formElements_of_lt _ (((rest.dropWhile valueByte).drop 1).length + 1) _
    (by omega) (by omega)]

/-! ## Where a match is found -/

/-- The text behind the last `?`. -/
def behindMark (s : Bytes) : Bytes := s.rtakeWhile (· ≠ 63)

theorem behindMark_append (s t : Bytes) : behindMark (s ++ 63 :: t) = behindMark t := by
  unfold behindMark List.rtakeWhile
  rw [List.reverse_append, List.reverse_cons, List.append_assoc, List.takeWhile_append]
  split
  · rename_i h
    rw [(List.takeWhile_prefix _).eq_of_length h]
    simp
  · rfl

theorem behindMark_eq {s : Bytes} (h : 63 ∉ s) : behindMark s = s := by
  refine List.rtakeWhile_eq_self_iff.mpr fun b hb => ?_
  simpa using fun hb' : b = 63 => h (hb' ▸ hb)

theorem nameByte_of {s : Bytes} (h₁ : 61 ∉ s) (h₂ : 63 ∉ s) : ∀ b ∈ s, nameByte b = true := by
  intro b hb
  have hb₁ : b ≠ 61 := fun h => h₁ (h ▸ hb)
  have hb₂ : b ≠ 63 := fun h => h₂ (h ▸ hb)
  simp [nameByte, hb₁, hb₂]

/-- The name ends at the `=`. -/
theorem nameSpan {s : Bytes} (h : ∀ b ∈ s, nameByte b = true) (rest : Bytes) :
    (s ++ 61 :: rest).dropWhile nameByte = 61 :: rest ∧
      (s ++ 61 :: rest).takeWhile nameByte = s := by
  rw [List.dropWhile_append_of_pos h, List.takeWhile_append_of_pos h]
  exact ⟨List.dropWhile_cons_of_neg (by decide), by
    rw [List.takeWhile_cons_of_neg (by decide), List.append_nil]⟩

/-- A text without `=` ends or comes to a `?`. -/
theorem dropWhile_name_ne {s : Bytes} (h : 61 ∉ s) (rest : Bytes) :
    s.dropWhile nameByte ≠ 61 :: rest := by
  intro heq
  exact h ((List.dropWhile_suffix nameByte).subset (heq ▸ List.mem_cons_self))

/-- A `?` comes before the `=`. -/
theorem dropWhile_name_mark {s : Bytes} (h₁ : 61 ∉ s) (h₂ : 63 ∈ s) (t rest : Bytes) :
    (s ++ t).dropWhile nameByte ≠ 61 :: rest := by
  induction s with
  | nil => exact absurd h₂ List.not_mem_nil
  | cons c s ih =>
    obtain ⟨hc, hs⟩ := not_or.mp fun h' => h₁ (List.mem_cons.mpr h')
    rw [List.cons_append]
    by_cases hname : nameByte c = true
    · rw [List.dropWhile_cons_of_pos hname]
      refine ih hs ((List.mem_cons.mp h₂).resolve_left ?_)
      rintro rfl
      cases hname
    · rw [List.dropWhile_cons_of_neg hname]
      exact fun heq => hc (List.cons.inj heq).1.symm

/-- Where the first `=` is known, the search ends there unless it gives up. -/
theorem formSearch_head (max count : Nat) {head : Bytes} (h : 61 ∉ head) (rest : Bytes) :
    formSearch max count (head ++ 61 :: rest) = .found (behindMark head) rest ∨
      formSearch max count (head ++ 61 :: rest) = .overrun := by
  induction head generalizing count with
  | nil => exact .inl rfl
  | cons b head ih =>
    obtain ⟨hb, hhead⟩ := not_or.mp fun h' => h (List.mem_cons.mpr h')
    rw [List.cons_append]
    have hskip : skipMark b (head ++ 61 :: rest) = skipMark b head ++ 61 :: rest := by
      unfold skipMark
      split <;> rfl
    have hmem : 61 ∉ skipMark b head := by
      unfold skipMark
      split
      · exact hhead
      · exact h
    unfold formSearch
    rw [hskip]
    by_cases hmark : 63 ∈ head
    · -- The name of this position comes to a `?`.
      have hmark' : 63 ∈ skipMark b head := by
        unfold skipMark
        split
        · exact hmark
        · exact List.mem_cons_of_mem _ hmark
      split
      · rename_i rest' heq
        exact absurd heq (dropWhile_name_mark hmem hmark' _ _)
      · split
        · exact .inr rfl
        · obtain ⟨p, q, hpq⟩ := List.append_of_mem hmark
          have hbehind : behindMark (b :: head) = behindMark head := by
            rw [hpq, ← List.cons_append, behindMark_append, behindMark_append]
          rw [hbehind]
          exact ih _ hhead
    · have hall : ∀ c ∈ skipMark b head, nameByte c = true := by
        refine nameByte_of hmem ?_
        unfold skipMark
        split
        · exact hmark
        · rename_i hb63
          simp [Ne.symm hb63, hmark]
      obtain ⟨hdrop, htake⟩ := nameSpan hall rest
      have hbehind : behindMark (b :: head) = skipMark b head := by
        unfold skipMark
        split
        · rename_i hb63
          rw [hb63, ← List.nil_append (63 :: head), behindMark_append, behindMark_eq hmark]
        · rename_i hb63
          exact behindMark_eq (by simp [Ne.symm hb63, hmark])
      rw [hdrop, htake, hbehind]
      exact .inl rfl

/-- A text without `=` has no match. -/
theorem formSearch_none (max count : Nat) {s : Bytes} (h : 61 ∉ s) :
    formSearch max count s = .noMatch ∨ formSearch max count s = .overrun := by
  induction s generalizing count with
  | nil => exact .inl rfl
  | cons b s ih =>
    have hmem : 61 ∉ skipMark b s := by
      unfold skipMark
      split
      · exact fun h' => h (List.mem_cons_of_mem _ h')
      · exact h
    unfold formSearch
    split
    · rename_i rest heq
      exact absurd heq (dropWhile_name_ne hmem rest)
    · split
      · exact .inr rfl
      · exact ih _ fun h' => h (List.mem_cons_of_mem _ h')

/-! ## When a search gives up -/

/-- `n` times the same byte of a name and no `=`: the search visits about `n * n / 2` states. -/
theorem formSearch_replicate {max count n : Nat} {b : UInt8} (hb : nameByte b = true)
    (hn : 0 < n) (h : 2 * (max + 1) < 2 * count + 10 * n + n * (n + 1)) :
    formSearch max count (List.replicate n b) = .overrun := by
  have hb' : b ≠ 63 := by
    rintro rfl
    cases hb
  induction n generalizing count with
  | zero => omega
  | succ n ih =>
    have hs : skipMark b (List.replicate n b) = List.replicate (n + 1) b := by
      rw [skipMark, if_neg hb', List.replicate_succ]
    have hd : (List.replicate (n + 1) b).dropWhile nameByte = [] := by simp [hb]
    have ht : (List.replicate (n + 1) b).takeWhile nameByte = List.replicate (n + 1) b := by
      simp [hb]
    rw [List.replicate_succ, formSearch, hs, hd, ht, List.length_replicate, if_neg hb']
    simp only
    split
    · rfl
    · refine ih ?_ ?_
      · rcases Nat.eq_zero_or_pos n with rfl | hp
        · omega
        · exact hp
      · have : (n + 1) * (n + 1 + 1) = n * (n + 1) + 2 * (n + 1) := by ring
        omega

/-- A search whose worst case stays under the limit does not give up. -/
theorem formSearch_ne_overrun {max count : Nat} {s : Bytes}
    (h : 2 * count + s.length * (s.length + 13) ≤ 2 * max) :
    formSearch max count s ≠ .overrun := by
  induction s generalizing count with
  | nil => simp [formSearch]
  | cons b s ih =>
    have hlen := skipMark_length_le b s
    have htake : ((skipMark b s).takeWhile nameByte).length ≤ (skipMark b s).length :=
      (List.takeWhile_sublist _).length_le
    have hsq : (s.length + 1) * (s.length + 1 + 13) =
        s.length * (s.length + 13) + 2 * s.length + 14 := by ring
    rw [List.length_cons, hsq] at h
    unfold formSearch
    split
    · simp
    · rw [if_neg (by omega)]
      refine ih ?_
      split <;> omega

/-- The limit is generous for a text of ordinary length. -/
theorem givesUp_of_short {s : Bytes} (h : s.length ≤ 1000) : givesUp s = false := by
  have key : ∀ fuel (t : Bytes), t.length ≤ 1000 → (formElements fuel t).2 = false := by
    intro fuel
    induction fuel with
    | zero => intro t _; rfl
    | succ fuel ih =>
      intro t ht
      unfold formElements
      split
      · rfl
      · rename_i ho
        refine absurd ho (formSearch_ne_overrun ?_)
        have : t.length * (t.length + 13) ≤ t.length * 1013 :=
          Nat.mul_le_mul_left _ (by omega)
        simp only [maxStateCount, formStates]
        omega
      · rename_i name rest he
        have h₁ := formSearch_found_lt he
        have h₂ := afterValue_length_le rest
        exact ih _ (by omega)
  exact key _ s h

/-- A search over a text without a match gives the text up or leaves it without elements. -/
theorem givesUp_of_overrun {s : Bytes}
    (h : formSearch (maxStateCount s.length) 0 s = .overrun) : givesUp s = true := by
  unfold givesUp formMatches formElements
  rw [h]

example : formMatches (lit "a/b?x=1&y=&z") = ([(lit "x", lit "1"), (lit "y", [])], false) := by
  decide

end Boost
