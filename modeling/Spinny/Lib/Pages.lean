import Mathlib

/-!
# Pages of a list

`page n l k` is the `k`-th page of `n` elements, the first being the page 0.

* `flatMap_page`, `flatMap_page_all`: the pages one after the other are the list.
* `page_zero_eq_self`: the list is its own first page.
* `take_ne_page`: in a list without repetitions no later page begins as the list does.
-/

namespace Pages

variable {α : Type}

/-- The `k`-th page of `n` elements. -/
def page (n : Nat) (l : List α) (k : Nat) : List α := (l.drop (k * n)).take n

theorem length_page_le (n : Nat) (l : List α) (k : Nat) : (page n l k).length ≤ n :=
  List.length_take_le _ _

/-- The first `m` pages hold the first `m * n` elements. -/
theorem flatMap_page (n : Nat) (l : List α) (m : Nat) :
    ((List.range m).flatMap fun k => page n l k) = l.take (m * n) := by
  induction m with
  | zero => simp
  | succ m ih =>
    rw [List.range_succ, List.flatMap_append, ih, List.flatMap_singleton, Nat.succ_mul,
      List.take_add]
    rfl

/-- Enough pages hold the whole list. -/
theorem flatMap_page_all {n m : Nat} {l : List α} (h : l.length ≤ m * n) :
    ((List.range m).flatMap fun k => page n l k) = l := by
  rw [flatMap_page, List.take_of_length_le h]

@[simp] theorem page_nil (n k : Nat) : page n ([] : List α) k = [] := by
  simp [page]

@[simp] theorem page_zero (n : Nat) (l : List α) : page n l 0 = l.take n := by
  simp [page]

theorem page_zero_eq_self {n : Nat} {l : List α} : page n l 0 = l ↔ l.length ≤ n := by
  rw [page_zero, List.take_eq_self_iff]

/-- In a list without repetitions a later page has not the elements at the start. -/
theorem take_ne_page {n k c : Nat} {l : List α} (hl : l.Nodup) (hne : l ≠ []) (hc : 0 < c)
    (hk : 0 < k) (hn : 0 < n) : l.take c ≠ page n l k := by
  obtain ⟨a, rest, rfl⟩ := List.exists_cons_of_ne_nil hne
  obtain ⟨c, rfl⟩ := Nat.exists_eq_succ_of_ne_zero hc.ne'
  obtain ⟨d, hd⟩ := Nat.exists_eq_succ_of_ne_zero (Nat.mul_pos hk hn).ne'
  intro heq
  have hmem : a ∈ page n (a :: rest) k := heq ▸ List.mem_cons_self
  rw [page, hd, List.drop_succ_cons] at hmem
  exact (List.nodup_cons.mp hl).1 (List.mem_of_mem_drop (List.mem_of_mem_take hmem))

end Pages
