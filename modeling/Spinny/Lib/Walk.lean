import Mathlib

/-!
# Walks over a tree

A walk asks for the children of one node after the other, in any order: a step takes a node that
is pending, visits it, and puts its children to what is pending.

* `IsTree`: from the start every node is a child in one place only.
* `Inv`: what has been visited and what is pending, together.
* `complete_visits`: a walk that has nothing pending has visited every node once.
* `length_le`: a walk over finitely many nodes ends; `exists_complete`: and can be completed.
-/

/-- The nodes visited so far, and those still to be visited. -/
structure Walk (α : Type) where
  visited : List α
  pending : List α

namespace Walk

variable {α : Type} (next : α → List α)

/-- The node `x` is reached from `a` by way of children. -/
def Reaches (a x : α) : Prop := Relation.ReflTransGen (fun k x => x ∈ next k) a x

/-- One pending node is visited, whichever it is. -/
inductive Step : Walk α → Walk α → Prop where
  | visit (visited before after : List α) (k : α) :
    Step ⟨visited, before ++ k :: after⟩ ⟨visited ++ [k], before ++ after ++ next k⟩

/-- The walk `w` from `a`. -/
def From (a : α) (w : Walk α) : Prop := Relation.ReflTransGen (Step next) ⟨[], [a]⟩ w

/-- What is reached from `a` is a tree. -/
structure IsTree (a : α) : Prop where
  nodup : ∀ k, Reaches next a k → (next k).Nodup
  parent : ∀ j k x, Reaches next a j → Reaches next a k → x ∈ next j → x ∈ next k → j = k
  root : ∀ k, Reaches next a k → a ∉ next k

/-- The nodes that a walk has come upon. -/
def seen (w : Walk α) : List α := w.visited ++ w.pending

/-- A walk comes upon no node twice, and upon every child of what it has visited. -/
structure Inv (a : α) (w : Walk α) : Prop where
  nodup : w.seen.Nodup
  start : a ∈ w.seen
  reached : ∀ x ∈ w.seen, Reaches next a x
  listed : ∀ x ∈ w.seen, x = a ∨ ∃ k ∈ w.visited, x ∈ next k
  closed : ∀ k ∈ w.visited, ∀ x ∈ next k, x ∈ w.seen

variable {next} {a : α}

theorem Step.seen_perm {w w' : Walk α} (h : Step next w w') :
    ∃ k ∈ w.pending, w'.visited = w.visited ++ [k] ∧ w'.seen.Perm (w.seen ++ next k) := by
  obtain ⟨visited, before, after, k⟩ := h
  refine ⟨k, by simp, rfl, ?_⟩
  simp only [seen, List.append_assoc, List.cons_append, List.nil_append]
  exact .append_left _ List.perm_middle.symm

theorem Inv.init : Inv next a ⟨[], [a]⟩ where
  nodup := List.nodup_singleton a
  start := List.mem_singleton_self a
  reached x hx := by
    obtain rfl := List.mem_singleton.mp hx
    exact .refl
  listed x hx := .inl (List.mem_singleton.mp hx)
  closed k hk := by simp at hk

/-- The children of a pending node are new. -/
theorem Inv.fresh (ht : IsTree next a) {w : Walk α} (h : Inv next a w) {k : α}
    (hk : k ∈ w.pending) : ∀ x ∈ next k, x ∉ w.seen := by
  intro x hx hseen
  have hreach : ∀ j ∈ w.seen, Reaches next a j := h.reached
  have hkr : Reaches next a k := hreach k (List.mem_append_right _ hk)
  rcases h.listed x hseen with rfl | ⟨j, hj, hxj⟩
  · exact ht.root k hkr hx
  · obtain rfl := ht.parent j k x (hreach j (List.mem_append_left _ hj)) hkr hxj hx
    exact List.disjoint_of_nodup_append h.nodup hj hk

theorem Inv.step (ht : IsTree next a) {w w' : Walk α} (h : Inv next a w) (hs : Step next w w') :
    Inv next a w' := by
  obtain ⟨k, hk, hvisited, hperm⟩ := hs.seen_perm
  have hkr : Reaches next a k := h.reached k (List.mem_append_right _ hk)
  have hmem : ∀ x, x ∈ w'.seen ↔ x ∈ w.seen ∨ x ∈ next k := fun x => by
    rw [hperm.mem_iff, List.mem_append]
  have hold : ∀ j ∈ w.visited, j ∈ w'.visited := fun j hj => by
    rw [hvisited]
    exact List.mem_append_left _ hj
  have hnew : k ∈ w'.visited := by
    rw [hvisited]
    simp
  refine ⟨?_, (hmem a).mpr (.inl h.start), fun x hx => ?_, fun x hx => ?_, fun j hj x hx => ?_⟩
  · rw [hperm.nodup_iff]
    refine List.nodup_append'.mpr ⟨h.nodup, ht.nodup k hkr, fun x hx hxk => ?_⟩
    exact h.fresh ht hk x hxk hx
  · rcases (hmem x).mp hx with hx | hx
    · exact h.reached x hx
    · exact hkr.tail hx
  · rcases (hmem x).mp hx with hx | hx
    · rcases h.listed x hx with rfl | ⟨j, hj, hxj⟩
      · exact .inl rfl
      · exact .inr ⟨j, hold j hj, hxj⟩
    · exact .inr ⟨k, hnew, hx⟩
  · rw [hvisited] at hj
    rcases List.mem_append.mp hj with hj | hj
    · exact (hmem x).mpr (.inl (h.closed j hj x hx))
    · obtain rfl := List.mem_singleton.mp hj
      exact (hmem x).mpr (.inr hx)

theorem From.inv (ht : IsTree next a) {w : Walk α} (h : From next a w) : Inv next a w := by
  induction h with
  | refl => exact .init
  | tail _ hs ih => exact ih.step ht hs

/-- A walk with nothing pending has visited what is reached, and nothing twice. -/
theorem complete_visits (ht : IsTree next a) {visited : List α}
    (h : From next a ⟨visited, []⟩) :
    visited.Nodup ∧ ∀ x, x ∈ visited ↔ Reaches next a x := by
  have hinv := h.inv ht
  have hmem : ∀ x, x ∈ seen ⟨visited, []⟩ ↔ x ∈ visited := fun x => by simp [seen]
  have hnodup := hinv.nodup
  rw [seen, List.append_nil] at hnodup
  refine ⟨hnodup, fun x => ⟨fun hx => hinv.reached x ((hmem x).mpr hx), fun hx => ?_⟩⟩
  induction hx with
  | refl => exact (hmem a).mp hinv.start
  | tail _ hx ih => exact (hmem _).mp (hinv.closed _ ih _ hx)

/-- A walk comes upon no more nodes than there are. -/
theorem length_le (ht : IsTree next a) {w : Walk α} (h : From next a w) {all : List α}
    (hall : ∀ x, Reaches next a x → x ∈ all) : w.seen.length ≤ all.length :=
  ((h.inv ht).nodup.subperm fun x hx => hall x ((h.inv ht).reached x hx)).length_le

/-- Where there are finitely many nodes, a walk can be completed. -/
theorem From.exists_complete (ht : IsTree next a) {all : List α}
    (hall : ∀ x, Reaches next a x → x ∈ all) {w : Walk α} (h : From next a w) :
    ∃ visited, From next a ⟨visited, []⟩ := by
  induction hn : all.length - w.visited.length generalizing w with
  | zero =>
    obtain ⟨visited, pending⟩ := w
    have hle := length_le ht h hall
    simp only [seen, List.length_append] at hle hn
    have hnil : pending = [] := List.eq_nil_of_length_eq_zero (by omega)
    exact ⟨visited, hnil ▸ h⟩
  | succ n ih =>
    obtain ⟨visited, _ | ⟨k, pending⟩⟩ := w
    · exact ⟨visited, h⟩
    · refine ih (h.tail (.visit visited [] pending k)) ?_
      simp only [List.length_append, List.length_singleton] at hn ⊢
      omega

end Walk
