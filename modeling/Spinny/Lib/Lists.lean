import Mathlib.Data.List.Nodup

/-!
# Finding and sorting out the elements of a list

What `List.find?` finds in a sorted list and after another element was taken out, and a list in
parts.

* `find?_mergeSort`: a stable sort leaves the first of the elements that it does not tell apart.
* `find?_eraseP`, `ne_of_mem_eraseP`: the list after `List.eraseP`.
* `flatMap_filter_perm`: a list and its parts by a key.
* `Matches`: one element for each member of a list.
-/

namespace Lists

open List

variable {α β : Type} {p q : α → Bool} {l : List α}

/-- Elements that a sort does not tell apart come out in the order they had. -/
theorem find?_mergeSort {le : α → α → Bool}
    (htrans : ∀ a b c, le a b = true → le b c = true → le a c = true)
    (htotal : ∀ a b, (le a b || le b a) = true)
    (hp : ∀ a b, p a = true → p b = true → le a b = true) (hl : l.Nodup) :
    (l.mergeSort le).find? p = l.find? p := by
  cases hfind : l.find? p with
  | none =>
    rw [find?_eq_none] at hfind ⊢
    exact fun a ha => hfind a (mem_mergeSort.mp ha)
  | some a =>
    obtain ⟨ha, before, rest, hsplit, hbefore⟩ := find?_eq_some_iff_append.mp hfind
    have hmem : a ∈ l.mergeSort le := mem_mergeSort.mpr (mem_of_find?_eq_some hfind)
    cases hsorted : (l.mergeSort le).find? p with
    | none => exact absurd ha (find?_eq_none.mp hsorted a hmem)
    | some c =>
      obtain ⟨hc, first, last, hcut, hfirst⟩ := find?_eq_some_iff_append.mp hsorted
      refine congrArg some (Classical.byContradiction fun hne => ?_)
      -- `a` stands before `c` in the list, so it does in the sorted one, where nothing stands before `c`
      have hrest : c ∈ rest := by
        have hcl := mem_mergeSort.mp (mem_of_find?_eq_some hsorted)
        rw [hsplit, mem_append, mem_cons] at hcl
        rcases hcl with hcl | rfl | hcl
        · exact absurd hc (by simpa using hbefore c hcl)
        · exact absurd rfl hne
        · exact hcl
      have hpair : [a, c].Sublist (l.mergeSort le) := by
        refine pair_sublist_mergeSort htrans htotal (hp a c ha hc) ?_
        rw [hsplit]
        exact (((singleton_sublist.mpr hrest).cons_cons a).trans (sublist_append_right before _))
      have hnodup : (l.mergeSort le).Nodup := (mergeSort_perm l le).nodup_iff.mpr hl
      rw [hcut] at hpair hnodup
      have hskip : [a, c].Sublist (c :: last) := by
        rcases sublist_append_iff.mp hpair with ⟨l₁, l₂, hl, h₁, h₂⟩
        cases l₁ with
        | nil => exact hl ▸ h₂
        | cons b l₁ =>
          obtain rfl : a = b := by simpa using congrArg head? hl
          exact absurd ha (by simpa using hfirst a (h₁.subset mem_cons_self))
      have hlast : c ∈ last := by
        cases hskip with
        | cons _ h => exact h.subset (by simp)
        | cons_cons _ h => exact absurd rfl hne
      exact (nodup_cons.mp (nodup_append.mp hnodup).2.1).1 hlast

/-- Taking an element out leaves the first of those with another property. -/
theorem find?_eraseP (h : ∀ a, q a = true → p a = false) : (l.eraseP q).find? p = l.find? p := by
  induction l with
  | nil => rfl
  | cons a l ih =>
    by_cases hq : q a = true
    · rw [eraseP_cons_of_pos hq, find?_cons, h a hq]
    · rw [eraseP_cons_of_neg hq, find?_cons, find?_cons, ih]

/-- Where a key tells the elements apart, none with the key of the element taken out is left. -/
theorem ne_of_mem_eraseP {key : α → β} (hl : (l.map key).Nodup) {a b : α} (ha : l.find? q = some a)
    (hb : b ∈ l.eraseP q) : key b ≠ key a := by
  induction l with
  | nil => cases hb
  | cons c l ih =>
    rw [map_cons, nodup_cons] at hl
    by_cases hq : q c = true
    · rw [find?_cons, hq] at ha
      obtain rfl := Option.some.inj ha
      rw [eraseP_cons_of_pos hq] at hb
      exact fun heq => hl.1 (heq ▸ mem_map_of_mem hb)
    · rw [find?_cons_of_neg hq] at ha
      rw [eraseP_cons_of_neg hq] at hb
      rcases mem_cons.mp hb with rfl | hb
      · exact fun heq => hl.1 (heq ▸ mem_map_of_mem (mem_of_find?_eq_some ha))
      · exact ih hl.2 ha hb

theorem mem_eraseP_or {a b : α} (ha : l.find? q = some a) (hb : b ∈ l) : b = a ∨ b ∈ l.eraseP q := by
  induction l with
  | nil => cases hb
  | cons c l ih =>
    by_cases hq : q c = true
    · rw [find?_cons, hq] at ha
      obtain rfl := Option.some.inj ha
      rw [eraseP_cons_of_pos hq]
      exact mem_cons.mp hb
    · rw [find?_cons_of_neg hq] at ha
      rw [eraseP_cons_of_neg hq]
      rcases mem_cons.mp hb with rfl | hb
      · exact .inr mem_cons_self
      · exact (ih ha hb).imp_right (mem_cons_of_mem _)

/-- The keys that the list no longer has. -/
theorem forall_mem_eraseP {key : α → β} (hl : (l.map key).Nodup) {a : α} (ha : l.find? q = some a)
    (x : β) : (∀ b ∈ l.eraseP q, key b ≠ x) ↔ (∀ b ∈ l, key b ≠ x) ∨ x = key a := by
  constructor
  · intro h
    by_cases hx : x = key a
    · exact .inr hx
    · refine .inl fun b hb => ?_
      rcases mem_eraseP_or ha hb with rfl | hb
      · exact Ne.symm hx
      · exact h b hb
  · rintro (h | rfl) b hb
    · exact h b (mem_of_mem_eraseP hb)
    · exact ne_of_mem_eraseP hl ha hb

/-- A list falls into parts by a key. -/
theorem flatMap_filter_perm [DecidableEq β] {key : α → β} {keys : List β} (hkeys : keys.Nodup)
    {l : List α} (h : ∀ a ∈ l, key a ∈ keys) :
    (keys.flatMap fun k => l.filter fun a => key a == k).Perm l := by
  induction keys generalizing l with
  | nil =>
    obtain rfl : l = [] := eq_nil_iff_forall_not_mem.mpr fun a ha => not_mem_nil (h a ha)
    exact .refl _
  | cons k keys ih =>
    obtain ⟨hk, hrest⟩ := nodup_cons.mp hkeys
    have hparts : (keys.flatMap fun k' => l.filter fun a => key a == k') =
        keys.flatMap fun k' => (l.filter fun a => !(key a == k)).filter fun a => key a == k' := by
      refine flatMap_congr fun k' hk' => ?_
      rw [filter_filter]
      refine filter_congr fun a _ => ?_
      by_cases ha : key a = k'
      · have hne : k' ≠ k := fun heq => hk (heq ▸ hk')
        simp [ha, hne]
      · simp [ha]
    have hothers := ih hrest (l := l.filter fun a => !(key a == k)) fun a ha => by
      obtain ⟨ha, hne⟩ := mem_filter.mp ha
      exact (mem_cons.mp (h a ha)).resolve_left (by simpa using hne)
    rw [flatMap_cons, hparts]
    exact (hothers.append_left _).trans (filter_append_perm _ l)

/-! ## Elements named after the members of a list -/

/-- The elements with `M` are named after members with `may`, and no two after one; every member
with `must` has an element. -/
structure Matches (name : α → β) (M : α → Prop) (l : List β) (must may : β → Prop) : Prop where
  listed : ∀ a, M a → name a ∈ l ∧ may (name a)
  every : ∀ b ∈ l, must b → ∃ a, M a ∧ name a = b
  once : ∀ a a', M a → M a' → name a = name a' → a = a'

namespace Matches

variable {name : α → β} {M M' : α → Prop} {l : List β} {must may : β → Prop} {a : α} {b : β}

theorem nil (h : ∀ a, ¬ M a) : Matches name M [] must may where
  listed a ha := (h a ha).elim
  every b hb := by cases hb
  once a _ ha := (h a ha).elim

theorem congr (h : Matches name M l must may) (hM : ∀ a, M' a ↔ M a) :
    Matches name M' l must may where
  listed a ha := h.listed a ((hM a).mp ha)
  every b hb hmust := by
    obtain ⟨a, ha, hname⟩ := h.every b hb hmust
    exact ⟨a, (hM a).mpr ha, hname⟩
  once a a' ha ha' := h.once a a' ((hM a).mp ha) ((hM a').mp ha')

/-- A member that needs no element. -/
theorem pass (h : Matches name M l must may) (hb : ¬ must b) :
    Matches name M (l ++ [b]) must may where
  listed a ha := ⟨mem_append_left _ (h.listed a ha).1, (h.listed a ha).2⟩
  every b' hb' hmust := by
    rcases mem_append.mp hb' with hb' | hb'
    · exact h.every b' hb' hmust
    · exact absurd (mem_singleton.mp hb' ▸ hmust) hb
  once := h.once

/-- A member with an element of its own. -/
theorem meet (h : Matches name M l must may) (hnew : name a ∉ l) (hmay : may (name a))
    (hM : ∀ x, M' x ↔ M x ∨ x = a) : Matches name M' (l ++ [name a]) must may where
  listed x hx := by
    rcases (hM x).mp hx with hx | rfl
    · exact ⟨mem_append_left _ (h.listed x hx).1, (h.listed x hx).2⟩
    · exact ⟨mem_append_right _ (mem_singleton_self _), hmay⟩
  every b hb hmust := by
    rcases mem_append.mp hb with hb | hb
    · obtain ⟨x, hx, hname⟩ := h.every b hb hmust
      exact ⟨x, (hM x).mpr (.inl hx), hname⟩
    · exact ⟨a, (hM a).mpr (.inr rfl), (mem_singleton.mp hb).symm⟩
  once x y hx hy hname := by
    rcases (hM x).mp hx with hx | rfl <;> rcases (hM y).mp hy with hy | rfl
    · exact h.once x y hx hy hname
    · exact absurd (hname ▸ (h.listed x hx).1) hnew
    · exact absurd (hname ▸ (h.listed y hy).1) hnew
    · rfl

/-- Objects made of elements have different names. -/
theorem nodup {γ : Type} (h : Matches name M l must may) (of : α → γ) {key : γ → β}
    (hkey : ∀ a, key (of a) = name a) {objects : List γ} (hobjects : objects.Nodup)
    (hof : ∀ c ∈ objects, ∃ a, M a ∧ c = of a) : (objects.map key).Nodup := by
  refine hobjects.map_on fun c hc c' hc' heq => ?_
  obtain ⟨a, ha, rfl⟩ := hof c hc
  obtain ⟨a', ha', rfl⟩ := hof c' hc'
  rw [hkey, hkey] at heq
  rw [h.once a a' ha ha' heq]

end Matches

end Lists
