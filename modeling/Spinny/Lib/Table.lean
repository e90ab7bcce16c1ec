import Mathlib

/-!
# Tables of rows with a rowid

A `Table α` is the list of the rows of a table in the order of a full scan, each with its rowid;
the rowids increase, so no two rows share one. A new row gets the largest rowid plus one.

* `insert`, `updateWhere`, `deleteWhere`: the three changes of a table.
* `mem_rows_insert`, `mem_rows_updateWhere`, `mem_rows_deleteWhere`: what each leaves behind.
* `lookup_eq_some`: a rowid names at most one row.
-/

/-- A table: its rows by increasing rowid. -/
structure Table (α : Type) where
  rows : List (Int × α)
  sorted : rows.Pairwise fun r s => r.1 < s.1

namespace Table

variable {α : Type}

/-- Two tables with the same rows are equal. -/
@[ext] theorem ext {t u : Table α} (h : t.rows = u.rows) : t = u := by
  cases t; cases u; simp_all

instance [DecidableEq α] : DecidableEq (Table α) := fun t u =>
  decidable_of_iff (t.rows = u.rows) ⟨ext, congrArg rows⟩

/-- The table with no rows. -/
def empty : Table α := ⟨[], List.Pairwise.nil⟩

instance : Inhabited (Table α) := ⟨empty⟩

@[simp] theorem rows_empty : (empty : Table α).rows = [] := rfl

/-- The table with one row. -/
def single (id : Int) (a : α) : Table α := ⟨[(id, a)], List.pairwise_singleton _ _⟩

@[simp] theorem rows_single (id : Int) (a : α) : (single id a).rows = [(id, a)] := rfl

/-- The rowid of the next row. -/
def nextId (t : Table α) : Int :=
  match t.rows.getLast? with
  | some r => r.1 + 1
  | none => 1

/-- Every rowid is below the next one. -/
theorem lt_nextId (t : Table α) : ∀ r ∈ t.rows, r.1 < t.nextId := by
  intro r hr
  rcases List.eq_nil_or_concat t.rows with h | ⟨rs, last, h⟩
  · simp [h] at hr
  · have hs := t.sorted
    rw [nextId, h]
    rw [h] at hr hs
    simp only [List.concat_eq_append, List.getLast?_append, List.getLast?_singleton,
      Option.some_or]
    rw [List.concat_eq_append, List.pairwise_append] at hs
    rw [List.concat_eq_append, List.mem_append, List.mem_singleton] at hr
    rcases hr with hr | rfl
    · have := hs.2.2 r hr last (by simp)
      omega
    · omega

/-- Where no rowid is below 1, the next one is not. -/
theorem nextId_pos (t : Table α) (h : ∀ r ∈ t.rows, 0 < r.1) :
    0 < t.nextId := by
  rcases hl : t.rows.getLast? with _ | r
  · simp [nextId, hl]
  · have := h r (List.mem_of_getLast? hl)
    simp only [nextId, hl]
    omega

/-- No two rows have one rowid. -/
theorem nodup_rowids (t : Table α) : (t.rows.map Prod.fst).Nodup :=
  (List.pairwise_map.mpr t.sorted).imp fun h => by omega

/-- A new row. -/
def insert (t : Table α) (a : α) : Table α where
  rows := t.rows ++ [(t.nextId, a)]
  sorted := by
    refine List.pairwise_append.mpr ⟨t.sorted, List.pairwise_singleton _ _, ?_⟩
    intro r hr s hs
    obtain rfl := List.mem_singleton.mp hs
    exact t.lt_nextId r hr

/-- The rows that satisfy `p` changed by `f`; the rowids stay. -/
def updateWhere (t : Table α) (p : Int → α → Bool) (f : α → α) : Table α where
  rows := t.rows.map fun r => if p r.1 r.2 then (r.1, f r.2) else r
  sorted := by
    refine List.pairwise_map.mpr (t.sorted.imp ?_)
    intro r s h
    split <;> split <;> exact h

/-- The rows that do not satisfy `p`. -/
def deleteWhere (t : Table α) (p : Int → α → Bool) : Table α where
  rows := t.rows.filter fun r => !p r.1 r.2
  sorted := t.sorted.filter _

/-- The rows that satisfy `p`, by rowid. -/
def select (t : Table α) (p : Int → α → Bool) : List (Int × α) := t.rows.filter fun r => p r.1 r.2

/-- The number of rows that satisfy `p`. -/
def count (t : Table α) (p : Int → α → Bool) : Nat := (t.select p).length

/-- The row with the rowid `id`. -/
def lookup (t : Table α) (id : Int) : Option α := (t.rows.find? fun r => r.1 == id).map (·.2)

@[simp] theorem rows_insert (t : Table α) (a : α) :
    (t.insert a).rows = t.rows ++ [(t.nextId, a)] := rfl

theorem mem_rows_insert {t : Table α} {a : α} {r : Int × α} :
    r ∈ (t.insert a).rows ↔ r ∈ t.rows ∨ r = (t.nextId, a) := by
  simp

@[simp] theorem nextId_insert (t : Table α) (a : α) : (t.insert a).nextId = t.nextId + 1 := by
  rw [nextId, rows_insert, List.getLast?_concat]

theorem mem_rows_updateWhere {t : Table α} {p : Int → α → Bool} {f : α → α} {r : Int × α} :
    r ∈ (t.updateWhere p f).rows ↔
      ∃ s ∈ t.rows, (if p s.1 s.2 then (s.1, f s.2) else s) = r := by
  simp [updateWhere]

theorem mem_rows_deleteWhere {t : Table α} {p : Int → α → Bool} {r : Int × α} :
    r ∈ (t.deleteWhere p).rows ↔ r ∈ t.rows ∧ p r.1 r.2 = false := by
  simp [deleteWhere]

theorem rowids_updateWhere (t : Table α) (p : Int → α → Bool) (f : α → α) :
    (t.updateWhere p f).rows.map (·.1) = t.rows.map (·.1) := by
  refine List.map_map.trans (List.map_congr_left fun r _ => ?_)
  simp only [Function.comp_apply]
  split <;> rfl

/-- A change of rows that changes no row is none. -/
theorem updateWhere_eq_self {t : Table α} {p : Int → α → Bool} {f : α → α}
    (h : ∀ r ∈ t.rows, p r.1 r.2 = true → f r.2 = r.2) : t.updateWhere p f = t := by
  refine ext ((List.map_congr_left fun r hr => ?_).trans (List.map_id t.rows))
  split
  · rename_i hp
    rw [h r hr hp, id]
  · rfl

/-- A deletion that meets no row is none. -/
theorem deleteWhere_eq_self {t : Table α} {p : Int → α → Bool}
    (h : ∀ r ∈ t.rows, p r.1 r.2 = false) : t.deleteWhere p = t :=
  ext (List.filter_eq_self.mpr fun r hr => by simp [h r hr])

theorem mem_select {t : Table α} {p : Int → α → Bool} {r : Int × α} :
    r ∈ t.select p ↔ r ∈ t.rows ∧ p r.1 r.2 = true := List.mem_filter

/-- A rowid names at most one row. -/
theorem lookup_eq_some {t : Table α} {id : Int} {a : α} :
    t.lookup id = some a ↔ (id, a) ∈ t.rows := by
  constructor
  · intro h
    obtain ⟨r, hr, rfl⟩ := Option.map_eq_some_iff.mp h
    have hid : r.1 = id := by simpa using List.find?_some hr
    exact hid ▸ List.mem_of_find?_eq_some hr
  · intro h
    obtain ⟨l₁, l₂, hl⟩ := List.append_of_mem h
    have hs := t.sorted
    rw [hl, List.pairwise_append] at hs
    have hnone : l₁.find? (fun r => r.1 == id) = none := by
      refine List.find?_eq_none.mpr fun r hr => ?_
      have := hs.2.2 r hr (id, a) (by simp)
      simp only [beq_iff_eq]
      omega
    rw [lookup, hl, List.find?_append, hnone]
    simp

/-- A rowid that names a row still does after a change of that row. -/
theorem lookup_updateWhere_rowid (t : Table α) (id : Int) (f : α → α) :
    (t.updateWhere (fun i _ => i == id) f).lookup id = (t.lookup id).map f := by
  cases h : t.lookup id with
  | some a =>
    refine lookup_eq_some.mpr (mem_rows_updateWhere.mpr ⟨(id, a), lookup_eq_some.mp h, ?_⟩)
    simp
  | none =>
    cases h' : (t.updateWhere (fun i _ => i == id) f).lookup id with
    | none => rfl
    | some b =>
      obtain ⟨⟨i, a⟩, ha, hb⟩ := mem_rows_updateWhere.mp (lookup_eq_some.mp h')
      have hi : i = id := by
        split at hb <;> simpa using congrArg Prod.fst hb
      rw [hi] at ha
      simp [lookup_eq_some.mpr ha] at h

/-- A change of the row with one rowid leaves the others. -/
theorem lookup_updateWhere_ne (t : Table α) {id i : Int} (h : i ≠ id) (f : α → α) :
    (t.updateWhere (fun j _ => j == id) f).lookup i = t.lookup i := by
  have key : ∀ a, (t.updateWhere (fun j _ => j == id) f).lookup i = some a ↔ t.lookup i = some a := by
    intro a
    rw [lookup_eq_some, lookup_eq_some, mem_rows_updateWhere]
    constructor
    · rintro ⟨⟨j, b⟩, hb, heq⟩
      split at heq
      · rename_i hj
        cases heq
        exact absurd (by simpa using hj) h
      · exact heq ▸ hb
    · exact fun ha => ⟨(i, a), ha, by simp [h]⟩
  exact Option.ext key

end Table
