import Spinny.Database

/-!
# The forest of the directories

The rows of `music_dirs` name their parents by rowid; a row whose `parent_id` is 0 is a root.

* `Placed`: the path of a directory; `Forest`: every row has one.
* `Below`: the directories below one; `Shallow`: how deep they go.
* `Linked`: a forest, and every song in one of its directories.
* `Pruned`: a part of the forest is deleted with its songs.
-/

namespace Spinny

open Bytes Sqlite

variable [Affinity]

/-- The directory with the rowid `id` lies at the path with these names from the root on. -/
inductive Placed (t : Table DirRow) : Int → List Bytes → Prop where
  | root {id : Int} {name : Text} : (id, ⟨0, name⟩) ∈ t.rows → Placed t id [name.val]
  | child {id parentId : Int} {name : Text} {names : List Bytes} :
    (id, ⟨parentId, name⟩) ∈ t.rows → parentId ≠ 0 → Placed t parentId names →
      Placed t id (names ++ [name.val])

/-- Every directory has a rowid other than 0 and a path. -/
def Forest (t : Table DirRow) : Prop :=
  ∀ r ∈ t.rows, r.1 ≠ 0 ∧ ∃ names, Placed t r.1 names

/-- The directory `x` has the parent `p`. -/
def IsChild (t : Table DirRow) (x p : Int) : Prop := ∃ row, (x, row) ∈ t.rows ∧ row.parentId = p

/-- The directory `x` lies below `p`. -/
def Below (t : Table DirRow) (p x : Int) : Prop := Relation.TransGen (IsChild t) x p

/-- Fewer than `n` levels lie below `p`. -/
def Shallow (t : Table DirRow) : Nat → Int → Prop
  | 0, _ => False
  | n + 1, p => ∀ x, IsChild t x p → Shallow t n x

/-- A directory and all below it. -/
def subtree (t : Table DirRow) (p : Int) : Set Int := {x | x = p ∨ Below t p x}

theorem Below.mono {t u : Table DirRow} {p x : Int} (h : Below t p x)
    (hsub : ∀ r ∈ t.rows, r ∈ u.rows) : Below u p x :=
  h.lift id fun _ _ ⟨row, hr, hp⟩ => ⟨row, hsub _ hr, hp⟩

/-! ## Paths -/

namespace Placed

variable {t : Table DirRow} {id : Int} {names : List Bytes}

theorem mem (h : Placed t id names) : ∃ row, (id, row) ∈ t.rows := by
  cases h with
  | root hr => exact ⟨_, hr⟩
  | child hr _ _ => exact ⟨_, hr⟩

theorem ne_nil (h : Placed t id names) : names ≠ [] := by
  cases h <;> simp

/-- A rowid names one row. -/
theorem row_unique {a b : DirRow} (ha : (id, a) ∈ t.rows) (hb : (id, b) ∈ t.rows) : a = b := by
  have h := Table.lookup_eq_some.mpr ha
  rw [Table.lookup_eq_some.mpr hb] at h
  exact (Option.some.inj h).symm

theorem unique {names' : List Bytes} (h : Placed t id names) (h' : Placed t id names') :
    names = names' := by
  induction h generalizing names' with
  | root hr =>
    cases h' with
    | root hr' => rw [(DirRow.mk.inj (row_unique hr hr')).2]
    | child hr' hp => exact absurd (DirRow.mk.inj (row_unique hr hr')).1.symm hp
  | child hr hp hpl ih =>
    cases h' with
    | root hr' => exact absurd (DirRow.mk.inj (row_unique hr hr')).1 hp
    | child hr' _ hpl' =>
      obtain ⟨rfl, rfl⟩ := DirRow.mk.inj (row_unique hr hr')
      rw [ih hpl']

/-- The path stays where no row of it goes. -/
theorem mono {u : Table DirRow} (h : Placed t id names) (hsub : ∀ r ∈ t.rows, r ∈ u.rows) :
    Placed u id names := by
  induction h with
  | root hr => exact .root (hsub _ hr)
  | child hr hp _ ih => exact .child (hsub _ hr) hp ih

/-- The directories on the way to one are as many as the names of its path. -/
theorem exists_ids (h : Placed t id names) : ∃ ids : List Int, ids.Nodup ∧
    ids.length = names.length ∧
      ∀ x ∈ ids, ∃ ns, Placed t x ns ∧ ns.length ≤ names.length := by
  induction h with
  | root hr => exact ⟨[_], List.nodup_singleton _, rfl, by
      rintro x hx
      obtain rfl := List.mem_singleton.mp hx
      exact ⟨_, .root hr, Nat.le_refl _⟩⟩
  | @child id parentId name names hr hp hpl ih =>
    obtain ⟨ids, hnodup, hlen, hids⟩ := ih
    refine ⟨id :: ids, List.nodup_cons.mpr ⟨fun hmem => ?_, hnodup⟩, by simp [hlen], ?_⟩
    · obtain ⟨ns, hns, hle⟩ := hids id hmem
      rw [hns.unique (.child hr hp hpl), List.length_append] at hle
      simp at hle
    · intro x hx
      rcases List.mem_cons.mp hx with rfl | hx
      · exact ⟨_, .child hr hp hpl, Nat.le_refl _⟩
      · obtain ⟨ns, hns, hle⟩ := hids x hx
        exact ⟨ns, hns, by simp; omega⟩

/-- A path is no longer than there are directories. -/
theorem length_le (h : Placed t id names) : names.length ≤ t.rows.length := by
  obtain ⟨ids, hnodup, hlen, hids⟩ := h.exists_ids
  have hsub : ids ⊆ t.rows.map Prod.fst := by
    intro x hx
    obtain ⟨ns, hns, -⟩ := hids x hx
    obtain ⟨row, hrow⟩ := hns.mem
    exact List.mem_map.mpr ⟨_, hrow, rfl⟩
  have hle := (hnodup.subperm hsub).length_le
  rw [List.length_map] at hle
  omega

end Placed

/-- A child lies one name deeper. -/
theorem IsChild.placed {t : Table DirRow} {x p : Int} {names : List Bytes} (hp : p ≠ 0)
    (h : IsChild t x p) (hpl : Placed t p names) : ∃ name, Placed t x (names ++ [name]) := by
  obtain ⟨⟨parentId, name⟩, hr, rfl⟩ := h
  exact ⟨name.val, .child hr hp hpl⟩

/-- A path of at most as many names as there are rows is left below a directory. -/
theorem Placed.shallow {t : Table DirRow} {n : Nat} {p : Int} {names : List Bytes} (hp : p ≠ 0)
    (hroot : Forest t) (h : Placed t p names) (hn : t.rows.length < n + names.length) :
    Shallow t n p := by
  induction n generalizing p names with
  | zero =>
    have := h.length_le
    omega
  | succ n ih =>
    intro x hx
    obtain ⟨name, hpl⟩ := hx.placed hp h
    obtain ⟨row, hr, -⟩ := hx
    exact ih (hroot _ hr).1 hpl (by simp; omega)

/-- In a forest no directory has more levels below it than there are rows. -/
theorem Forest.shallow {t : Table DirRow} (h : Forest t) (p : Int) :
    Shallow t (t.rows.length + 1) p := by
  intro x hx
  obtain ⟨row, hr, hpar⟩ := hx
  obtain ⟨hne, names, hpl⟩ := h _ hr
  have hlen := List.length_pos_iff.mpr hpl.ne_nil
  exact hpl.shallow hne h (by omega)

theorem Shallow.mono {t u : Table DirRow} {n : Nat} {p : Int} (h : Shallow t n p)
    (hsub : ∀ r ∈ u.rows, r ∈ t.rows) : Shallow u n p := by
  induction n generalizing p with
  | zero => exact h
  | succ n ih =>
    intro x hx
    obtain ⟨row, hr, hpar⟩ := hx
    exact ih (h x ⟨row, hsub _ hr, hpar⟩)

/-- The parent of a directory of a forest is a directory. -/
theorem Forest.parent {t : Table DirRow} (h : Forest t) {x p : Int} (hx : IsChild t x p)
    (hp : p ≠ 0) : ∃ row, (p, row) ∈ t.rows := by
  obtain ⟨⟨parentId, name⟩, hr, rfl⟩ := hx
  obtain ⟨-, names, hpl⟩ := h _ hr
  cases hpl with
  | root hr' => exact absurd (DirRow.mk.inj (Placed.row_unique hr hr')).1 hp
  | child hr' _ hpl' =>
    obtain ⟨rfl, rfl⟩ := DirRow.mk.inj (Placed.row_unique hr hr')
    exact hpl'.mem

/-! ## What lies below -/

theorem IsChild.unique {t : Table DirRow} {x p q : Int} (h : IsChild t x p) (h' : IsChild t x q) :
    p = q := by
  obtain ⟨row, hr, rfl⟩ := h
  obtain ⟨row', hr', rfl⟩ := h'
  rw [Placed.row_unique hr hr']

/-- What lies below a directory lies deeper. -/
theorem Below.placed {t : Table DirRow} (hf : Forest t) {p x : Int} {names : List Bytes}
    (h : Below t p x) (hp : p ≠ 0) (hpl : Placed t p names) :
    ∃ names', Placed t x names' ∧ names.length < names'.length := by
  induction h using Relation.TransGen.head_induction_on with
  | single hx =>
    obtain ⟨name, hx⟩ := hx.placed hp hpl
    exact ⟨_, hx, by simp⟩
  | head hx _ ih =>
    obtain ⟨names', hy, hlt⟩ := ih
    obtain ⟨row, hr⟩ := hy.mem
    obtain ⟨name, hx⟩ := hx.placed (hf _ hr).1 hy
    exact ⟨_, hx, by simp; omega⟩

theorem Forest.not_below_self {t : Table DirRow} (hf : Forest t) (x : Int) : ¬ Below t x x := by
  intro h
  have hrow : ∃ row, (x, row) ∈ t.rows := by
    obtain ⟨y, ⟨row, hr, -⟩, -⟩ := Relation.TransGen.head'_iff.mp h
    exact ⟨row, hr⟩
  obtain ⟨row, hr⟩ := hrow
  obtain ⟨hne, names, hpl⟩ := hf _ hr
  obtain ⟨names', hpl', hlt⟩ := h.placed hf hne hpl
  rw [hpl.unique hpl'] at hlt
  omega

/-- No child of a directory lies below another. -/
theorem Forest.not_below_sibling {t : Table DirRow} (hf : Forest t) {c x p : Int}
    (hc : IsChild t c p) (hx : IsChild t x p) : ¬ Below t c x := by
  intro h
  obtain ⟨y, hxy, hy⟩ := Relation.TransGen.head'_iff.mp h
  obtain rfl := hx.unique hxy
  rcases Relation.reflTransGen_iff_eq_or_transGen.mp hy with rfl | hy
  · exact hf.not_below_self _ (.single hc)
  · exact hf.not_below_self _ (hy.head hc)

/-- A new directory under one that exists, or a new root. -/
theorem Forest.insert {t : Table DirRow} (hf : Forest t) (hpos : ∀ r ∈ t.rows, 0 < r.1)
    {parentId : Int} (hp : parentId = 0 ∨ ∃ row, (parentId, row) ∈ t.rows) (name : Text) :
    Forest (t.insert ⟨parentId, name⟩) := by
  have hsub : ∀ r ∈ t.rows, r ∈ (t.insert ⟨parentId, name⟩).rows := fun r hr =>
    Table.mem_rows_insert.mpr (.inl hr)
  intro r hr
  rcases Table.mem_rows_insert.mp hr with hr' | rfl
  · obtain ⟨hne, names, hpl⟩ := hf r hr'
    exact ⟨hne, names, hpl.mono hsub⟩
  · refine ⟨?_, ?_⟩
    · have := t.nextId_pos hpos
      omega
    · rcases hp with rfl | ⟨row, hrow⟩
      · exact ⟨_, .root hr⟩
      · obtain ⟨hne, names, hpl⟩ := hf _ hrow
        exact ⟨_, .child hr hne (hpl.mono hsub)⟩

/-! ## Deleting a part -/

/-- With a directory a set has all below it. -/
def DownClosed (t : Table DirRow) (dead : Set Int) : Prop :=
  ∀ x p, IsChild t x p → p ∈ dead → x ∈ dead

/-- What remains of a table of directories. -/
def Remains (dead : Set Int) (t u : Table DirRow) : Prop :=
  ∀ r, r ∈ u.rows ↔ r ∈ t.rows ∧ r.1 ∉ dead

theorem Placed.remains {t u : Table DirRow} {dead : Set Int} (hdown : DownClosed t dead)
    (hu : Remains dead t u) {id : Int} {names : List Bytes} (h : Placed t id names)
    (hid : id ∉ dead) : Placed u id names := by
  induction h with
  | root hr => exact .root ((hu _).mpr ⟨hr, hid⟩)
  | child hr hp _ ih =>
    refine .child ((hu _).mpr ⟨hr, hid⟩) hp (ih fun hdead => hid ?_)
    exact hdown _ _ ⟨_, hr, rfl⟩ hdead

/-- What remains after deleting directories with all below them is a forest. -/
theorem Forest.remains {t u : Table DirRow} {dead : Set Int} (h : Forest t)
    (hdown : DownClosed t dead) (hu : Remains dead t u) : Forest u := by
  intro r hr
  obtain ⟨hr, hdead⟩ := (hu r).mp hr
  obtain ⟨hne, names, hpl⟩ := h r hr
  exact ⟨hne, names, hpl.remains hdown hu hdead⟩

/-- The directories form a forest and every song lies in one of them. -/
structure Linked (db : Database) : Prop where
  dirs : Forest db.musicDirs
  songs : ∀ s ∈ db.songs.rows, ∃ row, (s.2.dirId, row) ∈ db.musicDirs.rows

/-- The directories of a set are deleted with their songs, and nothing else. -/
structure Pruned (dead : Set Int) (db db' : Database) : Prop where
  dirs : Remains dead db.musicDirs db'.musicDirs
  songs : ∀ r, r ∈ db'.songs.rows ↔ r ∈ db.songs.rows ∧ r.2.dirId ∉ dead
  rest : { db' with musicDirs := db.musicDirs, songs := db.songs } = db

theorem Linked.pruned {db db' : Database} {dead : Set Int} (h : Linked db)
    (hdown : DownClosed db.musicDirs dead) (hp : Pruned dead db db') : Linked db' where
  dirs := h.dirs.remains hdown hp.dirs
  songs s hs := by
    obtain ⟨hs, hdead⟩ := (hp.songs s).mp hs
    obtain ⟨row, hrow⟩ := h.songs s hs
    exact ⟨row, (hp.dirs _).mpr ⟨hrow, hdead⟩⟩

theorem Pruned.refl (db : Database) : Pruned ∅ db db where
  dirs r := by simp
  songs r := by simp
  rest := rfl

theorem Pruned.trans {db db' db'' : Database} {dead dead' : Set Int} (h : Pruned dead db db')
    (h' : Pruned dead' db' db'') : Pruned (dead ∪ dead') db db'' where
  dirs r := by
    rw [h'.dirs, h.dirs, Set.mem_union]
    tauto
  songs r := by
    rw [h'.songs, h.songs, Set.mem_union]
    tauto
  rest := by
    have h₁ := h.rest
    have h₂ := h'.rest
    cases db
    cases db'
    cases db''
    simp_all

theorem Pruned.dirs_subset {db db' : Database} {dead : Set Int} (h : Pruned dead db db') :
    ∀ r ∈ db'.musicDirs.rows, r ∈ db.musicDirs.rows := fun r hr => ((h.dirs r).mp hr).1

end Spinny
