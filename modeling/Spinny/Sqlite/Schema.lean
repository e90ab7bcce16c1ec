import Spinny.Sqlite.Store

/-!
# The tables of a database file

A file as a program finds it: its tables with the names they were created by, their columns, what
their constraints take, and their rows. Statements name tables and columns in any letter case; the
names in `sqlite_master` are compared byte by byte.

* `Schema.exec`: a `create table` or an `insert`, given by its text.
* `Within`: the tables of one file are still there in another, with their columns and rows.
* `create_touches`, `addRow_touches`: a statement touches the table that it names.
-/

namespace Sqlite

open Bytes Boost Proc

/-- A column. -/
structure Column where
  name : Bytes
  type : Bytes
  /-- The value of a row that is inserted without one. -/
  default : Value
  deriving DecidableEq

/-- A table of a file. -/
structure StoredTable where
  name : Bytes
  columns : List Column
  /-- The constraints of the columns take the row. -/
  takes : List Value → Bool
  rows : Table (List Value)

/-- The tables of a file. No two have one name in different letter case. -/
structure Schema where
  tables : List StoredTable
  distinct : tables.Pairwise fun t u => lower t.name ≠ lower u.name

namespace StoredTable

/-- The table has a column of this name. -/
def hasColumn (t : StoredTable) (f : Bytes) : Bool := t.columns.any fun c => lower c.name == lower f

/-- The table has all these columns. -/
def has (t : StoredTable) (fs : List Bytes) : Bool := fs.all t.hasColumn

/-- The row of an `insert`. -/
def newRow [Affinity] (t : StoredTable) (assigned : List (Bytes × Literal)) : List Value :=
  t.columns.map fun c =>
    match assigned.find? fun a => lower a.1 == lower c.name with
    | some a => stored (affinityType c.type) a.2
    | none => c.default

/-- The values of a column. -/
def values (t : StoredTable) (f : Bytes) : List Value :=
  t.rows.rows.map fun r =>
    match (t.columns.zip r.2).find? fun c => lower c.1.name == lower f with
    | some c => c.2
    | none => .null

/-- The table is that of before, perhaps with rows behind those it had. -/
structure Extends (t t' : StoredTable) : Prop where
  name : t'.name = t.name
  columns : t'.columns = t.columns
  rows : t.rows.rows <+: t'.rows.rows

theorem Extends.has {t t' : StoredTable} (h : t.Extends t') (fs : List Bytes) :
    t'.has fs = t.has fs := by
  unfold StoredTable.has StoredTable.hasColumn
  rw [h.columns]

/-- The table that `create table` makes. -/
def created (name : Bytes) (columns : List (Bytes × Bytes)) : StoredTable :=
  ⟨name, columns.map fun c => ⟨c.1, c.2, .null⟩, fun _ => true, .empty⟩

@[simp] theorem created_name (name : Bytes) (columns : List (Bytes × Bytes)) :
    (created name columns).name = name := rfl

end StoredTable

namespace Schema

/-- The file without a table. -/
def empty : Schema := ⟨[], List.Pairwise.nil⟩

/-- The table that a statement means by a name. -/
def find (sc : Schema) (name : Bytes) : Option StoredTable :=
  sc.tables.find? fun t => lower t.name == lower name

/-- `SELECT 1 FROM sqlite_master WHERE type='table' and name=..` gives a row. -/
def listed (sc : Schema) (name : Bytes) : Bool := sc.tables.any fun t => t.name == name

/-- `create table`. -/
def create (sc : Schema) (name : Bytes) (columns : List (Bytes × Bytes)) : Option Schema :=
  if h : sc.find name = none then
    some {
      tables := sc.tables ++ [.created name columns]
      distinct := by
        refine List.pairwise_append.mpr ⟨sc.distinct, List.pairwise_singleton _ _, ?_⟩
        intro t ht u hu
        obtain rfl := List.mem_singleton.mp hu
        have hne := List.find?_eq_none.mp h t ht
        simpa using hne }
  else none

/-- The table of a name with another row. -/
def addRow (sc : Schema) (name : Bytes) (row : List Value) : Schema where
  tables := sc.tables.map fun t =>
    if lower t.name = lower name then { t with rows := t.rows.insert row } else t
  distinct := by
    refine List.pairwise_map.mpr (sc.distinct.imp fun h => ?_)
    split_ifs <;> exact h

/-- `insert into`: refused without the table or a column, and by a constraint. -/
def insert [Affinity] (sc : Schema) (name : Bytes) (fs : List Bytes) (vs : List Literal) :
    Option Schema :=
  (sc.find name).bind fun t =>
    if fs.length = vs.length ∧ t.has fs = true ∧ t.takes (t.newRow (fs.zip vs)) = true then
      some (sc.addRow name (t.newRow (fs.zip vs)))
    else none

/-- The statements of a startup that write; none where it is an error. -/
def exec [Affinity] (sc : Schema) (text : Bytes) : Option Schema :=
  match parse text with
  | some (.create t columns) => sc.create t columns
  | some (.insert t fs vs) => sc.insert t fs vs
  | _ => none

/-- `select count(*) from ..`, read as an `int`. -/
def count (sc : Schema) (name : Bytes) : Option Int32 :=
  (sc.find name).map fun t => Int32.ofNat t.rows.rows.length

/-- `select max(..)+1 from ..`, read as an `int`; 0 without a value. -/
def nextOf [Affinity] (sc : Schema) (name f : Bytes) : Option Int32 :=
  (sc.find name).bind fun t =>
    if t.hasColumn f then
      match ((t.values f).filter (· ≠ .null)).map Value.toInt |>.max? with
      | some m => some (Int32.ofInt (m + 1))
      | none => some 0
    else none

/-! ## Finding a table -/

variable {sc sc' sc'' : Schema} {name : Bytes} {t : StoredTable}

theorem find_eq_some : sc.find name = some t ↔ t ∈ sc.tables ∧ lower t.name = lower name := by
  constructor
  · intro h
    exact ⟨List.mem_of_find?_eq_some h, by simpa using List.find?_some h⟩
  · rintro ⟨ht, hname⟩
    unfold find
    cases hf : sc.tables.find? fun t => lower t.name == lower name with
    | none => exact absurd (by simpa using hname) (List.find?_eq_none.mp hf t ht)
    | some u =>
      -- two tables of one name are one
      have hu : u ∈ sc.tables := List.mem_of_find?_eq_some hf
      have huname : lower u.name = lower name := by simpa using List.find?_some hf
      by_contra hne
      have hsymm : Std.Symm fun t u : StoredTable => lower t.name ≠ lower u.name :=
        ⟨fun _ _ h => Ne.symm h⟩
      have hne' : u ≠ t := fun h => hne (congrArg some h)
      exact sc.distinct.forall hu ht hne' (huname.trans hname.symm)

theorem listed_iff : sc.listed name = true ↔ ∃ t, sc.find name = some t ∧ t.name = name := by
  unfold listed
  simp only [List.any_eq_true, beq_iff_eq]
  constructor
  · rintro ⟨t, ht, rfl⟩
    exact ⟨t, find_eq_some.mpr ⟨ht, rfl⟩, rfl⟩
  · rintro ⟨t, ht, hname⟩
    exact ⟨t, (find_eq_some.mp ht).1, hname⟩

/-! ## What the statements leave -/

/-- Every table is still there. -/
def Within (sc sc' : Schema) : Prop := ∀ t ∈ sc.tables, ∃ t' ∈ sc'.tables, t.Extends t'

theorem Within.refl (sc : Schema) : Within sc sc :=
  fun t ht => ⟨t, ht, rfl, rfl, List.prefix_refl _⟩

theorem Within.trans (h : Within sc sc') (h' : Within sc' sc'') : Within sc sc'' := by
  intro t ht
  obtain ⟨t', ht', hext⟩ := h t ht
  obtain ⟨t'', ht'', hext'⟩ := h' t' ht'
  exact ⟨t'', ht'', hext'.name.trans hext.name, hext'.columns.trans hext.columns,
    hext.rows.trans hext'.rows⟩

theorem Within.find (h : Within sc sc') (ht : sc.find name = some t) :
    ∃ t', sc'.find name = some t' ∧ t.Extends t' := by
  obtain ⟨hmem, hname⟩ := find_eq_some.mp ht
  obtain ⟨t', ht', hext⟩ := h t hmem
  exact ⟨t', find_eq_some.mpr ⟨ht', hext.name ▸ hname⟩, hext⟩

/-- What a statement on the table `name` leaves alone. -/
structure Touches (name : Bytes) (sc sc' : Schema) : Prop where
  within : Within sc sc'
  others : ∀ other, lower other ≠ lower name → sc'.find other = sc.find other

theorem Touches.refl (name : Bytes) (sc : Schema) : Touches name sc sc := ⟨.refl sc, fun _ _ => rfl⟩

theorem Touches.trans (h : Touches name sc sc') (h' : Touches name sc' sc'') :
    Touches name sc sc'' :=
  ⟨h.within.trans h'.within, fun other ho => (h'.others other ho).trans (h.others other ho)⟩

theorem create_touches {columns : List (Bytes × Bytes)} (h : sc.create name columns = some sc') :
    Touches name sc sc' ∧ sc'.find name = some (.created name columns) := by
  unfold create at h
  split at h
  · rename_i hnone
    obtain rfl := Option.some.inj h
    refine ⟨⟨fun t ht => ⟨t, List.mem_append_left _ ht, rfl, rfl, List.prefix_refl _⟩, ?_⟩, ?_⟩
    · intro other ho
      have hne : ¬ lower name = lower other := Ne.symm ho
      unfold find
      rw [List.find?_append, List.find?_singleton]
      simp [hne]
    · exact find_eq_some.mpr ⟨List.mem_append_right _ (List.mem_singleton_self _), rfl⟩
  · cases h

theorem addRow_touches (sc : Schema) (name : Bytes) (row : List Value) :
    Touches name sc (sc.addRow name row) := by
  have hrows : ∀ t : StoredTable, t.rows.rows <+: (t.rows.insert row).rows := fun t =>
    List.prefix_append _ _
  constructor
  · intro t ht
    refine ⟨_, List.mem_map_of_mem ht, ?_⟩
    split
    · exact ⟨rfl, rfl, hrows t⟩
    · exact ⟨rfl, rfl, List.prefix_refl _⟩
  · intro other ho
    unfold find addRow
    rw [List.find?_map]
    have hname : ((fun t : StoredTable => lower t.name == lower other) ∘ fun t =>
        if lower t.name = lower name then { t with rows := t.rows.insert row } else t) =
        fun t => lower t.name == lower other := by
      funext t
      simp only [Function.comp_apply]
      split <;> rfl
    rw [hname]
    cases hf : sc.tables.find? fun t => lower t.name == lower other with
    | none => rfl
    | some t =>
      have ht : lower t.name = lower other := by simpa using List.find?_some hf
      have hne : ¬ lower t.name = lower name := fun h => ho (ht.symm.trans h)
      rw [Option.map_some, if_neg hne]

theorem find_addRow (ht : sc.find name = some t) (row : List Value) :
    (sc.addRow name row).find name = some { t with rows := t.rows.insert row } := by
  obtain ⟨hmem, hname⟩ := find_eq_some.mp ht
  refine find_eq_some.mpr ⟨List.mem_map.mpr ⟨t, hmem, ?_⟩, hname⟩
  rw [if_pos hname]

end Schema

end Sqlite
