import Spinny.PlayList

/-!
# What SQLite makes of an ordering

The listing of a playlist ends in `order by upper( column ) desc`, a text that the program puts
together from a name. SQLite resolves the name among the columns and the aliases of the statement.

* `Env.RefusesTables`: the name of a table is not one of them, so the statement is refused.
* `Env.SortsColumns`: the columns of the song list are, and the rows come out in some order.
* `Env.ListsEntries`: the entries of a playlist come out in some order.
* `Env.sorting`: surroundings in which all of this holds.
-/

namespace Spinny

open Bytes Sqlite

variable [Affinity]

/-- The columns of the song list, as the page names them in `sort`. -/
def listColumns : List Bytes :=
  [lit "track", lit "title", lit "artist", lit "album", lit "length"]

/-- The tables of the database. -/
def tableNames : List Bytes :=
  [lit "songs", lit "artists", lit "albums", lit "music_dirs", lit "playlists",
    lit "playlist_songs", lit "users", lit "settings"]

/-- A statement that orders by the name of a table is refused: no column has such a name. -/
structure Env.RefusesTables (env : Env) : Prop where
  joined : ∀ t ∈ tableNames, ∀ descending,
    env.orderJoined (upperOrder t (lit "desc") (lit "asc") descending) = none
  complete : ∀ t ∈ tableNames, ∀ descending,
    env.orderComplete (upperOrder t (lit "DESC") (lit "ASC") descending) = none

/-- An ordering gives out the rows it gets. -/
def Permutes {ρ : Type} (order : Database → List ρ → Option (List ρ)) : Prop :=
  ∀ db rows, ∃ sorted, order db rows = some sorted ∧ sorted.Perm rows

/-- A statement that orders by a column of the song list is accepted and gives out all rows. -/
structure Env.SortsColumns (env : Env) : Prop where
  byColumn : ∀ c ∈ listColumns, ∀ descending, ∃ order,
    env.orderComplete (upperOrder c (lit "DESC") (lit "ASC") descending) = some order ∧
      Permutes order
  byTitle : ∃ order, env.orderComplete (lit "songs.title") = some order ∧ Permutes order

/-- A statement that lists the entries of a playlist gives out none but these. -/
def Env.ListsEntries (env : Env) : Prop :=
  ∀ text order, env.orderEntries text = some order →
    ∀ db rows sorted, order db rows = some sorted → ∀ r ∈ sorted, r ∈ rows

/-! ## Surroundings that sort -/

/-- The text of a column of the song list. -/
def columnText (db : Database) (s : SongRow) (column : Bytes) : Bytes :=
  if column = lit "track" then showInt s.track
  else if column = lit "title" then s.title.val
  else if column = lit "artist" then db.artistName s.artistId
  else if column = lit "album" then db.albumName s.albumId
  else showInt s.length

/-- `order by upper( key ) asc` or `desc`; rows that are equal keep their order. -/
def sortUpper {ρ : Type} (key : ρ → Bytes) (descending : Bool) (rows : List ρ) : List ρ :=
  rows.mergeSort fun a b =>
    if descending then decide (toUpperCopy (key b) ≤ toUpperCopy (key a))
    else decide (toUpperCopy (key a) ≤ toUpperCopy (key b))

/-- The column and the direction that an ordering names. -/
def namedColumn (desc asc text : Bytes) : Option (Bytes × Bool) :=
  (listColumns.flatMap fun c => [(c, true), (c, false)]).find? fun c =>
    upperOrder c.1 desc asc c.2 = text

/-- The songs of the library by a column. -/
def sortComplete (c : Bytes × Bool) (db : Database) (rows : List (Int × SongRow)) :
    Option (List (Int × SongRow)) :=
  some (sortUpper (fun r => columnText db r.2 c.1) c.2 rows)

/-- `Env.plain` with the orderings by `present_order` and by a column of the song list, without a
limit. -/
def Env.sorting : Env where
  __ := Env.plain
  orderJoined text :=
    if text = lit "present_order desc" then
      some fun _ rows => some (rows.mergeSort fun a b =>
        decide (b.entry.presentOrder ≤ a.entry.presentOrder))
    else (namedColumn (lit "desc") (lit "asc") text).map fun c db rows =>
      some (sortUpper (fun j => columnText db j.song c.1) c.2 rows)
  orderComplete text :=
    if text = lit "songs.title" then some fun _ rows => some (rows.mergeSort fun a b =>
      decide (a.2.title.val ≤ b.2.title.val))
    else (namedColumn (lit "DESC") (lit "ASC") text).map sortComplete
  orderEntries text :=
    if text = lit "present_order desc" then
      some fun _ rows => some (rows.mergeSort fun a b =>
        decide (b.2.presentOrder ≤ a.2.presentOrder))
    else none

omit [Affinity] in
theorem sortUpper_perm {ρ : Type} (key : ρ → Bytes) (descending : Bool) (rows : List ρ) :
    (sortUpper key descending rows).Perm rows := List.mergeSort_perm _ _

omit [Affinity] in
theorem namedColumn_table {t : Bytes} (h : t ∈ tableNames) (descending : Bool) :
    namedColumn (lit "desc") (lit "asc") (upperOrder t (lit "desc") (lit "asc") descending) =
        none ∧
      namedColumn (lit "DESC") (lit "ASC") (upperOrder t (lit "DESC") (lit "ASC") descending) =
        none := by
  revert t descending
  decide +kernel

omit [Affinity] in
theorem namedColumn_column {c : Bytes} (h : c ∈ listColumns) (descending : Bool) :
    namedColumn (lit "DESC") (lit "ASC") (upperOrder c (lit "DESC") (lit "ASC") descending) =
      some (c, descending) := by
  revert c descending
  decide +kernel

theorem Env.sorting_refusesTables : Env.sorting.RefusesTables where
  joined t ht descending := by
    have hne : upperOrder t (lit "desc") (lit "asc") descending ≠ lit "present_order desc" := by
      intro h
      simpa [upperOrder, lit] using congrArg List.head? h
    simp only [Env.sorting, if_neg hne, (namedColumn_table ht descending).1, Option.map_none]
  complete t ht descending := by
    have hne : upperOrder t (lit "DESC") (lit "ASC") descending ≠ lit "songs.title" := by
      intro h
      simpa [upperOrder, lit] using congrArg List.head? h
    simp only [Env.sorting, if_neg hne, (namedColumn_table ht descending).2, Option.map_none]

theorem Env.sorting_sortsColumns : Env.sorting.SortsColumns where
  byColumn c hc descending := by
    have hne : upperOrder c (lit "DESC") (lit "ASC") descending ≠ lit "songs.title" := by
      intro h
      simpa [upperOrder, lit] using congrArg List.head? h
    refine ⟨sortComplete (c, descending), ?_, fun db rows => ⟨_, rfl, sortUpper_perm _ _ _⟩⟩
    simp only [Env.sorting, if_neg hne, namedColumn_column hc descending, Option.map_some]
  byTitle := ⟨_, rfl, fun _ rows => ⟨_, rfl, List.mergeSort_perm _ _⟩⟩

theorem Env.sorting_listsEntries : Env.sorting.ListsEntries := by
  intro text order h db rows sorted hs r hr
  simp only [Env.sorting] at h
  split at h
  · obtain rfl := Option.some.inj h
    obtain rfl := Option.some.inj hs
    exact List.mem_mergeSort.mp hr
  · cases h

end Spinny
