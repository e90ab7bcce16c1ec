import Spinny.Library

/-!
# Playlists

`playlist.cpp` and `complete_playlist.cpp`. A `PlayList::ptr` is an object made from a row
(`stored`) or the `CompletePlayList` instance (`complete`), which `PlayList::load` gives out for
the id 1. Only `set_order`, `songs` and `size` are virtual: the other methods run on the instance
as they are in `PlayList`, with the instance's own `db_id`.

* `load`, `create`, `save`: the rows of `playlists`.
* `insertSongs`, `insertSong`, `insertPlayList`, `remove`, `setSongOrder`: the rows of
  `playlist_songs`.
-/

namespace Spinny

open Bytes Sqlite Proc

variable [Affinity]

/-- The fields of a `PlayList`. -/
structure PlayListFields where
  dbId : Int
  name : Bytes
  description : Bytes
  orderBy : Bytes
  presentOrder : Int
  deriving DecidableEq

/-- A `PlayList::ptr`. -/
inductive PlayList where
  | stored (fields : PlayListFields)
  | complete

/-- A text streamed by `q( .., false )`. -/
def quoteOnly (t : Bytes) : Bytes := replaceAll 39 [39, 39] t

/-- A change of the rows of `playlist_songs`. -/
def Database.mapEntries (f : Table EntryRow → Table EntryRow) (db : Database) : Database :=
  { db with playlistSongs := f db.playlistSongs }

/-- A change of the rows of `playlists`. -/
def Database.mapPlayLists (f : Table PlayListRow → Table PlayListRow) (db : Database) : Database :=
  { db with playlists := f db.playlists }

namespace PlayListFields

/-- `initialize_from_db`. -/
def ofRow (id : Int) (row : PlayListRow) : PlayListFields where
  dbId := id
  name := row.name.val
  description := row.description.val
  orderBy := row.orderBy.val
  presentOrder := row.presentOrder

/-- The row that `table_insert_values` and `table_update_values` give; none of its texts may hold
a NUL. -/
def toRow (p : PlayListFields) : Option PlayListRow :=
  if h : nulFree p.name = true ∧ nulFree p.description = true ∧ nulFree p.orderBy = true then
    some {
      name := .ofLiteral p.name h.1
      description := .ofLiteral p.description h.2.1
      orderBy := .ofLiteral p.orderBy h.2.2
      presentOrder := p.presentOrder }
  else none

/-- The change that `save` makes. -/
def saved (p : PlayListFields) (row : PlayListRow) : Database → Database :=
  .mapPlayLists fun t =>
    if p.dbId = 0 then t.insert row else t.updateWhere (fun id _ => id == p.dbId) fun _ => row

/-- `connection::save<PlayList>`: the `db_id` afterwards. -/
def save (p : PlayListFields) : Act Int := do
  let id := (← get).db.playlists.nextId
  execUpdate p.toRow.isSome fun db =>
    match p.toRow with
    | some row => p.saved row db
    | none => db
  return if p.dbId = 0 then id else p.dbId

end PlayListFields

/-- The fields of the instance. -/
def CompletePlayList.fields (c : CompletePlayList) : PlayListFields :=
  ⟨c.dbId, c.name, c.description, c.orderBy, c.presentOrder⟩

/-- The order that `set_order` builds, with the words for the direction. -/
def upperOrder (order desc asc : Bytes) (descending : Bool) : Bytes :=
  lit "upper(" ++ order ++ (if descending then lit ") " ++ desc else lit ") " ++ asc)

namespace PlayList

/-- `PlayList::load`. -/
def load (id : Int) : Act PlayList :=
  if id = 1 then pure .complete
  else return .stored (← loadRow Database.playlists PlayListFields.ofRow id)

/-- The playlist that `load` gives for an id. -/
def atId (db : Database) (id : Int) : Option PlayList :=
  if id = 1 then some .complete
  else (db.playlists.lookup id).map fun r => .stored (.ofRow id r)

/-- `PlayList::all`. -/
def all : Act (List PlayListFields) :=
  loadRows true fun db =>
    (orderByUpper PlayListFields.name (db.playlists.rows.map fun r => .ofRow r.1 r.2)).mergeSort
      fun a b => decide (a.presentOrder ≤ b.presentOrder)

/-- `select max(present_order)+1 from playlists`, read as an `int`; 0 for no row. -/
def nextPresentOrder (db : Database) : Int :=
  match (db.playlists.rows.map fun r => r.2.presentOrder).max? with
  | some m => toInt32 (m + 1)
  | none => 0

/-- `PlayList::create`. -/
def create (name description : Bytes) : Act PlayList := do
  let order ← execText nextPresentOrder
  return .stored ⟨0, name, description, lit "present_order desc", order⟩

/-- The fields behind a pointer. -/
def fields : PlayList → Act PlayListFields
  | .stored p => pure p
  | .complete => return (← get).complete.fields

/-- `db_id`. -/
def dbId (pl : PlayList) : Act Int := return (← pl.fields).dbId

/-- `set_name`. -/
def setName (name : Bytes) : PlayList → Act PlayList
  | .stored p => pure (.stored { p with name })
  | .complete => do
    modify fun w => { w with complete := { w.complete with name } }
    return .complete

/-- `set_description`. -/
def setDescription (description : Bytes) : PlayList → Act PlayList
  | .stored p => pure (.stored { p with description })
  | .complete => do
    modify fun w => { w with complete := { w.complete with description } }
    return .complete

/-- `save`. -/
def save (pl : PlayList) : Act Unit := do
  let p ← pl.fields
  let id ← p.save
  match pl with
  | .stored _ => pure ()
  | .complete => modify fun w => { w with complete := { w.complete with dbId := id } }

/-- `PlayList::set_order( sqlite::id_t, int )`. -/
def setPresentOrder (id order : Int) : Act Unit :=
  execUpdate true <| .mapPlayLists fun t =>
    t.updateWhere (fun i _ => i == id) fun r => { r with presentOrder := order }

/-- `set_order( std::string, bool )`: a new order of a stored playlist is saved at once. -/
def setOrder (order : Bytes) (descending : Bool) : PlayList → Act PlayList
  | .stored p => do
    let newOrder := upperOrder order (lit "desc") (lit "asc") descending
    if newOrder = p.orderBy then return .stored p
    else
      let p := { p with orderBy := newOrder }
      PlayList.save (.stored p)
      return .stored p
  | .complete => do
    let newOrder := upperOrder (quoteOnly order) (lit "DESC") (lit "ASC") descending
    modify fun w => { w with complete := { w.complete with order := newOrder } }
    return .complete

/-- ` limit start,limit`, if there is a limit. -/
def limitText (start limit : Nat) : Bytes :=
  if limit = 0 then [] else lit " limit " ++ decimal start ++ lit "," ++ decimal limit

/-- The statement of `songs`, by the `order_` of the instance. -/
def songsStatement (env : Env) (start limit : Nat) (c : CompletePlayList) :
    PlayList → Option (ResultSet Song)
  | .stored p =>
    (env.orderJoined (quoteOnly p.orderBy ++ limitText start limit)).map fun order =>
      ⟨fun db => (order db (db.joinedOf p.dbId)).map fun rows =>
        rows.map fun j => Song.ofNamedRow db j.songId j.song⟩
  | .complete =>
    let order := if c.order = [] then lit "songs.title" else c.order
    (env.orderComplete (order ++ limitText start limit)).map fun order =>
      ⟨fun db => (order db db.songs.rows).map fun rows =>
        rows.map fun r => Song.ofNamedRow db r.1 r.2⟩

/-- `songs`. -/
def songs (env : Env) (start limit : Nat) (pl : PlayList) : Act (ResultSet Song) := do
  loadStored (pl.songsStatement env start limit (← get).complete)

/-- `size`: the instance counts all songs, with a statement of its own. -/
def size : PlayList → Act Nat
  | .stored p => do countUnsigned (← execSelect true fun db => (db.entriesOf p.dbId).length)
  | .complete => do countUnsigned (← execText fun db => db.songs.rows.length)

/-- `load_song`: the song of the entry with the given rowid. -/
def loadSong (entryId : Int) : Act Song :=
  loadOne true fun db =>
    match db.playlistSongs.lookup entryId with
    | some e => ((db.songs.lookup e.songId).map (Song.ofRow e.songId)).toList
    | none => []

/-! ## The entries -/

/-- `update playlist_songs set present_order = present_order+by where present_order >= from ..`. -/
def shifted (id position «by» : Int) (t : Table EntryRow) : Table EntryRow :=
  t.updateWhere (fun _ e => decide (position ≤ e.presentOrder) && e.playlistId == id) fun e =>
    { e with presentOrder := e.presentOrder + «by» }

/-- `insert into playlist_songs`. -/
def insertEntry (id songId position : Int) : Act Unit :=
  execUpdate true <| .mapEntries fun t => t.insert ⟨position, songId, id⟩

/-- `set_song_order`. -/
def setSongOrder (pl : PlayList) (songId order : Int) : Act Unit := do
  let id ← pl.dbId
  execUpdate true <| .mapEntries fun t =>
    t.updateWhere (fun _ e => e.songId == songId && e.playlistId == id) fun e =>
      { e with presentOrder := order }

/-- `insert( Song::result_set, int )`. -/
def insertSongs (pl : PlayList) (songs : List Song) (position : Int) : Act Unit := do
  let id ← pl.dbId
  execUpdate true <| .mapEntries (shifted id position songs.length)
  songs.zipIdx.forM fun s => insertEntry id s.1.dbId (toInt32 (position + s.2))

/-- `insert( Song::ptr, int )`. -/
def insertSong (pl : PlayList) (song : Song) (position : Int) : Act Unit := do
  let id ← pl.dbId
  execUpdate true <| .mapEntries (shifted id position 1)
  insertEntry id song.dbId position

/-- The first statement of `insert( PlayList::ptr, int )`: where `pl->size()` is evaluated after
the text in front of it is streamed, its own statement is streamed behind that text. -/
def makeRoom (env : Env) (pl other : PlayList) (position : Int) : Act Unit := do
  let id ← pl.dbId
  match other, env.operandsFirst with
  | .stored _, false => prepare false
  | other, _ =>
    let n ← other.size
    execUpdate true <| .mapEntries (shifted id position n)

/-- `select song_id from playlist_songs where playlist_id = .. order by ..`. -/
def songIds (env : Env) (pl : PlayList) : Act (List Int) := do
  let p ← pl.fields
  let order := env.orderEntries (quoteOnly p.orderBy)
  prepare order.isSome
  let db := (← get).db
  match order.bind fun order => order db (db.entriesOf p.dbId) with
  | some rows => return rows.map fun e => e.2.songId
  | none => throw .databaseError

/-- `insert( PlayList::ptr, int )`: the songs inserted are those of the playlist itself. -/
def insertPlayList (env : Env) (pl other : PlayList) (position : Int) : Act Unit := do
  makeRoom env pl other position
  let id ← pl.dbId
  let ids ← pl.songIds env
  ids.zipIdx.forM fun s => insertEntry id s.1 (toInt32 (position + s.2 + 1))

/-- `insert( MusicDir::ptr, int )`. -/
def insertDir (pl : PlayList) (dir : MusicDir) (position : Int) : Act Unit := do
  pl.insertSongs (← dir.songs) position

/-- `insert( Artist::ptr, int )`. -/
def insertArtist (pl : PlayList) (artist : Artist) (position : Int) : Act Unit := do
  pl.insertSongs (← artist.songs) position

/-- `insert( Album::ptr, int )`. -/
def insertAlbum (pl : PlayList) (album : Album) (position : Int) : Act Unit := do
  pl.insertSongs (← album.songs) position

/-- `clear`. -/
def clear (pl : PlayList) : Act Unit := do
  let id ← pl.dbId
  execUpdate true <| .mapEntries fun t => t.deleteWhere fun _ e => e.playlistId == id

/-- The first statement of `remove`: the entries at or after the first entry of the song move down
by one. -/
def closedGap (id songId : Int) (t : Table EntryRow) : Table EntryRow :=
  match (t.select fun _ e => e.playlistId == id && e.songId == songId).head? with
  | some first => shifted id first.2.presentOrder (-1) t
  | none => t

/-- `remove`. -/
def remove (pl : PlayList) (songId : Int) : Act Unit := do
  let id ← pl.dbId
  execUpdate true <| .mapEntries (closedGap id songId)
  execUpdate true <| .mapEntries fun t =>
    t.deleteWhere fun _ e => e.playlistId == id && e.songId == songId

/-! ## What loading and listing come to -/

theorem fields_returns (pl : PlayList) (w : World) : ∃ p, Returns pl.fields w p w := by
  cases pl with
  | stored p => exact ⟨p, rfl, rfl⟩
  | complete => exact ⟨w.complete.fields, rfl, rfl⟩

@[simp] theorem after_songIds (env : Env) (pl : PlayList) (w : World) :
    after (pl.songIds env) w = { w with stale := false } := by
  obtain ⟨p, hp⟩ := fields_returns pl w
  unfold songIds
  rw [after_bind_ok hp.outcome, hp.after, after_bind, outcome_prepare, after_prepare]
  by_cases hc : w.stale = true ∨ (env.orderEntries (quoteOnly p.orderBy)).isSome = false
  · simp only [if_pos hc]
  · simp only [if_neg hc, after_bind, outcome_get, after_get]
    split <;> rfl

/-- The ids that are listed are those of the rows that the ordering gives out. -/
theorem songIds_ok {env : Env} {pl : PlayList} {w : World} {p : PlayListFields} {ids : List Int}
    (hp : Returns pl.fields w p w) (h : outcome (pl.songIds env) w = .ok ids) :
    ∃ order rows, env.orderEntries (quoteOnly p.orderBy) = some order ∧
      order w.db (w.db.entriesOf p.dbId) = some rows ∧ ids = rows.map fun e => e.2.songId := by
  unfold songIds at h
  rw [outcome_bind_ok hp.outcome, hp.after] at h
  obtain ⟨_, hprep, h⟩ := bind_eq_ok.mp h
  rw [after_prepare] at h
  cases horder : env.orderEntries (quoteOnly p.orderBy) with
  | none =>
    rw [outcome_prepare, horder, if_pos (.inr rfl)] at hprep
    cases hprep
  | some order =>
    simp only [outcome_bind, outcome_get, after_get, horder, Option.bind_some] at h
    split at h
    · rename_i rows hrows
      exact ⟨order, rows, rfl, hrows, (Except.ok.inj h).symm⟩
    · cases h

theorem outcome_load (id : Int) (w : World) :
    outcome (load id) w =
      if id ≠ 1 ∧ w.stale = true then .error .databaseError
      else
        match atId w.db id with
        | some pl => .ok pl
        | none => .error .notFound := by
  unfold load atId
  split
  · rename_i h
    simp [h]
  · rename_i h
    rw [outcome_bind, loadRow, outcome_loadOne]
    cases hs : w.stale with
    | true => simp [h]
    | false => cases w.db.playlists.lookup id <;> simp

/-- What a playlist that is loaded is. -/
theorem of_load_ok {id : Int} {w : World} {pl : PlayList} (h : outcome (load id) w = .ok pl) :
    id = 1 ∧ pl = .complete ∨
      id ≠ 1 ∧ ∃ row, w.db.playlists.lookup id = some row ∧ pl = .stored (.ofRow id row) := by
  rw [outcome_load] at h
  split at h
  · cases h
  · unfold atId at h
    by_cases hid : id = 1
    · simp only [if_pos hid, Except.ok.injEq] at h
      exact .inl ⟨hid, h.symm⟩
    · simp only [if_neg hid] at h
      cases hrow : w.db.playlists.lookup id with
      | none => simp [hrow] at h
      | some row =>
        simp only [hrow, Option.map_some, Except.ok.injEq] at h
        exact .inr ⟨hid, row, rfl, h.symm⟩

theorem atId_of_load_ok {id : Int} {w : World} {pl : PlayList}
    (h : outcome (load id) w = .ok pl) : atId w.db id = some pl := by
  rcases of_load_ok h with ⟨rfl, rfl⟩ | ⟨hne, row, hrow, rfl⟩
  · rfl
  · rw [atId, if_neg hne, hrow, Option.map_some]

@[simp] theorem after_load (id : Int) (w : World) : after (load id) w = w := by
  unfold load
  split
  · rfl
  · rw [after_bind, loadRow, after_loadOne]
    have hw : { w with stale := w.stale || !true } = w := by
      cases w
      simp
    rw [hw]
    split <;> rfl

end PlayList

namespace PlayListFields

/-- What saving comes to. -/
theorem outcome_save (p : PlayListFields) (w : World) :
    outcome p.save w =
      if w.stale = true ∨ p.toRow.isSome = false then .error .databaseError
      else .ok (if p.dbId = 0 then w.db.playlists.nextId else p.dbId) := by
  unfold save
  rw [outcome_bind_ok (outcome_get w), after_get, outcome_bind, outcome_execUpdate]
  by_cases hc : w.stale = true ∨ p.toRow.isSome = false
  · simp only [if_pos hc]
  · simp only [if_neg hc]
    rfl

/-- Saving returns with an empty buffer and texts without a NUL only. -/
theorem row_of_save_ok {p : PlayListFields} {w : World} {id : Int}
    (h : outcome p.save w = .ok id) :
    w.stale = false ∧ ∃ row, p.toRow = some row ∧ row.orderBy.val = coerce p.orderBy := by
  rw [outcome_save] at h
  split at h
  · cases h
  · rename_i hc
    push Not at hc
    refine ⟨by simpa using hc.1, ?_⟩
    have hrow := hc.2
    unfold toRow at hrow ⊢
    split
    · exact ⟨_, rfl, rfl⟩
    · rename_i hnul
      simp [hnul] at hrow

/-- What saving leaves behind. -/
theorem after_save (p : PlayListFields) (w : World) :
    after p.save w =
      match w.stale, p.toRow with
      | false, some row => { w with stale := false, db := p.saved row w.db }
      | _, _ => { w with stale := false } := by
  unfold save
  rw [after_bind_ok (outcome_get w), after_get, after_bind, outcome_execUpdate, after_execUpdate]
  cases hs : w.stale <;> cases hr : p.toRow <;> rfl

end PlayListFields

namespace PlayList

theorem outcome_save_stored (p : PlayListFields) (w : World) :
    outcome (PlayList.save (.stored p)) w = (outcome p.save w).map fun _ => () := by
  change outcome (p.save >>= fun _ => pure ()) w = _
  rw [outcome_bind]
  cases outcome p.save w <;> rfl

theorem after_save_stored (p : PlayListFields) (w : World) :
    after (PlayList.save (.stored p)) w = after p.save w := by
  change after (p.save >>= fun _ => pure ()) w = _
  rw [after_bind]
  cases outcome p.save w <;> rfl

/-- A new order starts with a letter, so it is stored as it is. -/
theorem coerce_upperOrder (order desc asc : Bytes) (descending : Bool) :
    coerce (upperOrder order desc asc descending) = upperOrder order desc asc descending :=
  coerce_alpha 117 _ (by decide)

/-- Setting an order of a saved playlist leaves its row with that order. -/
theorem setOrder_stored {p : PlayListFields} {row : PlayListRow} {order : Bytes} {descending : Bool}
    {w : World} {pl : PlayList} (hid : p.dbId ≠ 0)
    (hrow : w.db.playlists.lookup p.dbId = some row) (hp : p.orderBy = row.orderBy.val)
    (h : outcome (setOrder order descending (.stored p)) w = .ok pl) :
    ∃ row', (after (setOrder order descending (.stored p)) w).db.playlists.lookup p.dbId =
        some row' ∧ row'.orderBy.val = upperOrder order (lit "desc") (lit "asc") descending := by
  unfold setOrder at h ⊢
  dsimp only at h ⊢
  split
  · rename_i hsame
    exact ⟨row, hrow, by rw [hsame, hp]⟩
  · rename_i hnew
    rw [if_neg hnew] at h
    obtain ⟨_, hsave, -⟩ := bind_eq_ok.mp h
    rw [after_bind_ok hsave, after_pure, after_save_stored, PlayListFields.after_save]
    rw [outcome_save_stored] at hsave
    cases hs : outcome (PlayListFields.save { p with orderBy := _ }) w with
    | error e =>
      rw [hs] at hsave
      cases hsave
    | ok id =>
      obtain ⟨hstale, row', hrow', horder⟩ := PlayListFields.row_of_save_ok hs
      refine ⟨row', ?_, horder.trans (coerce_upperOrder _ _ _ _)⟩
      simp only [hstale, hrow', PlayListFields.saved, Database.mapPlayLists, if_neg hid,
        Table.lookup_updateWhere_rowid, hrow, Option.map_some]

theorem outcome_songs (env : Env) (start limit : Nat) (pl : PlayList) (w : World) :
    outcome (pl.songs env start limit) w =
      match pl.songsStatement env start limit w.complete with
      | some r => if w.stale = true then .error .databaseError else .ok r
      | none => .error .databaseError := by
  unfold songs
  rw [outcome_bind_ok (outcome_get w), after_get, outcome_loadStored]
  cases pl.songsStatement env start limit w.complete <;> rfl

/-- The statement of a listing that was accepted. -/
theorem statement_of_songs {env : Env} {start limit : Nat} {pl : PlayList} {w : World}
    {rs : ResultSet Song} (h : outcome (pl.songs env start limit) w = .ok rs) :
    pl.songsStatement env start limit w.complete = some rs := by
  rw [outcome_songs] at h
  split at h
  · rename_i r hr
    split at h
    · cases h
    · rw [hr, Except.ok.inj h]
  · cases h

theorem after_songs (env : Env) (start limit : Nat) (pl : PlayList) (w : World) :
    after (pl.songs env start limit) w =
      { w with stale := w.stale || (pl.songsStatement env start limit w.complete).isNone } := by
  unfold songs
  rw [after_bind_ok (outcome_get w), after_get, after_loadStored]

end PlayList

/-! ## Texts of small libraries -/

omit [Affinity] in
/-- The order of a new playlist can be stored. -/
theorem nulFree_newOrder : nulFree (lit "present_order desc") = true := rfl

omit [Affinity] in
theorem nulFree_a : nulFree (lit "a") = true := rfl

omit [Affinity] in
theorem nulFree_b : nulFree (lit "b") = true := rfl

omit [Affinity] in
theorem nulFree_mine : nulFree (lit "mine") = true := rfl

end Spinny
