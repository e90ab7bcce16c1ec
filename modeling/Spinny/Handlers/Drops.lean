import Spinny.Answers
import Spinny.Destroy
import Spinny.Handlers.Browse
import Spinny.Handlers.Pl
import Spinny.Inserts

/-!
# Dropping a node of the trees on a playlist

The page sends the id and the class of a node as `Tree` wrote them to `/pl/songs/add`. Songs and
directories have their rowids as ids; the ids of artists and albums begin with a letter, which
`add_something` does not take off, and it has no branch for albums.

* `Dragged`: the nodes; `Emitted`: those in the answers of `Tree`.
* `add_insertsSongs`, `add_lettered`: what the request for a node comes to.
* `drop_iff`: for which nodes, playlists and positions the songs are inserted.
-/

namespace Handlers

open Bytes Boost Spinny Sqlite Ews Proc

variable [Affinity]

/-! ## Nodes -/

/-- A node of the trees that stands for one object of the library. -/
inductive Dragged where
  | song (song : Spinny.Song)
  | dir (dir : MusicDir)
  | artist (artist : Artist)
  | album (album : Album)

namespace Dragged

/-- The function of `Tree` that writes the node. -/
def write (before : Bytes) : Dragged → Act Unit
  | song s => Tree.insertSong before s
  | dir md => Tree.insertDir before md
  | artist a => Tree.insertArtist before a
  | album a => Tree.insertAlbum before a

/-- The rowid of the object. -/
def dbId : Dragged → Int
  | song s => s.dbId
  | dir md => md.dbId
  | artist a => a.dbId
  | album a => a.dbId

/-- The id has a letter in front. -/
def lettered : Dragged → Bool
  | song _ | dir _ => false
  | artist _ | album _ => true

/-- The id of the node. -/
def idText : Dragged → Bytes
  | song s => showInt s.dbId
  | dir md => showInt md.dbId
  | artist a => lit "b" ++ showInt a.dbId
  | album a => lit "c" ++ showInt a.dbId

/-- The class of the node. -/
def cls : Dragged → Bytes
  | song _ => lit "song"
  | dir _ => lit "dir"
  | artist _ => lit "artist"
  | album _ => lit "album"

/-- The songs of the node. -/
def songIds (db : Database) : Dragged → List Int
  | song s => [s.dbId]
  | dir md => (MusicDir.songList db md.dbId).map Spinny.Song.dbId
  | artist a => (orderByTrack (db.songs.select fun _ s => s.artistId == a.dbId)).map Prod.fst
  | album a => (orderByTrack (db.songs.select fun _ s => s.albumId == a.dbId)).map Prod.fst

/-- A node that an answer of `Tree` has in the world `w`: one of what the queries of `Tree::handle`
list. -/
inductive Emitted (w : World) : Dragged → Prop where
  | dir {id : Int} {l : List MusicDir} {md : MusicDir} :
    outcome (MusicDir.childrenOf id) w = .ok l → md ∈ l → Emitted w (.dir md)
  | songIn {md : MusicDir} {l : List Spinny.Song} {s : Spinny.Song} :
    outcome md.songs w = .ok l → s ∈ l → Emitted w (.song s)
  | artist {l : List Artist} {a : Artist} :
    outcome Artist.all w = .ok l → a ∈ l → Emitted w (.artist a)
  | startsWith {name : Bytes} {l : List Artist} {a : Artist} :
    outcome (Artist.nameStartsWith name) w = .ok l → a ∈ l → Emitted w (.artist a)
  | album {artist : Artist} {l : List Album} {a : Album} :
    outcome artist.albums w = .ok l → a ∈ l → Emitted w (.album a)
  | songOn {album : Album} {l : List Spinny.Song} {s : Spinny.Song} :
    outcome album.songs w = .ok l → s ∈ l → Emitted w (.song s)

/-- The label of the node. -/
def label : Dragged → Bytes
  | song s => if s.track ≠ 0 then showInt s.track ++ lit "-" ++ s.title else s.title
  | dir md => md.name
  | artist a => a.name
  | album a => a.name

/-- Nothing lies below the node. -/
def isLeaf (db : Database) : Dragged → Bool
  | song _ => true
  | dir md => db.musicDirs.count (fun _ c => c.parentId == md.dbId) +
      db.songs.count (fun _ s => s.dirId == md.dbId) == 0
  | artist _ | album _ => false

/-- The text of the node. -/
def text (db : Database) (before : Bytes) (n : Dragged) : Bytes :=
  let quote := if n.lettered then lit "\"" else []
  before ++ lit "\n    \x7b\"id\":" ++ quote ++ n.idText ++ quote ++ lit ",\"text\":\"" ++
    escapeQuotes n.label ++ lit "\",\"leaf\":" ++
    (if n.isLeaf db then lit "true" else lit "false") ++ lit ",\"cls\":\"" ++ n.cls ++
    lit "\" \x7d"

end Dragged

/-! ## The library behind a node -/

/-- The object of the node is made from a row. -/
def Dragged.InLibrary (db : Database) : Dragged → Prop
  | .song s => ∃ row, (s.dbId, row) ∈ db.songs.rows ∧ s = .ofRow s.dbId row
  | .dir md => ∃ row, (md.dbId, row) ∈ db.musicDirs.rows ∧ md = .ofRow md.dbId row
  | .artist a => ∃ row, (a.dbId, row) ∈ db.artists.rows ∧ a = .ofRow a.dbId row
  | .album a => ∃ row, (a.dbId, row) ∈ db.albums.rows ∧ a = .ofRow a.dbId row

theorem mem_orderByTrack {l : List (Int × SongRow)} {r : Int × SongRow} :
    r ∈ orderByTrack l ↔ r ∈ l := by
  simp only [orderByTrack, orderByUpper, List.mem_mergeSort]

/-- The rows that a statement has listed. -/
theorem rows_of_ok {α : Type} {f : Database → List α} {w : World} {l : List α}
    (h : outcome (loadRows true f) w = .ok l) : l = f w.db := by
  rw [outcome_loadRows] at h
  split at h
  · cases h
  · exact (Except.ok.inj h).symm

theorem songsWhere_inLibrary {field : SongRow → Int} {id : Int} {w : World}
    {l : List Spinny.Song} (h : outcome (songsWhere field id) w = .ok l) {s : Spinny.Song}
    (hs : s ∈ l) : (Dragged.song s).InLibrary w.db := by
  rw [rows_of_ok h] at hs
  obtain ⟨r, hr, rfl⟩ := List.mem_map.mp hs
  exact ⟨r.2, (Table.mem_select.mp (mem_orderByTrack.mp hr)).1, rfl⟩

/-- The nodes in the answers of `Tree` stand for rows. -/
theorem Dragged.Emitted.inLibrary {w : World} {n : Dragged} (h : n.Emitted w) :
    n.InLibrary w.db := by
  cases h with
  | dir hl hmem =>
    rw [rows_of_ok hl] at hmem
    obtain ⟨row, hr, -, hrow⟩ := MusicDir.mem_childList.mp hmem
    exact ⟨row, hr, hrow⟩
  | songIn hl hmem => exact songsWhere_inLibrary hl hmem
  | artist hl hmem =>
    rw [rows_of_ok hl, orderByUpper, List.mem_mergeSort] at hmem
    obtain ⟨r, hr, rfl⟩ := List.mem_map.mp hmem
    exact ⟨r.2, hr, rfl⟩
  | @startsWith name l a hl hmem =>
    rw [Artist.nameStartsWith, outcome_loadRows] at hl
    split at hl
    · cases hl
    · obtain rfl := Except.ok.inj hl
      rw [orderByUpper, List.mem_mergeSort] at hmem
      obtain ⟨r, hr, rfl⟩ := List.mem_map.mp (List.mem_filter.mp hmem).1
      exact ⟨r.2, hr, rfl⟩
  | album hl hmem =>
    rw [rows_of_ok hl, orderByUpper, List.mem_mergeSort] at hmem
    obtain ⟨r, hr, hmem⟩ := List.mem_flatMap.mp hmem
    obtain ⟨_, -, rfl⟩ := List.mem_map.mp hmem
    exact ⟨r.2, hr, rfl⟩
  | songOn hl hmem => exact songsWhere_inLibrary hl hmem

/-! ## The request -/

/-- The request that the page sends when the node is dropped on a playlist. -/
structure Drops (req : Request) (n : Dragged) (plId pos : Int) : Prop where
  path : req.u1 = lit "pl" ∧ req.u2 = lit "songs" ∧ req.u3 = lit "add"
  cls : req.u4 = n.cls
  playList : (req.varibles[lit "pl_id"]?.getD []).head? = some (showInt plId)
  id : (req.varibles[lit "id"]?.getD []).head? = some n.idText
  pos : (req.varibles[lit "pos"]?.getD []).head? = some (showInt pos)

/-- A value of the type `sqlite::id_t`. -/
def IsId (n : Int) : Prop := -2 ^ 63 ≤ n ∧ n < 2 ^ 63

instance (n : Int) : Decidable (IsId n) := inferInstanceAs (Decidable (_ ∧ _))

/-- The songs stand in the playlist at consecutive positions, in front of what was there from
that position on; all other entries are as they were. -/
def Adds (plId pos : Int) (songIds : List Int) (t t' : Table EntryRow) : Prop :=
  ∃ new, new.map Prod.snd = songIds.zipIdx.map (fun s => EntryRow.mk (pos + s.2) s.1 plId) ∧
    t'.rows = t.rows.map (fun r => (r.1, raise plId pos songIds.length r.2)) ++ new

/-- The request is answered, and the songs of the node are in the playlist. -/
def DropInserts (env : Env) (req : Request) (n : Dragged) (plId pos : Int) (w : World) : Prop :=
  ∃ w', Returns (PL.handle env req) w .stop w' ∧
    { w'.db with playlistSongs := w.db.playlistSongs } = w.db ∧
      Adds plId pos (n.songIds w.db) w.db.playlistSongs w'.db.playlistSongs

theorem idValue_eq {req : Request} {name text : Bytes}
    (h : (req.varibles[name]?.getD []).head? = some text) :
    idValue req name = cast (toId text) := by
  rw [idValue, Request.singleValue, h]

theorem idValue_showInt {req : Request} {name : Bytes} {n : Int} (hn : IsId n)
    (h : (req.varibles[name]?.getD []).head? = some (showInt n)) : idValue req name = pure n := by
  rw [idValue_eq h, show toId (showInt n) = some n from lexicalCastSigned_showInt hn.1 hn.2,
    cast_some]

/-- The steps of the request. -/
theorem handle_drop {req : Request} {n : Dragged} {plId pos : Int} (env : Env)
    (h : Drops req n plId pos) (hpl : IsId plId) :
    PL.handle env req = (do
      let pl ← PlayList.load plId
      let id ← cast (toId n.idText)
      let pos ← idValue req (lit "pos")
      PL.addSomething env pl n.cls id pos
      modifyRep fun rep =>
        (rep.setHeader (lit "X-HANDLED-BY") PL.name).setBasicHeaders (lit "json")
      return .stop) := by
  obtain ⟨h1, h2, h3⟩ := h.path
  have hne : ∀ other, lit "add" ≠ other → ¬ req.u3 = other := fun other hne => h3 ▸ hne
  rw [PL.handle, if_neg (not_not.mpr h1), PL.answer, if_pos h2, PL.songs,
    idValue_showInt hpl h.playList]
  simp only [if_neg (hne (lit "list") (by decide)), if_neg (hne (lit "reorder") (by decide)),
    if_neg (hne (lit "addsongs") (by decide)), if_pos h3, PL.add, idValue_eq h.id, h.cls,
    bind_assoc, pure_bind]

/-! ## What is inserted -/

/-- The entries after songs were inserted, at positions of the type `int`. -/
def added (id pos : Int) (songIds : List Int) (t : Table EntryRow) : Table EntryRow :=
  (songIds.zipIdx.map fun s => EntryRow.mk (toInt32 (pos + s.2)) s.1 id).foldl Table.insert
    (PlayList.shifted id pos songIds.length t)

section

variable {w : World} {pl : PlayList} {p : PlayListFields}

theorem dbId_returns (hp : Returns pl.fields w p w) : Returns pl.dbId w p.dbId w :=
  hp.bind (Returns.pure _ _)

theorem insertSongs_added (hs : w.stale = false) (hp : Returns pl.fields w p w)
    (songs : List Spinny.Song) (pos : Int) :
    Returns (pl.insertSongs songs pos) w ()
      (w.withEntries (added p.dbId pos (songs.map Spinny.Song.dbId) w.db.playlistSongs)) := by
  have hloop := forM_insertEntry (w := w.withEntries
    (PlayList.shifted p.dbId pos songs.length w.db.playlistSongs)) hs p.dbId
      (fun s : Spinny.Song × Nat => s.1.dbId) (fun s => toInt32 (pos + s.2)) songs.zipIdx
  rw [added, List.length_map, List.zipIdx_map, List.map_map]
  exact (dbId_returns hp).bind ((mapEntries_returns hs _).bind hloop)

theorem insertSong_added (hs : w.stale = false) (hp : Returns pl.fields w p w)
    (song : Spinny.Song) (pos : Int) :
    Returns (pl.insertSong song (toInt32 pos)) w ()
      (w.withEntries (added p.dbId (toInt32 pos) [song.dbId] w.db.playlistSongs)) := by
  have hentry := mapEntries_returns (w := w.withEntries (PlayList.shifted p.dbId (toInt32 pos) 1
    w.db.playlistSongs)) hs fun t => t.insert ⟨toInt32 pos, song.dbId, p.dbId⟩
  have hadded : added p.dbId (toInt32 pos) [song.dbId] w.db.playlistSongs =
      (PlayList.shifted p.dbId (toInt32 pos) 1 w.db.playlistSongs).insert
        ⟨toInt32 pos, song.dbId, p.dbId⟩ := by
    simp [added, toInt32_add]
  rw [hadded]
  exact (dbId_returns hp).bind ((mapEntries_returns hs _).bind hentry)

end

omit [Affinity] in
theorem toInt32_range (n : Int) : -2 ^ 31 ≤ toInt32 n ∧ toInt32 n < 2 ^ 31 := by
  unfold toInt32
  omega

omit [Affinity] in
/-- Which positions and which playlist the inserted entries have. -/
theorem adds_added_iff {plId id pos : Int} {ids : List Int} {t : Table EntryRow} :
    Adds plId pos ids t (added id (toInt32 pos) ids t) ↔
      ids = [] ∨ id = plId ∧ -2 ^ 31 ≤ pos ∧ pos + ids.length ≤ 2 ^ 31 := by
  obtain ⟨new, hnew, hrows⟩ := rows_insertAll (PlayList.shifted id (toInt32 pos) ids.length t)
    (ids.zipIdx.map fun s => EntryRow.mk (toInt32 (toInt32 pos + s.2)) s.1 id)
  rw [rows_shifted] at hrows
  change (added id (toInt32 pos) ids t).rows = _ at hrows
  simp only [toInt32_add] at hnew
  constructor
  · rintro ⟨new', hnew', hrows'⟩
    rw [hrows] at hrows'
    obtain ⟨-, rfl⟩ := List.append_inj hrows' (by rw [List.length_map, List.length_map])
    rw [hnew] at hnew'
    by_cases hids : ids = []
    · exact .inl hids
    · have hpos : 0 < ids.length := List.length_pos_iff.mpr hids
      have heq : ∀ i, ∀ hi : i < ids.length, toInt32 (pos + i) = pos + i ∧ id = plId := by
        intro i hi
        have hmap := congrArg (fun l => l[i]?) hnew'
        simp only [List.getElem?_map, List.getElem?_zipIdx, List.getElem?_eq_getElem hi,
          Option.map_some, Option.some.injEq, EntryRow.mk.injEq, zero_add] at hmap
        exact ⟨hmap.1, hmap.2.2⟩
      have hfirst := heq 0 hpos
      have hlast := (heq (ids.length - 1) (by omega)).1
      have hlow := toInt32_range (pos + (0 : Nat))
      have hhigh := toInt32_range (pos + (ids.length - 1 : Nat))
      rw [hfirst.1] at hlow
      rw [hlast] at hhigh
      refine .inr ⟨hfirst.2, by omega, by omega⟩
  · intro h
    by_cases hids : ids = []
    · subst hids
      have hnil : new = [] := List.map_eq_nil_iff.mp hnew
      have hraise : ∀ i p e, raise i p (([] : List Int).length) e = e := by
        intro i p e
        unfold raise
        split
        · simp
        · rfl
      refine ⟨[], rfl, ?_⟩
      rw [hrows, hnil]
      simp only [hraise]
    · obtain ⟨rfl, hlow, hhigh⟩ := h.resolve_left hids
      have hlen := List.length_pos_iff.mpr hids
      have hpos : toInt32 pos = pos := toInt32_of_small (by omega) (by omega)
      rw [hpos] at hrows ⊢
      refine ⟨new, hnew.trans (List.map_congr_left fun s hs => ?_), hrows⟩
      have hlt := List.snd_lt_of_mem_zipIdx hs
      rw [toInt32_of_small (by omega) (by omega)]

/-! ## Which drops insert -/

/-- The playlist behind an id, and the id that its entries have. -/
theorem atId_fields {w : World} {plId : Int} {pl : PlayList}
    (h : PlayList.atId w.db plId = some pl) :
    ∃ p, Returns pl.fields w p w ∧ (p.dbId = plId ↔ (plId = 1 → w.complete.dbId = 1)) := by
  unfold PlayList.atId at h
  by_cases hc : plId = 1
  · rw [if_pos hc] at h
    obtain rfl := Option.some.inj h
    subst hc
    exact ⟨w.complete.fields, ⟨rfl, rfl⟩, fun heq _ => heq, fun heq => heq rfl⟩
  · rw [if_neg hc] at h
    obtain ⟨row, -, rfl⟩ := Option.map_eq_some_iff.mp h
    exact ⟨.ofRow plId row, ⟨rfl, rfl⟩, fun _ heq => absurd heq hc, fun _ => rfl⟩

theorem load_returns {w : World} (hs : w.stale = false) {plId : Int} {pl : PlayList}
    (h : PlayList.atId w.db plId = some pl) : Returns (PlayList.load plId) w pl w where
  outcome := by
    rw [PlayList.outcome_load, if_neg (by simp [hs]), h]
  after := PlayList.after_load plId w

omit [Affinity] in
/-- An id with a letter in front is no number. -/
theorem Dragged.toId_idText {n : Dragged} (hn : IsId n.dbId) :
    toId n.idText = if n.lettered then none else some n.dbId := by
  have hshow : ∀ {k : Int}, IsId k → toId (showInt k) = some k := fun hk =>
    lexicalCastSigned_showInt hk.1 hk.2
  cases n with
  | song s => exact hshow hn
  | dir md => exact hshow hn
  | artist a => exact toId_alpha (b := 98) (showInt a.dbId) (by decide)
  | album a => exact toId_alpha (b := 99) (showInt a.dbId) (by decide)

/-- A song or a directory is found by its id, and its songs are inserted. -/
theorem addSomething_added {w : World} {n : Dragged} {pl : PlayList} {p : PlayListFields}
    (env : Env) (pos : Int) (hs : w.stale = false) (hp : Returns pl.fields w p w)
    (hn : n.InLibrary w.db) (hplain : n.lettered = false) :
    Returns (PL.addSomething env pl n.cls n.dbId pos) w ()
      (w.withEntries (added p.dbId (toInt32 pos) (n.songIds w.db) w.db.playlistSongs)) := by
  cases n with
  | song s =>
    obtain ⟨row, hr, hrow⟩ := hn
    have hload := loadRow_returns hs Database.songs Spinny.Song.ofRow hr
    rw [← hrow] at hload
    rw [PL.addSomething, if_pos (show (Dragged.song s).cls = lit "song" from rfl)]
    exact hload.bind (insertSong_added hs hp s pos)
  | dir md =>
    obtain ⟨row, hr, hrow⟩ := hn
    have hload := loadRow_returns hs Database.musicDirs MusicDir.ofRow hr
    rw [← hrow] at hload
    rw [PL.addSomething, Dragged.cls, if_neg (by decide), if_pos rfl]
    exact hload.bind ((listRows_returns hs _).bind (insertSongs_added hs hp _ _))
  | artist a => cases hplain
  | album a => cases hplain

/-- The request inserts the songs of the node exactly for songs and directories, and there, unless
the node has no songs, for a playlist that is not the one of all songs and for positions that are
of the type `int`. -/
theorem drop_iff {req : Request} {n : Dragged} {plId pos : Int} {w : World} (env : Env)
    (hs : w.stale = false) (hn : n.Emitted w) (h : Drops req n plId pos)
    (hpl : (PlayList.atId w.db plId).isSome = true) (hnid : IsId n.dbId) (hplid : IsId plId)
    (hpos : IsId pos) :
    DropInserts env req n plId pos w ↔ n.lettered = false ∧
      (n.songIds w.db = [] ∨ (plId = 1 → w.complete.dbId = 1) ∧
        -2 ^ 31 ≤ pos ∧ pos + (n.songIds w.db).length ≤ 2 ^ 31) := by
  obtain ⟨pl, hat⟩ := Option.isSome_iff_exists.mp hpl
  obtain ⟨p, hp, hid⟩ := atId_fields hat
  unfold DropInserts
  rw [handle_drop env h hplid, Dragged.toId_idText hnid, idValue_showInt hpos h.pos]
  cases hl : n.lettered with
  | true =>
    refine ⟨?_, fun hfalse => absurd hfalse.1 (by decide)⟩
    rintro ⟨w', hret, -⟩
    have hout := hret.outcome
    rw [outcome_bind_ok (load_returns hs hat).outcome, (load_returns hs hat).after] at hout
    cases hout
  | false =>
    have hadd := addSomething_added env pos hs hp hn.inLibrary hl
    simp only [Bool.false_eq_true, if_false, cast_some, pure_bind]
    have hrun : Returns (do
        let pl ← PlayList.load plId
        PL.addSomething env pl n.cls n.dbId pos
        modifyRep fun rep =>
          (rep.setHeader (lit "X-HANDLED-BY") PL.name).setBasicHeaders (lit "json")
        return RequestStatus.stop) w .stop
        { w.withEntries (added p.dbId (toInt32 pos) (n.songIds w.db) w.db.playlistSongs) with
          rep := (w.rep.setHeader (lit "X-HANDLED-BY") PL.name).setBasicHeaders (lit "json") } :=
      (load_returns hs hat).bind (hadd.bind ⟨rfl, rfl⟩)
    rw [← hid, ← adds_added_iff, true_and]
    constructor
    · rintro ⟨w', hret, -, hadds⟩
      obtain rfl := hret.after.symm.trans hrun.after
      exact hadds
    · intro hadds
      exact ⟨_, hrun, rfl, hadds⟩

/-! ## One song by one artist -/

omit [Affinity] in
theorem nulFree_sonny : nulFree (lit "Sonny Stitt") = true := rfl

/-- A song by an artist in the one directory, and an empty playlist 2. -/
def oneArtist : Database where
  __ := rootWithSong
  artists := .single 1 ⟨.ofLiteral (lit "Sonny Stitt") nulFree_sonny⟩
  playlists := .single 2
    ⟨.ofLiteral (lit "mine") nulFree_mine, .empty,
      .ofLiteral (lit "present_order desc") nulFree_newOrder, 0⟩

/-- The request for a node dropped on the playlist 2 at the position 1. -/
def dropRequest (n : Dragged) : Request :=
  .forUrl (lit "/pl/songs/add/" ++ n.cls) (Std.ExtTreeMap.ofList
    [(lit "pl_id", [lit "2"]), (lit "id", [n.idText]), (lit "pos", [lit "1"])])

/-- The directory and the artist. -/
def musicNode : Dragged := .dir ⟨1, 0, lit "/music"⟩

def stittNode : Dragged := .artist ⟨1, lit "Sonny Stitt"⟩

omit [Affinity] in
theorem music_drops : Drops (dropRequest musicNode) musicNode 2 1 := by
  apply Drops.mk <;> decide

omit [Affinity] in
theorem stitt_drops : Drops (dropRequest stittNode) stittNode 2 1 := by
  apply Drops.mk <;> decide

omit [Affinity] in
/-- The song of the directory is inserted. -/
theorem music_inserts : ∃ _ : Affinity, ∀ env,
    DropInserts env (dropRequest musicNode) musicNode 2 1 (.start oneArtist) := by
  let _ := integerAffinity
  have hnode : musicNode.Emitted (.start oneArtist) :=
    @Dragged.Emitted.dir _ _ 0 _ _ rfl (MusicDir.mem_childList.mpr ⟨_, List.mem_singleton.mpr rfl, rfl, rfl⟩)
  have hsongs : musicNode.songIds oneArtist = [1] := by
    simp [musicNode, Dragged.songIds, MusicDir.songList, orderByTrack, orderByUpper, oneArtist,
      rootWithSong, Table.select, Spinny.Song.ofRow]
  have hrange : (1 : Int) + (musicNode.songIds oneArtist).length ≤ 2 ^ 31 := by
    rw [hsongs]
    decide
  refine ⟨integerAffinity, fun env => ?_⟩
  exact (drop_iff (w := .start oneArtist) env rfl hnode music_drops rfl (by decide) (by decide)
    (by decide)).mpr ⟨rfl, .inr ⟨by decide, by decide, hrange⟩⟩

omit [Affinity] in
/-- Nothing is inserted for the artist. -/
theorem stitt_raises : ∃ _ : Affinity, stittNode.Emitted (.start oneArtist) ∧
    Drops (dropRequest stittNode) stittNode 2 1 ∧ ∀ env,
      outcome (PL.handle env (dropRequest stittNode)) (.start oneArtist) = .error .badLexicalCast ∧
        ¬ DropInserts env (dropRequest stittNode) stittNode 2 1 (.start oneArtist) := by
  let _ := integerAffinity
  have hout : ∀ env, outcome (PL.handle env (dropRequest stittNode)) (.start oneArtist) =
      .error .badLexicalCast := fun env => rfl
  have hnode : stittNode.Emitted (.start oneArtist) := by
    refine .artist rfl ?_
    dsimp only
    rw [orderByUpper, List.mem_mergeSort]
    exact List.mem_singleton.mpr rfl
  refine ⟨integerAffinity, hnode, stitt_drops, fun env => ⟨hout env, ?_⟩⟩
  rintro ⟨w', hret, -⟩
  have h := hret.outcome
  rw [hout env] at h
  cases h

end Handlers
