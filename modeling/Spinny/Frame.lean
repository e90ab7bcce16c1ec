import Spinny.PlayList
import Spinny.Accounts

/-!
# What the operations leave alone

`stored` is what the program keeps: the tables and the `CompletePlayList` instance. A query keeps
it, whether it throws or not; an operation that writes one table keeps all but that table.

* `Queries`: the procedures that keep `stored`; `ReadsOnly`: those that keep the reply as well, among
  them the queries of the row classes.
* `WritesEntries`: the operations of playlists that write `playlist_songs` only; `EntriesOnly`: they
  keep the reply as well.
-/

namespace Spinny

open Bytes Sqlite Proc

variable [Affinity] {ε α β γ : Type}

/-- The tables and the instance. -/
def stored (w : World) : Database × CompletePlayList := (w.db, w.complete)

/-- A procedure that keeps the tables and the instance. -/
abbrev Queries (x : Proc World ε α) : Prop := Keeps (Same stored) x

/-- A procedure that keeps the reply as well. -/
abbrev ReadsOnly (x : Proc World ε α) : Prop := Keeps (Same fun w => (stored w, w.rep)) x

theorem ReadsOnly.queries {x : Proc World ε α} (h : ReadsOnly x) : Queries x := h.same_of Prod.fst

namespace ReadsOnly

theorem cast (x : Option α) : ReadsOnly (cast x) := by
  cases x
  · exact Keeps.throw _
  · exact Keeps.pure _

theorem localTime (env : Env) : ReadsOnly (localTime env) := fun _ => rfl

theorem newTicket (env : Env) : ReadsOnly (newTicket env) := fun _ => rfl

theorem prepare (accepted : Bool) : ReadsOnly (prepare accepted) := by
  intro w
  rw [Same, after_prepare]
  rfl

theorem execSelect (accepted : Bool) (f : Database → α) : ReadsOnly (execSelect accepted f) := by
  intro w
  rw [Same, after_execSelect]
  rfl

theorem execText (f : Database → α) : ReadsOnly (execText f) := fun _ => rfl

theorem loadStored (rs : Option (ResultSet α)) : ReadsOnly (loadStored rs) := by
  intro w
  rw [Same, after_loadStored]
  rfl

theorem begin (rs : ResultSet α) : ReadsOnly rs.begin := by
  intro w
  rw [Same, after_begin]

theorem loadOne (accepted : Bool) (f : Database → List α) : ReadsOnly (loadOne accepted f) := by
  intro w
  rw [Same, after_loadOne]
  rfl

theorem loadRows (accepted : Bool) (f : Database → List α) : ReadsOnly (loadRows accepted f) := by
  intro w
  rw [Same, after_loadRows]
  rfl

theorem loadRow (table : Database → Table α) (make : Int → α → β) (id : Int) :
    ReadsOnly (loadRow table make id) := loadOne _ _

theorem countUnsigned (n : Nat) : ReadsOnly (countUnsigned n) := by
  unfold Spinny.countUnsigned
  split
  · exact Keeps.pure _
  · exact Keeps.throw _

/-! ## The queries of the row classes -/

theorem song_load (id : Int) : ReadsOnly (Song.load id) := loadRow _ _ _

theorem artist_load (id : Int) : ReadsOnly (Artist.load id) := loadRow _ _ _

theorem album_load (id : Int) : ReadsOnly (Album.load id) := loadRow _ _ _

theorem musicDir_load (id : Int) : ReadsOnly (MusicDir.load id) := loadRow _ _ _

theorem songsWhere (field : SongRow → Int) (id : Int) : ReadsOnly (songsWhere field id) :=
  loadRows _ _

theorem startingChar (group : Bytes × Nat) : ReadsOnly (startingChar group) :=
  (cast _).bind fun _ => (countUnsigned _).bind fun _ => Keeps.pure _

theorem nameOfArtist (s : Song) : ReadsOnly s.nameOfArtist := by
  unfold Song.nameOfArtist
  split
  · exact (artist_load _).bind fun _ => Keeps.pure _
  · exact Keeps.pure _

theorem nameOfAlbum (s : Song) : ReadsOnly s.nameOfAlbum := by
  unfold Song.nameOfAlbum
  split
  · exact (album_load _).bind fun _ => Keeps.pure _
  · exact Keeps.pure _

theorem playList_load (id : Int) : ReadsOnly (PlayList.load id) := by
  intro w
  rw [Same, PlayList.after_load]

theorem fields (pl : PlayList) : ReadsOnly pl.fields := by
  cases pl
  · exact Keeps.pure _
  · exact Keeps.get.bind fun _ => Keeps.pure _

theorem dbId (pl : PlayList) : ReadsOnly pl.dbId := (fields pl).bind fun _ => Keeps.pure _

theorem songs (env : Env) (start limit : Nat) (pl : PlayList) :
    ReadsOnly (pl.songs env start limit) :=
  Keeps.get.bind fun _ => loadStored _

theorem size (pl : PlayList) : ReadsOnly pl.size := by
  cases pl
  · exact (execSelect _ _).bind fun _ => countUnsigned _
  · exact (execText _).bind fun _ => countUnsigned _

theorem loadSong (entryId : Int) : ReadsOnly (PlayList.loadSong entryId) := loadOne _ _

theorem songIds (env : Env) (pl : PlayList) : ReadsOnly (pl.songIds env) := by
  refine (fields pl).bind fun p => (prepare _).bind fun _ => Keeps.get.bind fun w => ?_
  dsimp only
  split
  · exact Keeps.pure _
  · exact Keeps.throw _

theorem user_load (id : Int) : ReadsOnly (User.load id) := loadRow _ _ _

theorem user_create (env : Env) (login password : Bytes) :
    ReadsOnly (User.create env login password) :=
  (newTicket env).bind fun _ => (localTime env).bind fun _ => Keeps.pure _

end ReadsOnly

/-- What the loading of a directory keeps is kept by the loop of `path`. -/
theorem keeps_path {R : World → World → Prop} [Std.Refl R] [IsTrans World R]
    (h : ∀ id, Keeps R (MusicDir.load id)) (d : MusicDir) : Keeps R d.path := by
  have key : ∀ fuel (d : MusicDir) names, Keeps R (d.pathFrom fuel names) := by
    intro fuel
    induction fuel with
    | zero =>
      intro d names
      unfold MusicDir.pathFrom
      split
      · exact Keeps.pure _
      · exact Keeps.throw _
    | succ fuel ih =>
      intro d names
      unfold MusicDir.pathFrom
      split
      · exact Keeps.pure _
      · exact ((h _).adapt Raise.exn).bind fun _ => ih _ _
  exact Keeps.get.bind fun _ => key _ _ _

theorem ReadsOnly.path (d : MusicDir) : ReadsOnly d.path := keeps_path ReadsOnly.musicDir_load d

theorem ReadsOnly.songPath (s : Song) : ReadsOnly s.path :=
  ((ReadsOnly.musicDir_load _).adapt _).bind fun _ => (ReadsOnly.path _).bind fun _ => Keeps.pure _

theorem Queries.path (d : MusicDir) : Queries d.path := (ReadsOnly.path d).queries

namespace Queries

theorem modifyRep (f : Ews.Reply → Ews.Reply) : Queries (modifyRep f) := fun _ => rfl

theorem put (t : Bytes) : Queries (put t) := fun _ => rfl

theorem setHdfValue (key : Bytes) (value : Ews.HdfValue) : Queries (setHdfValue key value) := by
  intro w
  rw [Same, after_setHdfValue]
  split <;> rfl

theorem cast (x : Option α) : Queries (cast x) := (ReadsOnly.cast x).queries

theorem localTime (env : Env) : Queries (localTime env) := (ReadsOnly.localTime env).queries

theorem newTicket (env : Env) : Queries (newTicket env) := (ReadsOnly.newTicket env).queries

theorem prepare (accepted : Bool) : Queries (prepare accepted) := (ReadsOnly.prepare _).queries

theorem execText (f : Database → α) : Queries (execText f) := (ReadsOnly.execText f).queries

theorem begin (rs : ResultSet α) : Queries rs.begin := (ReadsOnly.begin rs).queries

theorem loadOne (accepted : Bool) (f : Database → List α) : Queries (loadOne accepted f) :=
  (ReadsOnly.loadOne _ _).queries

theorem loadRows (accepted : Bool) (f : Database → List α) : Queries (loadRows accepted f) :=
  (ReadsOnly.loadRows _ _).queries

theorem putChain (env : Env) (operands : List (Act Bytes)) (h : ∀ x ∈ operands, Queries x) :
    Queries (putChain env operands) := by
  unfold Spinny.putChain
  split
  · exact (Keeps.mapM _ h).bind fun _ => put _
  · induction operands with
    | nil => exact Keeps.pure _
    | cons x xs ih =>
      exact ((h x (by simp)).bind fun _ => put _).bind fun _ => ih fun y hy => h y (by simp [hy])

theorem putEach {write : Bytes → α → Act Unit} (h : ∀ t a, Queries (write t a)) (used : Bool)
    (rows : List α) : Queries (putEach write used rows) :=
  Keeps.foldlM rows (fun _ _ => (h _ _).bind fun _ => Keeps.pure _) used

theorem song_load (id : Int) : Queries (Song.load id) := (ReadsOnly.song_load id).queries

theorem artist_load (id : Int) : Queries (Artist.load id) := (ReadsOnly.artist_load id).queries

theorem musicDir_load (id : Int) : Queries (MusicDir.load id) := (ReadsOnly.musicDir_load id).queries

theorem songsWhere (field : SongRow → Int) (id : Int) : Queries (songsWhere field id) :=
  (ReadsOnly.songsWhere _ _).queries

theorem playList_load (id : Int) : Queries (PlayList.load id) := (ReadsOnly.playList_load id).queries

theorem fields (pl : PlayList) : Queries pl.fields := (ReadsOnly.fields pl).queries

theorem dbId (pl : PlayList) : Queries pl.dbId := (ReadsOnly.dbId pl).queries

theorem songs (env : Env) (start limit : Nat) (pl : PlayList) :
    Queries (pl.songs env start limit) := (ReadsOnly.songs env start limit pl).queries

theorem size (pl : PlayList) : Queries pl.size := (ReadsOnly.size pl).queries

theorem loadSong (entryId : Int) : Queries (PlayList.loadSong entryId) :=
  (ReadsOnly.loadSong entryId).queries

theorem songIds (env : Env) (pl : PlayList) : Queries (pl.songIds env) :=
  (ReadsOnly.songIds env pl).queries

theorem user_load (id : Int) : Queries (User.load id) := (ReadsOnly.user_load id).queries

theorem user_create (env : Env) (login password : Bytes) :
    Queries (User.create env login password) := (ReadsOnly.user_create env login password).queries

theorem run {x : Act α} (h : Queries x) : Queries x.run := h.adapt _

end Queries

/-! ## Writing one table -/

/-- All but the entries. -/
def exceptEntries (w : World) : Database × CompletePlayList :=
  ({ w.db with playlistSongs := .empty }, w.complete)

/-- A procedure that writes no table but `playlist_songs`. -/
abbrev WritesEntries (x : Proc World ε α) : Prop := Keeps (Same exceptEntries) x

/-- A procedure that keeps the reply as well. -/
abbrev EntriesOnly (x : Proc World ε α) : Prop := Keeps (Same fun w => (exceptEntries w, w.rep)) x

theorem EntriesOnly.writesEntries {x : Proc World ε α} (h : EntriesOnly x) : WritesEntries x :=
  h.same_of Prod.fst

theorem ReadsOnly.entriesOnly {x : Proc World ε α} (h : ReadsOnly x) : EntriesOnly x :=
  h.same_of fun s => (({ s.1.1 with playlistSongs := .empty }, s.1.2), s.2)

theorem entriesOnly_mapEntries (accepted : Bool) (f : Table EntryRow → Table EntryRow) :
    EntriesOnly (execUpdate accepted (.mapEntries f)) := by
  intro w
  rw [Same, after_execUpdate]
  split <;> rfl

namespace PlayList

theorem insertEntry_writes (id songId position : Int) :
    EntriesOnly (insertEntry id songId position) := entriesOnly_mapEntries _ _

theorem setSongOrder_writes (pl : PlayList) (songId order : Int) :
    EntriesOnly (pl.setSongOrder songId order) :=
  (ReadsOnly.dbId pl).entriesOnly.bind fun _ => entriesOnly_mapEntries _ _

theorem insertSongs_writes (pl : PlayList) (songs : List Song) (position : Int) :
    EntriesOnly (pl.insertSongs songs position) :=
  (ReadsOnly.dbId pl).entriesOnly.bind fun _ =>
    (entriesOnly_mapEntries _ _).bind fun _ => Keeps.forM _ fun _ => insertEntry_writes _ _ _

theorem insertSong_writes (pl : PlayList) (song : Song) (position : Int) :
    EntriesOnly (pl.insertSong song position) :=
  (ReadsOnly.dbId pl).entriesOnly.bind fun _ =>
    (entriesOnly_mapEntries _ _).bind fun _ => insertEntry_writes _ _ _

theorem makeRoom_writes (env : Env) (pl other : PlayList) (position : Int) :
    EntriesOnly (makeRoom env pl other position) := by
  refine (ReadsOnly.dbId pl).entriesOnly.bind fun _ => ?_
  split
  · exact (ReadsOnly.prepare _).entriesOnly
  · exact (ReadsOnly.size _).entriesOnly.bind fun _ => entriesOnly_mapEntries _ _

theorem insertPlayList_writes (env : Env) (pl other : PlayList) (position : Int) :
    EntriesOnly (insertPlayList env pl other position) :=
  (makeRoom_writes env pl other position).bind fun _ =>
    (ReadsOnly.dbId pl).entriesOnly.bind fun _ =>
      (ReadsOnly.songIds env pl).entriesOnly.bind fun _ =>
        Keeps.forM _ fun _ => insertEntry_writes _ _ _

theorem insertDir_writes (pl : PlayList) (dir : MusicDir) (position : Int) :
    EntriesOnly (pl.insertDir dir position) :=
  (ReadsOnly.songsWhere _ _).entriesOnly.bind fun _ => insertSongs_writes _ _ _

theorem insertArtist_writes (pl : PlayList) (artist : Artist) (position : Int) :
    EntriesOnly (pl.insertArtist artist position) :=
  (ReadsOnly.songsWhere _ _).entriesOnly.bind fun _ => insertSongs_writes _ _ _

theorem remove_writes (pl : PlayList) (songId : Int) : EntriesOnly (pl.remove songId) :=
  (ReadsOnly.dbId pl).entriesOnly.bind fun _ =>
    (entriesOnly_mapEntries _ _).bind fun _ => entriesOnly_mapEntries _ _

end PlayList

end Spinny
