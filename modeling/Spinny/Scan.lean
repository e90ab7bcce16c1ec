import Spinny.Lib.Hoare
import Spinny.PlayList
import Spinny.Tags

/-!
# Scanning the directories

`MusicDir::create_root`, `sync` and `destroy`, `Song::create_from_file` and `App::rescan`. What
the file system and TagLib come to is a `Disk`, asked by the number of the reading, so that it may
change at any time. A scan runs in a `Logged` world: next to it stand the tables it went through
and the songs it deleted, which nothing reads but the statements about a scan.

* `MusicDir.syncFrom`: `sync` with the depth that is left; `create` is `create_from_file`.
* `rescan`: `App::rescan`.
-/

namespace Spinny

open Bytes Sqlite Boost Proc

variable [Affinity]

/-! ## The disk -/

/-- What `stat` says of a path. -/
inductive FileStatus where
  /-- There is nothing at the path: `ENOENT` or `ENOTDIR`. -/
  | missing
  | file
  | directory
  /-- `stat` fails with another error. -/
  | fails
  deriving DecidableEq

/-- The tag of a file with its numbers as `int`s, and the length and the bit rate if TagLib has
them. -/
structure Tag where
  title : Bytes
  artist : Bytes
  album : Bytes
  track : Int
  year : Int
  properties : Option (Int × Int)

/-- The directories and files that a scan reads. A scan counts its readings, and every reading is
answered by its number and the path that it asks for, given as the names from the root on: what
stands at a path may be another thing at each reading. -/
structure Disk where
  /-- What `stat` says of the path. -/
  status : Nat → List Bytes → FileStatus
  /-- The leaves that a directory iterator gives, and whether it throws after them. -/
  leaves : Nat → List Bytes → List Bytes × Bool
  /-- What TagLib reads of the file; `none` if it cannot open it. -/
  tag : Nat → List Bytes → Option Tag

/-- How a scan can fail to come to its end. -/
inductive Stop where
  | raise (r : Raise)
  /-- `basic_filesystem_error`. -/
  | filesystemError
  /-- `Song::file_error`. -/
  | fileError
  /-- The null tag of a file that TagLib cannot open is dereferenced. -/
  | nullTag

/-! ## The log -/

/-- What befalls the songs of the playlists. -/
inductive SongEvent where
  /-- The song is to be put into the playlist. -/
  | inserted (playlistId songId : Int)
  /-- The row of the song is deleted. -/
  | deleted (songId : Int)
  deriving DecidableEq

/-- A world and what it went through, the latest first. -/
structure Logged where
  world : World
  events : List SongEvent
  /-- The tables after each change of a scan. -/
  passed : List Database

/-- The tables. -/
def Logged.db (s : Logged) : Database := s.world.db

/-- A world in which nothing has happened. -/
def Logged.start (w : World) : Logged := ⟨w, [], []⟩

/-- What a scan runs. -/
abbrev Scan := Proc Logged Stop

/-- Code of the world in a scan. -/
def Run.scan {α : Type} (x : Run α) : Scan α :=
  focus Logged.world (fun w s => { s with world := w }) Stop.raise x

/-- A statement that changes the tables. -/
def change (accepted : Bool) (f : Database → Database) : Scan Unit := do
  (execUpdate accepted f).run.scan
  modify fun s => { s with passed := s.db :: s.passed }

/-- A reading of the disk. -/
def reading : Scan Nat := do
  let n := (← get).world.readings
  modify fun s => { s with world := { s.world with readings := n + 1 } }
  return n

namespace Disk

/-- `boost::filesystem::exists`: a path of which `stat` says nothing is taken to exist. -/
def existsAt (disk : Disk) (path : List Bytes) : Scan Bool := do
  return disk.status (← reading) path ≠ .missing

/-- `boost::filesystem::is_directory`, which throws where there is nothing to ask about. -/
def isDirectory (disk : Disk) (path : List Bytes) : Scan Bool := do
  match disk.status (← reading) path with
  | .directory => return true
  | .file => return false
  | .missing | .fails => throw .filesystemError

/-- What a directory iterator over the path gives. -/
def list (disk : Disk) (path : List Bytes) : Scan (List Bytes × Bool) := do
  return disk.leaves (← reading) path

/-- The tag of a `TagLib::FileRef` for the path. -/
def readTag (disk : Disk) (path : List Bytes) : Scan Tag := do
  match disk.tag (← reading) path with
  | some tag => return tag
  | none => throw .nullTag

end Disk

/-! ## Saving and deleting -/

/-- A change of the rows of `music_dirs`. -/
def Database.mapDirs (f : Table DirRow → Table DirRow) (db : Database) : Database :=
  { db with musicDirs := f db.musicDirs }

/-- A change of the rows of `songs`. -/
def Database.mapSongs (f : Table SongRow → Table SongRow) (db : Database) : Database :=
  { db with songs := f db.songs }

namespace Song

/-- The row that `table_insert_values` gives; none of its texts may hold a NUL. -/
def toRow (s : Song) : Option SongRow :=
  if h : nulFree s.fileName = true ∧ nulFree s.title = true then
    some {
      dirId := s.dirId
      artistId := s.artistId
      albumId := s.albumId
      fileName := .ofLiteral s.fileName h.1
      title := .ofLiteral s.title h.2
      track := s.track
      length := s.length
      bitrate := s.bitrate
      year := s.year }
  else none

/-- `save` of a song without a row. -/
def saveNew (s : Song) : Scan Song := do
  let id := (← get).db.songs.nextId
  change s.toRow.isSome fun db =>
    match s.toRow with
    | some row => db.mapSongs fun t => t.insert row
    | none => db
  return { s with dbId := id }

/-- `table::destroy`. -/
def destroy (s : Song) : Scan Unit := do
  if s.dbId ≠ 0 then
    change true <| .mapSongs fun t => t.deleteWhere fun id _ => id == s.dbId
    modify fun l => { l with events := .deleted s.dbId :: l.events }

end Song

namespace MusicDir

/-- The row that `table_insert_values` gives; its name may hold no NUL. -/
def toRow (d : MusicDir) : Option DirRow :=
  if h : nulFree d.name = true then some ⟨d.parentId, .ofLiteral d.name h⟩ else none

/-- `save` of a directory without a row. -/
def saveNew (d : MusicDir) : Scan MusicDir := do
  let id := (← get).db.musicDirs.nextId
  change d.toRow.isSome fun db =>
    match d.toRow with
    | some row => db.mapDirs fun t => t.insert row
    | none => db
  return { d with dbId := id }

/-- `save_if_needed`. -/
def saveIfNeeded (d : MusicDir) : Scan MusicDir := if d.dbId = 0 then d.saveNew else pure d

/-- `create_root`. -/
def createRoot (path : Bytes) : Act MusicDir := do
  let mds ← loadRows (nulFree path) fun db =>
    (db.musicDirs.select fun _ d => d.parentId == 0 && d.name.eqLiteral path).map fun r =>
      ofRow r.1 r.2
  match mds with
  | md :: _ => return md
  | [] => return ⟨0, 0, path⟩

/-- `add_child`. -/
def addChild (d : MusicDir) (name : Bytes) : MusicDir := ⟨0, d.dbId, name⟩

/-- `table::destroy`. -/
def destroyRow (d : MusicDir) : Scan Unit := do
  if d.dbId ≠ 0 then
    change true <| .mapDirs fun t => t.deleteWhere fun id _ => id == d.dbId

/-- `destroy` to a depth of `fuel`. -/
def destroyFrom : Nat → MusicDir → Scan Unit
  | 0, _ => throw (.raise .hangs)
  | fuel + 1, d => do
    (← d.children.run.scan).forM (destroyFrom fuel)
    (← d.songs.run.scan).forM Song.destroy
    d.destroyRow

/-- `MusicDir::destroy`. Deeper than there are rows it has met a directory below itself and does
not end. -/
def destroy (d : MusicDir) : Scan Unit := do
  destroyFrom ((← get).db.musicDirs.rows.length + 1) d

end MusicDir

/-! ## Songs from files -/

/-- `boost::iends_with`. -/
def iendsWith (t suffix : Bytes) : Bool := (toUpperCopy suffix).isSuffixOf (toUpperCopy t)

/-- `Song::is_interesting`: the suffix lies in the leaf of the path. -/
def Song.isInteresting (leaf : Bytes) : Bool := iendsWith leaf (lit ".MP3")

example : Song.isInteresting (lit "ozzy.mP3") = true := by decide

/-- The name of an interesting file is no number, so it is stored as it is. -/
theorem coerce_of_interesting {name : Bytes} (h : Song.isInteresting name = true) :
    coerce name = name := by
  refine coerce_of_not_number (Bool.eq_false_iff.mpr fun hnumber => ?_)
  obtain ⟨s, hs⟩ := List.isSuffixOf_iff_suffix.mp h
  have hmem : (77 : UInt8) ∈ toUpperCopy name := by
    rw [← hs]
    exact List.mem_append_right _ (by decide)
  obtain ⟨b, hb, hupper⟩ := List.mem_map.mp hmem
  have hbytes : ∀ b, upperAscii b = 77 → isNumberByte b = false := by decide +kernel
  have hbyte := List.all_eq_true.mp (all_isNumber hnumber) b hb
  rw [hbytes b hupper] at hbyte
  cases hbyte

/-- `Song::create_from_file`. -/
def Song.createFromFile (disk : Disk) (d : MusicDir) (name : Bytes) : Scan Song := do
  let d ← d.saveIfNeeded
  let path := (← d.path.scan) ++ [name]
  if !(← disk.existsAt path) || !isInteresting name then throw .fileError
  let tag ← disk.readTag path
  let artist ← (Artist.findOrCreate tag.artist).run.scan
  let album ← (Album.findOrCreate tag.album).run.scan
  let (length, bitrate) := tag.properties.getD (0, 0)
  saveNew {
    dbId := 0
    dirId := d.dbId
    artistId := artist.dbId
    albumId := album.dbId
    fileName := name
    title := tag.title
    track := tag.track
    length := length
    bitrate := bitrate
    year := tag.year
    artistName := []
    albumName := [] }

/-! ## `sync` -/

/-- The directories and the songs that a scan of a directory has not met yet. -/
structure Unmet where
  dirs : List MusicDir
  songs : List Song

namespace MusicDir

/-- An entry of the directory that is a directory: `sync` of the child it stands for. -/
def visitDir (sync : MusicDir → Scan Unit) (d : MusicDir) (left : Unmet) (leaf : Bytes) :
    Scan Unmet := do
  match left.dirs.find? fun c => c.name == leaf with
  | some child =>
    sync child
    return { left with dirs := left.dirs.eraseP fun c => c.name == leaf }
  | none =>
    sync (← (d.addChild leaf).saveNew)
    return left

/-- An entry that is no directory. -/
def visitFile (create : MusicDir → Bytes → Scan Song) (d : MusicDir) (left : Unmet)
    (leaf : Bytes) : Scan Unmet := do
  if Song.isInteresting leaf then
    if left.songs.any fun s => s.fileName == leaf then
      return { left with songs := left.songs.eraseP fun s => s.fileName == leaf }
    else
      tryCatch (do let _ ← create d leaf) fun
        | .fileError => pure ()
        | e => throw e
      return left
  else return left

/-- One turn of the loop over the entries. -/
def visit (disk : Disk) (create : MusicDir → Bytes → Scan Song) (sync : MusicDir → Scan Unit)
    (d : MusicDir) (path : List Bytes) (left : Unmet) (leaf : Bytes) : Scan Unmet := do
  if ← disk.isDirectory (path ++ [leaf]) then d.visitDir sync left leaf
  else d.visitFile create left leaf

/-- `sync` with `255 - depth` levels left. -/
def syncFrom (disk : Disk) (create : MusicDir → Bytes → Scan Song) : Nat → MusicDir → Scan Unit
  | left, d => do
    let _ ← d.path.scan
    let d ← d.saveIfNeeded
    match left with
    | 0 => pure ()
    | left + 1 =>
      if ← disk.existsAt (← d.path.scan) then
        let dirs ← d.children.run.scan
        let songs ← d.songs.run.scan
        let path ← d.path.scan
        let (leaves, fails) ← disk.list path
        let unmet ← leaves.foldlM (d.visit disk create (syncFrom disk create left) path) ⟨dirs, songs⟩
        if fails then throw .filesystemError
        unmet.dirs.forM destroy
        unmet.songs.forM Song.destroy

/-- `MusicDir::sync`. -/
def sync (disk : Disk) (d : MusicDir) : Scan Unit :=
  d.syncFrom disk (Song.createFromFile disk) 255

end MusicDir

/-- `init_music_dir`. -/
def initMusicDir (disk : Disk) (dir : Bytes) : Scan Unit := do
  (← (MusicDir.createRoot dir).run.scan).sync disk

/-- `App::rescan` over the directories of `music_dir`. -/
def rescan (disk : Disk) (dirs : List Bytes) : Scan Unit := dirs.forM (initMusicDir disk)

end Spinny
