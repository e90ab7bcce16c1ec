import Spinny.Lib.Table
import Spinny.Sqlite.Values

/-!
# The database

The tables that `check_and_create_tables` makes for the row classes, one row type a table. The
columns declared `string` hold what SQLite gives back for them (`Text`); the integer columns hold
numbers, and `last_visit` the time its text denotes, in seconds.

* `Database`: the tables.
* `loadedSongs`, `entriesOf`: the joins that several queries select from.
-/

namespace Spinny

open Bytes Sqlite

variable [Affinity]

/-- A row of `songs`. -/
structure SongRow where
  dirId : Int
  artistId : Int
  albumId : Int
  fileName : Text
  title : Text
  track : Int
  length : Int
  bitrate : Int
  year : Int
  deriving DecidableEq

/-- A row of `artists` or `albums`. -/
structure NameRow where
  name : Text
  deriving DecidableEq

/-- A row of `music_dirs`. -/
structure DirRow where
  parentId : Int
  name : Text
  deriving DecidableEq

/-- A row of `playlists`. -/
structure PlayListRow where
  name : Text
  description : Text
  orderBy : Text
  presentOrder : Int
  deriving DecidableEq

/-- A row of `playlist_songs`. -/
structure EntryRow where
  presentOrder : Int
  songId : Int
  playlistId : Int
  deriving DecidableEq

/-- A row of `users`. -/
structure UserRow where
  login : Text
  password : Text
  ticket : Text
  lastVisit : Int
  role : Int
  deriving DecidableEq

/-- A row of `settings`. -/
structure SettingRow where
  name : Text
  value : Text
  deriving DecidableEq

/-- The tables. -/
structure Database where
  songs : Table SongRow
  artists : Table NameRow
  albums : Table NameRow
  musicDirs : Table DirRow
  playlists : Table PlayListRow
  playlistSongs : Table EntryRow
  users : Table UserRow
  settings : Table SettingRow
  deriving DecidableEq

/-- The database with no rows. -/
def Database.empty : Database where
  songs := .empty
  artists := .empty
  albums := .empty
  musicDirs := .empty
  playlists := .empty
  playlistSongs := .empty
  users := .empty
  settings := .empty

/-- A song with its entry in a playlist. -/
structure Joined where
  songId : Int
  song : SongRow
  entryId : Int
  entry : EntryRow

namespace Database

/-- The entries of a playlist. -/
def entriesOf (db : Database) (playlistId : Int) : List (Int × EntryRow) :=
  db.playlistSongs.select fun _ e => e.playlistId == playlistId

/-- `from songs, playlist_songs where songs.rowid = playlist_songs.song_id and
playlist_songs.playlist_id = ..`. -/
def joinedOf (db : Database) (playlistId : Int) : List Joined :=
  db.songs.rows.flatMap fun s =>
    ((db.entriesOf playlistId).filter fun e => e.2.songId == s.1).map fun e =>
      ⟨s.1, s.2, e.1, e.2⟩

/-- `(select name from artists where artists.rowid = ..)`, read as a string. -/
def artistName (db : Database) (id : Int) : Bytes :=
  match db.artists.lookup id with
  | some a => a.name.val
  | none => []

/-- `(select name from albums where albums.rowid = ..)`, read as a string. -/
def albumName (db : Database) (id : Int) : Bytes :=
  match db.albums.lookup id with
  | some a => a.name.val
  | none => []

/-- `select value from settings where name = ..`, read as a string. -/
def setting (db : Database) (name : Bytes) : Bytes :=
  match (db.settings.select fun _ r => r.name.eqLiteral name).head? with
  | some r => r.2.value.val
  | none => []

end Database

end Spinny
