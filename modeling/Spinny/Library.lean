import Spinny.Session

/-!
# Songs, artists, albums and directories

The queries of `song.cpp`, `artist.cpp`, `album.cpp` and `music_dir.cpp` that the handlers use.
Each row class has its object and its lookups under the source's names.

* `Song.load`, `Song.find`, `Song.artistName`, `Song.path`
* `Artist.startingChars`, `Artist.nameStartsWith`, `Artist.albums`, `Album.artists`
* `MusicDir.childrenOf`, `MusicDir.songs`
-/

namespace Spinny

open Bytes Sqlite Boost

variable [Affinity]

/-! ## Artists and albums -/

/-- An `Artist`. -/
structure Artist where
  dbId : Int
  name : Bytes

/-- An `Album`. -/
structure Album where
  dbId : Int
  name : Bytes

/-- `Artist::initialize_from_db`. -/
def Artist.ofRow (id : Int) (row : NameRow) : Artist := ⟨id, row.name.val⟩

/-- `Album::initialize_from_db`. -/
def Album.ofRow (id : Int) (row : NameRow) : Album := ⟨id, row.name.val⟩

/-- `Artist::load`. -/
def Artist.load (id : Int) : Act Artist := loadRow Database.artists Artist.ofRow id

/-- `Album::load`. -/
def Album.load (id : Int) : Act Album := loadRow Database.albums Album.ofRow id

/-- `Artist::count`. -/
def Artist.count : Act Nat := execSelect true fun db => db.artists.rows.length

/-- `Album::count`. -/
def Album.count : Act Nat := execSelect true fun db => db.albums.rows.length

/-- `Artist::all`. -/
def Artist.all : Act (List Artist) :=
  loadRows true fun db => orderByUpper Artist.name (db.artists.rows.map fun r => .ofRow r.1 r.2)

/-- `Album::all`. -/
def Album.all : Act (List Album) :=
  loadRows true fun db => orderByUpper Album.name (db.albums.rows.map fun r => .ofRow r.1 r.2)

/-- `Artist::num_songs`. -/
def Artist.numSongs (a : Artist) : Act Nat :=
  execSelect true fun db => db.songs.count fun _ s => s.artistId == a.dbId

/-- `Album::num_songs`. -/
def Album.numSongs (a : Album) : Act Nat :=
  execSelect true fun db => db.songs.count fun _ s => s.albumId == a.dbId

/-- `Artist::name_starts_with`. -/
def Artist.nameStartsWith (name : Bytes) : Act (List Artist) :=
  loadRows (nulFree name) fun db =>
    orderByUpper Artist.name
      ((db.artists.rows.map fun r => Artist.ofRow r.1 r.2).filter fun a =>
        patternCompare false (name ++ [37]) (toUpperCopy a.name))

/-- `Album::name_starts_with`: the albums with the number of their songs. -/
def Album.nameStartsWith (name : Bytes) : Act (List (Album × Nat)) :=
  loadRows (nulFree name) fun db =>
    orderByUpper (fun a => a.1.name)
      ((db.albums.rows.map fun r =>
          (Album.ofRow r.1 r.2, db.songs.count fun _ s => s.albumId == r.1)).filter fun a =>
        patternCompare false (name ++ [37]) (toUpperCopy a.1.name))

/-- `Artist::num_albums`: the number of different values of `album_id`. -/
def Artist.numAlbums (a : Artist) : Act Nat :=
  execSelect true fun db =>
    ((db.songs.select fun _ s => s.artistId == a.dbId).map fun s => s.2.albumId).dedup.length

/-- A column with the name of a table in front is known in a statement that selects from it. -/
def knowsTable (tables : List Bytes) (table : Bytes) : Bool := tables.contains table

/-- `Artist::with_album`: the order is by a column of `albums`. -/
def Artist.withAlbum (alb : Album) : Act (List Artist) :=
  loadRows (knowsTable [lit "artists", lit "songs"] (lit "albums")) fun db =>
    db.artists.rows.flatMap fun r =>
      (db.songs.rows.filter fun s => s.2.artistId == r.1 && s.2.albumId == alb.dbId).map fun _ =>
        Artist.ofRow r.1 r.2

/-- `Album::artists`. -/
def Album.artists (a : Album) : Act (List Artist) := Artist.withAlbum a

/-- `Artist::albums`: an album is listed once for each song. -/
def Artist.albums (a : Artist) : Act (List Album) :=
  loadRows true fun db =>
    orderByUpper Album.name
      (db.albums.rows.flatMap fun r =>
        (db.songs.rows.filter fun s => s.2.albumId == r.1 && s.2.artistId == a.dbId).map fun _ =>
          Album.ofRow r.1 r.2)

/-- `select upper( substr(name,1,1) ),count(rowid) .. where length(name)>0 group by ..`. -/
def startingGroups (rows : List (Int × NameRow)) : List (Bytes × Nat) :=
  let keys := (rows.filter fun r => 0 < charLength r.2.name.val).map fun r =>
    toUpperCopy (firstChar r.2.name.val)
  (keys.dedup.mergeSort fun a b => decide (a ≤ b)).map fun k => (k, keys.count k)

/-- `reader::get<char>` and `reader::get<unsigned int>` of one group. -/
def startingChar (group : Bytes × Nat) : Act (UInt8 × Nat) := do
  let c ← cast (match group.1 with
    | [c] => some c
    | _ => none)
  return (c, ← countUnsigned group.2)

/-- `Artist::starting_chars`. -/
def Artist.startingChars : Act (List (UInt8 × Nat)) := do
  (← execText fun db => startingGroups db.artists.rows).mapM startingChar

/-- `Album::starting_chars`. -/
def Album.startingChars : Act (List (UInt8 × Nat)) := do
  (← execText fun db => startingGroups db.albums.rows).mapM startingChar

/-! ## Songs -/

/-- A `Song`. `artistName` and `albumName` are empty where the query did not select them. -/
structure Song where
  dbId : Int
  dirId : Int
  artistId : Int
  albumId : Int
  fileName : Bytes
  title : Bytes
  track : Int
  length : Int
  bitrate : Int
  year : Int
  artistName : Bytes
  albumName : Bytes

namespace Song

/-- `initialize_from_db` on the columns of the table: the numbers are read as `int`s. -/
def ofRow (id : Int) (row : SongRow) : Song where
  dbId := id
  dirId := row.dirId
  artistId := row.artistId
  albumId := row.albumId
  fileName := row.fileName.val
  title := row.title.val
  track := toInt32 row.track
  length := toInt32 row.length
  bitrate := toInt32 row.bitrate
  year := toInt32 row.year
  artistName := []
  albumName := []

/-- `initialize_from_db` with the two names behind the columns of the table. -/
def ofNamedRow (db : Database) (id : Int) (row : SongRow) : Song :=
  { ofRow id row with
    artistName := db.artistName row.artistId
    albumName := db.albumName row.albumId }

/-- `Song::load`. -/
def load (id : Int) : Act Song := loadRow Database.songs ofRow id

/-- `Song::count`. -/
def count : Act Nat := execSelect true fun db => db.songs.rows.length

/-- `Song::num_matching`. -/
def numMatching (query : Bytes) : Act Nat := do
  countUnsigned (← execSelect (nulFree query) fun db =>
    db.songs.count fun _ s => likeAround query s.title.val)

/-- `Song::find`. -/
def find (query : Bytes) (first count : Int) : Act (ResultSet Song) :=
  loadStored (if nulFree query then
    some ⟨fun db => some (limitRows first count
      (((db.songs.select fun _ s => likeAround query s.title.val).map fun r => ofRow r.1 r.2).mergeSort
        fun a b => decide (lower a.title ≤ lower b.title)))⟩
  else none)

/-- `Song::artist`. -/
def artist (s : Song) : Act Artist := Artist.load s.artistId

/-- `Song::album`. -/
def album (s : Song) : Act Album := Album.load s.albumId

/-- `Song::artist_name`. -/
def nameOfArtist (s : Song) : Act Bytes := do
  if s.artistName = [] then return (← s.artist).name else return s.artistName

/-- `Song::album_name`. -/
def nameOfAlbum (s : Song) : Act Bytes := do
  if s.albumName = [] then return (← s.album).name else return s.albumName

end Song

/-- `order by track,upper(title)`. -/
def orderByTrack (rows : List (Int × SongRow)) : List (Int × SongRow) :=
  (orderByUpper (fun r => r.2.title.val) rows).mergeSort fun a b => decide (a.2.track ≤ b.2.track)

/-- `load_many<Song>( field, id, "track,upper(title)" )`. -/
def songsWhere (field : SongRow → Int) (id : Int) : Act (List Song) :=
  loadRows true fun db =>
    (orderByTrack (db.songs.select fun _ s => field s == id)).map fun r => Song.ofRow r.1 r.2

/-- `Artist::songs`. -/
def Artist.songs (a : Artist) : Act (List Song) := songsWhere SongRow.artistId a.dbId

/-- `Album::songs`. -/
def Album.songs (a : Album) : Act (List Song) := songsWhere SongRow.albumId a.dbId

/-! ## Directories -/

/-- A `MusicDir`; none of the queries selects the counts. -/
structure MusicDir where
  dbId : Int
  parentId : Int
  name : Bytes

namespace MusicDir

/-- `initialize_from_db`: the column is read as an `int`. -/
def ofRow (id : Int) (row : DirRow) : MusicDir := ⟨id, toInt32 row.parentId, row.name.val⟩

/-- `MusicDir::load`. -/
def load (id : Int) : Act MusicDir := loadRow Database.musicDirs ofRow id

/-- `MusicDir::children_of`. -/
def childrenOf (id : Int) : Act (List MusicDir) :=
  loadRows true fun db =>
    orderByUpper MusicDir.name
      ((db.musicDirs.select fun _ d => d.parentId == id).map fun r => ofRow r.1 r.2)

/-- `MusicDir::roots`: `load_many` with the same rows and order as `children_of( 0 )`. -/
def roots : Act (List MusicDir) := childrenOf 0

/-- `MusicDir::children`. -/
def children (d : MusicDir) : Act (List MusicDir) := childrenOf d.dbId

/-- `MusicDir::songs`. -/
def songs (d : MusicDir) : Act (List Song) := songsWhere SongRow.dirId d.dbId

/-- `MusicDir::num_children`. -/
def numChildren (d : MusicDir) : Act Nat :=
  execSelect true fun db => db.musicDirs.count fun _ c => c.parentId == d.dbId

/-- `MusicDir::num_songs`. -/
def numSongs (d : MusicDir) : Act Nat :=
  execSelect true fun db => db.songs.count fun _ s => s.dirId == d.dbId

/-- `is_root`. -/
def isRoot (d : MusicDir) : Bool := d.parentId == 0

/-- `parent`. -/
def parent (d : MusicDir) : Act MusicDir := load d.parentId

/-- The loop of `MusicDir::path`: the names from the root on. With `fuel` the number of rows, a
walk that uses it up has met a directory twice and does not end. -/
def pathFrom (fuel : Nat) (d : MusicDir) (names : List Bytes) : Run (List Bytes) :=
  if d.isRoot then pure (d.name :: names)
  else
    match fuel with
    | 0 => throw .hangs
    | fuel + 1 => do
      let p ← d.parent
      pathFrom fuel p (d.name :: names)

/-- `MusicDir::path`. -/
def path (d : MusicDir) : Run (List Bytes) := do
  pathFrom (← get).db.musicDirs.rows.length d []

end MusicDir

/-- `Song::path`. -/
def Song.path (s : Song) : Run (List Bytes) := do
  let dir ← MusicDir.load s.dirId
  return (← dir.path) ++ [s.fileName]

end Spinny
