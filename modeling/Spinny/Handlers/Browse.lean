import Spinny.Handlers.Access
import Spinny.Library

/-!
# The handlers `Index`, `Tree` and `Info`

The page with the whole library, the nodes of the trees, and the search for songs.
-/

namespace Handlers

open Bytes Boost Spinny Sqlite Ews

variable [Affinity]

/-! ## `Index` -/

namespace Index

/-- `insert`: one entry of an HDF list; `id` is a number or a character. -/
def insert (num : Nat) (id title : Bytes) (numChildren : Nat) (type : UInt8) : Act Unit :=
  put (lit "  " ++ decimal num ++ lit " \x7b" ++ lit "\n     label=" ++ escapeQuotes title ++
    lit "\n     id=" ++ id ++ lit "\n     type=" ++ [type] ++ lit "\n     ch=" ++
    decimal numChildren ++ lit "\n    \x7d\n")

/-- The entries from a number on. -/
def insertEach {α : Type} (write : Nat → α → Act Unit) (num : Nat) (rows : List α) : Act Unit :=
  rows.zipIdx.forM fun r => write (num + r.2) r.1

/-- One directory. -/
def insertDir (num : Nat) (md : MusicDir) : Act Unit := do
  let children ← md.numChildren
  let songs ← md.numSongs
  insert num (showInt md.dbId) md.name (children + songs) 97

/-- `hdf_insert_dirs`: a single root is opened. -/
def hdfInsertDirs : Act Unit := do
  put (lit "RootDirectories \x7b\n")
  match ← MusicDir.roots with
  | [root] =>
    let dirs ← root.children
    insertEach insertDir 0 dirs
    let songs ← root.songs
    insertEach (fun n (s : Spinny.Song) => insert n (showInt s.dbId) s.title 0 115) dirs.length
      songs
  | dirs => insertEach insertDir 0 dirs
  put (lit "\x7d\n")

/-- The starting characters in place of more than a hundred names. -/
def insertChars (type : UInt8) (chars : List (UInt8 × Nat)) : Act Unit :=
  insertEach (fun n (c : UInt8 × Nat) => insert n [c.1] [c.1] c.2 type) 0 chars

/-- `hdf_insert_albums`. -/
def hdfInsertAlbums : Act Unit := do
  put (lit "Albums \x7b\n")
  if 100 < (← Album.count) then insertChars 101 (← Album.startingChars)
  else
    insertEach (fun n (a : Album) => do insert n (showInt a.dbId) a.name (← a.numSongs) 102) 0
      (← Album.all)
  put (lit "\x7d\n")

/-- `hdf_insert_artists`. -/
def hdfInsertArtists : Act Unit := do
  put (lit "Artists \x7b\n")
  if 100 < (← Artist.count) then insertChars 98 (← Artist.startingChars)
  else
    insertEach (fun n (a : Artist) => do insert n (showInt a.dbId) a.name (← a.numSongs) 100) 0
      (← Artist.all)
  put (lit "\x7d\n")

/-- The page of a user who may modify. -/
def fullPage (user : User) : Act Unit := do
  modifyRep fun rep => rep.setTemplate (lit "full.html")
  hdfInsertDirs
  hdfInsertAlbums
  hdfInsertArtists
  setHdfValue (lit "isAdmin") (.number (if user.hasAtLeast User.adminRole then 1 else 0))
  setHdfValue (lit "NumArtists") (.number (toInt32 (← Artist.count)))
  setHdfValue (lit "NumAlbums") (.number (toInt32 (← Album.count)))
  setHdfValue (lit "NumSongs") (.number (toInt32 (← Spinny.Song.count)))

/-- The page by the role of the user. -/
def page (user : User) : Act Unit :=
  if user.hasAtLeast User.modifyRole then fullPage user else pure ()

/-- `Index::handle`: the role is read from behind the pointer without a test. -/
def handle (req : Request) : Run RequestStatus := do
  if req.u1 ≠ [] then return .continue
  else
    modifyRep fun rep => rep.setBasicHeaders (lit "html")
    match req.user with
    | none => throw .nullUser
    | some user =>
      page user
      return .stop

end Index

/-- `Index::Index`. -/
def index : RequestHandler := ⟨lit "Index", .middle, fun _ req => Index.handle req⟩

/-! ## `Tree` -/

namespace Tree

/-- `insert`. -/
def insert (before : Bytes) (id : Int) (label : Bytes) (numChildren : Nat) (type : Bytes) :
    Act Unit :=
  put (before ++ lit "\n    \x7b\"id\":" ++ showInt id ++ lit ",\"text\":\"" ++ escapeQuotes label ++
    lit "\",\"leaf\":" ++ (if numChildren ≠ 0 then lit "false" else lit "true") ++
    lit ",\"cls\":\"" ++ type ++ lit "\" \x7d")

/-- One song of `insert_songs`. -/
def insertSong (before : Bytes) (song : Spinny.Song) : Act Unit :=
  let label := if song.track ≠ 0 then showInt song.track ++ lit "-" ++ song.title else song.title
  insert before song.dbId label 0 (lit "song")

/-- One directory. -/
def insertDir (before : Bytes) (md : MusicDir) : Act Unit := do
  let children ← md.numChildren
  let songs ← md.numSongs
  insert before md.dbId md.name (children + songs) (lit "dir")

/-- A node that is no leaf, with a letter before its id. -/
def insertNode (before : Bytes) (letter id text type : Bytes) : Act Unit :=
  put (before ++ lit "\n    \x7b\"id\":\"" ++ letter ++ id ++ lit "\",\"text\":\"" ++ text ++
    lit "\",\"leaf\":false,\"cls\":\"" ++ type ++ lit "\" \x7d")

/-- One entry of `insert_starting_artists`. -/
def insertStart (before : Bytes) (c : UInt8 × Nat) : Act Unit :=
  insertNode before (lit "a") [c.1] [c.1] (lit "artist")

/-- One entry of `insert_artists`. -/
def insertArtist (before : Bytes) (a : Artist) : Act Unit :=
  insertNode before (lit "b") (showInt a.dbId) (escapeQuotes a.name) (lit "artist")

/-- One entry of `insert_albums`. -/
def insertAlbum (before : Bytes) (a : Album) : Act Unit :=
  insertNode before (lit "c") (showInt a.dbId) (escapeQuotes a.name) (lit "album")

/-- The branch for directories: at the root a single directory is opened. -/
def dir (req : Request) : Act Unit := do
  let dirId ← idValue req (lit "node")
  let rs ← MusicDir.childrenOf dirId
  let rs ← (match rs with
    | [root] => if dirId = 0 then root.children else pure rs
    | rs => pure rs)
  let used ← putEach insertDir false rs
  if dirId ≠ 0 then
    let md ← MusicDir.load dirId
    let _ ← putEach insertSong used (← md.songs)

/-- The artists, or the starting characters of more than a hundred. -/
def artists : Act Unit := do
  if 100 < (← Artist.count) then
    let _ ← putEach insertStart false (← Artist.startingChars)
  else
    let _ ← putEach insertArtist false (← Artist.all)

/-- The node behind a letter. -/
def node (letter : UInt8) (rest : Bytes) : Act Unit := do
  if letter = 97 then
    let _ ← putEach insertArtist false (← Artist.nameStartsWith rest)
  else if letter = 98 then
    let artist ← Artist.load (← cast (toId rest))
    let _ ← putEach insertAlbum false (← artist.albums)
  else if letter = 99 then
    let album ← Album.load (← cast (toId rest))
    let _ ← putEach insertSong false (← album.songs)

/-- The branch for tags. -/
def tag (req : Request) : Act Unit :=
  let text := req.svalue (lit "node")
  if text = lit "0" then artists
  else
    match text with
    | letter :: c :: rest => node letter (c :: rest)
    | _ => throw (.error (lit "Unable to load data"))

/-- The branches. -/
def answer (req : Request) : Act Unit :=
  if req.u2 = lit "dir" then dir req
  else if req.u2 = lit "tag" then tag req
  else pure ()

/-- `Tree::handle`. -/
def handle (req : Request) : Act RequestStatus := do
  if req.u1 ≠ lit "tree" then return .continue
  else
    put (lit "[")
    answer req
    put (lit "\n]")
    modifyRep fun rep => rep.setBasicHeaders (lit "json")
    return .stop

end Tree

/-- `Tree::Tree`. -/
def tree : RequestHandler := ⟨lit "Tree", .middle, fun _ req => Tree.handle req⟩

/-! ## `Info` -/

namespace Info

/-- The branch for one song. -/
def songInfo (req : Request) : Act Unit := do
  let song ← Spinny.Song.load (← cast (toId req.u3))
  if req.u4 = lit "artist" then put (← song.artist).name

/-- One song that was found. -/
def putSong (before : Bytes) (song : Spinny.Song) : Act Unit :=
  put (before ++ lit "\x7b 'id':" ++ showInt song.dbId ++ lit ",'title':'" ++ jsonQ song.title ++
    lit "'\x7d\n")

/-- The branch for the search. -/
def find (env : Env) (req : Request) : Act Unit := do
  let page : Nat := ((← unsignedValue req (lit "page")) + 2 ^ 32 - 1) % 2 ^ 32
  let num ← unsignedValue req (lit "pageSize")
  let query := req.svalue (lit "q")
  let songs ← Spinny.Song.find query (toInt32 (page * num)) (toInt32 num)
  putChain env [pure (lit "\x7b TotalCount:"),
    return decimal (← Spinny.Song.numMatching query), pure (lit ",\nSongs: [ \n")]
  let _ ← putEach putSong false (← songs.begin)
  put (lit "]\x7d\n")

/-- The branches. -/
def answer (env : Env) (req : Request) : Act Unit :=
  if req.u2 = lit "song" then songInfo req
  else if req.u2 = lit "find" then find env req
  else pure ()

/-- `Info::handle`. -/
def handle (env : Env) (req : Request) : Act RequestStatus := do
  if req.u1 ≠ lit "info" then return .continue
  else
    answer env req
    modifyRep fun rep => rep.setBasicHeaders (lit "json")
    return .stop

end Info

/-- `Info::Info`. -/
def info : RequestHandler := ⟨lit "Info", .middle, fun env req => Info.handle env req⟩

end Handlers
