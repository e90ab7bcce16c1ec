import Spinny.Handlers.Access
import Spinny.PlayList

/-!
# The handler `PL`

The sub-commands on one playlist (`/pl/songs/..`) and on the playlists themselves. None of them
looks at the user of the request.
-/

namespace Handlers

open Bytes Boost Spinny Sqlite Ews

variable [Affinity]

namespace PL

/-! ## The songs of a playlist -/

/-- One song of the list. -/
def putSong (env : Env) (before : Bytes) (song : Spinny.Song) : Act Unit :=
  putChain env [
    pure before, pure (lit "\x7b 'id':"), pure (showInt song.dbId),
    pure (lit ",'tr':"), pure (showInt song.track),
    pure (lit ",'tt':'"), pure (jsonQ song.title), pure (lit "', "),
    pure (lit "'at':'"), return jsonQ (← song.nameOfArtist), pure (lit "', "),
    pure (lit "'al':'"), return jsonQ (← song.nameOfAlbum), pure (lit "',"),
    pure (lit "'ln':"), pure (showInt song.length), pure (lit "\x7d\n")]

/-- An `sqlite::id_t` passed as an `unsigned int`. -/
def asUnsigned (n : Int) : Nat := (n % 2 ^ 32).toNat

/-- The order that the request asks for, if any. -/
def reorderBy (req : Request) (pl : PlayList) : Act PlayList :=
  if req.varibles.contains (lit "sort") then
    pl.setOrder (req.svalue (lit "sort")) (req.svalue (lit "dir") == lit "DESC")
  else pure pl

/-- `/pl/songs/list`. -/
def list (env : Env) (req : Request) (pl : PlayList) : Act Unit := do
  let pl ← reorderBy req pl
  let start ← idValue req (lit "start")
  let limit ← idValue req (lit "limit")
  let songs ← pl.songs env (asUnsigned start) (asUnsigned limit)
  put (lit "\x7b Songs:  [ \n")
  let _ ← putEach (putSong env) false (← songs.begin)
  putChain env [pure (lit "], Size: "), return decimal (← pl.size), pure (lit " \x7d\n")]

/-- The variables whose names are digits, in the order of the names, each with its first value. -/
def digitVars (req : Request) : List (Bytes × Bytes) :=
  (req.varibles.toList.filter fun v => v.1.all isDigit).map fun v => (v.1, v.2.head?.getD [])

/-- The loop over these variables. -/
def forDigitVars (req : Request) (f : Int → Int → Act Unit) : Act Unit :=
  (digitVars req).forM fun v => do
    let id ← cast (toId v.1)
    let order ← cast (toInt v.2)
    f id order

/-- `/pl/songs/reorder`. -/
def reorder (req : Request) (pl : PlayList) : Act Unit := do
  forDigitVars req pl.setSongOrder
  let _ ← pl.setOrder (lit "playlist_songs") true

/-- `/pl/songs/addsongs`: the ids are those of entries of playlists. -/
def addSongs (req : Request) (pl : PlayList) : Act Unit :=
  match req.varibles[lit "song_id"]? with
  | none => pure ()
  | some songIds => do
    let pos ← idValue req (lit "pos")
    songIds.zipIdx.forM fun songId => do
      let song ← PlayList.loadSong (← cast (toId songId.1))
      pl.insertSong song (toInt32 (pos + songId.2))

/-- `add_something`: for the type `pl` the playlist that is loaded hides the one given, and its
songs are inserted into itself. -/
def addSomething (env : Env) (pl : PlayList) (type : Bytes) (id pos : Int) : Act Unit := do
  if type = lit "song" then pl.insertSong (← Spinny.Song.load id) (toInt32 pos)
  else if type = lit "dir" then pl.insertDir (← MusicDir.load id) (toInt32 pos)
  else if type = lit "artist" then pl.insertArtist (← Artist.load id) (toInt32 pos)
  else if type = lit "pl" then
    let pl ← PlayList.load id
    pl.insertPlayList env pl (toInt32 pos)

/-- `/pl/songs/add`. -/
def add (env : Env) (req : Request) (pl : PlayList) : Act Unit := do
  let id ← idValue req (lit "id")
  let pos ← idValue req (lit "pos")
  addSomething env pl req.u4 id pos

/-- `/pl/songs/rm`. -/
def rm (req : Request) (pl : PlayList) : Act Unit := do
  pl.remove (← idValue req (lit "song_id"))

/-- `/pl/songs/addpl`. -/
def addPl (env : Env) (req : Request) (pl : PlayList) : Act Unit :=
  match req.varibles[lit "pl_id"]? with
  | none => pure ()
  | some ids =>
    ids.forM fun plId => do
      let p ← PlayList.load (← cast (toId plId))
      pl.insertPlayList env p (toInt32 (← idValue req (lit "position")))

/-- The sub-commands of `/pl/songs`. -/
def songs (env : Env) (req : Request) : Act Unit := do
  let pl ← PlayList.load (← idValue req (lit "pl_id"))
  if req.u3 = lit "list" then list env req pl
  else if req.u3 = lit "reorder" then reorder req pl
  else if req.u3 = lit "addsongs" then addSongs req pl
  else if req.u3 = lit "add" then add env req pl
  else if req.u3 = lit "rm" then rm req pl
  else if req.u3 = lit "addpl" then addPl env req pl

/-! ## The playlists -/

/-- `insert`. -/
def putPlayList (before : Bytes) (p : PlayListFields) : Act Unit :=
  put (before ++ lit "\n    \x7b\"id\":" ++ showInt p.dbId ++ lit ",\"name\":\"" ++ jsonQ p.name ++
    lit "\",\"description\":\"" ++ jsonQ p.description ++ lit "\"\x7d")

/-- `/pl/list`. -/
def listAll : Act Unit := do
  put (lit "\x7bPlaylists: [")
  let _ ← putEach putPlayList false (← PlayList.all)
  put (lit "]\x7d")

/-- The playlist that `/pl/update` is about. -/
def updated (req : Request) : Act PlayList := do
  if req.svalue (lit "pl_id") = lit "0" then PlayList.create (lit "New Playlist") []
  else PlayList.load (← idValue req (lit "pl_id"))

/-- `/pl/update`. -/
def update (req : Request) : Act Unit := do
  let pl ← updated req
  let text := req.svalue (lit "text")
  let pl ← (if req.u3 = lit "name" then pl.setName text else pl.setDescription text)
  pl.save

/-- The sub-commands. -/
def answer (env : Env) (req : Request) : Act Unit :=
  if req.u2 = lit "songs" then songs env req
  else if req.u2 = lit "list" then listAll
  else if req.u2 = lit "update" then update req
  else if req.u2 = lit "reorder" then forDigitVars req PlayList.setPresentOrder
  else pure ()

/-- The name that the handler registers with. -/
def name : Bytes := lit "Playlists"

/-- `PL::handle`. -/
def handle (env : Env) (req : Request) : Act RequestStatus := do
  if req.u1 ≠ lit "pl" then return .continue
  else
    answer env req
    modifyRep fun rep => (rep.setHeader (lit "X-HANDLED-BY") name).setBasicHeaders (lit "json")
    return .stop

end PL

/-- `PL::PL`. -/
def pl : RequestHandler := ⟨PL.name, .middle, fun env req => PL.handle env req⟩

end Handlers
