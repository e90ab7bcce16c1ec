import Spinny.Boost.Path
import Spinny.Handlers.Access
import Spinny.PlayList

/-!
# The handlers `Xspf`, `Song` and `Files`

A playlist for a player, a song by the ticket in its path, and the static files.
-/

namespace Handlers

open Bytes Boost Spinny Sqlite Ews

variable [Affinity]

/-! ## `Xspf` -/

namespace Xspf

/-- The length of a song in milliseconds, as an `int` holds it. -/
def milliseconds (song : Song) : Bytes := showInt (toInt32 (song.length * 1000))

/-- One song, with links that carry the ticket of the user. -/
def putSongOf (env : Env) (ticket : Bytes) (num : Nat) (song : Song) : Act Unit :=
  putChain env [
    pure (lit "  "), pure (decimal num), pure (lit " \x7b"), pure (lit "\n     url="),
    pure (lit "/song/dl/"), pure ticket, pure (lit "/"), pure (showInt song.dbId),
    pure (lit "\n     album="), return escapeQuotes (← song.nameOfAlbum),
    pure (lit "\n     artist="), return escapeQuotes (← song.nameOfArtist),
    pure (lit "\n     title="), pure (escapeQuotes song.title),
    pure (lit "\n     length="), pure (milliseconds song),
    pure (lit "\n     image="), pure (lit "/song/img/"), pure ticket, pure (lit "/"),
    pure (showInt song.dbId), pure (lit "\n    \x7d\n")]

/-- One song: the ticket is read from behind the pointer without a test. -/
def putSong (env : Env) (req : Request) (num : Nat) (song : Song) : Run Unit :=
  match req.user with
  | none => throw .nullUser
  | some user => putSongOf env user.ticket num song

/-- The branch for a playlist. -/
def putPlayList (env : Env) (req : Request) : Run RequestStatus := do
  modifyRep fun rep => rep.setBasicHeaders (lit "txt")
  let pl ← PlayList.load (← cast (toId req.u2))
  modifyRep fun rep => rep.setTemplate (lit "xspf.html")
  let p ← pl.fields
  setHdfValue (lit "name") (.text p.name)
  setHdfValue (lit "description") (.text p.description)
  put (lit "Songs \x7b\n")
  let songs ← (← pl.songs env 0 0).begin
  songs.zipIdx.forM fun s => putSong env req (s.2 + 1) s.1
  put (lit "\x7d\n")
  return .stop

/-- `Xspf::handle`. -/
def handle (env : Env) (req : Request) : Run RequestStatus :=
  if req.u1 ≠ lit "xspf" then pure .continue else putPlayList env req

end Xspf

/-- `Xspf::Xspf`. -/
def xspf : RequestHandler := ⟨lit "Xspf", .beginning, Xspf.handle⟩

/-! ## `Song` -/

namespace Song

/-- The user of the ticket in the path, whose last visit is at most a day old. -/
def checkTicket (env : Env) (req : Request) : Act Unit := do
  let user ← User.ofTicket req.u3
  let now ← localTime env
  if user.lastVisit < now - 86400 then
    throw (.forbiddenError (lit "Access has timed out, please log in again"))

/-- The sub-command `dl`. -/
def download (env : Env) (song : Spinny.Song) : Run Unit := do
  modifyRep fun rep => rep.setHeader (lit "Content-disposition")
    (lit "attachment; filename=\"" ++ song.title ++ lit ".mp3\"")
  match env.songFile (← song.path) with
  | none => throw (.exn (.notFoundError
      (lit "Unable to find song on disk.  Perhaps it was moved?")))
  | some data =>
    put data
    modifyRep fun rep => rep.setBasicHeaders (lit "mp3")

/-- `Song::handle`: without `dl` the reply is left as it is. -/
def handle (env : Env) (req : Request) : Run RequestStatus := do
  if req.u1 ≠ lit "song" then return .continue
  else if req.u3 = [] ∨ req.u4 = [] then
    throw (.exn (.error (lit "Unable to determine user ticket or song")))
  else
    checkTicket env req
    let song ← Spinny.Song.load (← cast (toId req.u4))
    if req.u2 = lit "dl" then download env song
    return .stop

end Song

/-- `Song::Song`. -/
def song : RequestHandler := ⟨lit "Song", .beginning, Song.handle⟩

/-! ## `Files` -/

namespace Files

/-- `find( ".." ) != npos`. -/
def hasDotDot (path : Bytes) : Bool := path.tails.any fun t => (lit "..").isPrefixOf t

/-- What follows the last place of a byte. -/
def afterLast (b : UInt8) (t : Bytes) : Bytes := (t.reverse.takeWhile (· ≠ b)).reverse

/-- The extension of the last element. -/
def extension (path : Bytes) : Bytes :=
  let name := afterLast 47 path
  if name.contains 46 then afterLast 46 name else []

/-- `index.html` is added to a path that ends in a slash. -/
def withIndex (path : Bytes) : Bytes :=
  if path.getLast? = some 47 then path ++ lit "index.html" else path

/-- The file of a path is opened and copied into the reply. -/
def send (env : Env) (req : Request) (path : Bytes) : Act RequestStatus :=
  match env.docFile path with
  | none => throw (.notFoundError req.url)
  | some data => do
    modifyRep fun rep => { rep with status := some .ok }
    put data
    modifyRep fun rep => rep.setBasicHeaders (extension (withIndex req.url))
    return .stop

/-- `Files::handle`. The path is made of the request whatever bytes it holds. -/
def handle (env : Env) (req : Request) : Run RequestStatus :=
  if req.url.head? ≠ some 47 ∨ hasDotDot req.url = true then
    throw (.exn (.error (lit "Illegal (for us) character seq .. in request")))
  else
    match Path.toPath (withIndex req.url) with
    | none => throw .aborts
    | some path => send env req path

end Files

/-- `Files::Files`. -/
def files : RequestHandler := ⟨lit "Filesystem", .last, Files.handle⟩

end Handlers
