import Spinny.Ews.Request

/-!
# `ews::reply`

The reply the handlers fill and `to_buffers` serialises. A template is rendered by ClearSilver,
which is a parameter: it maps the name of the template, the values set for it and the content (an
HDF text) to a page, or fails and leaves some content behind.

* `setHeader`: a header that is there already keeps its value.
* `setTo`, `setBasicHeaders`: the length is that of the content of the moment.
* `toBuffers`: the serialised reply.
-/

namespace Ews

open Bytes Spinny

/-- `reply::status_type`. -/
inductive StatusType where
  | ok | created | accepted | noContent | multipleChoices | movedPermanently | movedTemporarily
  | notModified | badRequest | unauthorized | forbidden | notFound | internalServerError
  | notImplemented | badGateway | serviceUnavailable
  deriving DecidableEq, Repr

/-- What `set_hdf_value` sets. -/
inductive HdfValue where
  | text (value : Bytes)
  | number (value : Int)
  deriving DecidableEq

/-- How the rendering of a template ends. -/
inductive Rendered where
  | page (content : Bytes)
  /-- An error of the HDF text, of the template or of its rendering. -/
  | failed (left : Bytes)

/-- `parse_template`: from the template, the values set and the content. -/
abbrev Renderer := Bytes → List (Bytes × HdfValue) → Bytes → Rendered

/-- A reply. `template` is the name below `tmpl_root`; `status` is `none` until it is assigned. -/
structure Reply where
  user : Option User
  template : Bytes
  hdf : List (Bytes × HdfValue)
  content : Bytes
  status : Option StatusType
  headers : Headers

/-- `mime_types::extension_to_type`. -/
def extensionToType (extension : Bytes) : Bytes :=
  let mappings := [(lit "css", lit "text/css"), (lit "mp3", lit "audio/mpeg"),
    (lit "html", lit "text/html; charset=utf-8"), (lit "png", lit "image/png"),
    (lit "gif", lit "image/gif"), (lit "xml", lit "text/xml"),
    (lit "xspf", lit "application/xspf+xml"), (lit "json", lit "application/json"),
    (lit "jpg", lit "image/jpeg")]
  (mappings.lookup extension).getD (lit "text/plain")

namespace StatusType

/-- The code and the phrase of a status line. -/
def phrase : StatusType → Bytes
  | ok => lit "200 OK"
  | created => lit "201 Created"
  | accepted => lit "202 Accepted"
  | noContent => lit "204 No Content"
  | multipleChoices => lit "300 Multiple Choices"
  | movedPermanently => lit "301 Moved Permanently"
  | movedTemporarily => lit "302 Moved Temporarily"
  | notModified => lit "304 Not Modified"
  | badRequest => lit "400 Bad Request"
  | unauthorized => lit "401 Unauthorized"
  | forbidden => lit "403 Forbidden"
  | notFound => lit "404 Not Found"
  | internalServerError => lit "500 Internal Server Error"
  | notImplemented => lit "501 Not Implemented"
  | badGateway => lit "502 Bad Gateway"
  | serviceUnavailable => lit "503 Service Unavailable"

/-- `status_strings`. -/
def line (s : StatusType) : Bytes := lit "HTTP/1.0 " ++ s.phrase ++ lit "\r\n"

/-- The stock page with a title and a heading. -/
def page (title heading : Bytes) : Bytes :=
  lit "<html><head><title>" ++ title ++ lit "</title></head><body><h1>" ++ heading ++
    lit "</h1></body></html>"

/-- `stock_replies`: the title is the phrase without its code, and the heading the phrase, but
that the heading of `no_content` misses the `No`. -/
def stock : StatusType → Bytes
  | ok => []
  | noContent => page (lit "No Content") (lit "204 Content")
  | s => page (s.phrase.drop 4) s.phrase

end StatusType

namespace Reply

/-- `reply::reply`. -/
def fresh : Reply where
  user := none
  template := []
  hdf := []
  content := []
  status := none
  headers := ∅

/-- `set_header`: `std::map::insert`. -/
def setHeader (rep : Reply) (name value : Bytes) : Reply :=
  { rep with headers := rep.headers.insertIfNew name value }

/-- `set_basic_headers`. -/
def setBasicHeaders (rep : Reply) (ext : Bytes) : Reply :=
  let rep := { rep with status := some .ok }
  let rep := rep.setHeader (lit "Content-Type") (extensionToType ext)
  let rep := rep.setHeader (lit "Content-Length") (decimal rep.content.length)
  rep.setHeader (lit "Connection") (lit "close")

/-- `set_to`: the headers are set before the content. -/
def setTo (rep : Reply) (stat : StatusType) : Reply :=
  let rep := { rep with headers := ∅ }
  let rep := rep.setBasicHeaders (lit "html")
  { rep with status := some stat, content := stat.stock }

/-- `clear_contents`. -/
def clearContents (rep : Reply) : Reply := { rep with content := [] }

/-- `content << text`. -/
def put (rep : Reply) (text : Bytes) : Reply := { rep with content := rep.content ++ text }

/-- `set_template`: where a first one is set, with a new HDF. -/
def setTemplate (rep : Reply) (tmpl : Bytes) : Reply :=
  if rep.template = [] then { rep with template := tmpl, hdf := [] }
  else { rep with template := tmpl }

/-- The part of `to_buffers` before the buffers: `content.size()` is an `unsigned int`. -/
def finish (render : Renderer) (rep : Reply) : Reply :=
  if rep.template ≠ [] ∧ rep.status = some .ok then
    match render rep.template rep.hdf rep.content with
    | .page content =>
      { rep with
        content := content
        headers := rep.headers.insert (lit "Content-Length") (decimal (content.length % 2 ^ 32)) }
    | .failed left =>
      let rep := { rep with content := left, template := [] }
      rep.setTo .internalServerError
  else rep

/-- The buffers of one header. -/
def headerBuffers (header : Bytes × Bytes) : List Bytes :=
  [header.1, lit ": ", header.2, lit "\r\n"]

/-- The status line that `to_buffers` writes: that of the status before the template is
rendered; a status that was not assigned is taken as none of the enumerators. -/
def statusLine (rep : Reply) : Bytes := (rep.status.getD .internalServerError).line

/-- `to_buffers`. -/
def toBuffers (render : Renderer) (rep : Reply) : List Bytes :=
  [rep.statusLine] ++ (rep.finish render).headers.toList.flatMap headerBuffers ++ [lit "\r\n"] ++
    [(rep.finish render).content]

end Reply

end Ews
