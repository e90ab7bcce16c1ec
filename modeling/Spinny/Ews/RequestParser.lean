import Spinny.Ews.Request
import Spinny.Lib.Machine

/-!
# `ews::request_parser`

The byte machine of `request_parser.cpp`: `consume` reads one byte in one of the states of
`state_`, `performFinalDecode` fills the url, the variables and the user of a complete request,
and `parse` runs both over a read. `boost::indeterminate` is `none`.
-/

namespace Ews

open Bytes Boost Spinny Proc

/-- `request_parser::state`. -/
inductive State where
  | methodStart
  | method
  | uriStart
  | uri
  | httpVersionH
  | httpVersionT1
  | httpVersionT2
  | httpVersionP
  | httpVersionSlash
  | httpVersionMajorStart
  | httpVersionMajor
  | httpVersionMinorStart
  | httpVersionMinor
  | expectingNewline1
  | headerLineStart
  | headerLws
  | headerName
  | spaceBeforeHeaderValue
  | headerValue
  | expectingNewline2
  | expectingNewline3
  | readingBody
  deriving DecidableEq

/-- What `parse` ends with other than `boost::indeterminate`. -/
inductive Parsed where
  | accepted
  | rejected
  /-- An exception leaves `parse`. -/
  | raised (e : Raised)
  deriving DecidableEq

/-- A parser and the request it fills. -/
structure Parser where
  state : State
  req : Request

/-- A new parser and a new request. -/
def Parser.fresh : Parser := ⟨.methodStart, .fresh⟩

/-! ## Character classes -/

/-- `is_char`. -/
def isChar (c : Int) : Bool := 0 ≤ c && c ≤ 127

/-- `is_ctl`. -/
def isCtl (c : Int) : Bool := (0 ≤ c && c ≤ 31) || c == 127

/-- `is_tspecial`: `( ) < > @ , ; : \ " / [ ] ? = { }`, space and tab. -/
def isTspecial (c : Int) : Bool :=
  [40, 41, 60, 62, 64, 44, 59, 58, 92, 34, 47, 91, 93, 63, 61, 123, 125, 32, 9].contains c

/-- `request_parser::is_digit`. -/
def isDigitChar (c : Int) : Bool := 48 ≤ c && c ≤ 57

/-- The bytes of a method and of a header name. -/
def isToken (c : Int) : Bool := isChar c && !isCtl c && !isTspecial c

/-! ## One byte -/

/-- Go on in `state` with `req`. -/
def goTo (state : State) (req : Request) : Parser × Option Parsed := (⟨state, req⟩, none)

/-- `return false`. -/
def Parser.reject (p : Parser) : Parser × Option Parsed := (p, some .rejected)

/-- `headers[ to_upper( decode_str( name ) ) ] = decode_str( value )` for the current header. -/
def Request.storeHeader (req : Request) : Request :=
  { req with
    headers := req.headers.insert (toUpperCopy (decodeStr req.currentHeaderName))
      (decodeStr req.currentHeaderValue) }

/-- `v * 10 + input - '0'`. -/
def addDigit (v : Int) (input : UInt8) : Int := toInt32 (v * 10 + charVal input - 48)

/-- `content_length` once the last header is stored; `none` where `lexical_cast` throws. -/
def Request.bodyLength (req : Request) : Option Nat :=
  if req.method = lit "POST" then req.getHeaderUnsigned (lit "CONTENT-LENGTH") else some 0

/-- The end of the headers. -/
def finishHeaders (p : Parser) : Parser × Option Parsed :=
  let req := p.req.storeHeader
  match req.bodyLength with
  | none => ({ p with req }, some (.raised .badLexicalCast))
  | some n =>
    let req := { req with contentLength := n }.clearCurrentHeader
    if n ≠ 0 then goTo .readingBody req else ({ p with req }, some .accepted)

/-- `request_parser::consume`. -/
def consume (p : Parser) (input : UInt8) : Parser × Option Parsed :=
  let req := p.req
  let c := charVal input
  match p.state with
  | .methodStart =>
    if isToken c then goTo .method { req with method := req.method ++ [input] } else p.reject
  | .method =>
    if input = 32 then goTo .uri req
    else if isToken c then goTo .method { req with method := req.method ++ [input] }
    else p.reject
  | .uriStart => if isCtl c then p.reject else goTo .uri { req with uri := req.uri ++ [input] }
  | .uri =>
    if input = 32 then goTo .httpVersionH req
    else if isCtl c then p.reject
    else goTo .uri { req with uri := req.uri ++ [input] }
  | .httpVersionH => if input = 72 then goTo .httpVersionT1 req else p.reject
  | .httpVersionT1 => if input = 84 then goTo .httpVersionT2 req else p.reject
  | .httpVersionT2 => if input = 84 then goTo .httpVersionP req else p.reject
  | .httpVersionP => if input = 80 then goTo .httpVersionSlash req else p.reject
  | .httpVersionSlash =>
    if input = 47 then
      goTo .httpVersionMajorStart { req with httpVersionMajor := 0, httpVersionMinor := 0 }
    else p.reject
  | .httpVersionMajorStart =>
    if isDigitChar c then
      goTo .httpVersionMajor
        { req with httpVersionMajor := addDigit req.httpVersionMajor input }
    else p.reject
  | .httpVersionMajor =>
    if input = 46 then goTo .httpVersionMinorStart req
    else if isDigitChar c then
      goTo .httpVersionMajor
        { req with httpVersionMajor := addDigit req.httpVersionMajor input }
    else p.reject
  | .httpVersionMinorStart =>
    if isDigitChar c then
      goTo .httpVersionMinor
        { req with httpVersionMinor := addDigit req.httpVersionMinor input }
    else p.reject
  | .httpVersionMinor =>
    if input = 13 then goTo .expectingNewline1 req
    else if isDigitChar c then
      goTo .httpVersionMinor
        { req with httpVersionMinor := addDigit req.httpVersionMinor input }
    else p.reject
  | .expectingNewline1 => if input = 10 then goTo .headerLineStart req else p.reject
  | .headerLineStart =>
    if input = 13 then goTo .expectingNewline3 req
    else if !req.headers.isEmpty ∧ (input = 32 ∨ input = 9) then goTo .headerLws req
    else if isToken c then
      -- The header before this one is stored only now.
      let req := if req.currentHeaderName ≠ [] then req.storeHeader.clearCurrentHeader else req
      goTo .headerName { req with currentHeaderName := req.currentHeaderName ++ [input] }
    else p.reject
  | .headerLws =>
    if input = 13 then goTo .expectingNewline2 req
    else if input = 32 ∨ input = 9 then goTo .headerLws req
    else if isCtl c then p.reject
    else goTo .headerValue { req with currentHeaderValue := req.currentHeaderValue ++ [input] }
  | .headerName =>
    if input = 58 then goTo .spaceBeforeHeaderValue req
    else if isToken c then
      goTo .headerName { req with currentHeaderName := req.currentHeaderName ++ [input] }
    else p.reject
  | .spaceBeforeHeaderValue =>
    -- Any byte but a space is taken into the value, control bytes included.
    if input = 32 then goTo .headerValue req
    else goTo .headerValue { req with currentHeaderValue := req.currentHeaderValue ++ [input] }
  | .headerValue =>
    if input = 13 then goTo .expectingNewline2 req
    else if isCtl c then p.reject
    else goTo .headerValue { req with currentHeaderValue := req.currentHeaderValue ++ [input] }
  | .expectingNewline2 => if input = 10 then goTo .headerLineStart req else p.reject
  | .expectingNewline3 => if input = 10 then finishHeaders p else p.reject
  | .readingBody =>
    let req := { req with body := req.body ++ [input] }
    if req.contentLength = req.body.length then ({ p with req }, some .accepted)
    else goTo .readingBody req

/-! ## The complete request -/

/-- `map[ name ].push_back( value )`. -/
def Varibles.push (m : Varibles) (name value : Bytes) : Varibles :=
  m.insert name (m[name]?.getD [] ++ [value])

/-- The variables with the form elements of a text added. -/
def Varibles.addForm (m : Varibles) (str : Bytes) : Varibles :=
  (formMatches str).1.foldl (fun m e => m.push (decodeStr e.1) (decodeStr e.2)) m

/-- `parse_form_elements`: the elements found before the search gives up are kept. -/
def parseFormElements (str : Bytes) : Proc Request Raised Unit := do
  modify fun req => { req with varibles := req.varibles.addForm str }
  if givesUp str then throw .regexError

/-- `num_url_elements` from the number of parts: the number is stored in a `char`. -/
def urlElements (n : Nat) : Int :=
  let k := toChar (toChar n - 1)
  if k > 5 then 5 else k

/-- `u1` to `u5` from the parts of the url, by the switch that falls through. -/
def Request.setElements (req : Request) (elements : List Bytes) : Request :=
  let n := urlElements elements.length
  { req with
    numUrlElements := n
    u1 := if 1 ≤ n then elements.getD 1 [] else req.u1
    u2 := if 2 ≤ n then elements.getD 2 [] else req.u2
    u3 := if 3 ≤ n then elements.getD 3 [] else req.u3
    u4 := if 4 ≤ n then elements.getD 4 [] else req.u4
    u5 := if 5 ≤ n then elements.getD 5 [] else req.u5 }

/-- `User::with_ticket` as the parser calls it. -/
abbrev TicketLookup := Bytes → Except Sqlite.Error User

/-- The ticket of the cookies: only `sqlite::not_found` is caught. -/
def lookUpTicket (withTicket : TicketLookup) (ticket : Bytes) : Proc Request Raised Unit :=
  match withTicket ticket with
  | .ok user => modify fun req => { req with user := some user }
  | .error .notFound => pure ()
  | .error _ => throw .database

/-- `get_header<std::string>( "COOKIE" )`. -/
def Request.cookies (req : Request) : Bytes := req.getHeaderString (lit "COOKIE")

/-- The part of `perform_final_decode` about the cookies. -/
def decodeCookies (withTicket : TicketLookup) (cookies : Bytes) : Proc Request Raised Unit :=
  if cookies = [] then pure ()
  else do
    parseFormElements cookies
    let ticket := (← get).svalue (lit "Ticket")
    if ticket ≠ [] then lookUpTicket withTicket ticket

/-- `perform_final_decode`. Its result is not used by `parse`. -/
def performFinalDecode (withTicket : TicketLookup) : Proc Request Raised Unit := do
  modify fun req => { req with url := (decodeStr req.uri).takeWhile (· ≠ 63) }
  parseFormElements (← get).uri
  parseFormElements (← get).body
  decodeCookies withTicket (← get).cookies
  modify fun req => req.setElements (splitSlash req.url)

/-- One step of `parse`. -/
def parseByte (withTicket : TicketLookup) (p : Parser) (input : UInt8) :
    Parser × Option Parsed :=
  match consume p input with
  | (p, some .accepted) =>
    let decode := performFinalDecode withTicket
    (⟨p.state, after decode p.req⟩,
      match outcome decode p.req with
      | .ok () => some .accepted
      | .error e => some (.raised e))
  | r => r

/-- `request_parser::parse` as a machine over the bytes of its reads. -/
def requestParser (withTicket : TicketLookup) : Machine Parser UInt8 Parsed :=
  ⟨parseByte withTicket⟩

end Ews
