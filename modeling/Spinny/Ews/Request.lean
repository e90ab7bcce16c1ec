import Spinny.Boost.Regex
import Spinny.Boost.Strings
import Spinny.User

/-!
# `ews::request`

The request a parser fills and the handlers read, with the accessors the handlers use.
`decodeStr` is the percent-decoding of the parser (`request_parser.cpp`, `decode_str`).
-/

namespace Ews

open Bytes Boost Spinny

/-- `request::headers_t`. -/
abbrev Headers := Std.ExtTreeMap Bytes Bytes compare

/-- `request::varibles_t`. -/
abbrev Varibles := Std.ExtTreeMap Bytes (List Bytes) compare

/-- The exceptions that the parser can meet. -/
inductive Raised where
  /-- `boost::bad_lexical_cast`. -/
  | badLexicalCast
  /-- `std::runtime_error` of `boost::regex`. -/
  | regexError
  /-- `sqlite::database_error` of the ticket lookup. -/
  | database
  deriving DecidableEq

/-- A request. Its connection is left out. -/
structure Request where
  currentHeaderName : Bytes
  currentHeaderValue : Bytes
  user : Option User
  headers : Headers
  varibles : Varibles
  httpVersionMajor : Int
  httpVersionMinor : Int
  method : Bytes
  uri : Bytes
  url : Bytes
  body : Bytes
  u1 : Bytes
  u2 : Bytes
  u3 : Bytes
  u4 : Bytes
  u5 : Bytes
  numUrlElements : Int
  contentLength : Nat

namespace Request

/-- `request::request`. -/
def fresh : Request where
  currentHeaderName := []
  currentHeaderValue := []
  user := none
  headers := ∅
  varibles := ∅
  httpVersionMajor := 0
  httpVersionMinor := 0
  method := []
  uri := []
  url := []
  body := []
  u1 := []
  u2 := []
  u3 := []
  u4 := []
  u5 := []
  numUrlElements := 0
  contentLength := 0

/-- `clear_current_header`. -/
def clearCurrentHeader (req : Request) : Request :=
  { req with currentHeaderName := [], currentHeaderValue := [] }

/-- `get_header<unsigned int>`; `none` where `lexical_cast` throws. -/
def getHeaderUnsigned (req : Request) (name : Bytes) : Option Nat :=
  match req.headers[name]? with
  | some v => toUnsigned v
  | none => some 0

/-- `get_header<std::string>`. -/
def getHeaderString (req : Request) (name : Bytes) : Bytes := req.headers[name]?.getD []

/-- `svalue`, and `single_value<std::string>`. -/
def svalue (req : Request) (name : Bytes) : Bytes := ((req.varibles[name]?.getD []).head?).getD []

/-- `single_value<T>` for the cast `cast` to a type whose `T()` is `zero`; `none` where
`lexical_cast` throws. -/
def singleValue {α : Type} (cast : Bytes → Option α) (zero : α) (req : Request) (name : Bytes) :
    Option α :=
  match (req.varibles[name]?.getD []).head? with
  | some v => cast v
  | none => some zero

end Request

/-- The bytes appended for `%` and two characters. -/
def decodePair (a b : UInt8) : Bytes :=
  match hexGet a b with
  | some v => [UInt8.ofNat (v % 256).toNat]
  | none => []

/-- `decode_str`: a `%` with fewer than two bytes behind it ends the text. -/
def decodeStr : Bytes → Bytes
  | [] => []
  | 37 :: a :: b :: s => decodePair a b ++ decodeStr s
  | 37 :: _ => []
  | b :: s => b :: decodeStr s

example : decodeStr (lit "a%41%zz%4") = lit "aA" := by decide

end Ews
