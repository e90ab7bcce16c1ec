import Spinny.Lib.Bytes
import Spinny.Lib.Machine
import Spinny.Lib.Proc

/-!
# `sqlite::connection`: the buffer of streamed SQL text

A connection is an output stream: callers stream the text of a statement into `_cmd` and then
call one of the operations, which passes the text to `sqlite3_prepare`. `Engine` stands for the
SQLite library; `prepared` is the trace of the texts it was given.

* `command`, `commandText`: the two constructors of a command that clear the buffer, and those
  that leave it alone.
* `exec`, `loadStored`, `loadOne`: what the operations come down to; the others stream a text of
  their own first.
-/

namespace Sqlite

open Bytes

/-- What the connection calls in the SQLite library, over a database `σ` with rows `ρ`. -/
structure Engine (σ ρ : Type) where
  /-- `sqlite3_prepare` returns `SQLITE_OK`. -/
  prepare : σ → Bytes → Bool
  /-- Stepping an accepted statement to its end: the rows, or an error of a step. -/
  run : σ → Bytes → σ × Option (List ρ)

/-- How an operation of the connection fails. -/
inductive Error where
  /-- `database_error( "database is not open" )`. -/
  | notOpen
  /-- `database_error` with the message of SQLite. -/
  | database
  /-- `not_found`. -/
  | notFound
  /-- No exception: the process is killed when SQLite reads through a `db` that is `NULL`. -/
  | crash
  deriving DecidableEq

/-- The state of a connection. -/
structure Connection (σ : Type) where
  /-- `_cmd`. -/
  buffer : Bytes
  /-- `db`; `none` while it is `NULL`. -/
  db : Option σ
  /-- The texts given to `sqlite3_prepare` so far, the latest first. -/
  prepared : List Bytes
  deriving DecidableEq

/-- A procedure on a connection. -/
abbrev Con (σ α : Type) := Proc (Connection σ) Error α

/-- A statement that was prepared. -/
structure Command where
  text : Bytes

/-- `q( const std::string & )`. -/
def q (val : Bytes) : Bytes := [39] ++ replaceAll 39 [39, 39] val ++ [39]

/-- A `table::description`. -/
structure Description where
  tableName : Bytes
  fields : List Bytes

/-- `description::insert_fields`: `sqlite::commas` puts a blank before the first field. -/
def Description.insertFields (td : Description) : Bytes :=
  match td.fields with
  | [] => []
  | f :: fs => [32] ++ f ++ fs.flatMap fun g => [44] ++ g

/-- A row object that can be saved: its `db_id` and what it streams. -/
structure Saved where
  dbId : Int
  tableInsertValues : Bytes
  tableUpdateValues : Bytes

variable {σ ρ : Type} (E : Engine σ ρ)

/-- `*this << text`. -/
def stream (text : Bytes) : Con σ Unit := modify fun c => { c with buffer := c.buffer ++ text }

/-- `clear_cmd`. -/
def clearCmd : Con σ Unit := modify fun c => { c with buffer := [] }

/-- `sqlite3_prepare`. It starts with `sqlite3SafetyOn( db )`, which reads `db->magic` without a
test of the pointer. -/
def sqlite3Prepare (text : Bytes) : Con σ Bool := do
  let c ← get
  modify fun c => { c with prepared := text :: c.prepared }
  match c.db with
  | some d => return E.prepare d text
  | none => throw .crash

/-- `command( connection& )`: the buffer is cleared when SQLite refuses its text and when not. -/
def command : Con σ Command := do
  let text := (← get).buffer
  if ← sqlite3Prepare E text then
    clearCmd
    return ⟨text⟩
  else
    clearCmd
    throw .database

/-- `command( connection&, const std::string& )`: the buffer is left alone. -/
def commandText (text : Bytes) : Con σ Command := do
  if ← sqlite3Prepare E text then return ⟨text⟩ else throw .database

/-- `reader::read` over the whole statement. -/
def Command.read (cmd : Command) : Con σ (List ρ) := do
  match (← get).db with
  | none => throw .database
  | some d =>
    modify fun c => { c with db := some (E.run d cmd.text).1 }
    match (E.run d cmd.text).2 with
    | some rows => return rows
    | none => throw .database

/-- `validate_db`. -/
def validateDb : Con σ Unit := do
  if (← get).db.isSome then return () else throw .notOpen

/-- `exec<T>()`: the first row of the streamed statement. -/
def exec : Con σ (Option ρ) := do
  validateDb
  let c ← command E
  return (← c.read E).head?

/-- `load_stored<T>()`: the buffer is cleared after the command has been constructed. -/
def loadStored : Con σ Command := do
  let cmd ← commandText E (← get).buffer
  clearCmd
  return cmd

/-- The first object of a result set, or `not_found`. -/
def firstOf (cmd : Command) : Con σ ρ := do
  match ← cmd.read E with
  | row :: _ => return row
  | [] => throw .notFound

/-- `load_one<T>()`. -/
def loadOne : Con σ ρ := do
  let cmd ← commandText E (← get).buffer
  clearCmd
  firstOf E cmd

/-- `count<T>()`. -/
def count (td : Description) : Con σ (Option ρ) := do
  stream (lit "select count(*) from " ++ td.tableName)
  exec E

/-- `load_many<T>( field, value, sort_by, limit )`, with `value` quoted. -/
def loadMany (td : Description) (field value sortBy : Bytes) (limit : Int) : Con σ Command := do
  stream (lit "select ")
  stream td.insertFields
  stream (lit ",rowid from " ++ td.tableName)
  if field ≠ [] then stream (lit " where " ++ field ++ lit "=" ++ value)
  if sortBy ≠ [] then stream (lit " order by " ++ sortBy)
  if limit ≠ 0 then stream (lit " limit " ++ showInt limit)
  loadStored E

/-- `load_where<T>( where, sort_by )`. -/
def loadWhere (td : Description) (cond sortBy : Bytes) : Con σ Command := do
  stream (lit "select ")
  stream td.insertFields
  stream (lit ",rowid from " ++ td.tableName ++ lit " where " ++ cond)
  if sortBy ≠ [] then stream (lit " order by " ++ sortBy)
  loadStored E

/-- `load_all<T>( sort_by )`. -/
def loadAll (td : Description) (sortBy : Bytes) : Con σ Command := do
  stream (lit "select ")
  stream td.insertFields
  stream (lit ",rowid from " ++ td.tableName)
  if sortBy ≠ [] then stream (lit " order by " ++ sortBy)
  loadStored E

/-- `load_one<T>( field, value )`, with `value` quoted. -/
def loadOneWhere (td : Description) (field value : Bytes) : Con σ ρ := do
  firstOf E (← loadMany E td field value [] 1)

/-- `load<T>( id )`. -/
def load (td : Description) (value : Int) : Con σ ρ :=
  loadOneWhere E td (lit "rowid") (showInt value)

/-- `save<T>( obj )`. -/
def save (td : Description) (obj : Saved) : Con σ Unit := do
  if obj.dbId = 0 then
    stream (lit "insert into " ++ td.tableName ++ lit "(")
    stream td.insertFields
    stream (lit ") values (")
    stream obj.tableInsertValues
    stream (lit ")")
  else
    stream (lit "update " ++ td.tableName ++ lit " set ")
    stream obj.tableUpdateValues
    stream (lit " where rowid=" ++ showInt obj.dbId)
  let _ ← exec E

end Sqlite
