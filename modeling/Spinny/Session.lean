import Spinny.Database
import Spinny.Ews.Reply
import Spinny.Lib.Proc

/-!
# What a handler runs in

A `World` is what the code that answers a request reads and changes: the database with the
statement buffer of its connection, the `CompletePlayList` instance, the readings taken so far of
the clock and of the random device, and the reply. `Env` holds what stays fixed while a request
is answered and lies outside the repository's own code.

Statements are given by what they do to the tables. The buffer shows in one place: a `load_*`
whose text SQLite refuses leaves the text behind (`stale`), and the next statement streamed is
refused with it. That the text left behind ends in an open quote, which the next one closes, so that
SQLite accepts the two as one statement, is outside of the model. The procedures that pass a text
of their own do not look at the buffer.

* `execSelect`, `execUpdate`: `exec<T>()` on the streamed statement.
* `loadStored`, `ResultSet.begin`: `load_stored<T>()` and the iteration over its rows.
* `execText`: `exec<T>( sql )`.
-/

namespace Spinny

open Bytes Sqlite Ews Proc

variable [Affinity]

/-- What the text behind `order by` does to the rows of a statement: `none` if SQLite refuses the
statement, and the rows in their order, or an error of the first step. -/
abbrev OrderBy (ρ : Type) := Bytes → Option (Database → List ρ → Option (List ρ))

/-- A user in the data of `/users/save`; `none` where the value is not convertible, which the
JSON library asserts. -/
structure JsonUser where
  id : Option Nat
  login : Option Bytes
  password : Option Bytes
  role : Option Bytes

/-- What the answer to a request depends on besides the request and the world. -/
structure Env where
  /-- The orderings of `PlayList::songs`. -/
  orderJoined : OrderBy Joined
  /-- The orderings of `CompletePlayList::songs`. -/
  orderComplete : OrderBy (Int × SongRow)
  /-- The orderings of the statement of `PlayList::insert( PlayList::ptr, int )`. -/
  orderEntries : OrderBy (Int × EntryRow)
  /-- The operands of a chain of `<<` are evaluated before anything of it is streamed; the
  language leaves it open. -/
  operandsFirst : Bool
  /-- `boost::posix_time::second_clock::local_time`, by the number of the reading. -/
  clock : Nat → Int
  /-- The letters of a ticket, by the number of the reading. -/
  ticketLetters : Nat → Bytes
  /-- What the file of a path below `doc_root` reads as, if it opens. -/
  docFile : Bytes → Option Bytes
  /-- What the file with these names from the root on reads as, if it opens. -/
  songFile : List Bytes → Option Bytes
  /-- `Json::Reader::parse`: the elements, if the text is an array. -/
  jsonArray : Bytes → Option (List JsonUser)
  /-- The rendering of templates. -/
  render : Renderer

/-- The `CompletePlayList` instance. -/
structure CompletePlayList where
  dbId : Int
  name : Bytes
  description : Bytes
  orderBy : Bytes
  presentOrder : Int
  order : Bytes
  deriving DecidableEq

/-- The instance as `CompletePlayList::instance` makes it. -/
def CompletePlayList.fresh : CompletePlayList where
  dbId := 0
  name := []
  description := []
  orderBy := lit "present_order desc"
  presentOrder := 0
  order := []

/-- What the code that answers a request reads and changes. -/
structure World where
  db : Database
  complete : CompletePlayList
  /-- The statement buffer holds a text that SQLite refused. -/
  stale : Bool
  readings : Nat
  rep : Reply

/-- The C++ exceptions that reach `handle_request`, with their texts where a reply shows them. -/
inductive Exn where
  /-- `ews::not_found_error`. -/
  | notFoundError (what : Bytes)
  /-- `ews::forbidden_error`. -/
  | forbiddenError (what : Bytes)
  /-- `ews::error`. -/
  | error (what : Bytes)
  /-- `sqlite::not_found`. -/
  | notFound
  /-- `sqlite::database_error`. -/
  | databaseError
  /-- `boost::bad_lexical_cast`. -/
  | badLexicalCast
  /-- `std::runtime_error`. -/
  | runtimeError
  deriving DecidableEq

/-- How an answer can fail to come to a value. -/
inductive Raise where
  | exn (e : Exn)
  /-- A null `User::ptr` is dereferenced. -/
  | nullUser
  /-- An assertion of the JSON library or of `boost::filesystem::path` fails. -/
  | aborts
  /-- A loop that does not end. -/
  | hangs
  deriving DecidableEq

/-- Code that can throw. -/
abbrev Act := Proc World Exn

/-- Code that can also end without an exception or not at all. -/
abbrev Run := Proc World Raise

/-- Throwing code among code that can end otherwise. -/
def Act.run {α : Type} (x : Act α) : Run α := adapt Raise.exn x

instance : MonadLift Act Run := ⟨Act.run⟩

section

variable {α : Type}

@[simp] theorem liftM_act (x : Act α) : (liftM x : Run α) = x.run := rfl

theorem outcome_run (x : Act α) (w : World) :
    outcome x.run w = (outcome x w).mapError Raise.exn := outcome_adapt _ x w

@[simp] theorem after_run (x : Act α) (w : World) : after x.run w = after x w := rfl

theorem outcome_run_ok {x : Act α} {w : World} {a : α} (h : outcome x w = .ok a) :
    outcome x.run w = .ok a := by
  rw [outcome_run, h]
  rfl

theorem outcome_run_error {x : Act α} {w : World} {e : Exn} (h : outcome x w = .error e) :
    outcome x.run w = .error (.exn e) := by
  rw [outcome_run, h]
  rfl

theorem ok_of_run {x : Act α} {w : World} {a : α} (h : outcome x.run w = .ok a) :
    outcome x w = .ok a := by
  cases hx : outcome x w with
  | ok b =>
    rw [outcome_run_ok hx] at h
    exact congrArg _ (Except.ok.inj h)
  | error e =>
    rw [outcome_run_error hx] at h
    cases h

theorem error_of_run {x : Act α} {w : World} {e : Exn} (h : outcome x.run w = .error (.exn e)) :
    outcome x w = .error e := by
  cases hx : outcome x w with
  | ok a =>
    rw [outcome_run_ok hx] at h
    cases h
  | error e' =>
    rw [outcome_run_error hx] at h
    exact congrArg _ (Raise.exn.inj (Except.error.inj h))

/-- What can throw ends in no other way. -/
theorem Act.never_run {P : Raise → Prop} (hP : ∀ e, ¬ P (.exn e)) (x : Act α) :
    Never P x.run := by
  intro w r h
  cases hx : outcome x w with
  | ok a => simp [outcome_run_ok hx] at h
  | error e =>
    rw [outcome_run_error hx] at h
    obtain rfl := Except.error.inj h
    exact hP e

end

/-! ## Plain surroundings -/

/-- Surroundings with no files and no templates, in which every ordering is the order of a scan. -/
def Env.plain : Env where
  orderJoined _ := some fun _ rows => some rows
  orderComplete _ := some fun _ rows => some rows
  orderEntries _ := some fun _ rows => some rows
  operandsFirst := false
  clock _ := 0
  ticketLetters _ := lit "abcdefghijklmnopqrstuvwxy"
  docFile _ := none
  songFile _ := none
  jsonArray _ := none
  render _ _ content := .failed content

/-- The world at a start over a database. -/
def World.start (db : Database) : World := ⟨db, .fresh, false, 0, .fresh⟩

/-! ## The reply -/

/-- A change of the reply. -/
def modifyRep (f : Reply → Reply) : Act Unit := modify fun w => { w with rep := f w.rep }

/-- `rep.content << text`. -/
def put (text : Bytes) : Act Unit := modifyRep fun rep => rep.put text

/-- `set_hdf_value`. -/
def setHdfValue (key : Bytes) (value : HdfValue) : Act Unit := do
  if (← get).rep.template = [] then throw .runtimeError
  else modifyRep fun rep => { rep with hdf := rep.hdf ++ [(key, value)] }

/-- A cast of a text. -/
def cast {α : Type} (x : Option α) : Act α :=
  match x with
  | some a => pure a
  | none => throw .badLexicalCast

/-! ## The clock and the random device -/

/-- `second_clock::local_time`. -/
def localTime (env : Env) : Act Int := do
  let w ← get
  modify fun w => { w with readings := w.readings + 1 }
  return env.clock w.readings

/-- `User::generate_new_ticket`. -/
def newTicket (env : Env) : Act Bytes := do
  let w ← get
  modify fun w => { w with readings := w.readings + 1 }
  return env.ticketLetters w.readings

/-! ## Statements -/

/-- The streamed statement is prepared by `command( connection& )`: the buffer is cleared when
SQLite refuses it and when not. -/
def prepare (accepted : Bool) : Act Unit := do
  let w ← get
  modify fun w => { w with stale := false }
  if w.stale ∨ accepted = false then throw .databaseError

/-- A streamed query and its value. -/
def execSelect {α : Type} (accepted : Bool) (f : Database → α) : Act α := do
  prepare accepted
  return f (← get).db

/-- A streamed change of the tables. -/
def execUpdate (accepted : Bool) (f : Database → Database) : Act Unit := do
  prepare accepted
  modify fun w => { w with db := f w.db }

/-- A query given as a text of its own. -/
def execText {α : Type} (f : Database → α) : Act α := do return f (← get).db

/-- The rows that a prepared statement comes to; `none` if its first step fails. -/
structure ResultSet (α : Type) where
  rows : Database → Option (List α)

/-- `load_stored<T>()` of a streamed statement: a refused text stays in the buffer. -/
def loadStored {α : Type} (rs : Option (ResultSet α)) : Act (ResultSet α) := do
  let w ← get
  match rs, w.stale with
  | some rs, false => return rs
  | _, _ =>
    modify fun w => { w with stale := true }
    throw .databaseError

/-- The rows from `begin` to `end`. -/
def ResultSet.begin {α : Type} (rs : ResultSet α) : Act (List α) := do
  match rs.rows (← get).db with
  | some rows => return rows
  | none => throw .databaseError

/-- `load_one`: the first row, or `not_found`. -/
def loadOne {α : Type} (accepted : Bool) (f : Database → List α) : Act α := do
  let rs ← loadStored (if accepted then some ⟨fun db => some (f db)⟩ else none)
  match ← rs.begin with
  | row :: _ => return row
  | [] => throw .notFound

/-- The rows of a statement that SQLite accepts. -/
def loadRows {α : Type} (accepted : Bool) (f : Database → List α) : Act (List α) := do
  let rs ← loadStored (if accepted then some ⟨fun db => some (f db)⟩ else none)
  rs.begin

/-- `load<T>( id )`. -/
def loadRow {α β : Type} (table : Database → Table α) (make : Int → α → β) (id : Int) : Act β :=
  loadOne true fun db => (((table db).lookup id).map (make id)).toList

/-- `count(*)` read as an `unsigned int`. -/
def countUnsigned (n : Nat) : Act Nat := if n < 2 ^ 32 then pure n else throw .badLexicalCast

/-- `rep.content << a << b << ..`. -/
def putChain (env : Env) (operands : List (Act Bytes)) : Act Unit :=
  if env.operandsFirst then do put (← operands.mapM id).flatten
  else operands.forM fun x => do put (← x)

/-- `sqlite::commas`: a blank the first time and a comma after that. -/
def comma (used : Bool) : Bytes := if used then lit "," else lit " "

/-- Writes the elements one after the other, each with what `comma` writes before it; the result
is whether the commas were used. -/
def putEach {α : Type} (write : Bytes → α → Act Unit) (used : Bool) (rows : List α) : Act Bool :=
  rows.foldlM (fun used a => do write (comma used) a; pure true) used

/-! ## What the steps come to -/

section

variable {α β : Type}

@[simp] theorem outcome_modifyRep (f : Reply → Reply) (w : World) :
    outcome (modifyRep f) w = .ok () := rfl

@[simp] theorem after_modifyRep (f : Reply → Reply) (w : World) :
    after (modifyRep f) w = { w with rep := f w.rep } := rfl

@[simp] theorem outcome_put (t : Bytes) (w : World) : outcome (put t) w = .ok () := rfl

@[simp] theorem after_put (t : Bytes) (w : World) :
    after (put t) w = { w with rep := w.rep.put t } := rfl

theorem outcome_setHdfValue (key : Bytes) (value : HdfValue) (w : World) :
    outcome (setHdfValue key value) w =
      if w.rep.template = [] then .error .runtimeError else .ok () := by
  unfold setHdfValue
  rw [outcome_bind, outcome_get]
  dsimp only
  rw [after_get]
  split <;> rfl

theorem after_setHdfValue (key : Bytes) (value : HdfValue) (w : World) :
    after (setHdfValue key value) w =
      if w.rep.template = [] then w
      else { w with rep := { w.rep with hdf := w.rep.hdf ++ [(key, value)] } } := by
  unfold setHdfValue
  rw [after_bind, outcome_get]
  dsimp only
  rw [after_get]
  split <;> rfl

@[simp] theorem cast_some (a : α) : cast (some a) = pure a := rfl

@[simp] theorem cast_none : (cast none : Act α) = throw .badLexicalCast := rfl

theorem outcome_prepare (accepted : Bool) (w : World) :
    outcome (prepare accepted) w =
      if w.stale = true ∨ accepted = false then .error .databaseError else .ok () := by
  unfold prepare
  simp only [outcome_bind, outcome_get, outcome_modify]
  split <;> rfl

@[simp] theorem after_prepare (accepted : Bool) (w : World) :
    after (prepare accepted) w = { w with stale := false } := by
  unfold prepare
  simp only [after_bind, outcome_get, outcome_modify, after_get, after_modify]
  split <;> rfl

theorem outcome_execSelect (accepted : Bool) (f : Database → α) (w : World) :
    outcome (execSelect accepted f) w =
      if w.stale = true ∨ accepted = false then .error .databaseError else .ok (f w.db) := by
  unfold execSelect
  rw [outcome_bind, outcome_prepare]
  by_cases hc : w.stale = true ∨ accepted = false
  · simp only [if_pos hc]
  · simp only [if_neg hc, after_prepare]
    rfl

@[simp] theorem after_execSelect (accepted : Bool) (f : Database → α) (w : World) :
    after (execSelect accepted f) w = { w with stale := false } := by
  unfold execSelect
  rw [after_bind, after_prepare]
  split <;> rfl

theorem outcome_execUpdate (accepted : Bool) (f : Database → Database) (w : World) :
    outcome (execUpdate accepted f) w =
      if w.stale = true ∨ accepted = false then .error .databaseError else .ok () := by
  unfold execUpdate
  rw [outcome_bind, outcome_prepare]
  by_cases hc : w.stale = true ∨ accepted = false
  · simp only [if_pos hc]
  · simp only [if_neg hc]
    rfl

theorem after_execUpdate (accepted : Bool) (f : Database → Database) (w : World) :
    after (execUpdate accepted f) w =
      if w.stale = true ∨ accepted = false then { w with stale := false }
      else { w with stale := false, db := f w.db } := by
  unfold execUpdate
  rw [after_bind, outcome_prepare, after_prepare]
  by_cases hc : w.stale = true ∨ accepted = false
  · simp only [if_pos hc]
  · simp only [if_neg hc]
    rfl

@[simp] theorem outcome_execText (f : Database → α) (w : World) :
    outcome (execText f) w = .ok (f w.db) := rfl

@[simp] theorem after_execText (f : Database → α) (w : World) : after (execText f) w = w := rfl

/-- What `load_stored` comes to. -/
theorem outcome_loadStored (rs : Option (ResultSet α)) (w : World) :
    outcome (loadStored rs) w =
      match rs with
      | some r => if w.stale = true then .error .databaseError else .ok r
      | none => .error .databaseError := by
  unfold loadStored
  rw [outcome_bind, outcome_get]
  cases rs <;> cases hs : w.stale <;> simp [hs, outcome_bind]

theorem after_loadStored (rs : Option (ResultSet α)) (w : World) :
    after (loadStored rs) w = { w with stale := w.stale || rs.isNone } := by
  unfold loadStored
  rw [after_bind, outcome_get]
  cases rs <;> cases hs : w.stale <;> simp [hs, after_bind]
  all_goals
    cases w
    simp_all

@[simp] theorem outcome_begin (rs : ResultSet α) (w : World) :
    outcome rs.begin w =
      match rs.rows w.db with
      | some rows => .ok rows
      | none => .error .databaseError := by
  unfold ResultSet.begin
  rw [outcome_bind, outcome_get]
  cases h : rs.rows w.db <;> simp [h]

@[simp] theorem after_begin (rs : ResultSet α) (w : World) : after rs.begin w = w := by
  unfold ResultSet.begin
  rw [after_bind, outcome_get]
  cases h : rs.rows w.db <;> simp [h]

/-- What `load_one` comes to. -/
theorem outcome_loadOne (accepted : Bool) (f : Database → List α) (w : World) :
    outcome (loadOne accepted f) w =
      if w.stale = true ∨ accepted = false then .error .databaseError
      else
        match f w.db with
        | row :: _ => .ok row
        | [] => .error .notFound := by
  unfold loadOne
  rw [outcome_bind, outcome_loadStored, after_loadStored]
  cases accepted <;> cases w.stale <;> simp [outcome_bind]
  cases f w.db <;> rfl

theorem after_loadOne (accepted : Bool) (f : Database → List α) (w : World) :
    after (loadOne accepted f) w = { w with stale := w.stale || !accepted } := by
  unfold loadOne
  rw [after_bind, outcome_loadStored, after_loadStored]
  cases accepted <;> cases w.stale <;> simp [after_bind]
  cases f w.db <;> rfl

/-- What a statement that lists rows comes to. -/
theorem outcome_loadRows (accepted : Bool) (f : Database → List α) (w : World) :
    outcome (loadRows accepted f) w =
      if w.stale = true ∨ accepted = false then .error .databaseError else .ok (f w.db) := by
  unfold loadRows
  rw [outcome_bind, outcome_loadStored, after_loadStored]
  cases accepted <;> cases w.stale <;> simp

theorem after_loadRows (accepted : Bool) (f : Database → List α) (w : World) :
    after (loadRows accepted f) w = { w with stale := w.stale || !accepted } := by
  unfold loadRows
  rw [after_bind, outcome_loadStored, after_loadStored]
  cases accepted <;> cases w.stale <;> simp

end

end Spinny
