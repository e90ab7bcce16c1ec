import Spinny.Session

/-!
# The rows of `users` and `settings`

`user.cpp` on the tables: the lookups, `authen`, `save`, `list` and `update_access_time`, and
`Settings::get`. `Spinny.User` has the object, and the statement of `with_ticket` on the
connection.
-/

namespace Spinny

open Bytes Sqlite

variable [Affinity]

/-- A change of the rows of `users`. -/
def Database.mapUsers (f : Table UserRow → Table UserRow) (db : Database) : Database :=
  { db with users := f db.users }

/-- `Settings::get<std::string>`. -/
def Settings.get (name : Bytes) : Act Bytes :=
  execSelect (nulFree name) fun db => db.setting name

namespace User

/-- `initialize_from_db`. -/
def ofRow (id : Int) (row : UserRow) : User where
  dbId := id
  login := row.login.val
  password := row.password.val
  ticket := row.ticket.val
  lastVisit := row.lastVisit
  role := row.role

/-- The row that `table_insert_values` and `table_update_values` give; none of its texts may hold
a NUL. -/
def toRow (u : User) : Option UserRow :=
  if h : nulFree u.login = true ∧ nulFree u.password = true ∧ nulFree u.ticket = true then
    some {
      login := .ofLiteral u.login h.1
      password := .ofLiteral u.password h.2.1
      ticket := .ofLiteral u.ticket h.2.2
      lastVisit := u.lastVisit
      role := u.role }
  else none

/-- The change that `save` makes. -/
def saved (u : User) (row : UserRow) : Database → Database :=
  .mapUsers fun t =>
    if u.dbId = 0 then t.insert row else t.updateWhere (fun id _ => id == u.dbId) fun _ => row

/-- `save`. -/
def save (u : User) : Act Unit :=
  execUpdate u.toRow.isSome fun db =>
    match u.toRow with
    | some row => u.saved row db
    | none => db

/-- `load_one<User>( field, value )`. -/
def loadWhere (field : UserRow → Text) (value : Bytes) : Act User :=
  loadOne (nulFree value) fun db =>
    (db.users.select fun _ u => (field u).eqLiteral value).map fun r => ofRow r.1 r.2

/-- `User::with_ticket` on the tables. -/
def ofTicket (ticket : Bytes) : Act User := loadWhere UserRow.ticket ticket

/-- `User::with_login` on the tables. -/
def withLogin (login : Bytes) : Act User := loadWhere UserRow.login login

/-- `User::load`. -/
def load (id : Int) : Act User := loadRow Database.users ofRow id

/-- `User::create`. -/
def create (env : Env) (login password : Bytes) : Act User := do
  let ticket ← newTicket env
  let now ← localTime env
  return ⟨0, login, password, ticket, now, readOnlyRole⟩

/-- `order by login` or `order by last_visit`. -/
def sortRows (byLastVisit descending : Bool) (rows : List (Int × UserRow)) :
    List (Int × UserRow) :=
  rows.mergeSort fun a b =>
    let (a, b) := if descending then (b.2, a.2) else (a.2, b.2)
    if byLastVisit then decide (a.lastVisit ≤ b.lastVisit) else a.login.cell.le b.login.cell

/-- `User::list` for the columns `login` and `last_visit`: the limit is left out where `first` is
zero. -/
def list (first count : Int) (byLastVisit descending : Bool) : Act (List User) :=
  loadRows true fun db =>
    let rows := (sortRows byLastVisit descending db.users.rows).map fun r => ofRow r.1 r.2
    if first = 0 then rows else limitRows first count rows

/-- `authen`: with the right password the user gets a new ticket and is saved. -/
def authen (env : Env) (u : User) (pass : Bytes) : Act (Option User) := do
  if pass = u.password then
    let ticket ← newTicket env
    let u := { u with ticket }
    u.save
    return some u
  else return none

/-- `table::destroy`. -/
def destroy (u : User) : Act Unit := do
  if u.dbId ≠ 0 then
    execUpdate true <| .mapUsers fun t => t.deleteWhere fun id _ => id == u.dbId

/-- `update_access_time`. -/
def updateAccessTime (env : Env) (u : User) : Act Unit := do
  let now ← localTime env
  execUpdate true <| .mapUsers fun t =>
    t.updateWhere (fun id _ => id == u.dbId) fun r => { r with lastVisit := now }

end User

end Spinny
