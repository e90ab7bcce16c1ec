import Spinny.Ews.RequestHandler

/-!
# The handlers `Login` and `Users`

The page and the check of the login, and the administration of the users, with the functions of
`shared.cpp`.
-/

namespace Handlers

open Bytes Boost Spinny Sqlite Ews

variable [Affinity]

/-! ## `shared.cpp` -/

/-- `requireAuth`: the role is read from behind the pointer without a test. -/
def requireAuth (user : Option User) (role : Int) : Run Unit :=
  match user with
  | none => throw .nullUser
  | some u => if u.hasAtLeast role then pure () else
      throw (.exn (.error (lit "User Account lacks proper permission")))

/-- `json_q`. -/
def jsonQ (str : Bytes) : Bytes := replaceAll 39 [92, 39] str

/-- `boost::replace_all_copy( str, "\"", "\\\"" )`. -/
def escapeQuotes (str : Bytes) : Bytes := replaceAll 34 [92, 34] str

/-- `single_value<sqlite::id_t>`. -/
def idValue (req : Request) (name : Bytes) : Act Int := cast (req.singleValue toId 0 name)

/-- `single_value<unsigned int>`. -/
def unsignedValue (req : Request) (name : Bytes) : Act Nat :=
  cast (req.singleValue toUnsigned 0 name)

/-! ## `Login` -/

namespace Login

/-- The name of the setting that both branches read. -/
def allowGuests : Bytes := lit "AllowGuests"

/-- The request gets the login page. -/
def asksLogin (req : Request) : Bool :=
  req.user.isNone && !(lit ".gif").isSuffixOf req.url && req.u2.isEmpty

/-- The branch that shows the login page. -/
def showPage : Act RequestStatus := do
  modifyRep fun rep => rep.setTemplate (lit "login.html")
  setHdfValue allowGuests (.text (← Settings.get allowGuests))
  modifyRep fun rep => rep.setBasicHeaders (lit "html")
  return .stop

/-- A user whose login and password are right is redirected. -/
def welcome (user : User) : Act RequestStatus := do
  modifyRep fun rep => { rep with user := some user }
  modifyRep fun rep => rep.setTo .movedTemporarily
  modifyRep fun rep => rep.setHeader (lit "Location") (lit "/")
  return .stop

/-- The branch that checks a login and a password. -/
def validate (env : Env) (req : Request) : Act RequestStatus := do
  let mode ← Settings.get allowGuests
  if mode = lit "WithPassword" ∨ mode = lit "WithName" then return .continue
  else
    let user ← User.withLogin (req.svalue (lit "login"))
    match ← user.authen env (req.svalue (lit "pass")) with
    | some user => welcome user
    | none =>
      setHdfValue (lit "FailedAuth") (.number 1)
      return .stop

/-- `Login::handle`. -/
def handle (env : Env) (req : Request) : Act RequestStatus :=
  if asksLogin req then showPage
  else if req.u2 = lit "validate" then validate env req
  else pure .continue

end Login

/-- `Login::Login`. -/
def login : RequestHandler := ⟨lit "Login", .beginning, fun env req => Login.handle env req⟩

/-! ## `Users` -/

namespace Users

/-- `boost::posix_time::to_simple_string` of a duration in seconds. -/
def showDuration (seconds : Int) : Bytes :=
  let two (n : Nat) : Bytes := if n < 10 then 48 :: decimal n else decimal n
  let n := seconds.natAbs
  (if seconds < 0 then [45] else []) ++ two (n / 3600) ++ [58] ++ two (n / 60 % 60) ++ [58] ++
    two (n % 60)

/-- One user of the list. -/
def putUser (now : Int) (before : Bytes) (user : User) : Act Unit :=
  put (before ++ lit "\x7b 'id':" ++ showInt user.dbId ++ lit ",'login':'" ++
    escapeQuotes user.login ++ lit "','password':'********','last_visit':'" ++
    showDuration (now - user.lastVisit) ++ lit "','role':'" ++ showInt user.role ++ lit "'\x7d\n")

/-- The sub-command `list`. -/
def list (env : Env) (req : Request) : Act Unit := do
  let now ← localTime env
  let page : Nat := ((← unsignedValue req (lit "page")) + 2 ^ 32 - 1) % 2 ^ 32
  let num ← unsignedValue req (lit "pageSize")
  let byLastVisit := req.svalue (lit "sortColumn") == lit "3"
  let descending := req.svalue (lit "sortDir") == lit "DESC"
  let users ← User.list (toInt32 (page * num)) (toInt32 num) byLastVisit descending
  put (lit "\x7b Users:  [ \n")
  let _ ← putEach (putUser now) false users
  put (lit "]\x7d\n")

/-- The sub-command `del`. -/
def del (req : Request) : Act Unit := do
  let user ← User.load (← idValue req (lit "uid"))
  user.destroy

/-- A value of the JSON data that is asserted to be convertible. -/
def converted {α : Type} (x : Option α) : Run α :=
  match x with
  | some a => pure a
  | none => throw .aborts

/-- One user of the sub-command `save`. -/
def saveOne (env : Env) (json : JsonUser) : Run Unit := do
  let uid ← converted json.id
  let login ← converted json.login
  let password ← converted json.password
  let role ← converted json.role
  if uid ≠ 0 then
    let user ← User.load uid
    let user := { user with login }
    let user := if password ≠ lit "********" then { user with password } else user
    let role ← cast (toInt role)
    User.save { user with role }
  else
    let user ← User.create env login password
    let role ← cast (toInt role)
    User.save { user with role }

/-- The sub-command `save`. -/
def save (env : Env) (req : Request) : Run Unit := do
  let data := req.svalue (lit "data")
  match if data = [] then none else env.jsonArray data with
  | none => throw (.exn (.error (lit "Malformed JSON data received")))
  | some users => users.forM (saveOne env)

/-- The sub-commands. -/
def answer (env : Env) (req : Request) : Run Unit :=
  if req.u2 = lit "list" then list env req
  else if req.u2 = lit "del" then del req
  else if req.u2 = lit "save" then save env req
  else pure ()

/-- `Users::handle`. -/
def handle (env : Env) (req : Request) : Run RequestStatus := do
  if req.u1 ≠ lit "users" then return .continue
  else
    requireAuth req.user User.adminRole
    modifyRep fun rep => rep.setBasicHeaders (lit "json")
    answer env req
    return .stop

end Users

/-- `Users::Users`. -/
def users : RequestHandler := ⟨lit "Users", .beginning, Users.handle⟩

end Handlers
