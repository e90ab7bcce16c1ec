import Spinny.Accounts
import Spinny.Ews.RequestParser

/-!
# `ews::request_handler`

The dispatcher: the handlers of the four phases are tried in turn until one stops or throws; an
exception becomes an error reply.

* `tryHandler`: one handler with the `catch` clauses around it.
* `passOn`: the loop over the handlers.
* `handleRequest`: the loop and what follows it.
-/

namespace Ews

open Bytes Spinny Sqlite Proc

variable [Affinity]

/-- The request for an url and some variables, without a user. -/
def Request.forUrl (url : Bytes) (varibles : Varibles) : Request :=
  { Request.fresh with method := lit "GET", uri := url, url, varibles }.setElements
    (Boost.splitSlash url)

/-- `RequestStatus`. -/
inductive RequestStatus where
  | continue
  | stop
  deriving DecidableEq, Repr

/-- `RequestPhase`. -/
inductive RequestPhase where
  | beginning | middle | «end» | last
  deriving DecidableEq, Repr

/-- A handler as it registers. -/
structure RequestHandler where
  name : Bytes
  phase : RequestPhase
  handle : Env → Request → Run RequestStatus

/-- An error page with a title and a heading. -/
def errorPage (title heading : Bytes) : Bytes :=
  lit "<html>\n<head><title>" ++ title ++ lit "</title></head><body><h1>" ++ heading ++
    lit "</h1></body></html>"

/-- The `catch` clauses: what each leaves as the reply. -/
def Reply.caught (rep : Reply) : Exn → Reply
  | .notFoundError what =>
    ((rep.setTo .notFound).clearContents).put
      (errorPage (lit "Not Found") (lit "404 Not Found error retrieving " ++ what))
  | .notFound => rep.setTo .notFound
  | .forbiddenError what =>
    ((rep.setTo .forbidden).clearContents).put
      (errorPage (lit "Forbidden") (lit "403 Forbidden " ++ what))
  | .error what =>
    ((rep.setTo .internalServerError).clearContents).put
      (errorPage (lit "Internal Server Error") (lit "500 " ++ what))
  | .databaseError | .badLexicalCast | .runtimeError => rep.setTo .internalServerError

/-- `try` one handler: an exception stops the loop as well. -/
def tryHandler (env : Env) (req : Request) (h : RequestHandler) : Run RequestStatus :=
  tryCatch
    (do
      let status ← h.handle env req
      if status = .stop then
        modifyRep fun rep => rep.setHeader (lit "X-HANDLED-BY") h.name
      return status)
    fun
    | .exn e => do
      modifyRep fun rep => rep.caught e
      return .stop
    | r => throw r

/-- What one handler comes to: an exception counts as a stop. -/
theorem outcome_tryHandler (env : Env) (req : Request) (h : RequestHandler) (w : World) :
    outcome (tryHandler env req h) w =
      match outcome (h.handle env req) w with
      | .ok status => .ok status
      | .error (.exn _) => .ok .stop
      | .error r => .error r := by
  unfold tryHandler
  rw [outcome_tryCatch, outcome_bind]
  cases outcome (h.handle env req) w with
  | ok status => cases status <;> rfl
  | error r => cases r <;> rfl

/-- What one handler leaves behind. -/
theorem after_tryHandler (env : Env) (req : Request) (h : RequestHandler) (w : World) :
    after (tryHandler env req h) w =
      let w' := after (h.handle env req) w
      match outcome (h.handle env req) w with
      | .ok .stop => { w' with rep := w'.rep.setHeader (lit "X-HANDLED-BY") h.name }
      | .error (.exn e) => { w' with rep := w'.rep.caught e }
      | _ => w' := by
  unfold tryHandler
  rw [after_tryCatch, outcome_bind, after_bind]
  cases outcome (h.handle env req) w with
  | ok status => cases status <;> rfl
  | error r => cases r <;> rfl

/-- The loops over the phases and over the handlers of a phase. -/
def passOn (env : Env) (req : Request) : List RequestHandler → Run RequestStatus
  | [] => return .continue
  | h :: hs => do
    match ← tryHandler env req h with
    | .stop => return .stop
    | .continue => passOn env req hs

/-- The handlers in the order of the loops: by phase, and as registered inside a phase. -/
def inPhases (handlers : List RequestHandler) : List RequestHandler :=
  [.beginning, .middle, .end, .last].flatMap fun phase =>
    handlers.filter fun h => h.phase = phase

/-- The value of the `Set-Cookie` header. -/
def ticketCookie (ticket : Bytes) : Bytes := lit "Ticket=" ++ ticket ++ lit "; path=/;"

/-- The cookie and the access time of the user of the reply, or else of the request. -/
def greetUser (env : Env) (req : Request) : Act Unit := do
  modifyRep fun rep => { rep with user := rep.user <|> req.user }
  match (← get).rep.user with
  | some user =>
    modifyRep fun rep => rep.setHeader (lit "Set-Cookie") (ticketCookie user.ticket)
    user.updateAccessTime env
  | none => pure ()

/-- `handle_request`: it always returns true where it returns. -/
def handleRequest (handlers : List RequestHandler) (env : Env) (req : Request) : Run Unit := do
  let status ← passOn env req (inPhases handlers)
  greetUser env req
  if status ≠ .stop then modifyRep fun rep => rep.setTo .notFound

end Ews
