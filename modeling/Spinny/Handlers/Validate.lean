import Spinny.Ews.Dispatch
import Spinny.Handlers.StatusLines

/-!
# A login and a password

`/<x>/validate` looks up the first user with the login and compares the password. Both ways to
fail are exceptions, of different classes.

* `validate_unknown`, `validate_wrong`, `validate_right`: what the handler comes to.
* `Redirects`: the redirect with the new ticket.
* `validate_iff`: the request is answered as it should be exactly for the password of the first
  user with the login.
-/

namespace Handlers.Login

open Bytes Boost Spinny Sqlite Ews Proc

variable [Affinity] {env : Env} {req : Request} {w : World}

/-- The users with a login, by rowid. -/
def usersWith (db : Database) (login : Bytes) : List (Int × UserRow) :=
  db.users.select fun _ u => u.login.eqLiteral login

/-- The login and the password of the request are those of a user. -/
def Matches (req : Request) (db : Database) : Prop :=
  nulFree (req.svalue (lit "login")) = true ∧
    ∃ r ∈ usersWith db (req.svalue (lit "login")), r.2.password.val = req.svalue (lit "pass")

/-- They are those of the first user with the login. -/
def MatchesFirst (req : Request) (db : Database) : Prop :=
  nulFree (req.svalue (lit "login")) = true ∧
    ∃ r, (usersWith db (req.svalue (lit "login"))).head? = some r ∧
      r.2.password.val = req.svalue (lit "pass")

/-- The request is to `/<x>/validate`, in a mode without guests, with a reply as it is constructed;
a new ticket is made of lower case letters, and no user has the rowid 0. -/
structure Validates (env : Env) (req : Request) (w : World) : Prop where
  path : req.u2 = lit "validate"
  mode : ¬ (w.db.setting allowGuests = lit "WithPassword" ∨
    w.db.setting allowGuests = lit "WithName")
  fresh : w.rep = .fresh
  letters : ∀ n, env.ticketLetters n ≠ [] ∧ ∀ b ∈ env.ticketLetters n, 97 ≤ b ∧ b ≤ 122
  saved : ∀ r ∈ w.db.users.rows, r.1 ≠ 0

/-- The request is answered by the redirect with the new ticket of the user `r`, which is stored;
the one before does not identify this user any more, unless it is drawn again. -/
structure Redirects (env : Env) (req : Request) (w : World) (r : Int × UserRow) : Prop where
  answered : outcome (respond env req) w = .ok ()
  status : (after (respond env req) w).rep.status = some .movedTemporarily
  location : (after (respond env req) w).rep.headers[lit "Location"]? = some (lit "/")
  cookie : (after (respond env req) w).rep.headers[lit "Set-Cookie"]? =
    some (ticketCookie (env.ticketLetters w.readings))
  stored : ∃ row, (after (respond env req) w).db.users.lookup r.1 = some row ∧
    row.ticket.val = env.ticketLetters w.readings
  replaced : r.2.ticket.val ≠ env.ticketLetters w.readings →
    ∀ u, outcome (User.ofTicket r.2.ticket.val) (after (respond env req) w) = .ok u → u.dbId ≠ r.1

/-- What is asked of a request with a login and a password: no exception where they are not those
of a user, and else the redirect. -/
def Meets (env : Env) (req : Request) (w : World) : Prop :=
  (¬ Matches req w.db → ∀ e, outcome (Login.handle env req) w ≠ .error e) ∧
    (Matches req w.db → ∃ r ∈ usersWith w.db (req.svalue (lit "login")),
      r.2.password.val = req.svalue (lit "pass") ∧ Redirects env req w r)

/-! ## The handler -/

theorem handle_validate (h : Validates env req w) : Login.handle env req = validate env req := by
  have hasks : asksLogin req = false := by
    simp [asksLogin, h.path, lit]
  unfold Login.handle
  rw [if_neg (by simp [hasks]), if_pos h.path]

theorem settings_returns (hw : w.stale = false) (name : Bytes) (hn : nulFree name = true) :
    Returns (Settings.get name) w (w.db.setting name) w := by
  refine ⟨?_, ?_⟩
  · unfold Settings.get
    rw [outcome_execSelect, if_neg (by simp [hw, hn])]
  · unfold Settings.get
    rw [after_execSelect]
    cases w
    cases hw
    rfl

/-- The lookup and the comparison behind the mode. -/
def check (env : Env) (req : Request) : Act RequestStatus := do
  let user ← User.withLogin (req.svalue (lit "login"))
  match ← user.authen env (req.svalue (lit "pass")) with
  | some user => welcome user
  | none =>
    setHdfValue (lit "FailedAuth") (.number 1)
    return .stop

theorem outcome_handle (h : Validates env req w) (hw : w.stale = false) :
    outcome (Login.handle env req) w = outcome (check env req) w := by
  rw [handle_validate h]
  unfold validate
  have hmode := settings_returns hw allowGuests (by decide)
  rw [outcome_bind_ok hmode.outcome, hmode.after, if_neg h.mode]
  rfl

theorem after_handle (h : Validates env req w) (hw : w.stale = false) :
    after (Login.handle env req) w = after (check env req) w := by
  rw [handle_validate h]
  unfold validate
  have hmode := settings_returns hw allowGuests (by decide)
  rw [after_bind_ok hmode.outcome, hmode.after, if_neg h.mode]
  rfl

theorem outcome_withLogin (hw : w.stale = false) (login : Bytes) :
    outcome (User.withLogin login) w =
      if nulFree login = true then
        match usersWith w.db login with
        | r :: _ => .ok (.ofRow r.1 r.2)
        | [] => .error .notFound
      else .error .databaseError := by
  unfold User.withLogin User.loadWhere usersWith
  rw [outcome_loadOne, hw]
  cases hn : nulFree login with
  | false => rfl
  | true => cases w.db.users.select fun _ u => u.login.eqLiteral login <;> simp

theorem after_withLogin (hw : w.stale = false) {login : Bytes} (hn : nulFree login = true) :
    after (User.withLogin login) w = w := by
  unfold User.withLogin User.loadWhere
  rw [after_loadOne, hw, hn]
  cases w
  cases hw
  rfl

/-- Where the login and the password are not those of the first user with the login, the handler
throws. -/
theorem validate_unknown (h : Validates env req w) (hw : w.stale = false)
    (hlogin : nulFree (req.svalue (lit "login")) = true)
    (hnone : usersWith w.db (req.svalue (lit "login")) = []) :
    outcome (Login.handle env req) w = .error .notFound := by
  rw [outcome_handle h hw]
  refine outcome_bind_error ?_ _
  rw [outcome_withLogin hw, if_pos hlogin, hnone]

theorem validate_refused (h : Validates env req w) (hw : w.stale = false)
    (hlogin : nulFree (req.svalue (lit "login")) = false) :
    outcome (Login.handle env req) w = .error .databaseError := by
  rw [outcome_handle h hw]
  refine outcome_bind_error ?_ _
  rw [outcome_withLogin hw, if_neg (by simp [hlogin])]

theorem authen_wrong {u : User} {pass : Bytes} (h : pass ≠ u.password) :
    u.authen env pass = pure none := if_neg h

theorem validate_wrong (h : Validates env req w) (hw : w.stale = false) {r : Int × UserRow}
    (hlogin : nulFree (req.svalue (lit "login")) = true)
    (hr : (usersWith w.db (req.svalue (lit "login"))).head? = some r)
    (hpass : r.2.password.val ≠ req.svalue (lit "pass")) :
    outcome (Login.handle env req) w = .error .runtimeError := by
  obtain ⟨rs, hrs⟩ := List.head?_eq_some_iff.mp hr
  have huser : outcome (User.withLogin (req.svalue (lit "login"))) w = .ok (.ofRow r.1 r.2) := by
    rw [outcome_withLogin hw, if_pos hlogin, hrs]
  have hauthen : (User.ofRow r.1 r.2).authen env (req.svalue (lit "pass")) = pure none :=
    authen_wrong (Ne.symm hpass)
  rw [outcome_handle h hw]
  unfold check
  rw [outcome_bind_ok huser, after_withLogin hw hlogin, hauthen,
    outcome_bind_ok (outcome_pure none w)]
  refine outcome_bind_error ?_ _
  rw [after_pure, outcome_setHdfValue, if_pos (by rw [h.fresh]; rfl)]

/-- The row of a user with a new ticket. -/
theorem toRow_renewed (r : Int × UserRow) {ticket : Bytes}
    (ht : ticket ≠ [] ∧ ∀ b ∈ ticket, 97 ≤ b ∧ b ≤ 122) :
    ∃ row, User.toRow { User.ofRow r.1 r.2 with ticket } = some row ∧
      row.ticket.cell = .text ticket := by
  obtain ⟨hne, hletters⟩ := ht
  have hnul : nulFree ticket = true := by
    simp only [nulFree_iff]
    intro h0
    exact absurd (hletters 0 h0).1 (by decide)
  have hstore : store ticket = .text ticket := by
    obtain ⟨b, t, rfl⟩ := List.exists_cons_of_ne_nil hne
    refine store_alpha b t ?_
    have hb := hletters b List.mem_cons_self
    simp [isAlpha, hb.1, hb.2]
  unfold User.toRow
  rw [dif_pos ⟨r.2.login.nulFree_val, r.2.password.nulFree_val, hnul⟩]
  exact ⟨_, rfl, hstore⟩

/-- What `authen` leaves for the right password. -/
theorem authen_right (hw : w.stale = false) {u : User} {pass : Bytes} (hpass : pass = u.password)
    (hid : u.dbId ≠ 0) {row : UserRow}
    (hrow : User.toRow { u with ticket := env.ticketLetters w.readings } = some row) :
    Returns (u.authen env pass) w (some { u with ticket := env.ticketLetters w.readings })
      { w with
        readings := w.readings + 1
        db := { w.db with
          users := w.db.users.updateWhere (fun id _ => id == u.dbId) fun _ => row } } := by
  have hsave : Returns (User.save { u with ticket := env.ticketLetters w.readings })
      { w with readings := w.readings + 1 } () { w with
        readings := w.readings + 1
        db := { w.db with
          users := w.db.users.updateWhere (fun id _ => id == u.dbId) fun _ => row } } := by
    unfold User.save
    rw [hrow]
    constructor
    · rw [outcome_execUpdate, if_neg (by simp [hw])]
    · rw [after_execUpdate, if_neg (by simp [hw])]
      simp only [User.saved, Database.mapUsers, if_neg hid]
      cases w
      cases hw
      rfl
  unfold User.authen
  rw [if_pos hpass]
  exact .bind (a := env.ticketLetters w.readings) ⟨rfl, rfl⟩ (hsave.bind (.pure _ _))

/-- The reply of a user who is let in. -/
def welcomed (user : User) (rep : Reply) : Reply :=
  (({ rep with user := some user }.setTo .movedTemporarily).setHeader (lit "Location") (lit "/"))

/-- Where they are those of the first user with the login, the user gets a new ticket. -/
theorem validate_right (h : Validates env req w) (hw : w.stale = false) {r : Int × UserRow}
    (hlogin : nulFree (req.svalue (lit "login")) = true)
    (hr : (usersWith w.db (req.svalue (lit "login"))).head? = some r)
    (hpass : r.2.password.val = req.svalue (lit "pass")) {row : UserRow}
    (hrow : User.toRow { User.ofRow r.1 r.2 with ticket := env.ticketLetters w.readings } =
      some row) :
    Returns (Login.handle env req) w .stop
      { w with
        readings := w.readings + 1
        db := { w.db with users := w.db.users.updateWhere (fun id _ => id == r.1) fun _ => row }
        rep := welcomed { User.ofRow r.1 r.2 with ticket := env.ticketLetters w.readings } w.rep } := by
  obtain ⟨rs, hrs⟩ := List.head?_eq_some_iff.mp hr
  have hid : r.1 ≠ 0 := by
    have hmem : r ∈ usersWith w.db (req.svalue (lit "login")) := by
      rw [hrs]
      exact List.mem_cons_self
    exact h.saved r (Table.mem_select.mp hmem).1
  have huser : Returns (User.withLogin (req.svalue (lit "login"))) w (.ofRow r.1 r.2) w :=
    ⟨by rw [outcome_withLogin hw, if_pos hlogin, hrs], after_withLogin hw hlogin⟩
  have hauthen := @authen_right _ env _ hw (.ofRow r.1 r.2) _ hpass.symm hid _ hrow
  have hcheck : Returns (check env req) w .stop _ := huser.bind (hauthen.bind ⟨rfl, rfl⟩)
  exact ⟨(outcome_handle h hw).trans hcheck.outcome, (after_handle h hw).trans hcheck.after⟩

/-! ## The whole request -/

/-- What follows the handler, if it stops the request or throws. -/
theorem respond_stops {w' : World} (h : Returns (tryHandler env req login) w .stop w') :
    outcome (respond env req) w = outcome (greetUser env req).run w' ∧
      after (respond env req) w = after (greetUser env req) w' := by
  have hpass : Returns (passOn env req (inPhases linkUp)) w .stop w' := by
    rw [inPhases_linkUp]
    exact h.bind (.pure _ _)
  unfold respond handleRequest
  rw [outcome_bind_ok hpass.outcome, after_bind_ok hpass.outcome, hpass.after]
  change outcome ((greetUser env req).run >>= fun _ => pure ()) w' = _ ∧
    after ((greetUser env req).run >>= fun _ => pure ()) w' = _
  rw [bind_pure_unit]
  exact ⟨rfl, rfl⟩

/-- An exception gives the status for its class. -/
theorem respond_raised {e : Exn} (h : outcome (Login.handle env req) w = .error e) :
    (after (respond env req) w).rep.status = some (statusOf e) := by
  have hrun : outcome (login.handle env req) w = .error (.exn e) := outcome_run_error h
  have hstop : Returns (tryHandler env req login) w .stop (after (tryHandler env req login) w) := by
    refine ⟨?_, rfl⟩
    rw [outcome_tryHandler, hrun]
  have hkept : ∀ w' : World, (after (greetUser env req) w').rep.status = w'.rep.status :=
    fun w' => greetUser_keepsStatus w'
  rw [(respond_stops hstop).2, hkept, after_tryHandler, hrun]
  cases e <;> rfl

theorem updateAccessTime_returns (hw : w.stale = false) (user : User) :
    Returns (user.updateAccessTime env) w () { w with
      readings := w.readings + 1
      db := { w.db with users := w.db.users.updateWhere (fun id _ => id == user.dbId) fun row =>
        { row with lastVisit := env.clock w.readings } } } := by
  have htime : Returns (localTime env) w (env.clock w.readings)
      { w with readings := w.readings + 1 } := ⟨rfl, rfl⟩
  refine htime.bind ⟨?_, ?_⟩
  · rw [outcome_execUpdate, if_neg (by simp [hw])]
  · rw [after_execUpdate, if_neg (by simp [hw])]
    cases w
    cases hw
    rfl

theorem greetUser_returns {user : User} (hw : w.stale = false) (hu : w.rep.user = some user) :
    Returns (greetUser env req) w () { w with
      readings := w.readings + 1
      db := { w.db with users := w.db.users.updateWhere (fun id _ => id == user.dbId) fun row =>
        { row with lastVisit := env.clock w.readings } }
      rep := { w.rep with
        headers := w.rep.headers.insertIfNew (lit "Set-Cookie") (ticketCookie user.ticket) } } := by
  have huser : (w.rep.user <|> req.user) = some user := by rw [hu]; rfl
  have hrep : { w with rep := { w.rep with user := w.rep.user <|> req.user } } = w := by
    rw [huser, ← hu]
  have hfirst : Returns (modifyRep fun rep => { rep with user := rep.user <|> req.user }) w () w :=
    ⟨rfl, hrep⟩
  refine hfirst.bind (.bind (a := w) ⟨rfl, rfl⟩ ?_)
  rw [hu]
  have hcookie : Returns (modifyRep fun rep =>
      rep.setHeader (lit "Set-Cookie") (ticketCookie user.ticket)) w ()
      { w with rep := w.rep.setHeader (lit "Set-Cookie") (ticketCookie user.ticket) } := ⟨rfl, rfl⟩
  refine hcookie.bind ?_
  exact @updateAccessTime_returns _ env
    { w with rep := w.rep.setHeader (lit "Set-Cookie") (ticketCookie user.ticket) } hw user

omit [Affinity] in
/-- The two headers that are set behind the stock reply. -/
theorem welcomed_headers (user : User) (rep : Reply) (cookie : Bytes) :
    let headers := ((welcomed user rep).setHeader (lit "X-HANDLED-BY") (lit "Login")).headers.insertIfNew
      (lit "Set-Cookie") cookie
    headers[lit "Location"]? = some (lit "/") ∧ headers[lit "Set-Cookie"]? = some cookie :=
  ⟨rfl, rfl⟩

theorem tryHandler_returns {h : RequestHandler} {w' : World}
    (hh : Returns (h.handle env req) w .stop w') : Returns (tryHandler env req h) w .stop
      { w' with rep := w'.rep.setHeader (lit "X-HANDLED-BY") h.name } := by
  constructor
  · rw [outcome_tryHandler, hh.outcome]
  · rw [after_tryHandler, hh.outcome, hh.after]

/-- A request that `Login` stops for a user. -/
theorem respond_welcome {w' : World} {user : User}
    (h : Returns (tryHandler env req login) w .stop w') (hw : w'.stale = false)
    (hu : w'.rep.user = some user) :
    Returns (respond env req) w () { w' with
      readings := w'.readings + 1
      db := { w'.db with users := w'.db.users.updateWhere (fun id _ => id == user.dbId) fun row =>
        { row with lastVisit := env.clock w'.readings } }
      rep := { w'.rep with
        headers := w'.rep.headers.insertIfNew (lit "Set-Cookie") (ticketCookie user.ticket) } } := by
  have hgreet := @greetUser_returns _ env req _ _ hw hu
  obtain ⟨hout, hafter⟩ := respond_stops h
  exact ⟨hout.trans (outcome_run_ok hgreet.outcome), hafter.trans hgreet.after⟩

/-- The user that a ticket identifies has it in the table. -/
theorem ofTicket_row {ticket : Bytes} {u : User} (h : outcome (User.ofTicket ticket) w = .ok u) :
    ∃ row, w.db.users.lookup u.dbId = some row ∧ row.ticket.cell = store ticket := by
  unfold User.ofTicket User.loadWhere at h
  rw [outcome_loadOne] at h
  split_ifs at h with hbad
  cases hrows : w.db.users.select fun _ u => u.ticket.eqLiteral ticket with
  | nil =>
    rw [hrows] at h
    cases h
  | cons r rs =>
    rw [hrows] at h
    obtain rfl := Except.ok.inj h
    have hmem : r ∈ w.db.users.select fun _ u => u.ticket.eqLiteral ticket := by
      rw [hrows]
      exact List.mem_cons_self
    obtain ⟨hrow, hticket⟩ := Table.mem_select.mp hmem
    exact ⟨r.2, Table.lookup_eq_some.mpr hrow, by simpa [Text.eqLiteral] using hticket⟩

theorem validate_redirects (h : Validates env req w) (hw : w.stale = false) {r : Int × UserRow}
    (hlogin : nulFree (req.svalue (lit "login")) = true)
    (hr : (usersWith w.db (req.svalue (lit "login"))).head? = some r)
    (hpass : r.2.password.val = req.svalue (lit "pass")) : Redirects env req w r := by
  obtain ⟨row, hrow, hticket⟩ := toRow_renewed r (h.letters w.readings)
  have hhandle := validate_right h hw hlogin hr hpass hrow
  have htry := @tryHandler_returns _ env req w login _
    ⟨outcome_run_ok hhandle.outcome, hhandle.after⟩
  have hall := respond_welcome htry hw rfl
  obtain ⟨rs, hrs⟩ := List.head?_eq_some_iff.mp hr
  have hmem : r ∈ w.db.users.rows := by
    have : r ∈ usersWith w.db (req.svalue (lit "login")) := by
      rw [hrs]
      exact List.mem_cons_self
    exact (Table.mem_select.mp this).1
  have hstored : ∃ row, (after (respond env req) w).db.users.lookup r.1 = some row ∧
      row.ticket.cell = .text (env.ticketLetters w.readings) := by
    rw [hall.after]
    refine ⟨{ row with lastVisit := env.clock (w.readings + 1) }, ?_, hticket⟩
    have htable : ((w.db.users.updateWhere (fun id _ => id == r.1) fun _ => row).updateWhere
        (fun id _ => id == r.1) fun row =>
          { row with lastVisit := env.clock (w.readings + 1) }).lookup r.1 =
        some { row with lastVisit := env.clock (w.readings + 1) } := by
      rw [Table.lookup_updateWhere_rowid, Table.lookup_updateWhere_rowid,
        Table.lookup_eq_some.mpr hmem]
      rfl
    exact htable
  have hread : ∃ row, (after (respond env req) w).db.users.lookup r.1 = some row ∧
      row.ticket.val = env.ticketLetters w.readings := by
    obtain ⟨row, hlookup, hcell⟩ := hstored
    exact ⟨row, hlookup, by rw [Text.val, hcell, Cell.print]⟩
  refine ⟨hall.outcome, ?_, ?_, ?_, hread, ?_⟩
  · rw [hall.after]
    rfl
  · rw [hall.after]
    exact (welcomed_headers _ _ _).1
  · rw [hall.after]
    exact (welcomed_headers _ _ _).2
  · intro hnew u hu hid
    obtain ⟨row', hrow', hold⟩ := ofTicket_row hu
    obtain ⟨row'', hrow'', hticket'⟩ := hstored
    rw [hid, hrow''] at hrow'
    obtain rfl := Option.some.inj hrow'
    exact hnew (eq_of_store_eq_text (hold.symm.trans hticket'))

/-- On a connection with a refused text the mode cannot be read. -/
theorem validate_stale (h : Validates env req w) (hw : w.stale = true) :
    outcome (Login.handle env req) w = .error .databaseError := by
  rw [handle_validate h]
  refine outcome_bind_error ?_ _
  unfold Settings.get
  rw [outcome_execSelect, if_pos (.inl hw)]

/-- Without the first user with the login and its password the handler throws. -/
theorem validate_throws (h : Validates env req w) (hw : w.stale = false)
    (hno : ¬ MatchesFirst req w.db) : ∃ e, outcome (Login.handle env req) w = .error e := by
  cases hlogin : nulFree (req.svalue (lit "login")) with
  | false => exact ⟨_, validate_refused h hw hlogin⟩
  | true =>
    cases hr : (usersWith w.db (req.svalue (lit "login"))).head? with
    | none => exact ⟨_, validate_unknown h hw hlogin (List.head?_eq_none_iff.mp hr)⟩
    | some r =>
      exact ⟨_, validate_wrong h hw hlogin hr fun hpass => hno ⟨hlogin, r, hr, hpass⟩⟩

/-- The request is answered as asked exactly if the password is that of the first user with the
login. Where it is not, the reply tells an unknown login from a wrong password. -/
theorem validate_iff (h : Validates env req w) :
    (Meets env req w ↔ w.stale = false ∧ MatchesFirst req w.db) ∧
    (w.stale = false → nulFree (req.svalue (lit "login")) = true →
      usersWith w.db (req.svalue (lit "login")) = [] →
      (after (respond env req) w).rep.status = some .notFound) ∧
    ∀ r, w.stale = false → nulFree (req.svalue (lit "login")) = true →
      (usersWith w.db (req.svalue (lit "login"))).head? = some r →
      r.2.password.val ≠ req.svalue (lit "pass") →
      (after (respond env req) w).rep.status = some .internalServerError := by
  have hthrows : ∀ e, outcome (Login.handle env req) w = .error e → ¬ Meets env req w := by
    intro e he hmeets
    by_cases hmatch : Matches req w.db
    · obtain ⟨r, -, -, hredirect⟩ := hmeets.2 hmatch
      have hstatus := (respond_raised he).symm.trans hredirect.status
      cases e <;> cases hstatus
    · exact hmeets.1 hmatch e he
  refine ⟨⟨fun hmeets => ?_, ?_⟩, ?_, ?_⟩
  · cases hw : w.stale with
    | true => exact absurd hmeets (hthrows _ (validate_stale h hw))
    | false =>
      refine ⟨rfl, by_contra fun hno => ?_⟩
      obtain ⟨e, he⟩ := validate_throws h hw hno
      exact hthrows e he hmeets
  · rintro ⟨hw, hlogin, r, hr, hpass⟩
    have hmem : r ∈ usersWith w.db (req.svalue (lit "login")) := List.mem_of_mem_head? hr
    exact ⟨fun hno => absurd ⟨hlogin, r, hmem, hpass⟩ hno,
      fun _ => ⟨r, hmem, hpass, validate_redirects h hw hlogin hr hpass⟩⟩
  · exact fun hw hlogin hnone => respond_raised (validate_unknown h hw hlogin hnone)
  · exact fun r hw hlogin hr hpass => respond_raised (validate_wrong h hw hlogin hr hpass)

/-- The request for a login and a password. -/
def validating (login pass : Bytes) : Request :=
  .forUrl (lit "/login/validate") ((∅ : Varibles).insert (lit "login") [login] |>.insert
    (lit "pass") [pass])

/-- One user with a login and a password. -/
def member : Database :=
  { Database.empty with
    users := .single 1 ⟨.ofLiteral (lit "ann") rfl, .ofLiteral (lit "secret") rfl,
      .ofLiteral (lit "old") rfl, 0, 0⟩ }

theorem validates_member (login pass : Bytes) :
    Validates .plain (validating login pass) (.start member) where
  path := by
    rfl
  mode := by
    rintro (h | h) <;> cases h
  fresh := rfl
  letters _ := by
    have hletters : ∀ b ∈ lit "abcdefghijklmnopqrstuvwxy", 97 ≤ b ∧ b ≤ 122 := by decide +kernel
    exact ⟨nofun, hletters⟩
  saved r hr := by
    obtain rfl := List.mem_singleton.mp hr
    exact one_ne_zero

omit [Affinity] in
/-- With the password of the user the request is redirected. -/
theorem validate_member : ∃ _ : Affinity,
    Meets .plain (validating (lit "ann") (lit "secret")) (.start member) := by
  let _ : Affinity := integerAffinity
  refine ⟨integerAffinity, (validate_iff (validates_member _ _)).1.mpr ?_⟩
  exact ⟨rfl, rfl, _, rfl, rfl⟩

omit [Affinity] in
/-- A wrong password is answered with 500, and an unknown login with 404. -/
theorem validate_tells : ∃ _ : Affinity,
    Validates .plain (validating (lit "bob") (lit "x")) (.start member) ∧
    Validates .plain (validating (lit "ann") (lit "x")) (.start member) ∧
    ¬ Meets .plain (validating (lit "bob") (lit "x")) (.start member) ∧
    ¬ Meets .plain (validating (lit "ann") (lit "x")) (.start member) ∧
    (after (respond .plain (validating (lit "bob") (lit "x"))) (.start member)).rep.status =
      some .notFound ∧
    (after (respond .plain (validating (lit "ann") (lit "x"))) (.start member)).rep.status =
      some .internalServerError := by
  let _ : Affinity := integerAffinity
  have hbob : outcome (Login.handle .plain (validating (lit "bob") (lit "x"))) (.start member) =
      .error .notFound := rfl
  have hann : outcome (Login.handle .plain (validating (lit "ann") (lit "x"))) (.start member) =
      .error .runtimeError := rfl
  refine ⟨integerAffinity, validates_member _ _, validates_member _ _, ?_, ?_,
    respond_raised hbob, respond_raised hann⟩
  · refine fun hmeets => hmeets.1 ?_ _ hbob
    rintro ⟨-, r, hr, -⟩
    cases hr
  · refine fun hmeets => hmeets.1 ?_ _ hann
    rintro ⟨-, r, hr, hpass⟩
    obtain rfl := List.mem_singleton.mp hr
    exact absurd hpass (by decide)

end Handlers.Login
