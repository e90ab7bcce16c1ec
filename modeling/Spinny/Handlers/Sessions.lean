import Spinny.Ews.Cookies
import Spinny.Handlers.Footprints
import Spinny.Handlers.Validate

/-!
# Requests one after the other

The thread of the server completes one request after the other: `perform_final_decode` looks up the
ticket of its cookies, the handlers answer it with a reply of its own, and the tables, the instance
and the statement buffer are those that the requests before have left. An exception that leaves
`parse` ends the thread, and so does what is no exception in a handler.

* `serve`, `serveAll`: one request, and a run of requests.
* `EachServed`: what holds of every request of a run when it is answered.
* `serving_leaves_library`, `no_escalation`, `session_lasts`: what holds after every run.
-/

namespace Handlers

open Bytes Boost Spinny Sqlite Ews Proc

variable [Affinity]

/-- How the thread of the server can end. -/
inductive Down where
  /-- An exception leaves `parse`. -/
  | decoding (e : Raised)
  /-- A handler ends in no exception. -/
  | handling (r : Raise)

/-- A request as the parser has read it, with what it is answered in. -/
structure Arrival where
  env : Env
  req : Request
  fresh : req.Fresh

/-- `User::with_ticket` in a world. -/
def lookupIn (w : World) : TicketLookup := fun ticket =>
  match outcome (User.ofTicket ticket) w with
  | .ok user => .ok user
  | .error .notFound => .error .notFound
  | .error _ => .error .database

/-- `perform_final_decode`: the text of a lookup that is refused stays in the buffer. -/
def Arrival.identify (a : Arrival) : Proc World Down Request := do
  let w ← get
  let decode := performFinalDecode (lookupIn w)
  match outcome decode a.req with
  | .ok () => return after decode a.req
  | .error e =>
    if e = .database then modify fun w => { w with stale := true }
    throw (.decoding e)

/-- One request, with a reply of its own. -/
def serve (a : Arrival) : Proc World Down Unit := do
  modify fun w => { w with rep := .fresh }
  let req ← a.identify
  adapt Down.handling (respond a.env req)

/-- Requests in the order in which they are completed. -/
def serveAll (as : List Arrival) : Proc World Down Unit := as.forM serve

/-- Every request of a run that comes to be answered satisfies `P` in the world it meets. -/
def EachServed (P : World → Env → Request → Prop) : List Arrival → World → Prop
  | [], _ => True
  | a :: as, w => (∀ req, outcome a.identify { w with rep := .fresh } = .ok req → P w a.env req) ∧
      (outcome (serve a) w = .ok () → EachServed P as (after (serve a) w))

/-! ## Steps and runs -/

section

variable {w : World} {a : Arrival} {P : World → Env → Request → Prop} {I : World → Prop}

/-- Who a request is from is looked up, and nothing is changed but the buffer. -/
theorem after_identify (a : Arrival) (w : World) :
    after a.identify w = w ∨ after a.identify w = { w with stale := true } := by
  unfold Arrival.identify
  rw [after_bind_ok (outcome_get w), after_get]
  dsimp only
  split
  · exact .inl rfl
  · rename_i e _
    by_cases he : e = .database
    · rw [if_pos he]
      exact .inr rfl
    · rw [if_neg he]
      exact .inl rfl

theorem identify_ok {req : Request} (h : outcome a.identify w = .ok req) :
    outcome (performFinalDecode (lookupIn w)) a.req = .ok () ∧
      req = after (performFinalDecode (lookupIn w)) a.req ∧ after a.identify w = w := by
  unfold Arrival.identify at h ⊢
  rw [outcome_bind_ok (outcome_get w), after_get] at h
  rw [after_bind_ok (outcome_get w), after_get]
  cases ho : outcome (performFinalDecode (lookupIn w)) a.req with
  | ok u =>
    simp only [ho] at h ⊢
    exact ⟨trivial, (Except.ok.inj h).symm, rfl⟩
  | error e =>
    simp only [ho] at h
    split at h
    · cases h
    · cases h

/-- One request: nothing but the buffer is changed, or it is answered. -/
theorem after_serve (a : Arrival) (w : World) :
    (after (serve a) w).db = w.db ∨ ∃ req, outcome a.identify { w with rep := .fresh } = .ok req ∧
      after (serve a) w = after (respond a.env req) { w with rep := .fresh } := by
  unfold serve
  rw [after_bind_ok (outcome_modify _ w), after_modify]
  cases ho : outcome a.identify { w with rep := .fresh } with
  | ok req =>
    obtain ⟨-, -, hafter⟩ := identify_ok ho
    refine .inr ⟨req, rfl, ?_⟩
    rw [after_bind_ok ho, hafter, after_adapt]
  | error e =>
    rw [after_bind_error ho]
    rcases after_identify a { w with rep := .fresh } with h | h
    · exact .inl (by rw [h])
    · exact .inl (by rw [h])

/-- What every request keeps, a run keeps. -/
theorem serveAll_keeps {as : List Arrival} (hI : EachServed P as w) (hw : I w)
    (hdb : ∀ w w' : World, w'.db = w.db → I w → I w')
    (hstep : ∀ w env req, P w env req → I w → I (after (respond env req) { w with rep := .fresh })) :
    I (after (serveAll as) w) := by
  induction as generalizing w with
  | nil => exact hw
  | cons a as ih =>
    obtain ⟨hfirst, hrest⟩ := hI
    have hnext : I (after (serve a) w) := by
      rcases after_serve a w with h | ⟨req, hreq, h⟩
      · exact hdb w _ h hw
      · rw [h]
        exact hstep w a.env req (hfirst req hreq) hw
    change I (after (do serve a; serveAll as) w)
    cases ho : outcome (serve a) w with
    | ok u =>
      rw [after_bind_ok ho]
      exact ih (hrest ho) hnext
    | error e =>
      rw [after_bind_error ho]
      exact hnext

theorem eachServed_true (as : List Arrival) (w : World) :
    EachServed (fun _ _ _ => True) as w := by
  induction as generalizing w with
  | nil => trivial
  | cons a as ih => exact ⟨fun _ _ => trivial, fun _ => ih _⟩

end

/-! ## The library and the playlists -/

/-- No run of requests changes the songs, the artists, the albums, the directories and the
settings, and one without an url that begins with `pl` leaves the playlists as well. -/
theorem serving_leaves_library (as : List Arrival) (w : World) :
    libraryOf (after (serveAll as) w).db = libraryOf w.db ∧
      (EachServed (fun _ _ req => req.u1 ≠ lit "pl") as w →
        (after (serveAll as) w).db.playlists = w.db.playlists ∧
          (after (serveAll as) w).db.playlistSongs = w.db.playlistSongs) := by
  constructor
  · refine serveAll_keeps (I := fun w' => libraryOf w'.db = libraryOf w.db) (eachServed_true as w)
      rfl (fun _ _ hdb h => hdb ▸ h) fun w' env req _ h => ?_
    exact (@respond_library _ env req { w' with rep := .fresh }).trans h
  · intro hlists
    have hkept := serveAll_keeps
      (I := fun w' => (w'.db.playlists, w'.db.playlistSongs) = (w.db.playlists, w.db.playlistSongs))
      hlists rfl (fun _ _ hdb h => hdb ▸ h) fun w' env req hreq h =>
        (@respond_lists _ env req hreq { w' with rep := .fresh }).trans h
    exact ⟨congrArg Prod.fst hkept, congrArg Prod.snd hkept⟩

/-! ## The accounts -/

/-- A text that was read and written back, any number of times. -/
abbrev Resaved : Text → Text → Prop := Relation.ReflTransGen fun s t => t = s.resaved

theorem Resaved.eq {s t : Text} (h : Resaved s t) (hs : s.resaved = s) : t = s := by
  induction h with
  | refl => rfl
  | tail _ hstep ih => rw [hstep, ih, hs]

/-- One user before and after: its login and its password were written back at most. -/
structure SameAccount (r r' : Int × UserRow) : Prop where
  id : r'.1 = r.1
  login : Resaved r.2.login r'.2.login
  password : Resaved r.2.password r'.2.password
  role : r'.2.role = r.2.role

/-- There are the same users. -/
abbrev SameAccounts (t t' : Table UserRow) : Prop := List.Forall₂ SameAccount t.rows t'.rows

theorem SameAccount.refl (r : Int × UserRow) : SameAccount r r := ⟨rfl, .refl, .refl, rfl⟩

theorem SameAccount.trans {r r' r'' : Int × UserRow} (h : SameAccount r r')
    (h' : SameAccount r' r'') : SameAccount r r'' :=
  ⟨h'.id.trans h.id, h.login.trans h'.login, h.password.trans h'.password, h'.role.trans h.role⟩

theorem SameAccounts.refl (t : Table UserRow) : SameAccounts t t :=
  List.forall₂_same.mpr fun r _ => .refl r

theorem SameAccounts.trans {t t' t'' : Table UserRow} (h : SameAccounts t t')
    (h' : SameAccounts t' t'') : SameAccounts t t'' := by
  unfold SameAccounts at h h' ⊢
  generalize t.rows = l, t'.rows = l', t''.rows = l'' at h h' ⊢
  induction h generalizing l'' with
  | nil => exact h'
  | cons hr _ ih =>
    cases h' with
    | cons hr' hrest => exact .cons (hr.trans hr') (ih _ hrest)

theorem SameAccounts.updateWhere (t : Table UserRow) (p : Int → UserRow → Bool)
    {f : UserRow → UserRow} (hf : ∀ r : Int × UserRow, SameAccount r (r.1, f r.2)) :
    SameAccounts t (t.updateWhere p f) := by
  refine List.forall₂_map_right_iff.mpr (List.forall₂_same.mpr fun r _ => ?_)
  split
  · exact hf r
  · exact .refl r

/-- The request is not from an administrator. -/
def Unprivileged (req : Request) : Prop :=
  ∀ u, req.user = some u → u.hasAtLeast User.adminRole = false

/-- The user `id` has the ticket, and nobody else does. -/
structure Signed (t : Table UserRow) (id : Int) (login : Text) (ticket : Bytes) : Prop where
  held : ∃ row, (id, row) ∈ t.rows ∧ row.login = login ∧ row.ticket.cell = .text ticket
  only : ∀ r ∈ t.rows, r.2.ticket.cell = .text ticket → r.1 = id

/-- The request logs nobody in who has the login, and no ticket that is drawn for it is the
ticket. -/
structure Harmless (login : Text) (ticket : Bytes) (env : Env) (req : Request) : Prop where
  unprivileged : Unprivileged req
  other : req.u2 = lit "validate" → store (req.svalue (lit "login")) ≠ login.cell
  drawn : ∀ n, env.ticketLetters n ≠ ticket

section

variable {env : Env} {req : Request} {t t' : Table UserRow} {id : Int} {login : Text}
  {ticket : Bytes}

/-- A change of one row that leaves its ticket, or of another row that does not get the ticket. -/
theorem Signed.updateWhere (h : Signed t id login ticket) {x : Int} {f : UserRow → UserRow}
    (hf : (∀ r, (f r).login = r.login ∧ (f r).ticket = r.ticket) ∨
      x ≠ id ∧ ∀ r, (f r).ticket.cell ≠ .text ticket) :
    Signed (t.updateWhere (fun i _ => i == x) f) id login ticket := by
  constructor
  · obtain ⟨row, hrow, hl, ht⟩ := h.held
    by_cases hx : id = x
    · have hkept : ∀ r, (f r).login = r.login ∧ (f r).ticket = r.ticket := by
        rcases hf with hkept | ⟨hne, -⟩
        · exact hkept
        · exact absurd hx.symm hne
      refine ⟨f row, Table.mem_rows_updateWhere.mpr ⟨_, hrow, ?_⟩, (hkept row).1.trans hl, ?_⟩
      · rw [if_pos (by simp [hx])]
      · rw [(hkept row).2, ht]
    · refine ⟨row, Table.mem_rows_updateWhere.mpr ⟨_, hrow, ?_⟩, hl, ht⟩
      rw [if_neg (by simpa using hx)]
  · intro r hr ht
    obtain ⟨q, hq, rfl⟩ := Table.mem_rows_updateWhere.mp hr
    split at ht
    · rename_i hx
      rw [if_pos hx]
      rcases hf with hkept | ⟨-, hne⟩
      · exact h.only q hq (by rw [← ht, (hkept q.2).2])
      · exact absurd ht (hne q.2)
    · rename_i hx
      rw [if_neg hx]
      exact h.only q hq ht

theorem Signed.step (h : Signed t id login ticket) (hreq : Harmless login ticket env req)
    (hstep : UserStep env req t t') : Signed t' id login ticket := by
  cases hstep with
  | @login x row n hn hval hrow hlogin hpass =>
    refine h.updateWhere (.inr ⟨?_, fun _ hticket => hreq.drawn n (eq_of_store_eq_text hticket)⟩)
    rintro rfl
    obtain ⟨row', hrow', hl, -⟩ := h.held
    refine hreq.other hval ?_
    have hlookup := Table.lookup_eq_some.mpr hrow
    rw [Table.lookup_eq_some.mpr hrow'] at hlookup
    rw [← hlogin, ← hl, Option.some.inj hlookup]
  | greet => exact h.updateWhere (.inl fun _ => ⟨rfl, rfl⟩)

theorem Signed.steps (h : Signed t id login ticket) (hreq : Harmless login ticket env req)
    (hsteps : UserSteps env req t t') : Signed t' id login ticket := by
  induction hsteps with
  | refl => exact h
  | tail _ hstep ih => exact ih.step hreq hstep

/-- A session outlasts every run of harmless requests. -/
theorem Signed.run {w : World} (h : Signed w.db.users id login ticket)
    (hw : Numbered w.db.users) {as : List Arrival}
    (has : EachServed (fun _ => Harmless login ticket) as w) :
    Signed (after (serveAll as) w).db.users id login ticket := by
  refine (serveAll_keeps (I := fun w' => Numbered w'.db.users ∧
    Signed w'.db.users id login ticket) has ⟨hw, h⟩ (fun _ _ hdb h => hdb ▸ h) ?_).2
  intro w' env req hreq ⟨hnum, hsigned⟩
  have hsteps := @respond_visits _ env req hreq.unprivileged { w' with rep := .fresh } hnum
  exact ⟨hnum.of_rowids hsteps.rowids, hsigned.steps hreq hsteps⟩

/-- A lookup of the ticket that is not refused finds the user. -/
theorem Signed.lookup {w : World} (h : Signed w.db.users id login ticket)
    (hstore : store ticket = .text ticket) (hn : nulFree ticket = true) :
    (∃ e, lookupIn w ticket = .error e ∧ e ≠ .notFound ∧ w.stale = true) ∨
      ∃ row, (id, row) ∈ w.db.users.rows ∧ row.login = login ∧
        lookupIn w ticket = .ok (User.ofRow id row) := by
  obtain ⟨row, hrow, hl, ht⟩ := h.held
  have hfound : (id, row) ∈ w.db.users.select fun _ u => u.ticket.eqLiteral ticket :=
    Table.mem_select.mpr ⟨hrow, by simp [Text.eqLiteral, ht, hstore]⟩
  unfold lookupIn
  rw [User.ofTicket, User.loadWhere, outcome_loadOne]
  split_ifs with hrefused
  · refine .inl ⟨_, rfl, ?_, by simpa [hn] using hrefused⟩
    intro hnone
    cases hnone
  · right
    cases hrows : w.db.users.select fun _ u => u.ticket.eqLiteral ticket with
    | nil =>
      rw [hrows] at hfound
      cases hfound
    | cons r rs =>
      have hmem : r ∈ w.db.users.select fun _ u => u.ticket.eqLiteral ticket := by
        rw [hrows]
        exact List.mem_cons_self
      obtain ⟨hr, hticket⟩ := Table.mem_select.mp hmem
      have hid : r.1 = id := h.only r hr (by simpa [Text.eqLiteral, hstore] using hticket)
      have hlookup := Table.lookup_eq_some.mpr (hid ▸ hr : (id, r.2) ∈ w.db.users.rows)
      rw [Table.lookup_eq_some.mpr hrow] at hlookup
      refine ⟨row, hrow, hl, ?_⟩
      rw [Option.some.inj hlookup, ← hid]
      rfl

end

/-- The request has the ticket as its only cookie and no parameter of that name. -/
structure Carries (req : Request) (ticket : Bytes) : Prop where
  cookies : req.cookies = decodeStr (cookieHeader [] ticket [])
  noParam : ∀ e ∈ formPairs req.uri ++ formPairs req.body, e.1 ≠ lit "Ticket"

omit [Affinity] in
theorem lettered_nulFree {ticket : Bytes} (h : Lettered ticket) : nulFree ticket = true := by
  rw [nulFree_iff]
  intro h0
  exact absurd (h.2 0 h0).1 (by decide)

omit [Affinity] in
/-- Its ticket is looked up. -/
theorem Carries.ticket_eq {req : Request} {ticket : Bytes} (h : Carries req ticket) (hf : req.Fresh)
    (ht : Lettered ticket) :
    req.cookies ≠ [] ∧ givesUp req.cookies = false ∧ req.ticket = ticket := by
  have hplain : plain (lit "Ticket" ++ 61 :: ticket) = true := by
    rw [plain_append, Bool.and_eq_true]
    exact ⟨by decide, ht.plain⟩
  have hcookies : req.cookies = lit "Ticket" ++ 61 :: ticket :=
    h.cookies.trans (decodeStr_of_plain hplain)
  have hname : ∀ b ∈ lit "Ticket", nameByte b = true := by decide +kernel
  have hmatches : formMatches req.cookies = ([(lit "Ticket", ticket)], false) := by
    rw [hcookies]
    exact formMatches_single hname ht.plain
  have hvalues : valuesOf (lit "Ticket") (formPairs req.cookies) = [ticket] := by
    rw [formPairs, hmatches]
    simp [valuesOf, decodeStr_of_plain ht.plain,
      decodeStr_of_plain (by decide : plain (lit "Ticket") = true)]
  refine ⟨?_, by rw [givesUp, hmatches], ?_⟩
  · rw [hcookies]
    exact List.append_ne_nil_of_right_ne_nil _ (List.cons_ne_nil _ _)
  · rw [ticket_of_no_params hf h.noParam, hvalues]
    rfl

/-- A request with the ticket that comes to be answered is from the user, and it does come to be
answered where its url and its body can be read and the buffer holds no refused text. -/
theorem Signed.identified {w : World} {id : Int} {login : Text} {ticket : Bytes}
    (h : Signed w.db.users id login ticket) (ht : Lettered ticket) {b : Arrival}
    (hb : Carries b.req ticket) :
    (∀ req, outcome b.identify w = .ok req → ∃ row, (id, row) ∈ w.db.users.rows ∧
      row.login = login ∧ req.user = some (User.ofRow id row)) ∧
    (w.stale = false → givesUp b.req.uri = false → givesUp b.req.body = false →
      ∃ req, outcome b.identify w = .ok req) := by
  obtain ⟨hcookies, hgives, hticket⟩ := hb.ticket_eq b.fresh ht
  have hstore : store ticket = .text ticket := by simpa using ht.store_append []
  have hlookup := h.lookup hstore (lettered_nulFree ht)
  constructor
  · intro req hreq
    obtain ⟨hdecode, rfl, -⟩ := identify_ok hreq
    have huser := user_of_completes b.fresh hdecode
    rw [hticket, if_neg (by simp [hcookies, ht.1])] at huser
    rcases hlookup with ⟨e, he, hne, -⟩ | ⟨row, hrow, hl, hfound⟩
    · -- a refused lookup leaves `parse`
      rw [decode_ok_iff] at hdecode
      refine absurd (.inr (.inr ⟨hcookies, .inr ⟨?_, ?_⟩⟩)) hdecode
      · rw [hticket]
        exact ht.1
      · rw [hticket]
        exact ⟨e, he, hne⟩
    · refine ⟨row, hrow, hl, ?_⟩
      rw [huser, foundUser, hfound]
  · intro hw huri hbody
    have hdecode : outcome (performFinalDecode (lookupIn w)) b.req = .ok () := by
      rw [decode_ok_iff]
      rintro (hu | hu | ⟨-, hu | ⟨-, e, he, hne⟩⟩)
      · rw [huri] at hu
        cases hu
      · rw [hbody] at hu
        cases hu
      · rw [hgives] at hu
        cases hu
      · rw [hticket] at he
        rcases hlookup with ⟨-, -, -, hstale⟩ | ⟨row, -, -, hfound⟩
        · rw [hw] at hstale
          cases hstale
        · rw [hfound] at he
          cases he
    refine ⟨after (performFinalDecode (lookupIn w)) b.req, ?_⟩
    unfold Arrival.identify
    rw [outcome_bind_ok (outcome_get w), after_get]
    simp only [hdecode]
    rfl

open Login in
/-- A login gives its user a ticket that nobody else has. -/
theorem signed_login {env : Env} {req : Request} {w : World} (h : Validates env req w)
    (hw : w.stale = false) {r : Int × UserRow} (hlogin : nulFree (req.svalue (lit "login")) = true)
    (hr : (usersWith w.db (req.svalue (lit "login"))).head? = some r)
    (hpass : r.2.password.val = req.svalue (lit "pass"))
    (hnew : ∀ q ∈ w.db.users.rows, q.2.ticket.val ≠ env.ticketLetters w.readings) :
    Signed (after (respond env req) w).db.users r.1 r.2.login.resaved
        (env.ticketLetters w.readings) ∧
      Numbered (after (respond env req) w).db.users := by
  obtain ⟨row, hrow, hticket⟩ := toRow_renewed r (h.letters w.readings)
  have hkept : row.login = r.2.login.resaved := by
    unfold User.toRow at hrow
    split at hrow
    · rw [← Option.some.inj hrow]
      rfl
    · cases hrow
  have hhandle := validate_right h hw hlogin hr hpass hrow
  have htry := @tryHandler_returns _ env req w login _
    ⟨outcome_run_ok hhandle.outcome, hhandle.after⟩
  have hall := respond_welcome htry hw rfl
  obtain ⟨rs, hrs⟩ := List.head?_eq_some_iff.mp hr
  have hmem : r ∈ w.db.users.rows := by
    have : r ∈ usersWith w.db (req.svalue (lit "login")) := by
      rw [hrs]
      exact List.mem_cons_self
    exact (Table.mem_select.mp this).1
  have hsigned : Signed (w.db.users.updateWhere (fun id _ => id == r.1) fun _ => row) r.1
      r.2.login.resaved (env.ticketLetters w.readings) := by
    constructor
    · exact ⟨row, Table.mem_rows_updateWhere.mpr ⟨r, hmem, by rw [if_pos (by simp)]⟩, hkept,
        hticket⟩
    · intro q hq ht
      obtain ⟨p, hp, rfl⟩ := Table.mem_rows_updateWhere.mp hq
      split at ht
      · rename_i hid
        rw [if_pos hid]
        simpa using hid
      · exact absurd (congrArg Cell.print ht) (hnew p hp)
  rw [hall.after]
  constructor
  · exact hsigned.updateWhere (x := r.1)
      (f := fun row => { row with lastVisit := env.clock (w.readings + 1) })
      (.inl fun _ => ⟨rfl, rfl⟩)
  · have hsaved : Numbered w.db.users := h.saved
    exact hsaved.of_rowids ((Table.rowids_updateWhere _ _ _).trans (Table.rowids_updateWhere _ _ _))

open Login in
/-- The reply to a login sets a cookie. Whatever harmless requests follow it, a request that brings
this cookie back is answered as one of the user who logged in, unless the lookup of the ticket is
refused for a text in the buffer. -/
theorem session_lasts {env : Env} {req : Request} {w : World} (h : Validates env req w)
    (hw : w.stale = false) {r : Int × UserRow} (hlogin : nulFree (req.svalue (lit "login")) = true)
    (hr : (usersWith w.db (req.svalue (lit "login"))).head? = some r)
    (hpass : r.2.password.val = req.svalue (lit "pass"))
    (hnew : ∀ q ∈ w.db.users.rows, q.2.ticket.val ≠ env.ticketLetters w.readings) :
    (after (respond env req) w).rep.headers[lit "Set-Cookie"]? =
        some (ticketCookie (env.ticketLetters w.readings)) ∧
      ∀ as : List Arrival,
        EachServed (fun _ => Harmless r.2.login.resaved (env.ticketLetters w.readings)) as
          (after (respond env req) w) →
        ∀ b : Arrival, Carries b.req (env.ticketLetters w.readings) →
          let w' := after (serveAll as) (after (respond env req) w)
          (∀ req', outcome b.identify w' = .ok req' → ∃ row, (r.1, row) ∈ w'.db.users.rows ∧
            row.login = r.2.login.resaved ∧ req'.user = some (User.ofRow r.1 row)) ∧
          (w'.stale = false → givesUp b.req.uri = false → givesUp b.req.body = false →
            ∃ req', outcome b.identify w' = .ok req') := by
  refine ⟨(validate_redirects h hw hlogin hr hpass).cookie, fun as has b hb => ?_⟩
  obtain ⟨hsigned, hnum⟩ := signed_login h hw hlogin hr hpass hnew
  have hletters : Lettered (env.ticketLetters w.readings) := by
    refine ⟨(h.letters _).1, fun b hb => ?_⟩
    obtain ⟨h₁, h₂⟩ := (h.letters _).2 b hb
    exact ⟨UInt8.le_iff_toNat_le.mp h₁, UInt8.le_iff_toNat_le.mp h₂⟩
  exact (hsigned.run hnum has).identified hletters hb

/-! ## Witnesses -/

/-- A request for `/` with a ticket as its only cookie. -/
def ticketRequest (ticket : Bytes) : Request :=
  cookieRequest (lit "/") (decodeStr (cookieHeader [] ticket []))

omit [Affinity] in
theorem carries_ticketRequest (ticket : Bytes) : Carries (ticketRequest ticket) ticket where
  cookies := cookies_cookieRequest _ _
  noParam := by
    have h : formPairs (lit "/") ++ formPairs [] = [] := by decide
    change ∀ e ∈ formPairs (lit "/") ++ formPairs [], e.1 ≠ lit "Ticket"
    rw [h]
    exact fun _ he => nomatch he

/-- The arrival of a request for `/` with a ticket. -/
def returning (ticket : Bytes) : Arrival :=
  ⟨.plain, ticketRequest ticket, fresh_cookieRequest _ _⟩

omit [Affinity] in
/-- The only user logs in and comes back. -/
theorem session_member : ∃ _ : Affinity,
    let w := after (respond .plain (Login.validating (lit "ann") (lit "secret")))
      (.start Login.member)
    w.rep.headers[lit "Set-Cookie"]? =
        some (ticketCookie (lit "abcdefghijklmnopqrstuvwxy")) ∧
      ∀ req, outcome (returning (lit "abcdefghijklmnopqrstuvwxy")).identify w = .ok req →
        ∃ u, req.user = some u ∧ u.dbId = 1 := by
  let _ : Affinity := integerAffinity
  have hletters : Env.plain.ticketLetters (World.start Login.member).readings =
    lit "abcdefghijklmnopqrstuvwxy" := rfl
  obtain ⟨hcookie, hlasts⟩ := session_lasts (Login.validates_member (lit "ann") (lit "secret")) rfl
    rfl rfl rfl (r := (1, ⟨.ofLiteral (lit "ann") rfl, .ofLiteral (lit "secret") rfl,
      .ofLiteral (lit "old") rfl, 0, 0⟩)) (by
      intro q hq
      obtain rfl := List.mem_singleton.mp hq
      decide)
  refine ⟨integerAffinity, hcookie, fun req hreq => ?_⟩
  obtain ⟨row, -, -, huser⟩ :=
    (hlasts [] trivial (returning (lit "abcdefghijklmnopqrstuvwxy")) (carries_ticketRequest _)).1
      req hreq
  exact ⟨_, huser, rfl⟩

end Handlers
