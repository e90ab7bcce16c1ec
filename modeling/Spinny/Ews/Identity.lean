import Spinny.Ews.Decode
import Spinny.Accounts

/-!
# Who a request is from

The pairs of the uri, of the body and of the cookies all go into one map, and the first value of
`Ticket` in it is looked up.

* `Request.pairs`: these pairs in their order; `Request.tickets`: the values of `Ticket`.
* `user_of_completes`: the user of a completed request is the one of the first ticket.
* `sameUser_iff`: when two requests with the same cookies get the same user from every table.
-/

namespace Ews

open Bytes Boost Sqlite Spinny Proc

/-- The decoded pairs that `parse_form_elements` finds in a text. -/
def formPairs (str : Bytes) : List (Bytes × Bytes) :=
  (formMatches str).1.map fun e => (decodeStr e.1, decodeStr e.2)

/-- The pairs of a request, in the order they are pushed. -/
def Request.pairs (req : Request) : List (Bytes × Bytes) :=
  formPairs req.uri ++ formPairs req.body ++ formPairs req.cookies

/-- The values of a name. -/
def valuesOf (name : Bytes) (es : List (Bytes × Bytes)) : List Bytes :=
  (es.filter fun e => e.1 == name).map (·.2)

/-- The values of `Ticket` in the pairs of a request. -/
def Request.tickets (req : Request) : List Bytes := valuesOf (lit "Ticket") req.pairs

/-- A request as the parser has read it, before `perform_final_decode`. -/
structure Request.Fresh (req : Request) : Prop where
  user : req.user = none
  varibles : req.varibles = ∅

/-! ## The variables -/

theorem getElem?_push (m : Varibles) (name value n : Bytes) :
    (m.push name value)[n]?.getD [] =
      m[n]?.getD [] ++ if name = n then [value] else [] := by
  unfold Varibles.push
  rw [Std.ExtTreeMap.getElem?_insert]
  by_cases h : name = n
  · subst h
    simp
  · simp [h]

theorem getElem?_pushAll (m : Varibles) (es : List (Bytes × Bytes)) (n : Bytes) :
    (es.foldl (fun m e => m.push e.1 e.2) m)[n]?.getD [] = m[n]?.getD [] ++ valuesOf n es := by
  induction es generalizing m with
  | nil => simp [valuesOf]
  | cons e es ih =>
    rw [List.foldl_cons, ih, getElem?_push, List.append_assoc]
    by_cases h : e.1 = n
    · simp [valuesOf, h]
    · simp [valuesOf, h]

theorem addForm_eq (m : Varibles) (str : Bytes) :
    m.addForm str = (formPairs str).foldl (fun m e => m.push e.1 e.2) m := by
  rw [Varibles.addForm, formPairs, List.foldl_map]

/-- The ticket that is looked up is the first one. -/
theorem Request.Fresh.ticket_eq {req : Request} (h : req.Fresh) :
    req.ticket = req.tickets.head?.getD [] := by
  simp only [Request.ticket, Request.svalue, Request.withForms, addForm_eq, ← List.foldl_append,
    getElem?_pushAll, h.varibles]
  simp [Request.tickets, Request.pairs]

/-! ## The user of a request -/

/-- The user that the lookup of a ticket leaves. -/
def foundUser (withTicket : TicketLookup) (ticket : Bytes) : Option User :=
  match withTicket ticket with
  | .ok u => some u
  | .error _ => none

theorem user_setElements (req : Request) (es : List Bytes) :
    (req.setElements es).user = req.user := by
  simp only [Request.setElements]

/-- The user of a completed request: nobody without cookies or without a ticket, else the user of
the first ticket. -/
theorem user_of_completes {withTicket : TicketLookup} {req : Request} (hf : req.Fresh)
    (h : outcome (performFinalDecode withTicket) req = .ok ()) :
    (after (performFinalDecode withTicket) req).user =
      if req.cookies = [] ∨ req.ticket = [] then none else foundUser withTicket req.ticket := by
  rw [decode_ok_iff] at h
  simp only [DecodeFails, not_or, not_and, Bool.not_eq_true] at h
  obtain ⟨hu, hb, hc⟩ := h
  have hform : ∀ (str : Bytes) (req : Request), givesUp str = false →
      outcome (parseFormElements str) req = .ok () := fun str req h => by
    rw [outcome_parseFormElements, h, if_neg (by simp)]
  rw [performFinalDecode, after_bind_ok (outcome_modify _ _), after_modify,
    after_bind_ok (outcome_get _), after_get, after_bind_ok (hform _ _ hu),
    after_parseFormElements, after_bind_ok (outcome_get _), after_get,
    after_bind_ok (hform _ _ hb), after_parseFormElements, after_bind_ok (outcome_get _), after_get]
  set forms : Request :=
    { req with
      url := (decodeStr req.uri).takeWhile (· ≠ 63)
      varibles := (req.varibles.addForm req.uri).addForm req.body } with hforms
  have hcookies : forms.cookies = req.cookies := rfl
  have huser : forms.user = none := hf.user
  have hlast : ∀ r : Request, (after (modify fun req => req.setElements (splitSlash req.url) :
      Proc Request Raised Unit) r).user = r.user := fun r => by rw [after_modify, user_setElements]
  by_cases hempty : req.cookies = []
  · have hdec : outcome (decodeCookies withTicket forms.cookies) forms = .ok () ∧
        after (decodeCookies withTicket forms.cookies) forms = forms := by
      rw [hcookies, decodeCookies, if_pos hempty]
      exact ⟨rfl, rfl⟩
    rw [after_bind_ok hdec.1, hdec.2, if_pos (.inl hempty)]
    exact (hlast forms).trans huser
  · obtain ⟨hg, hraise⟩ := hc hempty
    set full : Request := { forms with varibles := forms.varibles.addForm forms.cookies } with hfull
    have hticket : full.svalue (lit "Ticket") = req.ticket := rfl
    have hsplit : outcome (decodeCookies withTicket forms.cookies) forms =
          outcome (if req.ticket ≠ [] then lookUpTicket withTicket req.ticket else pure ()) full ∧
        after (decodeCookies withTicket forms.cookies) forms =
          after (if req.ticket ≠ [] then lookUpTicket withTicket req.ticket else pure ()) full := by
      rw [decodeCookies, if_neg (hcookies ▸ hempty), outcome_bind_ok (hform _ _ (hcookies ▸ hg)),
        after_bind_ok (hform _ _ (hcookies ▸ hg)), after_parseFormElements,
        outcome_bind_ok (outcome_get _), after_bind_ok (outcome_get _), after_get]
      exact ⟨rfl, rfl⟩
    by_cases ht : req.ticket = []
    · rw [if_neg (not_not.mpr ht)] at hsplit
      rw [after_bind_ok hsplit.1, hsplit.2, if_pos (.inr ht)]
      exact (hlast full).trans huser
    · rw [if_pos ht] at hsplit
      have hok : outcome (lookUpTicket withTicket req.ticket) full = .ok () :=
        (lookUpTicket_ok_iff _ _).mpr (hraise ht)
      have hfound : (after (lookUpTicket withTicket req.ticket) full).user =
          foundUser withTicket req.ticket := by
        unfold lookUpTicket foundUser at *
        cases withTicket req.ticket with
        | ok u => rfl
        | error e => cases e <;> exact huser
      rw [after_bind_ok (hsplit.1.trans hok), hsplit.2, if_neg (by simp [hempty, ht])]
      exact (hlast _).trans hfound

variable [Affinity]

/-- `User::with_ticket` on the table `users`, on a connection with nothing streamed before. -/
def ticketLookup (users : Table UserRow) : TicketLookup := fun ticket =>
  if nulFree ticket then
    match users.select fun _ u => u.ticket.eqLiteral ticket with
    | r :: _ => .ok (User.ofRow r.1 r.2)
    | [] => .error .notFound
  else .error .database

/-- The request is completed, whatever users there are. -/
def Completes (req : Request) : Prop :=
  ∀ users, outcome (performFinalDecode (ticketLookup users)) req = .ok ()

/-- Both requests get the same user from every table of users. -/
def SameUser (req req' : Request) : Prop :=
  ∀ users, (after (performFinalDecode (ticketLookup users)) req).user =
    (after (performFinalDecode (ticketLookup users)) req').user

/-- Both lists begin with the same ticket, as the column `ticket` compares them, or with none. -/
def SameTicket (ts ts' : List Bytes) : Prop :=
  (ts.head?.getD [] = [] ↔ ts'.head?.getD [] = []) ∧
    store (ts.head?.getD []) = store (ts'.head?.getD [])

theorem foundUser_eq (users : Table UserRow) (ticket : Bytes) :
    foundUser (ticketLookup users) ticket =
      if nulFree ticket then
        ((users.select fun _ u => u.ticket.cell == store ticket).head?).map fun r =>
          User.ofRow r.1 r.2
      else none := by
  simp only [foundUser, ticketLookup, Text.eqLiteral]
  split
  · rename_i u h
    split at h
    · rename_i hn
      rw [if_pos hn]
      split at h
      · rename_i r rs hr
        rw [hr]
        simpa using h.symm
      · cases h
    · cases h
  · rename_i e h
    split at h
    · rename_i hn
      rw [if_pos hn]
      split at h
      · cases h
      · rename_i hr
        rw [hr]
        rfl
    · rename_i hn
      rw [if_neg hn]

/-- A completed request with a ticket has one without a NUL. -/
theorem nulFree_of_completes {req : Request} (h : Completes req) (hc : req.cookies ≠ []) :
    nulFree req.ticket = true := by
  have hok := (decode_ok_iff req).mp (h Table.empty)
  by_contra hn
  rw [Bool.not_eq_true] at hn
  have hne : req.ticket ≠ [] := by
    intro he
    rw [he] at hn
    cases hn
  refine hok (.inr (.inr ⟨hc, .inr ⟨hne, .database, ?_, by simp⟩⟩))
  simp [ticketLookup, hn]

/-- A table with one user, who has this ticket. -/
def oneUser (ticket : Bytes) (h : nulFree ticket = true) : Table UserRow :=
  .single 1 ⟨.empty, .empty, .ofLiteral ticket h, 0, 0⟩

theorem foundUser_oneUser {t s : Bytes} (ht : nulFree t = true) (hs : nulFree s = true) :
    (foundUser (ticketLookup (oneUser t ht)) s).isSome = true ↔ store t = store s := by
  rw [foundUser_eq, if_pos hs]
  simp only [oneUser, Table.select, Table.rows_single, Text.ofLiteral]
  by_cases h : store t = store s
  · simp [h]
  · simp [h]

/-- What a completed request with cookies gets from a table with one user. -/
theorem sameTicket_of_sameUser {t t' : Bytes} (ht : nulFree t = true) (ht' : nulFree t' = true)
    (h : ∀ users, (if t = [] then none else foundUser (ticketLookup users) t) =
      if t' = [] then none else foundUser (ticketLookup users) t') :
    (t = [] ↔ t' = []) ∧ store t = store t' := by
  by_cases he : t = []
  · by_cases he' : t' = []
    · rw [he, he']
      exact ⟨Iff.rfl, rfl⟩
    · have hu := h (oneUser t' ht')
      have hsome := (foundUser_oneUser ht' ht').mpr rfl
      rw [if_pos he, if_neg he'] at hu
      rw [← hu] at hsome
      cases hsome
  · have hu := h (oneUser t ht)
    have hsome := (foundUser_oneUser ht ht).mpr rfl
    rw [if_neg he] at hu
    rw [hu] at hsome
    split at hsome
    · cases hsome
    · rename_i he'
      exact ⟨iff_of_false he he', (foundUser_oneUser ht ht').mp hsome⟩

theorem sameTicket_of_same {req req' : Request} (hf : req.Fresh) (hf' : req'.Fresh)
    (hc : req.cookies = req'.cookies) (h : Completes req) (h' : Completes req')
    (hs : SameUser req req') : req.cookies = [] ∨ SameTicket req.tickets req'.tickets := by
  by_cases hempty : req.cookies = []
  · exact .inl hempty
  · simp only [SameUser, user_of_completes hf (h _), user_of_completes hf' (h' _), ← hc, hempty,
      false_or] at hs
    refine .inr ?_
    rw [SameTicket, ← hf.ticket_eq, ← hf'.ticket_eq]
    exact sameTicket_of_sameUser (nulFree_of_completes h hempty)
      (nulFree_of_completes h' (hc ▸ hempty)) hs

/-- **Two requests with the same cookies**: every table gives them the same user exactly if there
are no cookies, or the first tickets of their uris, bodies and cookies agree. -/
theorem sameUser_iff {req req' : Request} (hf : req.Fresh) (hf' : req'.Fresh)
    (hc : req.cookies = req'.cookies) (h : Completes req) (h' : Completes req') :
    SameUser req req' ↔ req.cookies = [] ∨ SameTicket req.tickets req'.tickets := by
  refine ⟨sameTicket_of_same hf hf' hc h h', fun hsame users => ?_⟩
  rw [user_of_completes hf (h _), user_of_completes hf' (h' _), ← hc]
  rcases hsame with hempty | ⟨hiff, heq⟩
  · rw [if_pos (.inl hempty), if_pos (.inl hempty)]
  · rw [← hf.ticket_eq, ← hf'.ticket_eq] at hiff heq
    by_cases hempty : req.cookies = []
    · rw [if_pos (.inl hempty), if_pos (.inl hempty)]
    · have ht := nulFree_of_completes h hempty
      have ht' := nulFree_of_completes h' (hc ▸ hempty)
      simp only [foundUser_eq, ht, ht', if_true, hiff, heq]

omit [Affinity] in
/-- Parameters of other names leave the ticket to the cookies. -/
theorem tickets_of_no_params {req : Request}
    (h : ∀ e ∈ formPairs req.uri ++ formPairs req.body, e.1 ≠ lit "Ticket") :
    req.tickets = valuesOf (lit "Ticket") (formPairs req.cookies) := by
  have hnil : (formPairs req.uri ++ formPairs req.body).filter (fun e => e.1 == lit "Ticket") = [] :=
    List.filter_eq_nil_iff.mpr fun e he => by simpa using h e he
  rw [Request.tickets, Request.pairs, valuesOf, List.filter_append, hnil, List.nil_append, valuesOf]

/-! ## The requests of the parser -/

omit [Affinity] in
theorem Request.Fresh.consume {p : Parser} (b : UInt8) (h : p.req.Fresh) :
    (consume p b).1.req.Fresh := by
  obtain ⟨st, req⟩ := p
  obtain ⟨hu, hv⟩ := h
  cases st
  case expectingNewline3 =>
    simp only [Ews.consume, finishHeaders]
    split
    · split
      · exact ⟨hu, hv⟩
      · split_ifs <;> exact ⟨hu, hv⟩
    · exact ⟨hu, hv⟩
  all_goals
    simp only [Ews.consume]
    split_ifs <;> exact ⟨hu, hv⟩

omit [Affinity] in
/-- A request that the parser accepts was read afresh and then completed. -/
theorem decoded_of_accepted {withTicket : TicketLookup} {s rest : Bytes} {t : Parser}
    (h : (requestParser withTicket).Stops .fresh s .accepted t rest) :
    ∃ req : Request, req.Fresh ∧ outcome (performFinalDecode withTicket) req = .ok () ∧
      t.req = after (performFinalDecode withTicket) req := by
  obtain ⟨pre, b, p, -, hg, hb⟩ := h.split
  have hfresh : p.req.Fresh := by
    refine hg.inv (I := fun p => p.req.Fresh) (fun p b q hp hq => ?_) ⟨rfl, rfl⟩
    have := hp.consume b
    rwa [consume_of_go hq] at this
  obtain ⟨p', hp', -⟩ := consume_of_accept hb
  have hfresh' : p'.req.Fresh := by
    have := hfresh.consume b
    rwa [hp'] at this
  simp only [requestParser, parseByte, hp', Prod.mk.injEq] at hb
  obtain ⟨rfl, hr⟩ := hb
  refine ⟨p'.req, hfresh', ?_, rfl⟩
  cases ho : outcome (performFinalDecode withTicket) p'.req with
  | ok _ => rfl
  | error e => simp [ho] at hr

/-! ## A parameter named `Ticket` -/

/-- A request for `uri` with a `Cookie` header. -/
def cookieRequest (uri cookie : Bytes) : Request :=
  { Request.fresh with uri, headers := (∅ : Headers).insert (lit "COOKIE") cookie }

omit [Affinity] in
theorem cookies_cookieRequest (uri cookie : Bytes) : (cookieRequest uri cookie).cookies = cookie := by
  simp [cookieRequest, Request.cookies, Request.getHeaderString]

omit [Affinity] in
theorem fresh_cookieRequest (uri cookie : Bytes) : (cookieRequest uri cookie).Fresh := ⟨rfl, rfl⟩

theorem completes_of {req : Request} (hu : givesUp req.uri = false) (hb : givesUp req.body = false)
    (hc : givesUp req.cookies = false) (hn : nulFree req.ticket = true) : Completes req := by
  intro users
  rw [decode_ok_iff]
  rintro (h | h | ⟨-, h | ⟨-, e, he, hne⟩⟩)
  · rw [hu] at h
    cases h
  · rw [hb] at h
    cases h
  · rw [hc] at h
    cases h
  · rw [ticketLookup, if_pos hn] at he
    split at he
    · cases he
    · cases he
      exact hne rfl

omit [Affinity] in
theorem tickets_cookieRequest (uri cookie : Bytes) :
    (cookieRequest uri cookie).tickets =
      valuesOf (lit "Ticket") (formPairs uri ++ formPairs cookie) := by
  rw [Request.tickets, Request.pairs, cookies_cookieRequest]
  have hbody : formPairs (cookieRequest uri cookie).body = [] := rfl
  rw [hbody, List.append_nil]
  rfl

theorem completes_cookieRequest {uri cookie : Bytes} (hu : uri.length ≤ 1000)
    (hc : cookie.length ≤ 1000)
    (hn : nulFree ((valuesOf (lit "Ticket") (formPairs uri ++ formPairs cookie)).head?.getD []) =
      true) : Completes (cookieRequest uri cookie) := by
  refine completes_of (givesUp_of_short hu) (givesUp_of_short (Nat.zero_le _)) ?_ ?_
  · rw [cookies_cookieRequest]
    exact givesUp_of_short hc
  · rw [(fresh_cookieRequest uri cookie).ticket_eq, tickets_cookieRequest]
    exact hn

omit [Affinity] in
/-- A query of another name does not matter. -/
theorem sameUser_plain :
    @SameUser integerAffinity (cookieRequest (lit "/") (lit "Ticket=abc"))
      (cookieRequest (lit "/pl?start=1") (lit "Ticket=abc")) := by
  refine (@sameUser_iff integerAffinity _ _ (fresh_cookieRequest _ _) (fresh_cookieRequest _ _)
    (by rw [cookies_cookieRequest, cookies_cookieRequest])
    (@completes_cookieRequest integerAffinity _ _ (by decide) (by decide) (by decide))
    (@completes_cookieRequest integerAffinity _ _ (by decide) (by decide) (by decide))).mpr
    (.inr ?_)
  rw [tickets_cookieRequest, tickets_cookieRequest]
  exact ⟨by decide, by decide⟩

omit [Affinity] in
/-- A query named `Ticket` replaces the ticket of the cookie. -/
theorem query_replaces_ticket : ¬ ∀ req req' : Request, req.Fresh → req'.Fresh →
    req.cookies = req'.cookies → @Completes integerAffinity req →
    @Completes integerAffinity req' → @SameUser integerAffinity req req' := by
  intro h
  have hc := fun uri => cookies_cookieRequest uri (lit "Ticket=abc")
  have h₁ := @completes_cookieRequest integerAffinity (lit "/") (lit "Ticket=abc") (by decide)
    (by decide) (by decide)
  have h₂ := @completes_cookieRequest integerAffinity (lit "/?Ticket=x") (lit "Ticket=abc")
    (by decide) (by decide) (by decide)
  have hsame := @sameTicket_of_same integerAffinity _ _ (fresh_cookieRequest _ _)
    (fresh_cookieRequest _ _) ((hc _).trans (hc _).symm) h₁ h₂
    (h _ _ (fresh_cookieRequest _ _) (fresh_cookieRequest _ _) ((hc _).trans (hc _).symm) h₁ h₂)
  rcases hsame with hempty | hsame
  · rw [hc] at hempty
    exact absurd hempty (by decide)
  · rw [tickets_cookieRequest, tickets_cookieRequest] at hsame
    exact absurd hsame.2 (by decide)

end Ews
