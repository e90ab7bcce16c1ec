import Spinny.Ews.RequestParser

/-!
# Completing a request

* `performFinalDecode_keeps`: the final decode leaves the message as it was read.
* `decode_ok_iff`: it returns unless `boost::regex` gives up on the uri, the body or the cookies,
  or the ticket lookup raises (`DecodeFails`).
* `step_of_go`, `step_of_reject`, `step_of_accept`: a step of `parse` from one of `consume`.
-/

namespace Ews

open Bytes Boost Spinny Proc

/-- The fields that `consume` fills are the same. -/
structure SameMessage (req req' : Request) : Prop where
  method : req'.method = req.method
  uri : req'.uri = req.uri
  httpVersionMajor : req'.httpVersionMajor = req.httpVersionMajor
  httpVersionMinor : req'.httpVersionMinor = req.httpVersionMinor
  headers : req'.headers = req.headers
  body : req'.body = req.body
  contentLength : req'.contentLength = req.contentLength

instance : Std.Refl SameMessage := ⟨fun _ => ⟨rfl, rfl, rfl, rfl, rfl, rfl, rfl⟩⟩

instance : IsTrans Request SameMessage :=
  ⟨fun _ _ _ h h' => ⟨h'.1.trans h.1, h'.2.trans h.2, h'.3.trans h.3, h'.4.trans h.4,
    h'.5.trans h.5, h'.6.trans h.6, h'.7.trans h.7⟩⟩

/-- The request once the form elements of its uri, its body and its cookies are added. -/
def Request.withForms (req : Request) : Request :=
  { req with
    varibles := ((req.varibles.addForm req.uri).addForm req.body).addForm req.cookies }

/-- The ticket the final decode looks up. -/
def Request.ticket (req : Request) : Bytes := req.withForms.svalue (lit "Ticket")

/-- The lookup of a ticket throws something other than `sqlite::not_found`. -/
def LookupRaises (withTicket : TicketLookup) (ticket : Bytes) : Prop :=
  ∃ e, withTicket ticket = .error e ∧ e ≠ .notFound

/-- Why the final decode of a complete request raises. -/
def DecodeFails (withTicket : TicketLookup) (req : Request) : Prop :=
  givesUp req.uri = true ∨ givesUp req.body = true ∨
    (req.cookies ≠ [] ∧
      (givesUp req.cookies = true ∨ (req.ticket ≠ [] ∧ LookupRaises withTicket req.ticket)))

variable {withTicket : TicketLookup}

theorem parseFormElements_keeps (str : Bytes) : Keeps SameMessage (parseFormElements str) := by
  intro req
  rw [parseFormElements, after_bind_ok (outcome_modify _ _), after_modify]
  split <;> exact ⟨rfl, rfl, rfl, rfl, rfl, rfl, rfl⟩

theorem lookUpTicket_keeps (ticket : Bytes) :
    Keeps SameMessage (lookUpTicket withTicket ticket) := by
  intro req
  unfold lookUpTicket
  split <;> exact ⟨rfl, rfl, rfl, rfl, rfl, rfl, rfl⟩

theorem decodeCookies_keeps (cookies : Bytes) :
    Keeps SameMessage (decodeCookies withTicket cookies) := by
  unfold decodeCookies
  split
  · exact Keeps.pure _
  · refine (parseFormElements_keeps _).bind fun _ => Keeps.get.bind fun req => ?_
    dsimp only
    split
    · exact lookUpTicket_keeps _
    · exact Keeps.pure _

/-- The final decode fills the url, the variables, the user and the elements only. -/
theorem performFinalDecode_keeps : Keeps SameMessage (performFinalDecode withTicket) := by
  refine Keeps.bind (fun _ => ⟨rfl, rfl, rfl, rfl, rfl, rfl, rfl⟩) fun _ => ?_
  refine Keeps.get.bind fun _ => (parseFormElements_keeps _).bind fun _ => ?_
  refine Keeps.get.bind fun _ => (parseFormElements_keeps _).bind fun _ => ?_
  refine Keeps.get.bind fun _ => (decodeCookies_keeps _).bind fun _ => ?_
  exact fun _ => ⟨rfl, rfl, rfl, rfl, rfl, rfl, rfl⟩

theorem outcome_parseFormElements (str : Bytes) (req : Request) :
    outcome (parseFormElements str) req =
      if givesUp str then .error .regexError else .ok () := by
  rw [parseFormElements, outcome_bind_ok (outcome_modify _ _)]
  split <;> rfl

theorem after_parseFormElements (str : Bytes) (req : Request) :
    after (parseFormElements str) req = { req with varibles := req.varibles.addForm str } := by
  rw [parseFormElements, after_bind_ok (outcome_modify _ _), after_modify]
  split <;> rfl

theorem lookUpTicket_ok_iff (ticket : Bytes) (req : Request) :
    outcome (lookUpTicket withTicket ticket) req = .ok () ↔ ¬ LookupRaises withTicket ticket := by
  unfold lookUpTicket LookupRaises
  cases h : withTicket ticket with
  | ok u => simp
  | error e => cases e <;> simp

theorem decodeCookies_ok_iff (req : Request) :
    outcome (decodeCookies withTicket req.cookies) req = .ok () ↔
      ¬ (req.cookies ≠ [] ∧ (givesUp req.cookies = true ∨
        ({ req with varibles := req.varibles.addForm req.cookies }.svalue (lit "Ticket") ≠ [] ∧
          LookupRaises withTicket
            ({ req with varibles := req.varibles.addForm req.cookies }.svalue
              (lit "Ticket"))))) := by
  by_cases hc : req.cookies = []
  · simp [decodeCookies, hc]
  · rw [decodeCookies, if_neg hc]
    cases hg : givesUp req.cookies with
    | true =>
      have ho : outcome (parseFormElements req.cookies) req = .error .regexError := by
        rw [outcome_parseFormElements, hg, if_pos rfl]
      rw [outcome_bind_error ho]
      simp [hc]
    | false =>
      have ho : outcome (parseFormElements req.cookies) req = .ok () := by
        rw [outcome_parseFormElements, hg, if_neg (by simp)]
      rw [outcome_bind_ok ho, outcome_bind_ok (outcome_get _), after_get, after_parseFormElements]
      dsimp only
      split
      · rename_i ht
        rw [lookUpTicket_ok_iff]
        simp [hc, ht]
      · rename_i ht
        simp only [ne_eq, not_not] at ht
        simp [ht]

/-- **The final decode returns** exactly if none of the texts it searches makes `boost::regex`
give up and its ticket lookup does not raise. -/
theorem decode_ok_iff (req : Request) :
    outcome (performFinalDecode withTicket) req = .ok () ↔ ¬ DecodeFails withTicket req := by
  unfold performFinalDecode DecodeFails
  rw [outcome_bind_ok (outcome_modify _ _), after_modify, outcome_bind_ok (outcome_get _),
    after_get]
  cases hu : givesUp req.uri with
  | true =>
    rw [outcome_bind_error (by rw [outcome_parseFormElements, hu, if_pos rfl])]
    simp
  | false =>
    rw [outcome_bind_ok (by rw [outcome_parseFormElements, hu, if_neg (by simp)]),
      after_parseFormElements, outcome_bind_ok (outcome_get _), after_get]
    cases hb : givesUp req.body with
    | true =>
      rw [outcome_bind_error (by rw [outcome_parseFormElements, hb, if_pos rfl])]
      simp
    | false =>
      rw [outcome_bind_ok (by rw [outcome_parseFormElements, hb, if_neg (by simp)]),
        after_parseFormElements, outcome_bind_ok (outcome_get _), after_get, outcome_bind]
      set forms : Request :=
        { req with
          url := (decodeStr req.uri).takeWhile (· ≠ 63)
          varibles := (req.varibles.addForm req.uri).addForm req.body } with hforms
      have hc : forms.cookies = req.cookies := rfl
      have ht : { forms with varibles := forms.varibles.addForm forms.cookies }.svalue
          (lit "Ticket") = req.ticket := rfl
      have key := @decodeCookies_ok_iff withTicket forms
      rw [ht, hc] at key
      simp only [Bool.false_eq_true, false_or]
      rw [← key, ← hc]
      cases outcome (decodeCookies withTicket forms.cookies) forms with
      | ok _ => simp
      | error e => simp

/-- With a ticket lookup that does not raise, `boost::regex` alone decides. -/
theorem not_decodeFails_iff (hwt : ∀ t, ¬ LookupRaises withTicket t) {req : Request} :
    ¬ DecodeFails withTicket req ↔
      givesUp req.uri = false ∧ givesUp req.body = false ∧ givesUp req.cookies = false := by
  have hnil : givesUp req.cookies = true → req.cookies ≠ [] := by
    intro hg hn
    rw [hn, givesUp_of_short (by simp)] at hg
    cases hg
  unfold DecodeFails
  simp only [hwt, and_false, or_false, and_iff_right_of_imp hnil, not_or, Bool.not_eq_true]

/-- A step that goes on goes on in `parse`. -/
theorem step_of_go {p p' : Parser} {b : UInt8} (h : consume p b = (p', none)) :
    (requestParser withTicket).step p b = (p', none) := by
  simp only [requestParser, parseByte, h]

theorem step_of_reject {p p' : Parser} {b : UInt8} (h : consume p b = (p', some .rejected)) :
    (requestParser withTicket).step p b = (p', some .rejected) := by
  simp only [requestParser, parseByte, h]

theorem consume_of_go {p p' : Parser} {b : UInt8}
    (h : (requestParser withTicket).step p b = (p', none)) : consume p b = (p', none) := by
  simp only [requestParser, parseByte] at h
  split at h
  · split at h <;> cases h
  · exact h

/-- A request that `parse` accepts was accepted by `consume` and decoded. -/
theorem consume_of_accept {t p : Parser} {b : UInt8}
    (h : (requestParser withTicket).step p b = (t, some .accepted)) :
    ∃ p', consume p b = (p', some .accepted) ∧ SameMessage p'.req t.req ∧ t.state = p'.state := by
  rcases hc : consume p b with ⟨p', _ | _ | _ | e⟩
  · rw [step_of_go hc] at h
    cases h
  · refine ⟨p', rfl, ?_⟩
    simp only [requestParser, parseByte, hc, Prod.mk.injEq] at h
    obtain ⟨rfl, -⟩ := h
    exact ⟨performFinalDecode_keeps p'.req, rfl⟩
  · rw [step_of_reject hc] at h
    cases h
  · simp only [requestParser, parseByte, hc] at h
    cases h

/-- A complete request is decoded: the step accepts it unless the decode raises. -/
theorem step_of_accept {p p' : Parser} {b : UInt8} (h : consume p b = (p', some .accepted)) :
    ∃ t r, (requestParser withTicket).step p b = (t, some r) ∧ SameMessage p'.req t.req ∧
      r ≠ .rejected ∧ (r = .accepted ↔ ¬ DecodeFails withTicket p'.req) := by
  have hk := @performFinalDecode_keeps withTicket p'.req
  rw [← decode_ok_iff]
  cases ho : outcome (performFinalDecode withTicket) p'.req with
  | ok _ =>
    refine ⟨⟨p'.state, _⟩, .accepted, ?_, hk, by simp, by simp⟩
    simp only [requestParser, parseByte, h, ho]
    rfl
  | error e =>
    refine ⟨⟨p'.state, _⟩, .raised e, ?_, hk, by simp, by simp⟩
    simp only [requestParser, parseByte, h, ho]
    rfl

/-- What `consume` does before the end of the headers: it goes on or rejects, and it touches
neither the body nor its length. -/
theorem consume_head {p : Parser} {b : UInt8} (h₁ : p.state ≠ .expectingNewline3)
    (h₂ : p.state ≠ .readingBody) :
    ((consume p b).2 = none ∨ (consume p b).2 = some .rejected) ∧
      (consume p b).1.req.body = p.req.body ∧
      (consume p b).1.req.contentLength = p.req.contentLength ∧
      (consume p b).1.state ≠ .readingBody := by
  obtain ⟨st, req⟩ := p
  cases st
  case expectingNewline3 => exact absurd rfl h₁
  case readingBody => exact absurd rfl h₂
  case headerLineStart =>
    simp only [consume]
    split_ifs <;> simp [goTo, Parser.reject, Request.storeHeader, Request.clearCurrentHeader]
  all_goals
    simp only [consume]
    split_ifs <;> simp [goTo, Parser.reject]

end Ews
