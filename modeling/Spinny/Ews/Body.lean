import Spinny.Ews.Decode

/-!
# The body of a request

* `reading_history`: in `readingBody` the parser has read the end of the headers and then the
  bytes of the body, fewer than announced.
* `headersEnd_stops`: at the newline that ends the headers, the announced number of bytes is
  read and then the request is reported.
* `body_le`: the body never holds more than `content_length` bytes.
-/

namespace Ews

open Bytes Boost Spinny Proc

variable {withTicket : TicketLookup}

/-- `pre` is a request up to the carriage return of the empty line, and announces a body of `n`
bytes: its `Content-Length` if it is a `POST` that has one, and 0 otherwise. -/
structure HeadersEnd (withTicket : TicketLookup) (pre : Bytes) (p : Parser) (n : Nat) : Prop where
  goes : (requestParser withTicket).Goes .fresh pre p
  state : p.state = .expectingNewline3
  length : p.req.storeHeader.bodyLength = some n

/-- Before its body a request has none; while it is read, some of it is missing. -/
structure BodyInv (p : Parser) : Prop where
  head : p.state ≠ .readingBody → p.req.body = [] ∧ p.req.contentLength = 0
  body : p.state = .readingBody → p.req.body.length < p.req.contentLength

theorem bodyInv_fresh : BodyInv .fresh := ⟨fun _ => ⟨rfl, rfl⟩, fun h => by cases h⟩

/-! ## The steps at the end of the headers and in the body -/

/-- The request after the newline that ends the headers. -/
def Request.finished (req : Request) (n : Nat) : Request :=
  { req.storeHeader with contentLength := n }.clearCurrentHeader

theorem consume_newline3 {p : Parser} {n : Nat} (hs : p.state = .expectingNewline3)
    (hn : p.req.storeHeader.bodyLength = some n) :
    consume p 10 =
      if n ≠ 0 then (⟨.readingBody, p.req.finished n⟩, none)
      else (⟨.expectingNewline3, p.req.finished n⟩, some .accepted) := by
  obtain ⟨st, req⟩ := p
  subst hs
  simp only [consume, finishHeaders, if_pos, hn, goTo, Request.finished]

theorem consume_newline3_none {p : Parser} (hs : p.state = .expectingNewline3)
    (hn : p.req.storeHeader.bodyLength = none) :
    consume p 10 = ({ p with req := p.req.storeHeader }, some (.raised .badLexicalCast)) := by
  obtain ⟨st, req⟩ := p
  subst hs
  simp only [consume, finishHeaders, if_pos, hn]

theorem consume_newline3_other {p : Parser} {b : UInt8} (hs : p.state = .expectingNewline3)
    (hb : b ≠ 10) : consume p b = (p, some .rejected) := by
  obtain ⟨st, req⟩ := p
  subst hs
  simp only [consume, if_neg hb, Parser.reject]

theorem consume_readingBody {p : Parser} {b : UInt8} (hs : p.state = .readingBody) :
    consume p b =
      (⟨.readingBody, { p.req with body := p.req.body ++ [b] }⟩,
        if p.req.contentLength = p.req.body.length + 1 then some .accepted else none) := by
  obtain ⟨st, req⟩ := p
  subst hs
  simp only [consume, List.length_append, List.length_singleton, goTo]
  split <;> rfl

/-- A step that goes on keeps `BodyInv`. -/
theorem bodyInv_step {p p' : Parser} {b : UInt8} (hp : BodyInv p)
    (h : consume p b = (p', none)) : BodyInv p' := by
  by_cases h3 : p.state = .expectingNewline3
  · by_cases hb : b = 10
    · subst hb
      cases hn : p.req.storeHeader.bodyLength with
      | none => rw [consume_newline3_none h3 hn] at h; cases h
      | some n =>
        rw [consume_newline3 h3 hn] at h
        split at h
        · rename_i hne
          cases h
          refine ⟨fun hc => absurd rfl hc, fun _ => ?_⟩
          have hbody := (hp.head (by rw [h3]; simp)).1
          simp only [Request.finished, Request.clearCurrentHeader, Request.storeHeader, hbody]
          exact Nat.pos_of_ne_zero hne
        · cases h
    · rw [consume_newline3_other h3 hb] at h
      cases h
  · by_cases hr : p.state = .readingBody
    · rw [consume_readingBody hr] at h
      have hlt := hp.body hr
      split at h
      · cases h
      · rename_i hne
        cases h
        refine ⟨fun hc => absurd rfl hc, fun _ => ?_⟩
        simp only [List.length_append, List.length_singleton]
        omega
    · obtain ⟨-, h₁, h₂, h₃⟩ := @consume_head p b h3 hr
      rw [h] at h₁ h₂ h₃
      refine ⟨fun _ => ?_, fun hc => absurd hc h₃⟩
      rw [h₁, h₂]
      exact hp.head hr

theorem bodyInv_of_goes {xs : Bytes} {p : Parser}
    (h : (requestParser withTicket).Goes .fresh xs p) : BodyInv p :=
  h.inv (fun _ _ _ hp hst => bodyInv_step hp (consume_of_go hst)) bodyInv_fresh

/-! ## How a body is read -/

/-- In `readingBody` the headers have ended and some of the announced bytes have been read. -/
theorem reading_history {xs : Bytes} {u : Parser}
    (h : (requestParser withTicket).Goes .fresh xs u) (hu : u.state = .readingBody) :
    ∃ pre p data n, xs = pre ++ 10 :: data ∧ HeadersEnd withTicket pre p n ∧
      u.req.body = data ∧ u.req.contentLength = n ∧ data.length < n := by
  induction xs using List.reverseRecOn generalizing u with
  | nil => rw [Machine.goes_nil_iff.mp h] at hu; cases hu
  | append_singleton xs b ih =>
    obtain ⟨v, hv, hvb⟩ := h.prefix
    have hstep : (requestParser withTicket).step v b = (u, none) := by
      rcases hst : (requestParser withTicket).step v b with ⟨t, _ | r⟩
      · rw [hvb.unique (.single hst)]
      · exact (hvb.not_stops (.here hst)).elim
    have hc := consume_of_go hstep
    have hlt := (bodyInv_of_goes h).body hu
    by_cases h3 : v.state = .expectingNewline3
    · by_cases hb : b = 10
      · subst hb
        cases hn : v.req.storeHeader.bodyLength with
        | none => rw [consume_newline3_none h3 hn] at hc; cases hc
        | some n =>
          rw [consume_newline3 h3 hn] at hc
          split at hc
          · cases hc
            have hbody := ((bodyInv_of_goes hv).head (by rw [h3]; simp)).1
            have hbody' : (v.req.finished n).body = [] := hbody
            refine ⟨xs, v, [], n, rfl, ⟨hv, h3, hn⟩, hbody', rfl, ?_⟩
            rwa [hbody'] at hlt
          · cases hc
      · rw [consume_newline3_other h3 hb] at hc
        cases hc
    · by_cases hr : v.state = .readingBody
      · obtain ⟨pre, p, data, n, rfl, he, hd, hl, -⟩ := ih hv hr
        rw [consume_readingBody hr] at hc
        split at hc
        · cases hc
        · cases hc
          refine ⟨pre, p, data ++ [b], n, by simp, he, by rw [hd], hl, ?_⟩
          rw [hd, hl] at hlt
          exact hlt
      · have h₄ := (@consume_head v b h3 hr).2.2.2
        rw [hc] at h₄
        exact absurd hu h₄

/-- While bytes are missing, the body takes what comes. -/
theorem body_goes {req : Request} {data : Bytes}
    (h : req.body.length + data.length < req.contentLength) :
    (requestParser withTicket).Goes ⟨.readingBody, req⟩ data
      ⟨.readingBody, { req with body := req.body ++ data }⟩ := by
  induction data generalizing req with
  | nil => simpa using Machine.Goes.nil _
  | cons b data ih =>
    simp only [List.length_cons] at h
    have hc : consume ⟨.readingBody, req⟩ b =
        (⟨.readingBody, { req with body := req.body ++ [b] }⟩, none) := by
      rw [consume_readingBody rfl, if_neg (by simp only; omega)]
    have hr := @ih { req with body := req.body ++ [b] } (by
      simp only [List.length_append, List.length_singleton]
      omega)
    simp only [List.append_assoc, List.singleton_append] at hr
    exact .cons (step_of_go hc) hr

/-- The last missing byte completes the request. -/
theorem body_stops {req : Request} {data rest : Bytes} (hne : data ≠ [])
    (h : req.body.length + data.length = req.contentLength) :
    ∃ r t, (requestParser withTicket).Stops ⟨.readingBody, req⟩ (data ++ rest) r t rest ∧
      r ≠ .rejected ∧ SameMessage { req with body := req.body ++ data } t.req ∧
      (r = .accepted ↔ ¬ DecodeFails withTicket { req with body := req.body ++ data }) := by
  obtain ⟨init, b, rfl⟩ := (List.eq_nil_or_concat' data).resolve_left hne
  simp only [List.length_append, List.length_singleton] at h
  have hg := @body_goes withTicket req init (by omega)
  have hc : consume ⟨.readingBody, { req with body := req.body ++ init }⟩ b =
      (⟨.readingBody, { req with body := req.body ++ init ++ [b] }⟩, some .accepted) := by
    rw [consume_readingBody rfl, if_pos]
    simp only [List.length_append]
    omega
  obtain ⟨t, r, hst, hsame, hr, ha⟩ := @step_of_accept withTicket _ _ _ hc
  rw [List.append_assoc] at hsame ha
  rw [List.append_assoc, List.singleton_append]
  exact ⟨r, t, hg.stops (.here hst), hr, hsame, ha⟩

/-- A step that ends the run leaves no more body than announced. -/
theorem stop_body_le {p t : Parser} {b : UInt8} {r : Parsed} (hp : BodyInv p)
    (h : (requestParser withTicket).step p b = (t, some r)) :
    t.req.body.length ≤ t.req.contentLength := by
  have key : (consume p b).1.req.body.length ≤ (consume p b).1.req.contentLength := by
    by_cases h3 : p.state = .expectingNewline3
    · have hbody := (hp.head (by rw [h3]; simp)).1
      by_cases hb : b = 10
      · subst hb
        cases hn : p.req.storeHeader.bodyLength with
        | none =>
          rw [consume_newline3_none h3 hn]
          simp [Request.storeHeader, hbody]
        | some n =>
          rw [consume_newline3 h3 hn]
          split <;> simp [Request.finished, Request.clearCurrentHeader, Request.storeHeader, hbody]
      · rw [consume_newline3_other h3 hb]
        simp [hbody]
    · by_cases hr : p.state = .readingBody
      · have := hp.body hr
        rw [consume_readingBody hr]
        simp only [List.length_append, List.length_singleton]
        omega
      · obtain ⟨-, h₁, h₂, -⟩ := @consume_head p b h3 hr
        simp [h₁, (hp.head hr).1]
  rcases hc : consume p b with ⟨p', _ | _ | _ | e⟩
  · rw [step_of_go hc] at h
    cases h
  · obtain ⟨t', r', hst, hsame, -, -⟩ := @step_of_accept withTicket _ _ _ hc
    rw [hst] at h
    cases h
    rw [hsame.body, hsame.contentLength]
    simpa only [hc] using key
  · rw [step_of_reject hc] at h
    cases h
    simpa only [hc] using key
  · simp only [requestParser, parseByte, hc] at h
    cases h
    simpa only [hc] using key

/-- The body holds at most `content_length` bytes, whatever has been read. -/
theorem body_le (s : Bytes) :
    ((requestParser withTicket).feed .fresh s).state.req.body.length ≤
      ((requestParser withTicket).feed .fresh s).state.req.contentLength := by
  rcases Machine.goes_or_stops (requestParser withTicket) .fresh s with
    ⟨t, ht⟩ | ⟨r, t, rest, hs⟩
  · have hi := bodyInv_of_goes ht
    unfold Machine.Goes at ht
    rw [ht]
    by_cases hr : t.state = .readingBody
    · exact (hi.body hr).le
    · obtain ⟨h₁, h₂⟩ := hi.head hr
      simp [h₁]
  · obtain ⟨pre, b, u, -, hg, hst⟩ := hs.split
    have hi := bodyInv_of_goes hg
    unfold Machine.Stops at hs
    rw [hs]
    exact stop_body_le hi hst

/-- After the newline that ends the headers the announced number of bytes is read, and then the
request is reported: accepted unless its decode raises. -/
theorem headersEnd_stops {pre : Bytes} {p : Parser} {n : Nat} (h : HeadersEnd withTicket pre p n)
    {data : Bytes} (hd : data.length = n) (rest : Bytes) :
    ∃ r t, (requestParser withTicket).Stops .fresh (pre ++ 10 :: (data ++ rest)) r t rest ∧
      r ≠ .rejected ∧ SameMessage { p.req.finished n with body := data } t.req ∧
      (r = .accepted ↔ ¬ DecodeFails withTicket { p.req.finished n with body := data }) := by
  have hbody : (p.req.finished n).body = [] :=
    ((bodyInv_of_goes h.goes).head (by rw [h.state]; simp)).1
  have hc := consume_newline3 h.state h.length
  by_cases hn : n = 0
  · subst hn
    rw [if_neg (by simp)] at hc
    obtain rfl := List.eq_nil_of_length_eq_zero hd
    obtain ⟨t, r, hst, hsame, hr, ha⟩ := @step_of_accept withTicket _ _ _ hc
    have he : { p.req.finished 0 with body := [] } = p.req.finished 0 := by rw [← hbody]
    rw [he]
    exact ⟨r, t, h.goes.stops (.here hst), hr, hsame, ha⟩
  · rw [if_pos hn] at hc
    have hlen : (p.req.finished n).body.length + data.length = (p.req.finished n).contentLength := by
      rw [hbody, hd]
      simp [Request.finished, Request.clearCurrentHeader]
    have hne : data ≠ [] := by
      rintro rfl
      exact hn hd.symm
    obtain ⟨r, t, hs, hr, hsame, ha⟩ := @body_stops withTicket _ _ rest hne hlen
    rw [hbody, List.nil_append] at hsame ha
    exact ⟨r, t, h.goes.stops (.cons (step_of_go hc) hs), hr, hsame, ha⟩

/-- A request that is accepted ends with the last byte of its announced body. -/
theorem accepted_form {s rest : Bytes} {t : Parser}
    (h : (requestParser withTicket).Stops .fresh s .accepted t rest) :
    ∃ pre p data n, s = pre ++ 10 :: (data ++ rest) ∧ HeadersEnd withTicket pre p n ∧
      data.length = n ∧ SameMessage { p.req.finished n with body := data } t.req := by
  have key : ∃ pre p data n, s = pre ++ 10 :: (data ++ rest) ∧ HeadersEnd withTicket pre p n ∧
      data.length = n := by
    obtain ⟨xs, b, u, rfl, hg, hst⟩ := h.split
    obtain ⟨p', hc, -, -⟩ := consume_of_accept hst
    by_cases h3 : u.state = .expectingNewline3
    · by_cases hb : b = 10
      · subst hb
        cases hn : u.req.storeHeader.bodyLength with
        | none => rw [consume_newline3_none h3 hn] at hc; cases hc
        | some n =>
          rw [consume_newline3 h3 hn] at hc
          split at hc
          · cases hc
          · rename_i hz
            simp only [ne_eq, not_not] at hz
            exact ⟨xs, u, [], n, rfl, ⟨hg, h3, hn⟩, hz.symm⟩
      · rw [consume_newline3_other h3 hb] at hc
        cases hc
    · by_cases hr : u.state = .readingBody
      · obtain ⟨pre, p, data, n, rfl, he, hd, hl, -⟩ := reading_history hg hr
        rw [consume_readingBody hr, hd, hl] at hc
        split at hc
        · rename_i hlen
          refine ⟨pre, p, data ++ [b], n, by simp, he, ?_⟩
          simp [hlen]
        · cases hc
      · have hn := (@consume_head u b h3 hr).1
        rw [hc] at hn
        simp at hn
  obtain ⟨pre, p, data, n, rfl, hp, hd⟩ := key
  obtain ⟨r, t', hs, -, hsame, -⟩ := headersEnd_stops hp hd rest
  obtain ⟨-, rfl, -⟩ := h.unique hs
  exact ⟨pre, p, data, n, rfl, hp, hd, hsame⟩

/-- Fewer bytes than announced leave the parser waiting. -/
theorem headersEnd_goes {pre : Bytes} {p : Parser} {n : Nat} (h : HeadersEnd withTicket pre p n)
    {data : Bytes} (hd : data.length < n) :
    ∃ u, (requestParser withTicket).Goes .fresh (pre ++ 10 :: data) u := by
  have hbody : (p.req.finished n).body = [] :=
    ((bodyInv_of_goes h.goes).head (by rw [h.state]; simp)).1
  have hc := consume_newline3 h.state h.length
  rw [if_pos (by omega)] at hc
  have hlen : (p.req.finished n).body.length + data.length < (p.req.finished n).contentLength := by
    rw [hbody, List.length_nil, Nat.zero_add]
    exact hd
  exact ⟨_, h.goes.append (.cons (step_of_go hc) (body_goes hlen))⟩

end Ews
