import Spinny.Ews.RoundTrip

/-!
# The reads that a request arrives in

* `Announces`: the length that the headers announce, as a decimal and not as the parser reads it.
* `ReadsWhole`: what the reads are to come to: the same as in one piece, with a request reported at
  the last byte of the body that it announces.
* `reads_iff`: they do if and only if `boost::regex` searches the uri, the body and the cookies of
  a completed request to their end.
-/

namespace Ews

open Bytes Boost Spinny

/-- The text is the decimal of a number that an `unsigned int` can hold. -/
structure IsDecimal (v : Bytes) (n : Nat) : Prop where
  ne : v ≠ []
  digits : ∀ b ∈ v, isDigit b = true
  value : foldDigits 0 v = n
  lt : n < 2 ^ 32

/-- The method and the headers announce a body of `n` bytes: the `Content-Length` of a `POST`, if it
has one, and nothing otherwise. -/
def Announces (method : Bytes) (headers : Headers) (n : Nat) : Prop :=
  if method = lit "POST" then
    match headers[lit "CONTENT-LENGTH"]? with
    | some v => IsDecimal v n
    | none => n = 0
  else n = 0

/-- `pre` is a request up to the carriage return of the empty line, and `req` what it says once its
last header is stored. -/
def Headed (withTicket : TicketLookup) (pre : Bytes) (req : Request) : Prop :=
  ∃ p, (requestParser withTicket).Goes .fresh pre p ∧ p.state = .expectingNewline3 ∧
    p.req.storeHeader = req

/-- The reads are read as their bytes are in one piece, and a request is reported at the end of the
body that it announces. -/
structure ReadsWhole (withTicket : TicketLookup) (reads : List Bytes) : Prop where
  /-- Result, request and unread bytes are those of all bytes in one read. -/
  same : (requestParser withTicket).feedReads .fresh reads =
    (requestParser withTicket).feed .fresh reads.flatten
  /-- The body never holds more than `content_length` bytes. -/
  bounded : ∀ k,
    ((requestParser withTicket).feed .fresh (reads.flatten.take k)).state.req.body.length ≤
      ((requestParser withTicket).feed .fresh (reads.flatten.take k)).state.req.contentLength
  /-- While bytes of the body are missing, there is no result. -/
  waits : ∀ pre req n data, Headed withTicket pre req → Announces req.method req.headers n →
    data.length < n → reads.flatten = pre ++ 10 :: data →
      ∃ t, (requestParser withTicket).Goes .fresh reads.flatten t
  /-- With the last of them the request is accepted, and nothing behind it is read. -/
  reports : ∀ pre req n data rest, Headed withTicket pre req →
    Announces req.method req.headers n → data.length = n →
      reads.flatten = pre ++ 10 :: (data ++ rest) →
        ∃ t, (requestParser withTicket).Stops .fresh reads.flatten .accepted t rest ∧
          t.req.body = data
  /-- In particular a request line with the lines of its headers and the body they announce. -/
  serialised : ∀ (l : RequestLine) (hs : List HeaderLine) n data rest, hs ≠ [] → BlockTaken hs →
    Announces l.method (recorded hs) n → data.length = n →
      reads.flatten =
        l.bytes ++ hs.flatMap HeaderLine.bytes ++ [13, 10] ++ (data ++ rest) →
        ∃ t, (requestParser withTicket).Stops .fresh reads.flatten .accepted t rest ∧
          t.req.method = l.method ∧ t.req.uri = l.uri ∧ t.req.headers = recorded hs ∧
            t.req.body = data
  /-- No other request is accepted, unless its `Content-Length` is no decimal. -/
  only : ∀ t rest, (requestParser withTicket).Stops .fresh reads.flatten .accepted t rest →
    (∀ v, t.req.headers[lit "CONTENT-LENGTH"]? = some v → ∃ n, IsDecimal v n) →
      ∃ pre req n data, reads.flatten = pre ++ 10 :: (data ++ rest) ∧ Headed withTicket pre req ∧
        Announces req.method req.headers n ∧ data.length = n ∧ t.req.body = data

variable {withTicket : TicketLookup}

/-! ## The announced length -/

theorem IsDecimal.toUnsigned {v : Bytes} {n : Nat} (h : IsDecimal v n) : toUnsigned v = some n := by
  obtain ⟨hne, hdigits, rfl, hlt⟩ := h
  exact lexicalCastUnsigned_of_digits hne hdigits hlt

/-- What is announced is what the parser reads. -/
theorem Announces.bodyLength {req : Request} {n : Nat} (h : Announces req.method req.headers n) :
    req.bodyLength = some n := by
  unfold Announces at h
  unfold Request.bodyLength Request.getHeaderUnsigned
  by_cases hpost : req.method = lit "POST"
  · rw [if_pos hpost] at h ⊢
    cases hv : req.headers[lit "CONTENT-LENGTH"]? with
    | none =>
      rw [hv] at h
      exact congrArg some h.symm
    | some v =>
      rw [hv] at h
      exact h.toUnsigned
  · rw [if_neg hpost] at h ⊢
    exact congrArg some h.symm

/-- What the parser reads is announced, where the header is a decimal. -/
theorem announces_of_bodyLength {req : Request} {n : Nat} (h : req.bodyLength = some n)
    (hv : ∀ v, req.headers[lit "CONTENT-LENGTH"]? = some v → ∃ n, IsDecimal v n) :
    Announces req.method req.headers n := by
  unfold Request.bodyLength Request.getHeaderUnsigned at h
  unfold Announces
  by_cases hpost : req.method = lit "POST"
  · rw [if_pos hpost] at h ⊢
    cases hlength : req.headers[lit "CONTENT-LENGTH"]? with
    | none =>
      rw [hlength] at h
      exact (Option.some.inj h).symm
    | some v =>
      rw [hlength] at h
      obtain ⟨m, hm⟩ := hv v hlength
      obtain rfl := Option.some.inj (hm.toUnsigned.symm.trans h)
      exact hm
  · rw [if_neg hpost] at h ⊢
    exact (Option.some.inj h).symm

theorem Headed.headersEnd {pre : Bytes} {req : Request} {n : Nat} (h : Headed withTicket pre req)
    (ha : Announces req.method req.headers n) :
    ∃ p, HeadersEnd withTicket pre p n ∧ p.req.storeHeader = req := by
  obtain ⟨p, hgoes, hstate, rfl⟩ := h
  exact ⟨p, ⟨hgoes, hstate, ha.bodyLength⟩, rfl⟩

/-! ## A completed request -/

/-- The condition: `boost::regex` searches the texts of a completed request to their end. -/
def Searched (withTicket : TicketLookup) (s : Bytes) : Prop :=
  ∀ pre req n data rest, Headed withTicket pre req → Announces req.method req.headers n →
    data.length = n → s = pre ++ 10 :: (data ++ rest) →
      givesUp req.uri = false ∧ givesUp data = false ∧ givesUp req.cookies = false

/-- A completed request is accepted if and only if its texts are searched to their end. -/
theorem Headed.stops_iff (hwt : ∀ t, ¬ LookupRaises withTicket t) {pre : Bytes} {req : Request}
    {n : Nat} (h : Headed withTicket pre req) (ha : Announces req.method req.headers n)
    {data : Bytes} (hd : data.length = n) (rest : Bytes) :
    ∃ r t, (requestParser withTicket).Stops .fresh (pre ++ 10 :: (data ++ rest)) r t rest ∧
      t.req.method = req.method ∧ t.req.uri = req.uri ∧ t.req.headers = req.headers ∧
        t.req.body = data ∧ (r = .accepted ↔
          givesUp req.uri = false ∧ givesUp data = false ∧ givesUp req.cookies = false) := by
  obtain ⟨p, hp, rfl⟩ := h.headersEnd ha
  obtain ⟨r, t, hs, -, hsame, hr⟩ := headersEnd_stops hp hd rest
  refine ⟨r, t, hs, hsame.method, hsame.uri, hsame.headers, hsame.body, ?_⟩
  exact hr.trans (not_decodeFails_iff hwt)

/-- Bytes that end in an accepted request were searched to their end. -/
theorem searched_of_accepted (hwt : ∀ t, ¬ LookupRaises withTicket t) {s rest : Bytes} {t : Parser}
    (h : (requestParser withTicket).Stops .fresh s .accepted t rest) : Searched withTicket s := by
  rintro pre req n data rest' hh ha hd rfl
  obtain ⟨r, t', hs, -, -, -, -, hr⟩ := hh.stops_iff hwt ha hd rest'
  exact hr.mp (h.unique hs).1

/-- The lines of the headers of a request line. -/
theorem headed_lines (l : RequestLine) {hs : List HeaderLine} (hne : hs ≠ []) (ht : BlockTaken hs) :
    ∃ req, Headed withTicket (l.bytes ++ hs.flatMap HeaderLine.bytes ++ [13]) req ∧
      req.method = l.method ∧ req.uri = l.uri ∧ req.headers = recorded hs := by
  obtain ⟨h, hs, rfl⟩ := List.exists_cons_of_ne_nil hne
  obtain ⟨S, n, v, -, hpass, hrec⟩ := @block_passes withTicket l.request _ _ ht
  have hline := (@requestLine_passes withTicket l).goes
  rw [← @pending_self l.request rfl rfl rfl] at hline
  have hcr : (requestParser withTicket).step ⟨.headerLineStart, l.request.pending S n v⟩ 13 =
      (⟨.expectingNewline3, l.request.pending S n v⟩, none) := step_of_go rfl
  exact ⟨_, ⟨_, (hline.append hpass.goes).append (.single hcr), rfl, rfl⟩, rfl, rfl, hrec⟩

/-! ## When the reads are read whole -/

/-- **Reads**: with a ticket lookup that does not raise, reads are read as their bytes are in one
piece, with a request reported at the last byte of the body that it announces, if and only if
`boost::regex` searches the uri, the body and the cookies of that request to their end. -/
theorem reads_iff (withTicket : TicketLookup) (hwt : ∀ t, ¬ LookupRaises withTicket t)
    (reads : List Bytes) :
    ReadsWhole withTicket reads ↔ Searched withTicket reads.flatten := by
  constructor
  · intro h pre req n data rest hh ha hd hs
    obtain ⟨t, hstops, -⟩ := h.reports pre req n data rest hh ha hd hs
    exact searched_of_accepted hwt hstops pre req n data rest hh ha hd hs
  · intro h
    have hreports : ∀ pre req n data rest, Headed withTicket pre req →
        Announces req.method req.headers n → data.length = n →
        reads.flatten = pre ++ 10 :: (data ++ rest) →
        ∃ t, (requestParser withTicket).Stops .fresh reads.flatten .accepted t rest ∧
          t.req.method = req.method ∧ t.req.uri = req.uri ∧ t.req.headers = req.headers ∧
            t.req.body = data := by
      intro pre req n data rest hh ha hd hs
      obtain ⟨r, t, hstops, hmethod, huri, hheaders, hbody, hr⟩ := hh.stops_iff hwt ha hd rest
      obtain rfl := hr.mpr (h pre req n data rest hh ha hd hs)
      rw [hs]
      exact ⟨t, hstops, hmethod, huri, hheaders, hbody⟩
    refine ⟨Machine.feedReads_eq_feed _ _ _, fun k => body_le _, ?_, ?_, ?_, ?_⟩
    · intro pre req n data hh ha hd hs
      obtain ⟨p, hp, -⟩ := hh.headersEnd ha
      rw [hs]
      exact headersEnd_goes hp hd
    · intro pre req n data rest hh ha hd hs
      obtain ⟨t, hstops, -, -, -, hbody⟩ := hreports pre req n data rest hh ha hd hs
      exact ⟨t, hstops, hbody⟩
    · intro l hs n data rest hne ht ha hd hflat
      obtain ⟨req, hh, hmethod, huri, hheaders⟩ := @headed_lines withTicket l hs hne ht
      rw [← hmethod, ← hheaders] at ha ⊢
      rw [← huri]
      refine hreports _ req n data rest hh ha hd (hflat.trans ?_)
      simp
    · intro t rest hstops hv
      obtain ⟨pre, p, data, n, hs, hp, hd, hsame⟩ := accepted_form hstops
      refine ⟨pre, p.req.storeHeader, n, data, hs, ⟨p, hp.goes, hp.state, rfl⟩, ?_, hd, hsame.body⟩
      refine announces_of_bodyLength hp.length fun v hget => hv v ?_
      rw [hsame.headers]
      exact hget

/-- A `POST` in three reads. -/
def postReads : List Bytes :=
  [lit "POST / HTTP/1.0\r\nConte", lit "nt-Length: 5\r\n\r\nab", lit "cdeGET /"]

theorem reads_post : ReadsWhole (fun _ => .error .notFound) postReads := by
  have hs : (requestParser fun _ => .error .notFound).Stops .fresh postReads.flatten .accepted
      ((requestParser fun _ => .error .notFound).feed .fresh postReads.flatten).state
      (lit "GET /") := rfl
  exact (reads_iff _ notFound_silent postReads).mpr (searched_of_accepted notFound_silent hs)

/-- The completed `GET` of a long uri is not reported: `parse` raises. -/
theorem long_uri_unreported : ¬ ∀ (withTicket : TicketLookup), (∀ t, ¬ LookupRaises withTicket t) →
    ∀ reads : List Bytes, ReadsWhole withTicket reads := by
  intro h
  let m := getMessage longUri (by decide) uriByte_longUri
  obtain ⟨req, hh, hmethod, huri, -⟩ := @headed_lines (fun _ => .error .notFound) m.line
    (m.headers.map Header.line) (by simp [m, getMessage]) m.blockTaken
  have hread := h _ notFound_silent [(m.line.bytes ++
    (m.headers.map Header.line).flatMap HeaderLine.bytes ++ [13]) ++ 10 :: ([] ++ [])]
  have ha : Announces req.method req.headers 0 := by
    have hget : m.line.method = lit "GET" := rfl
    rw [Announces, if_neg]
    rw [hmethod, hget]
    decide
  obtain ⟨t, hs, -⟩ := hread.reports _ req 0 [] [] hh ha rfl (List.append_nil _)
  have hsearched := (searched_of_accepted notFound_silent hs _ req 0 [] [] hh ha rfl
    (List.append_nil _)).1
  rw [huri] at hsearched
  exact absurd (hsearched.symm.trans givesUp_longUri) (by decide)

end Ews
