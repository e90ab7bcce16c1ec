import Spinny.Ews.Decode

/-!
# Request lines and header lines

The grammar of the part of a request before its body, and how the parser reads each piece.

* `RequestLine`: a valid request line; `requestLine_passes`: the parser reads it.
* `Line`: a header line or a continuation line as sent; `Request.readLine`: what it does to the
  request. `header_passes`, `more_passes`: the parser reads it; `header_stops`, `more_stops`: the
  lines it rejects (no byte between the colon and the line end; a continuation before any header
  is stored).
* `Slip`: the three places where the parser takes what the grammar excludes; the runs above pass
  none of them.
-/

namespace Ews

open Bytes Boost Spinny

/-! ## Character classes of the grammar -/

/-- A byte of a method or of a header name. -/
def tokenByte (b : UInt8) : Bool := isToken (charVal b)

/-- A byte that is not a control byte. -/
def textByte (b : UInt8) : Bool := !isCtl (charVal b)

/-- A byte of a uri. -/
def uriByte (b : UInt8) : Bool := b != 32 && textByte b

/-- A space or a tab. -/
def blankByte (b : UInt8) : Bool := b == 32 || b == 9

theorem tokenByte_ne {b : UInt8} (h : tokenByte b = true) : b ≠ 32 ∧ b ≠ 9 ∧ b ≠ 13 ∧ b ≠ 58 := by
  refine ⟨?_, ?_, ?_, ?_⟩ <;> (rintro rfl; revert h; decide)

theorem textByte_ne {b : UInt8} (h : textByte b = true) : b ≠ 13 ∧ b ≠ 10 ∧ b ≠ 9 := by
  refine ⟨?_, ?_, ?_⟩ <;> (rintro rfl; revert h; decide)

theorem isCtl_of_textByte {b : UInt8} (h : textByte b = true) : isCtl (charVal b) = false := by
  simpa [textByte] using h

theorem isDigitChar_of_isDigit {b : UInt8} (h : isDigit b = true) :
    isDigitChar (charVal b) = true := by
  have hb := isDigit_iff.mp h
  rw [charVal_of_lt (by omega)]
  simp only [isDigitChar, Bool.and_eq_true, decide_eq_true_eq]
  omega

theorem isDigit_of_isDigitChar {b : UInt8} (h : isDigitChar (charVal b) = true) :
    isDigit b = true := by
  simp only [isDigitChar, Bool.and_eq_true, decide_eq_true_eq] at h
  rcases Nat.lt_or_ge b.toNat 128 with hb | hb
  · rw [charVal_of_lt hb] at h
    exact isDigit_iff.mpr (by omega)
  · have := charVal_neg hb
    omega

theorem isDigit_ne {b : UInt8} (h : isDigit b = true) : b ≠ 46 ∧ b ≠ 13 := by
  refine ⟨?_, ?_⟩ <;> (rintro rfl; revert h; decide)

/-! ## The grammar -/

/-- A valid request line. -/
structure RequestLine where
  method : Bytes
  uri : Bytes
  major : Bytes
  minor : Bytes
  method_ne : method ≠ []
  method_token : ∀ b ∈ method, tokenByte b = true
  uri_ne : uri ≠ []
  uri_bytes : ∀ b ∈ uri, uriByte b = true
  major_ne : major ≠ []
  major_digits : ∀ b ∈ major, isDigit b = true
  minor_ne : minor ≠ []
  minor_digits : ∀ b ∈ minor, isDigit b = true

/-- `method SP uri SP HTTP/digits.digits CRLF`. -/
def RequestLine.bytes (l : RequestLine) : Bytes :=
  l.method ++ [32] ++ l.uri ++ [32] ++ lit "HTTP/" ++ l.major ++ [46] ++ l.minor ++ [13, 10]

/-- A version number as the parser accumulates its digits. -/
def version (digits : Bytes) : Int := digits.foldl addDigit 0

/-- The request after its request line. -/
def RequestLine.request (l : RequestLine) : Request :=
  { Request.fresh with
    method := l.method
    uri := l.uri
    httpVersionMajor := version l.major
    httpVersionMinor := version l.minor }

/-- A line of the header block as it is sent. -/
inductive Line where
  /-- `name ":" value`; the value includes a space behind the colon. -/
  | header (name value : Bytes)
  /-- Blanks and more of the value before. -/
  | more (blanks text : Bytes)
  deriving DecidableEq

namespace Line

/-- The bytes of a line with its CRLF. -/
def bytes : Line → Bytes
  | header name value => name ++ [58] ++ value ++ [13, 10]
  | more blanks text => blanks ++ text ++ [13, 10]

/-- A named line, or a continuation whose blanks are all its leading blanks. -/
def WellFormed : Line → Prop
  | header name value =>
    name ≠ [] ∧ (∀ b ∈ name, tokenByte b = true) ∧ ∀ b ∈ value, textByte b = true
  | more blanks text =>
    blanks ≠ [] ∧ (∀ b ∈ blanks, blankByte b = true) ∧ (∀ b ∈ text, textByte b = true) ∧
      text.head? ≠ some 32

end Line

/-- The value of a header line without the space behind the colon. -/
def lineValue : Bytes → Bytes
  | 32 :: v => v
  | v => v

/-- Store the current header, if there is one, before the next one begins. -/
def Request.flushHeader (req : Request) : Request :=
  if req.currentHeaderName ≠ [] then req.storeHeader.clearCurrentHeader else req

/-- What reading a line does to a request. -/
def Request.readLine (req : Request) : Line → Request
  | .header name value =>
    { req.flushHeader with
      currentHeaderName := req.flushHeader.currentHeaderName ++ name
      currentHeaderValue := req.flushHeader.currentHeaderValue ++ lineValue value }
  | .more _ text => { req with currentHeaderValue := req.currentHeaderValue ++ text }

/-! ## The slips -/

/-- A step in which the parser takes what the grammar excludes: the space after an empty uri, the
end of the headers before any header, a control byte right after the colon. -/
inductive Slip : Parser → UInt8 → Prop
  | emptyUri {p : Parser} (hs : p.state = .uri) (hu : p.req.uri = []) : Slip p 32
  | noHeader {p : Parser} (hs : p.state = .headerLineStart) (hn : p.req.currentHeaderName = []) :
    Slip p 13
  | control {p : Parser} {b : UInt8} (hs : p.state = .spaceBeforeHeaderValue)
    (hb : textByte b = false) : Slip p b

/-- No slip in reading `b`. -/
def NoSlip (p : Parser) (b : UInt8) : Prop := ¬ Slip p b

theorem noSlip_of_state {p : Parser} {b : UInt8} (h₁ : p.state ≠ .uri)
    (h₂ : p.state ≠ .headerLineStart) (h₃ : p.state ≠ .spaceBeforeHeaderValue) : NoSlip p b := by
  rintro (⟨hs, -⟩ | ⟨hs, -⟩ | ⟨hs, -⟩)
  · exact h₁ hs
  · exact h₂ hs
  · exact h₃ hs

theorem noSlip_uri {p : Parser} {b : UInt8} (hs : p.state = .uri) (h : b = 32 → p.req.uri ≠ []) :
    NoSlip p b := by
  rintro (⟨-, hu⟩ | ⟨hs', -⟩ | ⟨hs', -⟩)
  · exact h rfl hu
  · rw [hs] at hs'; cases hs'
  · rw [hs] at hs'; cases hs'

theorem noSlip_lineStart {p : Parser} {b : UInt8} (hs : p.state = .headerLineStart)
    (h : b = 13 → p.req.currentHeaderName ≠ []) : NoSlip p b := by
  rintro (⟨hs', -⟩ | ⟨-, hn⟩ | ⟨hs', -⟩)
  · rw [hs] at hs'; cases hs'
  · exact h rfl hn
  · rw [hs] at hs'; cases hs'

theorem noSlip_text {p : Parser} {b : UInt8} (hs : p.state = .spaceBeforeHeaderValue)
    (hb : textByte b = true) : NoSlip p b := by
  rintro (⟨hs', -⟩ | ⟨hs', -⟩ | ⟨-, hb'⟩)
  · rw [hs] at hs'; cases hs'
  · rw [hs] at hs'; cases hs'
  · rw [hb] at hb'; cases hb'

/-! ## Reading a request line -/

section RequestLine
variable {withTicket : TicketLookup} {req : Request} {b : UInt8}

theorem consume_methodStart (h : tokenByte b = true) :
    consume ⟨.methodStart, req⟩ b =
      (⟨.method, { req with method := req.method ++ [b] }⟩, none) := by
  have ht : isToken (charVal b) = true := h
  simp only [consume, goTo, if_pos ht]

theorem consume_method (h : tokenByte b = true) :
    consume ⟨.method, req⟩ b = (⟨.method, { req with method := req.method ++ [b] }⟩, none) := by
  have ht : isToken (charVal b) = true := h
  simp only [consume, goTo, if_neg (tokenByte_ne h).1, if_pos ht]

theorem consume_uri (h : uriByte b = true) :
    consume ⟨.uri, req⟩ b = (⟨.uri, { req with uri := req.uri ++ [b] }⟩, none) := by
  simp only [uriByte, Bool.and_eq_true, bne_iff_ne, ne_eq] at h
  have hc := isCtl_of_textByte h.2
  simp [consume, goTo, h.1, hc]

theorem consume_major (h : isDigit b = true) :
    consume ⟨.httpVersionMajor, req⟩ b =
      (⟨.httpVersionMajor, { req with httpVersionMajor := addDigit req.httpVersionMajor b }⟩,
        none) := by
  simp only [consume, goTo, if_neg (isDigit_ne h).1, if_pos (isDigitChar_of_isDigit h)]

theorem consume_minor (h : isDigit b = true) :
    consume ⟨.httpVersionMinor, req⟩ b =
      (⟨.httpVersionMinor, { req with httpVersionMinor := addDigit req.httpVersionMinor b }⟩,
        none) := by
  simp only [consume, goTo, if_neg (isDigit_ne h).2, if_pos (isDigitChar_of_isDigit h)]

theorem method_passes (hm : req.method = []) {m : Bytes} (hne : m ≠ [])
    (ht : ∀ b ∈ m, tokenByte b = true) :
    (requestParser withTicket).Passes NoSlip ⟨.methodStart, req⟩ (m ++ [32])
      ⟨.uri, { req with method := m }⟩ := by
  obtain ⟨b, m, rfl⟩ := List.exists_cons_of_ne_nil hne
  have hb : consume ⟨.methodStart, req⟩ b = (⟨.method, { req with method := [b] }⟩, none) := by
    rw [consume_methodStart (ht b (by simp)), hm, List.nil_append]
  refine .cons (step_of_go hb) (noSlip_of_state (by simp) (by simp) (by simp)) ?_
  have hrun : (requestParser withTicket).Passes NoSlip ⟨.method, { req with method := [b] }⟩ m
      ⟨.method, { req with method := b :: m }⟩ :=
    .collect (fun acc => ⟨.method, { req with method := acc }⟩) (fun c => tokenByte c = true)
      (fun _ _ hc => step_of_go (consume_method hc))
      (fun _ _ _ => noSlip_of_state (by simp) (by simp) (by simp)) [b]
      fun c hc => ht c (by simp [hc])
  exact hrun.append (.single (step_of_go rfl) (noSlip_of_state (by simp) (by simp) (by simp)))

theorem uri_passes (hu : req.uri = []) {u : Bytes} (hne : u ≠ [])
    (hb : ∀ b ∈ u, uriByte b = true) :
    (requestParser withTicket).Passes NoSlip ⟨.uri, req⟩ (u ++ [32])
      ⟨.httpVersionH, { req with uri := u }⟩ := by
  have hrun : (requestParser withTicket).Passes NoSlip ⟨.uri, { req with uri := [] }⟩ u
      ⟨.uri, { req with uri := u }⟩ :=
    .collect (fun acc => ⟨.uri, { req with uri := acc }⟩) (fun c => uriByte c = true)
      (fun _ _ hc => step_of_go (consume_uri hc))
      (fun _ c hc => noSlip_uri rfl fun h => by subst h; cases hc) [] hb
  have hreq : { req with uri := [] } = req := by rw [← hu]
  rw [hreq] at hrun
  exact hrun.append (.single (step_of_go rfl) (noSlip_uri rfl fun _ => hne))

theorem major_passes {ds : Bytes} (hne : ds ≠ []) (hd : ∀ b ∈ ds, isDigit b = true) :
    (requestParser withTicket).Passes NoSlip ⟨.httpVersionMajorStart, req⟩ (ds ++ [46])
      ⟨.httpVersionMinorStart,
        { req with httpVersionMajor := ds.foldl addDigit req.httpVersionMajor }⟩ := by
  obtain ⟨b, ds, rfl⟩ := List.exists_cons_of_ne_nil hne
  have hb : consume ⟨.httpVersionMajorStart, req⟩ b = (⟨.httpVersionMajor,
      { req with httpVersionMajor := addDigit req.httpVersionMajor b }⟩, none) := by
    simp only [consume, goTo, if_pos (isDigitChar_of_isDigit (hd b (by simp)))]
  refine .cons (step_of_go hb) (noSlip_of_state (by simp) (by simp) (by simp)) ?_
  have hrun : (requestParser withTicket).Passes NoSlip
      ⟨.httpVersionMajor, { req with httpVersionMajor := addDigit req.httpVersionMajor b }⟩ ds
      ⟨.httpVersionMajor,
        { req with httpVersionMajor := ds.foldl addDigit (addDigit req.httpVersionMajor b) }⟩ :=
    .fold (fun v => ⟨.httpVersionMajor, { req with httpVersionMajor := v }⟩) addDigit
      (fun c => isDigit c = true) (fun _ _ hc => step_of_go (consume_major hc))
      (fun _ _ _ => noSlip_of_state (by simp) (by simp) (by simp)) _
      fun c hc => hd c (by simp [hc])
  exact hrun.append (.single (step_of_go rfl) (noSlip_of_state (by simp) (by simp) (by simp)))

theorem minor_passes {ds : Bytes} (hne : ds ≠ []) (hd : ∀ b ∈ ds, isDigit b = true) :
    (requestParser withTicket).Passes NoSlip ⟨.httpVersionMinorStart, req⟩ (ds ++ [13, 10])
      ⟨.headerLineStart,
        { req with httpVersionMinor := ds.foldl addDigit req.httpVersionMinor }⟩ := by
  obtain ⟨b, ds, rfl⟩ := List.exists_cons_of_ne_nil hne
  have hb : consume ⟨.httpVersionMinorStart, req⟩ b = (⟨.httpVersionMinor,
      { req with httpVersionMinor := addDigit req.httpVersionMinor b }⟩, none) := by
    simp only [consume, goTo, if_pos (isDigitChar_of_isDigit (hd b (by simp)))]
  refine .cons (step_of_go hb) (noSlip_of_state (by simp) (by simp) (by simp)) ?_
  have hrun : (requestParser withTicket).Passes NoSlip
      ⟨.httpVersionMinor, { req with httpVersionMinor := addDigit req.httpVersionMinor b }⟩ ds
      ⟨.httpVersionMinor,
        { req with httpVersionMinor := ds.foldl addDigit (addDigit req.httpVersionMinor b) }⟩ :=
    .fold (fun v => ⟨.httpVersionMinor, { req with httpVersionMinor := v }⟩) addDigit
      (fun c => isDigit c = true) (fun _ _ hc => step_of_go (consume_minor hc))
      (fun _ _ _ => noSlip_of_state (by simp) (by simp) (by simp)) _
      fun c hc => hd c (by simp [hc])
  refine hrun.append (.cons (step_of_go rfl) (noSlip_of_state (by simp) (by simp) (by simp)) ?_)
  exact .single (step_of_go rfl) (noSlip_of_state (by simp) (by simp) (by simp))

/-- `HTTP/` resets both version numbers. -/
theorem http_passes :
    (requestParser withTicket).Passes NoSlip ⟨.httpVersionH, req⟩ (lit "HTTP/")
      ⟨.httpVersionMajorStart, { req with httpVersionMajor := 0, httpVersionMinor := 0 }⟩ := by
  have hs : ∀ {st : State} {r : Request} {b : UInt8}, st ≠ .uri → st ≠ .headerLineStart →
      st ≠ .spaceBeforeHeaderValue → NoSlip ⟨st, r⟩ b := fun h₁ h₂ h₃ => noSlip_of_state h₁ h₂ h₃
  refine .cons (step_of_go rfl) (hs (by simp) (by simp) (by simp)) ?_
  refine .cons (step_of_go rfl) (hs (by simp) (by simp) (by simp)) ?_
  refine .cons (step_of_go rfl) (hs (by simp) (by simp) (by simp)) ?_
  refine .cons (step_of_go rfl) (hs (by simp) (by simp) (by simp)) ?_
  exact .single (step_of_go rfl) (hs (by simp) (by simp) (by simp))

/-- A valid request line is read, into the fields it names. -/
theorem requestLine_passes (l : RequestLine) :
    (requestParser withTicket).Passes NoSlip .fresh l.bytes ⟨.headerLineStart, l.request⟩ := by
  have h₁ := @method_passes withTicket .fresh rfl _ l.method_ne l.method_token
  have h₂ := @uri_passes withTicket { Request.fresh with method := l.method } rfl _ l.uri_ne
    l.uri_bytes
  have h₃ := @http_passes withTicket { Request.fresh with method := l.method, uri := l.uri }
  have h₄ := @major_passes withTicket { Request.fresh with method := l.method, uri := l.uri } _
    l.major_ne l.major_digits
  have h₅ := @minor_passes withTicket
    { Request.fresh with
      method := l.method, uri := l.uri, httpVersionMajor := version l.major } _
    l.minor_ne l.minor_digits
  have h := (((h₁.append h₂).append h₃).append h₄).append h₅
  simp only [List.append_assoc] at h
  simp only [RequestLine.bytes, List.append_assoc]
  exact h

end RequestLine

/-! ## Reading header lines -/

section HeaderLine
variable {withTicket : TicketLookup} {req : Request} {b : UInt8}

theorem consume_lineStart (h : tokenByte b = true) :
    consume ⟨.headerLineStart, req⟩ b =
      (⟨.headerName,
        { req.flushHeader with
          currentHeaderName := req.flushHeader.currentHeaderName ++ [b] }⟩, none) := by
  obtain ⟨h₁, h₂, h₃, -⟩ := tokenByte_ne h
  have ht : isToken (charVal b) = true := h
  simp only [consume, goTo, if_neg h₃, h₁, h₂, or_self, and_false, if_false, if_pos ht,
    Request.flushHeader]

theorem consume_name (h : tokenByte b = true) :
    consume ⟨.headerName, req⟩ b =
      (⟨.headerName, { req with currentHeaderName := req.currentHeaderName ++ [b] }⟩, none) := by
  have ht : isToken (charVal b) = true := h
  simp only [consume, goTo, if_neg (tokenByte_ne h).2.2.2, if_pos ht]

theorem consume_value (h : textByte b = true) :
    consume ⟨.headerValue, req⟩ b =
      (⟨.headerValue, { req with currentHeaderValue := req.currentHeaderValue ++ [b] }⟩, none) := by
  simp [consume, goTo, (textByte_ne h).1, isCtl_of_textByte h]

/-- Bytes of a value up to the end of the line. -/
theorem value_passes {v : Bytes} (hv : ∀ b ∈ v, textByte b = true) :
    (requestParser withTicket).Passes NoSlip ⟨.headerValue, req⟩ (v ++ [13, 10])
      ⟨.headerLineStart, { req with currentHeaderValue := req.currentHeaderValue ++ v }⟩ := by
  have hrun : (requestParser withTicket).Passes NoSlip ⟨.headerValue, req⟩ v
      ⟨.headerValue, { req with currentHeaderValue := req.currentHeaderValue ++ v }⟩ :=
    .collect (fun acc => ⟨.headerValue, { req with currentHeaderValue := acc }⟩)
      (fun c => textByte c = true) (fun _ _ hc => step_of_go (consume_value hc))
      (fun _ _ _ => noSlip_of_state (by simp) (by simp) (by simp)) _ hv
  refine hrun.append (.cons (step_of_go rfl) (noSlip_of_state (by simp) (by simp) (by simp)) ?_)
  exact .single (step_of_go rfl) (noSlip_of_state (by simp) (by simp) (by simp))

/-- The name of a header and the colon. -/
theorem name_passes {name : Bytes} (hne : name ≠ []) (ht : ∀ b ∈ name, tokenByte b = true) :
    (requestParser withTicket).Passes NoSlip ⟨.headerLineStart, req⟩ (name ++ [58])
      ⟨.spaceBeforeHeaderValue,
        { req.flushHeader with
          currentHeaderName := req.flushHeader.currentHeaderName ++ name }⟩ := by
  obtain ⟨b, name, rfl⟩ := List.exists_cons_of_ne_nil hne
  have hb := ht b (by simp)
  refine .cons (step_of_go (consume_lineStart hb)) (noSlip_lineStart rfl fun h => ?_) ?_
  · exact absurd h (tokenByte_ne hb).2.2.1
  · have hrun : (requestParser withTicket).Passes NoSlip
        ⟨.headerName, { req.flushHeader with
          currentHeaderName := req.flushHeader.currentHeaderName ++ [b] }⟩ name
        ⟨.headerName, { req.flushHeader with
          currentHeaderName := req.flushHeader.currentHeaderName ++ [b] ++ name }⟩ :=
      .collect (fun acc => ⟨.headerName, { req.flushHeader with currentHeaderName := acc }⟩)
        (fun c => tokenByte c = true) (fun _ _ hc => step_of_go (consume_name hc))
        (fun _ _ _ => noSlip_of_state (by simp) (by simp) (by simp)) _
        fun c hc => ht c (by simp [hc])
    rw [List.append_assoc, List.singleton_append] at hrun
    exact hrun.append (.single (step_of_go rfl) (noSlip_of_state (by simp) (by simp) (by simp)))

/-- A header line with at least one byte between the colon and its end is read. -/
theorem header_passes {name v : Bytes} {c : UInt8}
    (h : (Line.header name (c :: v)).WellFormed) :
    (requestParser withTicket).Passes NoSlip ⟨.headerLineStart, req⟩
      (Line.header name (c :: v)).bytes
      ⟨.headerLineStart, req.readLine (.header name (c :: v))⟩ := by
  obtain ⟨hne, ht, hv⟩ := h
  have hc := hv c (by simp)
  have hv' : ∀ b ∈ v, textByte b = true := fun b hb => hv b (by simp [hb])
  have h₁ := @name_passes withTicket req _ hne ht
  set named : Request := { req.flushHeader with
    currentHeaderName := req.flushHeader.currentHeaderName ++ name }
  have h₂ : (requestParser withTicket).Passes NoSlip ⟨.spaceBeforeHeaderValue, named⟩
      (c :: (v ++ [13, 10])) ⟨.headerLineStart, req.readLine (.header name (c :: v))⟩ := by
    by_cases hs : c = 32
    · subst hs
      exact .cons (step_of_go rfl) (noSlip_text rfl hc) (value_passes hv')
    · have hstep : consume ⟨.spaceBeforeHeaderValue, named⟩ c = (⟨.headerValue,
          { named with currentHeaderValue := named.currentHeaderValue ++ [c] }⟩, none) := by
        simp only [consume, goTo, if_neg hs]
      have hl : lineValue (c :: v) = c :: v := by
        unfold lineValue
        split
        · rename_i heq
          cases heq
          exact absurd rfl hs
        · rfl
      have hrun := @value_passes withTicket
        { named with currentHeaderValue := named.currentHeaderValue ++ [c] } _ hv'
      simp only [List.append_assoc, List.singleton_append] at hrun
      simp only [Request.readLine, hl]
      exact .cons (step_of_go hstep) (noSlip_text rfl hc) hrun
  have hall := h₁.append h₂
  simpa only [Line.bytes, List.append_assoc, List.cons_append] using hall

/-- A header line with nothing between the colon and its end is rejected: the carriage return is
taken into the value, and the newline then is not allowed there. -/
theorem header_stops {name rest : Bytes} (h : (Line.header name []).WellFormed) :
    ∃ t, (requestParser withTicket).Stops ⟨.headerLineStart, req⟩
      ((Line.header name []).bytes ++ rest) .rejected t rest := by
  obtain ⟨hne, ht, -⟩ := h
  have h₁ := (@name_passes withTicket req _ hne ht).goes
  have hrej : ∀ r : Request, consume ⟨.headerValue, r⟩ 10 = (⟨.headerValue, r⟩, some .rejected) :=
    fun _ => rfl
  have hbytes : (Line.header name []).bytes ++ rest = name ++ [58] ++ 13 :: 10 :: rest := by
    simp [Line.bytes]
  rw [hbytes]
  exact ⟨_, h₁.stops (.cons (step_of_go rfl) (.here (step_of_reject (hrej _))))⟩

/-- A continuation line is read once a header is stored. -/
theorem more_passes {blanks text : Bytes} (h : (Line.more blanks text).WellFormed)
    (hh : req.headers.isEmpty = false) :
    (requestParser withTicket).Passes NoSlip ⟨.headerLineStart, req⟩
      (Line.more blanks text).bytes
      ⟨.headerLineStart, req.readLine (.more blanks text)⟩ := by
  obtain ⟨hne, hb, ht, hsp⟩ := h
  obtain ⟨b, blanks, rfl⟩ := List.exists_cons_of_ne_nil hne
  have hstart : ∀ c, blankByte c = true →
      consume ⟨.headerLineStart, req⟩ c = (⟨.headerLws, req⟩, none) := by
    intro c hc
    have hc' : c = 32 ∨ c = 9 := by simpa [blankByte] using hc
    have h13 : c ≠ 13 := by rcases hc' with rfl | rfl <;> decide
    simp [consume, goTo, h13, hh, hc']
  have hlws : ∀ c, blankByte c = true →
      consume ⟨.headerLws, req⟩ c = (⟨.headerLws, req⟩, none) := by
    intro c hc
    have hc' : c = 32 ∨ c = 9 := by simpa [blankByte] using hc
    have h13 : c ≠ 13 := by rcases hc' with rfl | rfl <;> decide
    simp [consume, goTo, h13, hc']
  have hblanks : (requestParser withTicket).Passes NoSlip ⟨.headerLws, req⟩ blanks
      ⟨.headerLws, req⟩ :=
    .fold (fun _ : Unit => ⟨.headerLws, req⟩) (fun _ _ => ()) (fun c => blankByte c = true)
      (fun _ _ hc => step_of_go (hlws _ hc))
      (fun _ _ _ => noSlip_of_state (by simp) (by simp) (by simp)) ()
      fun c hc => hb c (by simp [hc])
  have htext : (requestParser withTicket).Passes NoSlip ⟨.headerLws, req⟩ (text ++ [13, 10])
      ⟨.headerLineStart, req.readLine (.more (b :: blanks) text)⟩ := by
    cases text with
    | nil =>
      refine .cons (step_of_go rfl) (noSlip_of_state (by simp) (by simp) (by simp)) ?_
      simp only [Request.readLine, List.append_nil]
      exact .single (step_of_go rfl) (noSlip_of_state (by simp) (by simp) (by simp))
    | cons c text =>
      have hc := ht c (by simp)
      have h32 : c ≠ 32 := by
        rintro rfl
        exact hsp rfl
      have hstep : consume ⟨.headerLws, req⟩ c = (⟨.headerValue,
          { req with currentHeaderValue := req.currentHeaderValue ++ [c] }⟩, none) := by
        obtain ⟨h13, -, h9⟩ := textByte_ne hc
        simp [consume, goTo, h13, h32, h9, isCtl_of_textByte hc]
      have hrun := @value_passes withTicket
        { req with currentHeaderValue := req.currentHeaderValue ++ [c] } text
        fun d hd => ht d (by simp [hd])
      simp only [List.append_assoc, List.singleton_append] at hrun
      exact .cons (step_of_go hstep) (noSlip_of_state (by simp) (by simp) (by simp)) hrun
  have hall := Machine.Passes.cons (step_of_go (hstart b (hb b (by simp))))
    (noSlip_lineStart rfl fun h => absurd (hb b (by simp)) (by subst h; decide))
    (hblanks.append htext)
  simpa only [Line.bytes, List.append_assoc, List.cons_append] using hall

/-- Before any header is stored a continuation line is rejected at its first byte. -/
theorem more_stops {blanks text rest : Bytes} (h : (Line.more blanks text).WellFormed)
    (hh : req.headers.isEmpty = true) :
    ∃ t rest', (requestParser withTicket).Stops ⟨.headerLineStart, req⟩
      ((Line.more blanks text).bytes ++ rest) .rejected t rest' := by
  obtain ⟨hne, hb, -, -⟩ := h
  obtain ⟨b, blanks, rfl⟩ := List.exists_cons_of_ne_nil hne
  have hblank : b = 32 ∨ b = 9 := by simpa [blankByte] using hb b (by simp)
  have hrej : consume ⟨.headerLineStart, req⟩ b = (⟨.headerLineStart, req⟩, some .rejected) := by
    rcases hblank with rfl | rfl
    all_goals
      simp only [consume, hh, Parser.reject]
      rfl
  exact ⟨_, _, .here (step_of_reject hrej)⟩

end HeaderLine

end Ews
