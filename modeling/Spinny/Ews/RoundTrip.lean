import Spinny.Ews.HeaderBlock

/-!
# Reading back a serialised request

`Message` is a request as a client serialises it, `Message.bytes` its bytes.

* `message_stops`: the parser reads a serialised request to its last byte and reports it there,
  with the fields it was made of.
* `roundTrip_iff`: it accepts the request, so that reading it back gives the same request,
  exactly if `boost::regex` does not give up on its uri, its body or its cookies.
-/

namespace Ews

open Bytes Boost Spinny

/-- A header as a client serialises it: `name ": " value`. -/
structure Header where
  name : Bytes
  value : Bytes
  name_ne : name ≠ []
  name_token : ∀ b ∈ name, tokenByte b = true
  value_text : ∀ b ∈ value, textByte b = true

/-- The value given last under a key. -/
def lastValue (hs : List Header) (key : Bytes) : Option Bytes :=
  (hs.reverse.find? fun h => headerKey h.name == key).map Header.value

/-- A request as a client serialises it. -/
structure Message where
  method : Bytes
  uri : Bytes
  major : Nat
  minor : Nat
  headers : List Header
  body : Bytes
  method_ne : method ≠ []
  method_token : ∀ b ∈ method, tokenByte b = true
  uri_ne : uri ≠ []
  uri_bytes : ∀ b ∈ uri, uriByte b = true
  major_lt : major < 2 ^ 31
  minor_lt : minor < 2 ^ 31
  headers_ne : headers ≠ []
  body_lt : body.length < 2 ^ 32
  body_nil : method ≠ lit "POST" → body = []
  /-- The announced length is that of the body. -/
  content_length : method = lit "POST" →
    ∀ v, lastValue headers (lit "CONTENT-LENGTH") = some v → v = decimal body.length
  content_length_given : body ≠ [] → lastValue headers (lit "CONTENT-LENGTH") ≠ none

/-- A header on a line of its own. -/
def Header.line (h : Header) : HeaderLine where
  name := h.name
  space := true
  value := h.value
  continuations := []
  name_ne := h.name_ne
  name_token := h.name_token
  value_text := h.value_text
  value_space := by simp
  continuations_ok := by simp

/-- `name ": " value CRLF`. -/
def Header.bytes (h : Header) : Bytes := h.name ++ [58, 32] ++ h.value ++ [13, 10]

namespace Message

/-- The request line of a message. -/
def line (m : Message) : RequestLine where
  method := m.method
  uri := m.uri
  major := decimal m.major
  minor := decimal m.minor
  method_ne := m.method_ne
  method_token := m.method_token
  uri_ne := m.uri_ne
  uri_bytes := m.uri_bytes
  major_ne := decimal_ne_nil _
  major_digits := fun _ => isDigit_of_mem_decimal
  minor_ne := decimal_ne_nil _
  minor_digits := fun _ => isDigit_of_mem_decimal

/-- `m SP u SP HTTP/maj.min CRLF ( name ": " value CRLF )* CRLF b`. -/
def bytes (m : Message) : Bytes :=
  m.method ++ [32] ++ m.uri ++ [32] ++ lit "HTTP/" ++ decimal m.major ++ [46] ++
    decimal m.minor ++ [13, 10] ++ m.headers.flatMap Header.bytes ++ [13, 10] ++ m.body

/-- The cookies of a message. -/
def cookies (m : Message) : Bytes := ((lastValue m.headers (lit "COOKIE")).map decodeStr).getD []

end Message

/-- Reading the bytes of `m` waits before its last byte, then accepts, with the fields of `m`. -/
def RoundTrip (withTicket : TicketLookup) (m : Message) : Prop :=
  (∀ k < m.bytes.length,
      ((requestParser withTicket).feed .fresh (m.bytes.take k)).result = none) ∧
    ∃ t, (requestParser withTicket).Stops .fresh m.bytes .accepted t [] ∧
      t.req.method = m.method ∧ t.req.uri = m.uri ∧ t.req.httpVersionMajor = m.major ∧
      t.req.httpVersionMinor = m.minor ∧ t.req.body = m.body ∧
      ∀ k, t.req.headers[k]? = (lastValue m.headers k).map decodeStr

/-! ## Versions, keys and lengths -/

/-- The version digits are summed without wrapping as long as the number is below `2 ^ 31`. -/
theorem foldl_addDigit {ds : Bytes} {acc : Nat} (hd : ∀ b ∈ ds, isDigit b = true)
    (hlt : foldDigits acc ds < 2 ^ 31) : ds.foldl addDigit (acc : Int) = foldDigits acc ds := by
  induction ds generalizing acc with
  | nil => rfl
  | cons b ds ih =>
    have hb := isDigit_iff.mp (hd b (by simp))
    have hle := le_foldDigits (acc * 10 + digitVal b) ds
    have hstep : addDigit (acc : Int) b = ((acc * 10 + digitVal b : Nat) : Int) := by
      rw [foldDigits_cons] at hlt
      unfold addDigit digitVal at *
      rw [charVal_of_lt (by omega), toInt32_of_small (by omega) (by omega)]
      omega
    rw [List.foldl_cons, hstep, foldDigits_cons]
    exact ih (fun c hc => hd c (by simp [hc])) (by rwa [foldDigits_cons] at hlt)

theorem version_decimal {n : Nat} (h : n < 2 ^ 31) : version (decimal n) = n := by
  have := @foldl_addDigit (decimal n) 0 (fun _ => isDigit_of_mem_decimal)
    (by rwa [foldDigits_decimal])
  rwa [foldDigits_decimal] at this

theorem recorded_append (hs : List HeaderLine) (h : HeaderLine) :
    recorded (hs ++ [h]) = (recorded hs).insert (headerKey h.name) (decodeStr h.text) := by
  simp [recorded, recordFrom]

/-- What is recorded under a key is the value given last for it. -/
theorem recorded_getElem? (hs : List Header) (k : Bytes) :
    (recorded (hs.map Header.line))[k]? = (lastValue hs k).map decodeStr := by
  induction hs using List.reverseRecOn with
  | nil => simp [recorded, recordFrom, lastValue]
  | append_singleton hs h ih =>
    have htext : h.line.text = h.value := by simp [HeaderLine.text, Header.line]
    rw [List.map_append, List.map_singleton, recorded_append, htext,
      Std.ExtTreeMap.getElem?_insert, ih]
    simp only [lastValue, List.reverse_append, List.reverse_singleton, List.singleton_append,
      List.find?_cons, Std.LawfulEqCmp.compare_eq_iff_eq]
    by_cases hk : headerKey h.name = k
    · have hk' : headerKey h.line.name = k := hk
      simp [hk, hk']
    · have hk' : ¬ headerKey h.line.name = k := hk
      have hf : (headerKey h.name == k) = false := by simpa using hk
      simp [hf, hk']

theorem decodeStr_of_no_percent {s : Bytes} (h : 37 ∉ s) : decodeStr s = s := by
  induction s with
  | nil => rfl
  | cons b s ih =>
    have hb : b ≠ 37 := by
      rintro rfl
      simp at h
    have hs : 37 ∉ s := fun hm => h (by simp [hm])
    unfold decodeStr
    split
    · simp_all
    · simp_all
    · simp_all
    · rename_i heq
      cases heq
      rw [ih hs]

theorem decodeStr_decimal (n : Nat) : decodeStr (decimal n) = decimal n := by
  refine decodeStr_of_no_percent fun h => ?_
  have := isDigit_of_mem_decimal h
  revert this
  decide

/-! ## Reading a message -/

namespace Message
variable {withTicket : TicketLookup} (m : Message)

theorem blockTaken : BlockTaken (m.headers.map Header.line) := by
  refine ⟨fun h hh => ?_, fun h hh => ?_⟩
  · obtain ⟨g, -, rfl⟩ := List.mem_map.mp (List.mem_of_mem_head? hh)
    rfl
  · obtain ⟨g, -, rfl⟩ := List.mem_map.mp hh
    exact .inl rfl

theorem headers_bytes :
    (m.headers.map Header.line).flatMap HeaderLine.bytes = m.headers.flatMap Header.bytes := by
  rw [List.flatMap_map]
  congr 1
  funext h
  simp [HeaderLine.bytes_eq, Header.line, HeaderLine.raw, Header.bytes, Line.bytes]

theorem bytes_eq :
    m.bytes = (m.line.bytes ++ m.headers.flatMap Header.bytes ++ [13]) ++ 10 :: (m.body ++ []) := by
  simp [bytes, RequestLine.bytes, line]

/-- The length announced by the headers of a message is that of its body. -/
theorem bodyLength_eq {req : Request} (hm : req.method = m.method)
    (hh : ∀ k : Bytes, req.headers[k]? = (lastValue m.headers k).map decodeStr) :
    req.bodyLength = some m.body.length := by
  unfold Request.bodyLength Request.getHeaderUnsigned
  rw [hm, hh]
  by_cases hp : m.method = lit "POST"
  · rw [if_pos hp]
    cases hv : lastValue m.headers (lit "CONTENT-LENGTH") with
    | none =>
      have hb : m.body = [] := by
        by_contra hne
        exact m.content_length_given hne hv
      simp [hb]
    | some v =>
      obtain rfl := m.content_length hp v hv
      rw [Option.map_some, decodeStr_decimal]
      exact lexicalCastUnsigned_decimal m.body_lt
  · rw [if_neg hp, m.body_nil hp]
    rfl

/-- The end of the headers of a message. -/
theorem headersEnd : ∃ p, HeadersEnd withTicket
      (m.line.bytes ++ m.headers.flatMap Header.bytes ++ [13]) p m.body.length ∧
    p.req.storeHeader.method = m.method ∧ p.req.storeHeader.uri = m.uri ∧
    p.req.storeHeader.httpVersionMajor = m.major ∧ p.req.storeHeader.httpVersionMinor = m.minor ∧
    ∀ k : Bytes, p.req.storeHeader.headers[k]? = (lastValue m.headers k).map decodeStr := by
  obtain ⟨h, hs, hm⟩ := List.exists_cons_of_ne_nil m.headers_ne
  have htaken := m.blockTaken
  have hbytes := m.headers_bytes
  rw [hm, List.map_cons] at htaken hbytes
  obtain ⟨S, n, v, -, hpass, hrec⟩ := @block_passes withTicket m.line.request _ _ htaken
  have hline := (@requestLine_passes withTicket m.line).goes
  rw [← @pending_self m.line.request rfl rfl rfl] at hline
  rw [hbytes, ← hm] at hpass
  have hcr : (requestParser withTicket).step ⟨.headerLineStart, m.line.request.pending S n v⟩ 13 =
      (⟨.expectingNewline3, m.line.request.pending S n v⟩, none) := step_of_go rfl
  have hgoes := (hline.append hpass.goes).append (.single hcr)
  have hhead : ∀ k : Bytes, (m.line.request.pending S n v).storeHeader.headers[k]? =
      (lastValue m.headers k).map decodeStr := by
    intro k
    have hS : (m.line.request.pending S n v).storeHeader.headers = recorded (m.headers.map Header.line) := by
      rw [hm, List.map_cons, ← hrec]
      rfl
    rw [hS, recorded_getElem?]
  refine ⟨_, ⟨hgoes, rfl, m.bodyLength_eq rfl hhead⟩, rfl, rfl, ?_, ?_, hhead⟩
  · exact version_decimal m.major_lt
  · exact version_decimal m.minor_lt

/-- **A serialised request is read to its last byte and reported there**, with the fields it was
made of; it is accepted unless its final decode raises. -/
theorem message_stops : ∃ r t, (requestParser withTicket).Stops .fresh m.bytes r t [] ∧
    r ≠ .rejected ∧ t.req.method = m.method ∧ t.req.uri = m.uri ∧
    t.req.httpVersionMajor = m.major ∧ t.req.httpVersionMinor = m.minor ∧ t.req.body = m.body ∧
    (∀ k : Bytes, t.req.headers[k]? = (lastValue m.headers k).map decodeStr) ∧
    ∃ req, req.uri = m.uri ∧ req.body = m.body ∧ req.cookies = m.cookies ∧
      (r = .accepted ↔ ¬ DecodeFails withTicket req) := by
  obtain ⟨p, hp, h₁, h₂, h₃, h₄, h₅⟩ := @headersEnd withTicket m
  obtain ⟨r, t, hs, hr, hsame, ha⟩ := headersEnd_stops hp (rfl : m.body.length = _) []
  rw [← m.bytes_eq] at hs
  refine ⟨r, t, hs, hr, ?_, ?_, ?_, ?_, hsame.body, ?_,
    { p.req.finished m.body.length with body := m.body }, h₂, rfl, ?_, ha⟩
  · rw [hsame.method]; exact h₁
  · rw [hsame.uri]; exact h₂
  · rw [hsame.httpVersionMajor]; exact h₃
  · rw [hsame.httpVersionMinor]; exact h₄
  · intro k
    rw [hsame.headers]
    exact h₅ k
  · have := h₅ (lit "COOKIE")
    unfold Request.cookies Request.getHeaderString cookies
    rw [← this]
    rfl

end Message

/-- **Round trip**: with a ticket lookup that does not raise, reading back a serialised request
gives the same request if and only if `boost::regex` searches its uri, its body and its cookies
to their end. -/
theorem roundTrip_iff (withTicket : TicketLookup) (hwt : ∀ t, ¬ LookupRaises withTicket t)
    (m : Message) :
    RoundTrip withTicket m ↔
      givesUp m.uri = false ∧ givesUp m.body = false ∧ givesUp m.cookies = false := by
  obtain ⟨r, t, hs, -, h₁, h₂, h₃, h₄, h₅, h₆, req, hu, hb, hc, ha⟩ :=
    @Message.message_stops withTicket m
  have hacc : r = .accepted ↔
      givesUp m.uri = false ∧ givesUp m.body = false ∧ givesUp m.cookies = false := by
    rw [ha, not_decodeFails_iff hwt, hu, hb, hc]
  rw [← hacc]
  constructor
  · rintro ⟨-, t', hs', -⟩
    exact ((hs.unique hs').1).symm
  · rintro rfl
    exact ⟨fun k hk => hs.take_result hk, t, hs, h₁, h₂, h₃, h₄, h₅, h₆⟩

theorem plainName_ne : lit "A" ≠ [] := by
  decide

theorem plainName_token : ∀ b ∈ lit "A", tokenByte b = true := by
  decide +kernel

theorem plainValue_text : ∀ b ∈ lit "b", textByte b = true := by
  decide +kernel

/-- `A: b`. -/
def plainHeader : Header where
  name := lit "A"
  value := lit "b"
  name_ne := plainName_ne
  name_token := plainName_token
  value_text := plainValue_text

theorem get_ne : lit "GET" ≠ [] := by
  decide

theorem get_token : ∀ b ∈ lit "GET", tokenByte b = true := by
  decide +kernel

/-- A `GET` of a uri over HTTP/1.0 with one header. -/
def getMessage (uri : Bytes) (hne : uri ≠ []) (hb : ∀ b ∈ uri, uriByte b = true) : Message where
  method := lit "GET"
  uri := uri
  major := 1
  minor := 0
  headers := [plainHeader]
  body := []
  method_ne := get_ne
  method_token := get_token
  uri_ne := hne
  uri_bytes := hb
  major_lt := by decide
  minor_lt := by decide
  headers_ne := by simp
  body_lt := by simp
  body_nil := by simp
  content_length := by decide
  content_length_given := by simp

/-- A lookup that finds no user raises nothing that escapes. -/
theorem notFound_silent : ∀ t, ¬ LookupRaises (fun _ => .error .notFound) t := by
  rintro t ⟨e, he, hne⟩
  cases he
  exact hne rfl

theorem roundTrip_iff_get :
    RoundTrip (fun _ => .error .notFound) (getMessage [47] (by decide) (by decide +kernel)) :=
  (roundTrip_iff (fun _ => .error .notFound)
    notFound_silent (getMessage [47] (by decide) (by decide +kernel))).mpr
    ⟨givesUp_of_short (by decide), givesUp_of_short (by decide), givesUp_of_short (by decide)⟩

/-- 1200 times `a`. -/
def longUri : Bytes := List.replicate 1200 97

theorem uriByte_longUri : ∀ b ∈ longUri, uriByte b = true := by
  intro b hb
  obtain rfl := List.eq_of_mem_replicate hb
  decide

/-- `boost::regex` gives up on a uri of 1200 bytes without a `=`. -/
theorem givesUp_longUri : givesUp longUri = true := by
  refine givesUp_of_overrun (formSearch_replicate (by decide) (by decide) ?_)
  simp only [longUri, List.length_replicate, maxStateCount, formStates]
  decide

/-- A `GET` of a long uri is not read back: reading its last byte raises. -/
theorem long_uri_raises : ¬ ∀ (withTicket : TicketLookup), (∀ t, ¬ LookupRaises withTicket t) →
    ∀ m : Message, RoundTrip withTicket m := by
  intro h
  obtain ⟨-, t, hs, -⟩ := h _ notFound_silent (getMessage longUri (by decide) uriByte_longUri)
  obtain ⟨r, t', hs', -, -, -, -, -, -, -, req, hu, -, -, ha⟩ :=
    @Message.message_stops (fun _ => .error .notFound) (getMessage longUri (by decide) uriByte_longUri)
  have hr := (hs'.unique hs).1
  refine ha.mp hr.symm (.inl ?_)
  rw [hu]
  exact givesUp_longUri

end Ews
