import Spinny.Ews.Lines
import Spinny.Ews.Body

/-!
# Header blocks

Headers with their continuation lines, and what the parser makes of a block of them.

* `headers_passes`: after the first header, a block is read into the headers it `recorded`s, as
  long as every line has a byte behind its colon.
* `headers_stops`: a line without one is rejected.
* `block_recorded_iff`: the parser takes a whole block, with the values `recorded` gives, exactly
  if the first header has no continuation line and no line has an empty value without a space.
-/

namespace Ews

open Bytes Boost Spinny

/-- The key under which a header is stored. -/
def headerKey (name : Bytes) : Bytes := toUpperCopy (decodeStr name)

/-- A header with its continuation lines. -/
structure HeaderLine where
  name : Bytes
  /-- A space follows the colon. -/
  space : Bool
  value : Bytes
  /-- The blanks and the text of each continuation line. -/
  continuations : List (Bytes × Bytes)
  name_ne : name ≠ []
  name_token : ∀ b ∈ name, tokenByte b = true
  value_text : ∀ b ∈ value, textByte b = true
  /-- A first space of the value is the one behind the colon. -/
  value_space : space = false → value.head? ≠ some 32
  continuations_ok : ∀ c ∈ continuations, (Line.more c.1 c.2).WellFormed

namespace HeaderLine

/-- What stands between the colon and the end of the first line. -/
def raw (h : HeaderLine) : Bytes := if h.space then 32 :: h.value else h.value

/-- The lines of a header as sent. -/
def lines (h : HeaderLine) : List Line :=
  .header h.name h.raw :: h.continuations.map fun c => .more c.1 c.2

/-- The value of the line and the texts of its continuation lines. -/
def text (h : HeaderLine) : Bytes := h.value ++ h.continuations.flatMap fun c => c.2

/-- The bytes of a header. -/
def bytes (h : HeaderLine) : Bytes := h.lines.flatMap Line.bytes

/-- Some byte stands between the colon and the end of the line. -/
def Plain (h : HeaderLine) : Prop := h.space = true ∨ h.value ≠ []

theorem raw_text (h : HeaderLine) : ∀ b ∈ h.raw, textByte b = true := by
  intro b hb
  unfold raw at hb
  split at hb
  · rcases List.mem_cons.mp hb with rfl | hb
    · rfl
    · exact h.value_text b hb
  · exact h.value_text b hb

theorem lineValue_raw (h : HeaderLine) : lineValue h.raw = h.value := by
  unfold raw
  split
  · rfl
  · rename_i hs
    have hsp := h.value_space (by simpa using hs)
    unfold lineValue
    split
    · rename_i heq
      rw [heq] at hsp
      exact absurd rfl hsp
    · rfl

theorem raw_eq_nil_iff (h : HeaderLine) : h.raw = [] ↔ ¬ h.Plain := by
  unfold raw Plain
  cases h.space <;> simp

theorem header_ok (h : HeaderLine) : (Line.header h.name h.raw).WellFormed :=
  ⟨h.name_ne, h.name_token, h.raw_text⟩

theorem bytes_eq (h : HeaderLine) :
    h.bytes = (Line.header h.name h.raw).bytes ++
      h.continuations.flatMap fun c => (Line.more c.1 c.2).bytes := by
  simp [bytes, lines, List.flatMap_map]

end HeaderLine

/-- The headers a block stands for: each key with the value given for it last. -/
def recordFrom (stored : Headers) (hs : List HeaderLine) : Headers :=
  hs.foldl (fun m h => m.insert (headerKey h.name) (decodeStr h.text)) stored

/-- The headers of a whole block. -/
def recorded (hs : List HeaderLine) : Headers := recordFrom ∅ hs

/-- The request of `base` while `stored` are its headers and one more is being read. -/
def Request.pending (base : Request) (stored : Headers) (name value : Bytes) : Request :=
  { base with headers := stored, currentHeaderName := name, currentHeaderValue := value }

section Pending
variable {withTicket : TicketLookup} {base : Request} {stored : Headers} {name value : Bytes}

theorem flushHeader_pending (h : name ≠ []) :
    (base.pending stored name value).flushHeader =
      base.pending (stored.insert (headerKey name) (decodeStr value)) [] [] := by
  have hn : (base.pending stored name value).currentHeaderName ≠ [] := h
  rw [Request.flushHeader, if_pos hn]
  rfl

theorem flushHeader_empty :
    (base.pending stored [] value).flushHeader = base.pending stored [] value := by
  simp [Request.flushHeader, Request.pending]

/-- The first line of a header, once the one before it is stored. -/
theorem firstLine_passes {req : Request} {h : HeaderLine}
    (hreq : req.flushHeader = base.pending stored [] []) (hp : h.Plain) :
    (requestParser withTicket).Passes NoSlip ⟨.headerLineStart, req⟩
      (Line.header h.name h.raw).bytes
      ⟨.headerLineStart, base.pending stored h.name h.value⟩ := by
  have hr : req.readLine (.header h.name h.raw) = base.pending stored h.name h.value := by
    simp [Request.readLine, hreq, h.lineValue_raw, Request.pending]
  have hok := h.header_ok
  rw [← hr]
  cases hraw : h.raw with
  | nil => exact absurd hp (h.raw_eq_nil_iff.mp hraw)
  | cons c v =>
    rw [hraw] at hok
    exact header_passes hok

/-- Continuation lines extend the value of the header they follow. -/
theorem continuations_passes {cs : List (Bytes × Bytes)}
    (hcs : ∀ c ∈ cs, (Line.more c.1 c.2).WellFormed) (hs : stored.isEmpty = false) :
    (requestParser withTicket).Passes NoSlip
      ⟨.headerLineStart, base.pending stored name value⟩
      (cs.flatMap fun c => (Line.more c.1 c.2).bytes)
      ⟨.headerLineStart, base.pending stored name (value ++ cs.flatMap fun c => c.2)⟩ := by
  induction cs generalizing value with
  | nil => simpa using Machine.Passes.nil _
  | cons c cs ih =>
    have h₁ := @more_passes withTicket (base.pending stored name value) c.1 c.2
      (hcs c (by simp)) hs
    have h₂ := @ih (value ++ c.2) fun d hd => hcs d (by simp [hd])
    rw [List.append_assoc] at h₂
    exact h₁.append h₂

/-- A header after another one. -/
theorem header_passes_next {h : HeaderLine} (hn : name ≠ []) (hp : h.Plain) :
    (requestParser withTicket).Passes NoSlip
      ⟨.headerLineStart, base.pending stored name value⟩ h.bytes
      ⟨.headerLineStart,
        base.pending (stored.insert (headerKey name) (decodeStr value)) h.name h.text⟩ := by
  rw [h.bytes_eq]
  refine (firstLine_passes (flushHeader_pending hn) hp).append ?_
  exact continuations_passes h.continuations_ok (by simp)

/-- **A block after its first header** is read as `recordFrom` says, up to the header still to be
stored. -/
theorem headers_passes {hs : List HeaderLine} (hn : name ≠ []) (hp : ∀ h ∈ hs, h.Plain) :
    ∃ stored' name' value', name' ≠ [] ∧
      (requestParser withTicket).Passes NoSlip
        ⟨.headerLineStart, base.pending stored name value⟩ (hs.flatMap HeaderLine.bytes)
        ⟨.headerLineStart, base.pending stored' name' value'⟩ ∧
      stored'.insert (headerKey name') (decodeStr value') =
        recordFrom (stored.insert (headerKey name) (decodeStr value)) hs := by
  induction hs generalizing stored name value with
  | nil => exact ⟨stored, name, value, hn, by simpa using Machine.Passes.nil _, rfl⟩
  | cons h hs ih =>
    have h₁ := @header_passes_next withTicket base stored name value h hn (hp h (by simp))
    obtain ⟨S, n, v, hne, h₂, heq⟩ :=
      @ih (stored.insert (headerKey name) (decodeStr value)) h.name h.text h.name_ne
        fun g hg => hp g (by simp [hg])
    exact ⟨S, n, v, hne, h₁.append h₂, heq⟩

/-- A header with no byte behind its colon is rejected. -/
theorem plain_stops {h : HeaderLine} {req : Request} (hh : ¬ h.Plain) (rest : Bytes) :
    ∃ t rest', (requestParser withTicket).Stops ⟨.headerLineStart, req⟩ (h.bytes ++ rest)
      .rejected t rest' := by
  have hok := h.header_ok
  have hraw := h.raw_eq_nil_iff.mpr hh
  rw [hraw] at hok
  rw [h.bytes_eq, hraw, List.append_assoc]
  obtain ⟨t, ht⟩ := @header_stops withTicket req _ _ hok
  exact ⟨t, _, ht⟩

/-- A block in which some header has no byte behind its colon is rejected. -/
theorem headers_stops {hs : List HeaderLine} {rest : Bytes} (hn : name ≠ [])
    (hp : ∃ h ∈ hs, ¬ h.Plain) :
    ∃ t rest', (requestParser withTicket).Stops
      ⟨.headerLineStart, base.pending stored name value⟩ (hs.flatMap HeaderLine.bytes ++ rest)
      .rejected t rest' := by
  induction hs generalizing stored name value with
  | nil => simp at hp
  | cons h hs ih =>
    rw [List.flatMap_cons, List.append_assoc]
    by_cases hh : h.Plain
    · have h₁ := @header_passes_next withTicket base stored name value h hn hh
      have hp' : ∃ g ∈ hs, ¬ g.Plain := by
        obtain ⟨g, hg, hgp⟩ := hp
        rcases List.mem_cons.mp hg with rfl | hg
        · exact absurd hh hgp
        · exact ⟨g, hg, hgp⟩
      obtain ⟨t, rest', hs'⟩ := @ih _ h.name h.text h.name_ne hp'
      exact ⟨t, rest', h₁.goes.stops hs'⟩
    · exact plain_stops hh _

end Pending

/-! ## Whole blocks -/

/-- What the parser takes: the first header has no continuation line, and every header has a
byte behind its colon. -/
def BlockTaken (hs : List HeaderLine) : Prop :=
  (∀ h, hs.head? = some h → h.continuations = []) ∧ ∀ h ∈ hs, h.Plain

section Block
variable {withTicket : TicketLookup} {base : Request}

theorem pending_self (h₁ : base.headers = ∅) (h₂ : base.currentHeaderName = [])
    (h₃ : base.currentHeaderValue = []) : base.pending ∅ [] [] = base := by
  cases base
  cases h₁
  cases h₂
  cases h₃
  rfl

/-- A block the parser takes is read: its last header is still to be stored. -/
theorem block_passes {h : HeaderLine} {hs : List HeaderLine} (ht : BlockTaken (h :: hs)) :
    ∃ stored name value, name ≠ [] ∧
      (requestParser withTicket).Passes NoSlip ⟨.headerLineStart, base.pending ∅ [] []⟩
        ((h :: hs).flatMap HeaderLine.bytes)
        ⟨.headerLineStart, base.pending stored name value⟩ ∧
      stored.insert (headerKey name) (decodeStr value) = recorded (h :: hs) := by
  have hc : h.continuations = [] := ht.1 h rfl
  have h₁ := @firstLine_passes withTicket base ∅ _ h flushHeader_empty (ht.2 h (by simp))
  have htext : h.text = h.value := by simp [HeaderLine.text, hc]
  have hbytes : h.bytes = (Line.header h.name h.raw).bytes := by simp [h.bytes_eq, hc]
  obtain ⟨S, n, v, hne, h₂, heq⟩ := @headers_passes withTicket base ∅ h.name h.value hs h.name_ne
    fun g hg => ht.2 g (by simp [hg])
  refine ⟨S, n, v, hne, ?_, ?_⟩
  · rw [List.flatMap_cons, hbytes]
    exact h₁.append h₂
  · rw [heq, ← htext]
    rfl

/-- A block the parser does not take is rejected. -/
theorem block_stops {hs : List HeaderLine} (ht : ¬ BlockTaken hs) (rest : Bytes) :
    ∃ t rest', (requestParser withTicket).Stops ⟨.headerLineStart, base.pending ∅ [] []⟩
      (hs.flatMap HeaderLine.bytes ++ rest) .rejected t rest' := by
  cases hs with
  | nil => exact absurd ⟨by simp, by simp⟩ ht
  | cons h hs =>
    rw [List.flatMap_cons, List.append_assoc]
    by_cases hp : h.Plain
    · have h₁ := @firstLine_passes withTicket base ∅ _ h flushHeader_empty hp
      rw [h.bytes_eq, List.append_assoc]
      cases hc : h.continuations with
      | nil =>
        have hp' : ∃ g ∈ hs, ¬ g.Plain := by
          by_contra hcon
          simp only [not_exists, not_and, not_not] at hcon
          refine ht ⟨fun g hg => ?_, fun g hg => ?_⟩
          · cases hg
            exact hc
          · rcases List.mem_cons.mp hg with rfl | hg
            · exact hp
            · exact hcon g hg
        obtain ⟨t, rest', hs'⟩ := @headers_stops withTicket base ∅ h.name h.value hs rest
          h.name_ne hp'
        exact ⟨t, rest', h₁.goes.stops hs'⟩
      | cons c cs =>
        have hok := h.continuations_ok c (by simp [hc])
        rw [List.flatMap_cons, List.append_assoc]
        obtain ⟨t, rest', hs'⟩ := @more_stops withTicket (base.pending ∅ h.name h.value) c.1 c.2
          _ hok (by simp [Request.pending])
        exact ⟨t, rest', h₁.goes.stops hs'⟩
    · exact plain_stops hp _

/-- The newline that ends the headers: whatever it comes to, it does not reject, and the last
header is stored. -/
theorem newline3_feed {p : Parser} (hs : p.state = .expectingNewline3) :
    ((requestParser withTicket).feed p [10]).result ≠ some .rejected ∧
      ((requestParser withTicket).feed p [10]).state.req.headers = p.req.storeHeader.headers := by
  cases hn : p.req.storeHeader.bodyLength with
  | none =>
    have hst : (requestParser withTicket).step p 10 =
        ({ p with req := p.req.storeHeader }, some (.raised .badLexicalCast)) := by
      simp only [requestParser, parseByte, consume_newline3_none hs hn]
    rw [Machine.feed_cons_stop hst]
    simp
  | some n =>
    have hc := consume_newline3 hs hn
    split at hc
    · rw [Machine.feed_cons_go (step_of_go hc), Machine.feed_nil]
      exact ⟨by simp, rfl⟩
    · obtain ⟨t, r, hst, hsame, hr, -⟩ := @step_of_accept withTicket _ _ _ hc
      rw [Machine.feed_cons_stop hst]
      exact ⟨by simpa using hr, hsame.headers⟩

/-- The parser does not reject the request line and the whole header block, and has then
recorded for each header what the block gives it. -/
def BlockRecorded (withTicket : TicketLookup) (l : RequestLine) (hs : List HeaderLine) : Prop :=
  ((requestParser withTicket).feed .fresh
      (l.bytes ++ hs.flatMap HeaderLine.bytes ++ [13, 10])).result ≠ some .rejected ∧
    ∀ h ∈ hs, ((requestParser withTicket).feed .fresh
      (l.bytes ++ hs.flatMap HeaderLine.bytes ++ [13, 10])).state.req.headers[
        headerKey h.name]? = (recorded hs)[headerKey h.name]?

/-- **Header blocks**: after a valid request line, the parser takes a whole block of headers,
with the value `recorded` for the key of each, if and only if the first header has no
continuation line and every header has a byte behind its colon. -/
theorem block_recorded_iff (withTicket : TicketLookup) (l : RequestLine) (hs : List HeaderLine) :
    BlockRecorded withTicket l hs ↔
      (∀ h, hs.head? = some h → h.continuations = []) ∧
        ∀ h ∈ hs, h.space = true ∨ h.value ≠ [] := by
  unfold BlockRecorded
  have hl := (@requestLine_passes withTicket l).goes
  rw [← @pending_self l.request rfl rfl rfl] at hl
  rw [List.append_assoc, Machine.feed_append_of_goes hl]
  constructor
  · rintro ⟨hr, -⟩
    by_contra ht
    obtain ⟨t, rest', hs'⟩ := @block_stops withTicket l.request hs ht [13, 10]
    unfold Machine.Stops at hs'
    rw [hs'] at hr
    exact hr rfl
  · intro ht
    cases hs with
    | nil =>
      have hgo : (requestParser withTicket).step
          ⟨.headerLineStart, l.request.pending ∅ [] []⟩ 13 =
            (⟨.expectingNewline3, l.request.pending ∅ [] []⟩, none) := step_of_go rfl
      have := @newline3_feed withTicket ⟨.expectingNewline3, l.request.pending ∅ [] []⟩ rfl
      rw [List.flatMap_nil, List.nil_append, Machine.feed_cons_go hgo]
      exact ⟨this.1, by simp⟩
    | cons h hs =>
      obtain ⟨S, n, v, -, hp, heq⟩ := @block_passes withTicket l.request h hs ht
      have hgo : (requestParser withTicket).step
          ⟨.headerLineStart, l.request.pending S n v⟩ 13 =
            (⟨.expectingNewline3, l.request.pending S n v⟩, none) := step_of_go rfl
      have hend := @newline3_feed withTicket ⟨.expectingNewline3, l.request.pending S n v⟩ rfl
      rw [Machine.feed_append_of_goes hp.goes, Machine.feed_cons_go hgo]
      refine ⟨hend.1, fun g _ => ?_⟩
      rw [hend.2, ← heq]
      rfl

end Block

/-- `GET / HTTP/1.0`. -/
def getLine : RequestLine where
  method := lit "GET"
  uri := lit "/"
  major := lit "1"
  minor := lit "0"
  method_ne := by decide
  method_token := by decide +kernel
  uri_ne := by decide
  uri_bytes := by decide +kernel
  major_ne := by decide
  major_digits := by decide +kernel
  minor_ne := by decide
  minor_digits := by decide +kernel

/-- `A: b` with a continuation line ` c`. -/
def foldedHeader : HeaderLine where
  name := lit "A"
  space := true
  value := lit "b"
  continuations := [([32], lit "c")]
  name_ne := by decide
  name_token := by decide +kernel
  value_text := by decide +kernel
  value_space := by decide
  continuations_ok := by
    intro c hc
    obtain rfl := List.mem_singleton.mp hc
    exact ⟨by decide, by decide +kernel, by decide +kernel, by decide⟩

/-- A continuation of the first header is rejected. -/
theorem folded_first_rejected : ¬ ∀ (withTicket : TicketLookup) (l : RequestLine)
    (hs : List HeaderLine), BlockRecorded withTicket l hs := by
  intro h
  have hr := (h (fun _ => .error .notFound) getLine [foldedHeader]).1
  revert hr
  decide

end Ews
