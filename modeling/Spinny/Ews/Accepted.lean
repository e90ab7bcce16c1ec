import Spinny.Ews.HeaderBlock

/-!
# What an accepted request looks like

* `Form`: the consumed bytes are a request line, header lines, an empty line and a body, and
  every stored key comes from one of the header lines.
* `Shape`: for each state of the parser, what it has read so far; `shape_step`: a step that is no
  slip keeps it.
* `accepted_form_iff`: the bytes of an accepted request have the form exactly if no step of the
  run was a `Slip`.
-/

namespace Ews

open Bytes Boost Spinny

/-! ## The form -/

/-- The header names of some lines. -/
def lineNames (lines : List Line) : List Bytes :=
  lines.filterMap fun
    | .header name _ => some name
    | .more _ _ => none

/-- Well-formed lines of which the first is no continuation. -/
structure LinesOk (lines : List Line) : Prop where
  wellFormed : ∀ ln ∈ lines, ln.WellFormed
  head : ∀ ln, lines.head? = some ln → ∃ name value, ln = .header name value

/-- Every stored key comes from a named line. -/
def Keys (req : Request) (lines : List Line) : Prop :=
  ∀ k ∈ req.headers, ∃ name ∈ lineNames lines, k = headerKey name

/-- `s` is `method SP uri SP HTTP/digits.digits CRLF header-lines CRLF body`, with the headers of
`req` from its lines. -/
def Form (s : Bytes) (req : Request) : Prop :=
  ∃ (l : RequestLine) (lines : List Line) (body : Bytes),
    s = l.bytes ++ lines.flatMap Line.bytes ++ [13, 10] ++ body ∧ LinesOk lines ∧ Keys req lines

/-! ## What has been read in each state -/

/-- Method and uri with the spaces behind them. -/
structure StartLine where
  method : Bytes
  uri : Bytes
  method_ne : method ≠ []
  method_token : ∀ b ∈ method, tokenByte b = true
  uri_ne : uri ≠ []
  uri_bytes : ∀ b ∈ uri, uriByte b = true

/-- `method SP uri SP`. -/
def StartLine.bytes (l : StartLine) : Bytes := l.method ++ [32] ++ l.uri ++ [32]

/-- A number in decimal. -/
def Digits (ds : Bytes) : Prop := ds ≠ [] ∧ ∀ b ∈ ds, isDigit b = true

/-- No header has been read. -/
structure NoHeaders (req : Request) : Prop where
  headers : req.headers = ∅
  name : req.currentHeaderName = []

/-- The header being read is the last named line; before the first there is none. -/
def Current (req : Request) (lines : List Line) : Prop :=
  req.currentHeaderName ∈ lineNames lines ∨
    (req.currentHeaderName = [] ∧ lineNames lines = [])

/-- The bytes of a line without its CRLF. -/
def Line.open : Line → Bytes
  | header name value => name ++ [58] ++ value
  | more blanks text => blanks ++ text

/-- `c` is a request line, the lines `lines` and then `c'`. -/
def AfterLines (c : Bytes) (lines : List Line) (c' : Bytes) : Prop :=
  ∃ l : RequestLine, c = l.bytes ++ lines.flatMap Line.bytes ++ c'

/-- What the parser has read when it is in its state. -/
def Shape (p : Parser) (c : Bytes) : Prop :=
  match p.state with
  | .methodStart => c = [] ∧ p.req.method = [] ∧ p.req.uri = [] ∧ NoHeaders p.req
  | .method =>
    c = p.req.method ∧ p.req.method ≠ [] ∧ (∀ b ∈ p.req.method, tokenByte b = true) ∧
      p.req.uri = [] ∧ NoHeaders p.req
  | .uriStart => False
  | .uri =>
    ∃ m, c = m ++ [32] ++ p.req.uri ∧ m ≠ [] ∧ (∀ b ∈ m, tokenByte b = true) ∧
      (∀ b ∈ p.req.uri, uriByte b = true) ∧ NoHeaders p.req
  | .httpVersionH => ∃ l : StartLine, c = l.bytes ∧ NoHeaders p.req
  | .httpVersionT1 => ∃ l : StartLine, c = l.bytes ++ [72] ∧ NoHeaders p.req
  | .httpVersionT2 => ∃ l : StartLine, c = l.bytes ++ [72, 84] ∧ NoHeaders p.req
  | .httpVersionP => ∃ l : StartLine, c = l.bytes ++ [72, 84, 84] ∧ NoHeaders p.req
  | .httpVersionSlash => ∃ l : StartLine, c = l.bytes ++ [72, 84, 84, 80] ∧ NoHeaders p.req
  | .httpVersionMajorStart => ∃ l : StartLine, c = l.bytes ++ lit "HTTP/" ∧ NoHeaders p.req
  | .httpVersionMajor =>
    ∃ (l : StartLine) (x : Bytes), c = l.bytes ++ lit "HTTP/" ++ x ∧ Digits x ∧ NoHeaders p.req
  | .httpVersionMinorStart =>
    ∃ (l : StartLine) (x : Bytes),
      c = l.bytes ++ lit "HTTP/" ++ x ++ [46] ∧ Digits x ∧ NoHeaders p.req
  | .httpVersionMinor =>
    ∃ (l : StartLine) (x y : Bytes),
      c = l.bytes ++ lit "HTTP/" ++ x ++ [46] ++ y ∧ Digits x ∧ Digits y ∧ NoHeaders p.req
  | .expectingNewline1 =>
    ∃ (l : StartLine) (x y : Bytes),
      c = l.bytes ++ lit "HTTP/" ++ x ++ [46] ++ y ++ [13] ∧ Digits x ∧ Digits y ∧
        NoHeaders p.req
  | .headerLineStart =>
    ∃ lines, AfterLines c lines [] ∧ LinesOk lines ∧ Keys p.req lines ∧ Current p.req lines
  | .headerName =>
    ∃ lines, AfterLines c lines p.req.currentHeaderName ∧ LinesOk lines ∧ Keys p.req lines ∧
      p.req.currentHeaderName ≠ [] ∧ ∀ b ∈ p.req.currentHeaderName, tokenByte b = true
  | .spaceBeforeHeaderValue =>
    ∃ lines, AfterLines c lines (p.req.currentHeaderName ++ [58]) ∧ LinesOk lines ∧
      Keys p.req lines ∧ p.req.currentHeaderName ≠ [] ∧
      ∀ b ∈ p.req.currentHeaderName, tokenByte b = true
  | .headerLws =>
    ∃ lines blanks, AfterLines c lines blanks ∧ LinesOk (lines ++ [.more blanks []]) ∧
      Keys p.req lines ∧ Current p.req lines
  | .headerValue =>
    ∃ lines ln, AfterLines c lines ln.open ∧ LinesOk (lines ++ [ln]) ∧
      Keys p.req (lines ++ [ln]) ∧ Current p.req (lines ++ [ln]) ∧
      ∀ blanks, ln ≠ .more blanks []
  | .expectingNewline2 =>
    ∃ lines ln, AfterLines c lines (ln.open ++ [13]) ∧ LinesOk (lines ++ [ln]) ∧
      Keys p.req (lines ++ [ln]) ∧ Current p.req (lines ++ [ln])
  | .expectingNewline3 =>
    ∃ lines, AfterLines c lines [13] ∧ LinesOk lines ∧ Keys p.req lines ∧
      p.req.currentHeaderName ∈ lineNames lines
  | .readingBody =>
    ∃ lines body, AfterLines c lines ([13, 10] ++ body) ∧ LinesOk lines ∧ Keys p.req lines

/-! ## Lines and keys -/

theorem lineNames_append (lines : List Line) (ln : Line) :
    lineNames (lines ++ [ln]) = lineNames lines ++ lineNames [ln] := by
  simp [lineNames]

@[simp] theorem lineNames_more (blanks text : Bytes) : lineNames [.more blanks text] = [] := rfl

@[simp] theorem lineNames_header (name value : Bytes) :
    lineNames [.header name value] = [name] := rfl

theorem Keys.mono {req : Request} {lines : List Line} (h : Keys req lines) (ln : Line) :
    Keys req (lines ++ [ln]) := by
  intro k hk
  obtain ⟨name, hn, rfl⟩ := h k hk
  refine ⟨name, ?_, rfl⟩
  rw [lineNames_append]
  exact List.mem_append_left _ hn

theorem keys_empty {req : Request} (h : req.headers = ∅) (lines : List Line) :
    Keys req lines := by
  intro k hk
  rw [h] at hk
  simp at hk

/-- Storing a header whose name is on a line adds no other key. -/
theorem Keys.store {req : Request} {lines : List Line} (h : Keys req lines)
    (hn : req.currentHeaderName ∈ lineNames lines) : Keys req.storeHeader lines := by
  intro k hk
  simp only [Request.storeHeader, Std.ExtTreeMap.mem_insert,
    Std.LawfulEqCmp.compare_eq_iff_eq] at hk
  rcases hk with rfl | hk
  · exact ⟨_, hn, rfl⟩
  · exact h k hk

theorem Keys.flush {req : Request} {lines : List Line} (h : Keys req lines)
    (hc : Current req lines) : Keys req.flushHeader lines := by
  unfold Request.flushHeader
  split
  · rename_i hne
    exact h.store (hc.resolve_right fun hr => hne hr.1)
  · exact h

theorem flushHeader_name (req : Request) : req.flushHeader.currentHeaderName = [] := by
  unfold Request.flushHeader
  split
  · rfl
  · rename_i h
    simpa using h

/-- A stored header has a line. -/
theorem Keys.ne_nil {req : Request} {lines : List Line} (h : Keys req lines)
    (hh : req.headers.isEmpty = false) : lines ≠ [] := by
  rintro rfl
  have : req.headers = ∅ := by
    rw [Std.ExtTreeMap.eq_empty_iff_forall_not_mem]
    intro k hk
    obtain ⟨name, hn, -⟩ := h k hk
    cases hn
  rw [this] at hh
  simp at hh

theorem linesOk_nil : LinesOk [] := ⟨by simp, by simp⟩

theorem LinesOk.append_header {lines : List Line} (h : LinesOk lines) {name value : Bytes}
    (hw : (Line.header name value).WellFormed) : LinesOk (lines ++ [.header name value]) := by
  refine ⟨fun ln hln => ?_, fun ln hln => ?_⟩
  · rcases List.mem_append.mp hln with hln | hln
    · exact h.wellFormed ln hln
    · obtain rfl := List.mem_singleton.mp hln
      exact hw
  · cases lines with
    | nil =>
      cases hln
      exact ⟨name, value, rfl⟩
    | cons a lines => exact h.head ln hln

theorem LinesOk.append_more {lines : List Line} (h : LinesOk lines) (hne : lines ≠ [])
    {blanks text : Bytes} (hw : (Line.more blanks text).WellFormed) :
    LinesOk (lines ++ [.more blanks text]) := by
  refine ⟨fun ln hln => ?_, fun ln hln => ?_⟩
  · rcases List.mem_append.mp hln with hln | hln
    · exact h.wellFormed ln hln
    · obtain rfl := List.mem_singleton.mp hln
      exact hw
  · cases lines with
    | nil => exact absurd rfl hne
    | cons a lines => exact h.head ln hln

/-- The last line may be replaced by a well-formed one of the same kind. -/
theorem LinesOk.init {lines : List Line} {ln : Line} (h : LinesOk (lines ++ [ln])) :
    LinesOk lines := by
  refine ⟨fun a ha => h.wellFormed a (List.mem_append_left _ ha), fun a ha => ?_⟩
  refine h.head a ?_
  cases lines with
  | nil => cases ha
  | cons b lines => exact ha

theorem LinesOk.last {lines : List Line} {ln : Line} (h : LinesOk (lines ++ [ln])) :
    ln.WellFormed := h.wellFormed ln (by simp)

theorem LinesOk.ne_nil_of_more {lines : List Line} {blanks text : Bytes}
    (h : LinesOk (lines ++ [.more blanks text])) : lines ≠ [] := by
  rintro rfl
  obtain ⟨name, value, he⟩ := h.head _ rfl
  cases he

theorem AfterLines.push {c : Bytes} {lines : List Line} {x : Bytes} (h : AfterLines c lines x)
    (b : UInt8) : AfterLines (c ++ [b]) lines (x ++ [b]) := by
  obtain ⟨l, rfl⟩ := h
  exact ⟨l, by simp⟩

/-- A finished line is one of the lines. -/
theorem AfterLines.line {c : Bytes} {lines : List Line} {ln : Line}
    (h : AfterLines c lines (ln.open ++ [13, 10])) : AfterLines c (lines ++ [ln]) [] := by
  obtain ⟨l, rfl⟩ := h
  refine ⟨l, ?_⟩
  cases ln <;> simp [Line.open, Line.bytes]

/-! ## Steps keep the shape -/

section Steps
variable {req : Request} {c : Bytes} {b : UInt8} {p' : Parser}

theorem shape_methodStart (h : Shape ⟨.methodStart, req⟩ c)
    (hc : consume ⟨.methodStart, req⟩ b = (p', none)) : Shape p' (c ++ [b]) := by
  simp only [Shape] at h
  obtain ⟨rfl, hm, hu, hn⟩ := h
  simp only [consume, goTo, Parser.reject] at hc
  split_ifs at hc with h₁
  · cases hc
    have hb : tokenByte b = true := h₁
    refine ⟨?_, by simp, ?_, hu, ⟨hn.1, hn.2⟩⟩
    · simp [hm]
    · simpa [hm] using hb
  · cases hc

theorem shape_method (h : Shape ⟨.method, req⟩ c)
    (hc : consume ⟨.method, req⟩ b = (p', none)) : Shape p' (c ++ [b]) := by
  simp only [Shape] at h
  obtain ⟨rfl, hne, ht, hu, hn⟩ := h
  simp only [consume, goTo, Parser.reject] at hc
  split_ifs at hc with h₁ h₂
  · cases hc
    refine ⟨req.method, ?_, hne, ht, ?_, hn⟩
    · simp [h₁, hu]
    · simp [hu]
  · cases hc
    refine ⟨rfl, by simp, ?_, hu, ⟨hn.1, hn.2⟩⟩
    intro d hd
    rcases List.mem_append.mp hd with hd | hd
    · exact ht d hd
    · obtain rfl := List.mem_singleton.mp hd
      exact h₂
  · cases hc

theorem shape_uri (h : Shape ⟨.uri, req⟩ c) (hs : NoSlip ⟨.uri, req⟩ b)
    (hc : consume ⟨.uri, req⟩ b = (p', none)) : Shape p' (c ++ [b]) := by
  simp only [Shape] at h
  obtain ⟨m, rfl, hne, ht, hu, hn⟩ := h
  simp only [consume, goTo, Parser.reject] at hc
  split_ifs at hc with h₁ h₂
  · cases hc
    have hune : req.uri ≠ [] := by
      intro he
      rw [h₁] at hs
      exact hs (.emptyUri rfl he)
    refine ⟨⟨m, req.uri, hne, ht, hune, hu⟩, ?_, hn⟩
    simp [StartLine.bytes, h₁]
  · cases hc
  · cases hc
    refine ⟨m, by simp, hne, ht, ?_, ⟨hn.1, hn.2⟩⟩
    intro d hd
    rcases List.mem_append.mp hd with hd | hd
    · exact hu d hd
    · obtain rfl := List.mem_singleton.mp hd
      simpa [uriByte, textByte, h₁] using h₂

/-- A digit behind digits. -/
theorem Digits.push {ds : Bytes} (h : ds = [] ∨ Digits ds) (hb : isDigitChar (charVal b) = true) :
    Digits (ds ++ [b]) := by
  refine ⟨by simp, fun d hd => ?_⟩
  rcases List.mem_append.mp hd with hd | hd
  · rcases h with rfl | h
    · cases hd
    · exact h.2 d hd
  · obtain rfl := List.mem_singleton.mp hd
    exact isDigit_of_isDigitChar hb

/-- The states that read one fixed byte of `HTTP`. -/
theorem shape_http {st : State}
    (hst : st = .httpVersionH ∨ st = .httpVersionT1 ∨ st = .httpVersionT2 ∨ st = .httpVersionP)
    (h : Shape ⟨st, req⟩ c) (hc : consume ⟨st, req⟩ b = (p', none)) : Shape p' (c ++ [b]) := by
  rcases hst with rfl | rfl | rfl | rfl
  all_goals
    simp only [Shape] at h
    obtain ⟨l, rfl, hn⟩ := h
    simp only [consume, goTo, Parser.reject] at hc
    split_ifs at hc with h₁
    · cases hc
      exact ⟨l, by simp [h₁], hn⟩
    · cases hc

theorem shape_slash (h : Shape ⟨.httpVersionSlash, req⟩ c)
    (hc : consume ⟨.httpVersionSlash, req⟩ b = (p', none)) : Shape p' (c ++ [b]) := by
  simp only [Shape] at h
  obtain ⟨l, rfl, hn⟩ := h
  simp only [consume, goTo, Parser.reject] at hc
  split_ifs at hc with h₁
  · cases hc
    exact ⟨l, by simp [h₁, lit], ⟨hn.1, hn.2⟩⟩
  · cases hc

theorem shape_majorStart (h : Shape ⟨.httpVersionMajorStart, req⟩ c)
    (hc : consume ⟨.httpVersionMajorStart, req⟩ b = (p', none)) : Shape p' (c ++ [b]) := by
  simp only [Shape] at h
  obtain ⟨l, rfl, hn⟩ := h
  simp only [consume, goTo, Parser.reject] at hc
  split_ifs at hc with h₁
  · cases hc
    exact ⟨l, [b], rfl, Digits.push (.inl rfl) h₁, ⟨hn.1, hn.2⟩⟩
  · cases hc

theorem shape_major (h : Shape ⟨.httpVersionMajor, req⟩ c)
    (hc : consume ⟨.httpVersionMajor, req⟩ b = (p', none)) : Shape p' (c ++ [b]) := by
  simp only [Shape] at h
  obtain ⟨l, x, rfl, hx, hn⟩ := h
  simp only [consume, goTo, Parser.reject] at hc
  split_ifs at hc with h₁ h₂
  · cases hc
    exact ⟨l, x, by simp [h₁], hx, hn⟩
  · cases hc
    exact ⟨l, x ++ [b], by simp, Digits.push (.inr hx) h₂, ⟨hn.1, hn.2⟩⟩
  · cases hc

theorem shape_minorStart (h : Shape ⟨.httpVersionMinorStart, req⟩ c)
    (hc : consume ⟨.httpVersionMinorStart, req⟩ b = (p', none)) : Shape p' (c ++ [b]) := by
  simp only [Shape] at h
  obtain ⟨l, x, rfl, hx, hn⟩ := h
  simp only [consume, goTo, Parser.reject] at hc
  split_ifs at hc with h₁
  · cases hc
    exact ⟨l, x, [b], rfl, hx, Digits.push (.inl rfl) h₁, ⟨hn.1, hn.2⟩⟩
  · cases hc

theorem shape_minor (h : Shape ⟨.httpVersionMinor, req⟩ c)
    (hc : consume ⟨.httpVersionMinor, req⟩ b = (p', none)) : Shape p' (c ++ [b]) := by
  simp only [Shape] at h
  obtain ⟨l, x, y, rfl, hx, hy, hn⟩ := h
  simp only [consume, goTo, Parser.reject] at hc
  split_ifs at hc with h₁ h₂
  · cases hc
    exact ⟨l, x, y, by simp [h₁], hx, hy, hn⟩
  · cases hc
    exact ⟨l, x, y ++ [b], by simp, hx, Digits.push (.inr hy) h₂, ⟨hn.1, hn.2⟩⟩
  · cases hc

theorem shape_newline1 (h : Shape ⟨.expectingNewline1, req⟩ c)
    (hc : consume ⟨.expectingNewline1, req⟩ b = (p', none)) : Shape p' (c ++ [b]) := by
  simp only [Shape] at h
  obtain ⟨l, x, y, rfl, hx, hy, hn⟩ := h
  simp only [consume, goTo, Parser.reject] at hc
  split_ifs at hc with h₁
  · cases hc
    refine ⟨[], ⟨⟨l.method, l.uri, x, y, l.method_ne, l.method_token, l.uri_ne, l.uri_bytes,
      hx.1, hx.2, hy.1, hy.2⟩, ?_⟩, linesOk_nil, keys_empty hn.1 _, .inr ⟨hn.2, rfl⟩⟩
    simp [RequestLine.bytes, StartLine.bytes, h₁]
  · cases hc

theorem shape_lineStart (h : Shape ⟨.headerLineStart, req⟩ c)
    (hs : NoSlip ⟨.headerLineStart, req⟩ b)
    (hc : consume ⟨.headerLineStart, req⟩ b = (p', none)) : Shape p' (c ++ [b]) := by
  simp only [Shape] at h
  obtain ⟨lines, ha, hl, hk, hcur⟩ := h
  have ha' := ha.push b
  by_cases ht : tokenByte b = true
  · rw [consume_lineStart ht, flushHeader_name] at hc
    cases hc
    refine ⟨lines, ha', hl, ?_, by simp, by simpa using ht⟩
    exact hk.flush hcur
  · have ht' : ¬ isToken (charVal b) = true := ht
    simp only [consume, goTo, Parser.reject, if_neg ht'] at hc
    split_ifs at hc with h₁ h₂
    · cases hc
      have hne : req.currentHeaderName ≠ [] := by
        intro he
        rw [h₁] at hs
        exact hs (.noHeader rfl he)
      rw [h₁] at ha' ⊢
      exact ⟨lines, ha', hl, hk, hcur.resolve_right fun hr => hne hr.1⟩
    · cases hc
      have hh : req.headers.isEmpty = false := by simpa using h₂.1
      have hb : blankByte b = true := by simpa [blankByte] using h₂.2
      refine ⟨lines, [b], ha', hl.append_more (hk.ne_nil hh) ?_, hk, hcur⟩
      exact ⟨by simp, by simpa using hb, by simp, by simp⟩
    · cases hc

theorem shape_lws (h : Shape ⟨.headerLws, req⟩ c)
    (hc : consume ⟨.headerLws, req⟩ b = (p', none)) : Shape p' (c ++ [b]) := by
  simp only [Shape] at h
  obtain ⟨lines, blanks, ha, hl, hk, hcur⟩ := h
  have ha' := ha.push b
  obtain ⟨hbne, hb, -, -⟩ := hl.last
  have hcur' : ∀ text, Current req (lines ++ [.more blanks text]) := by
    intro text
    unfold Current
    rw [lineNames_append, lineNames_more, List.append_nil]
    exact hcur
  simp only [consume, goTo, Parser.reject] at hc
  split_ifs at hc with h₁ h₂ h₃
  · cases hc
    refine ⟨lines, .more blanks [], ?_, hl, hk.mono _, hcur' []⟩
    rw [h₁] at ha' ⊢
    simpa [Line.open] using ha'
  · cases hc
    refine ⟨lines, blanks ++ [b], ha', hl.init.append_more hl.ne_nil_of_more ?_, hk, hcur⟩
    refine ⟨by simp, fun d hd => ?_, by simp, by simp⟩
    rcases List.mem_append.mp hd with hd | hd
    · exact hb d hd
    · obtain rfl := List.mem_singleton.mp hd
      simpa [blankByte] using h₂
  · cases hc
  · cases hc
    refine ⟨lines, .more blanks [b], ha', hl.init.append_more hl.ne_nil_of_more ?_, hk.mono _,
      hcur' [b], by simp⟩
    refine ⟨hbne, hb, ?_, ?_⟩
    · simpa [textByte] using h₃
    · simp only [not_or] at h₂
      simpa using h₂.1

theorem shape_name (h : Shape ⟨.headerName, req⟩ c)
    (hc : consume ⟨.headerName, req⟩ b = (p', none)) : Shape p' (c ++ [b]) := by
  simp only [Shape] at h
  obtain ⟨lines, ha, hl, hk, hne, ht⟩ := h
  have ha' := ha.push b
  simp only [consume, goTo, Parser.reject] at hc
  split_ifs at hc with h₁ h₂
  · cases hc
    rw [h₁] at ha' ⊢
    exact ⟨lines, ha', hl, hk, hne, ht⟩
  · cases hc
    refine ⟨lines, ha', hl, hk, by simp, fun d hd => ?_⟩
    rcases List.mem_append.mp hd with hd | hd
    · exact ht d hd
    · obtain rfl := List.mem_singleton.mp hd
      exact h₂
  · cases hc

theorem shape_space (h : Shape ⟨.spaceBeforeHeaderValue, req⟩ c)
    (hs : NoSlip ⟨.spaceBeforeHeaderValue, req⟩ b)
    (hc : consume ⟨.spaceBeforeHeaderValue, req⟩ b = (p', none)) : Shape p' (c ++ [b]) := by
  simp only [Shape] at h
  obtain ⟨lines, ha, hl, hk, hne, ht⟩ := h
  have ha' := ha.push b
  have hb : textByte b = true := by
    by_contra hb
    exact hs (.control rfl (by simpa using hb))
  have hw : (Line.header req.currentHeaderName [b]).WellFormed :=
    ⟨hne, ht, by simpa using hb⟩
  have hcur : Current req (lines ++ [.header req.currentHeaderName [b]]) := by
    left
    rw [lineNames_append, lineNames_header]
    simp
  simp only [consume, goTo] at hc
  split_ifs at hc <;> cases hc
  all_goals exact ⟨lines, .header req.currentHeaderName [b], ha', hl.append_header hw,
    hk.mono _, hcur, by simp⟩

/-- A line with one more byte of text. -/
def Line.push (b : UInt8) : Line → Line
  | header name value => header name (value ++ [b])
  | more blanks text => more blanks (text ++ [b])

theorem LinesOk.push {lines : List Line} {ln : Line} (h : LinesOk (lines ++ [ln]))
    (hm : ∀ blanks, ln ≠ .more blanks []) (hb : textByte b = true) :
    LinesOk (lines ++ [ln.push b]) := by
  have hpush : ∀ {v : Bytes}, (∀ d ∈ v, textByte d = true) → ∀ d ∈ v ++ [b], textByte d = true := by
    intro v hv d hd
    rcases List.mem_append.mp hd with hd | hd
    · exact hv d hd
    · obtain rfl := List.mem_singleton.mp hd
      exact hb
  cases ln with
  | header name value =>
    obtain ⟨h₁, h₂, h₃⟩ := h.last
    exact h.init.append_header ⟨h₁, h₂, hpush h₃⟩
  | more blanks text =>
    obtain ⟨h₁, h₂, h₃, h₄⟩ := h.last
    refine h.init.append_more h.ne_nil_of_more ⟨h₁, h₂, hpush h₃, ?_⟩
    cases text with
    | nil => exact absurd rfl (hm blanks)
    | cons d text => exact h₄

theorem lineNames_push (ln : Line) (b : UInt8) : lineNames [ln.push b] = lineNames [ln] := by
  cases ln <;> rfl

theorem shape_value (h : Shape ⟨.headerValue, req⟩ c)
    (hc : consume ⟨.headerValue, req⟩ b = (p', none)) : Shape p' (c ++ [b]) := by
  simp only [Shape] at h
  obtain ⟨lines, ln, ha, hl, hk, hcur, hm⟩ := h
  have ha' := ha.push b
  simp only [consume, goTo, Parser.reject] at hc
  split_ifs at hc with h₁ h₂
  · cases hc
    rw [h₁] at ha' ⊢
    exact ⟨lines, ln, ha', hl, hk, hcur⟩
  · cases hc
  · cases hc
    have hb : textByte b = true := by simpa [textByte] using h₂
    have hn : lineNames (lines ++ [ln.push b]) = lineNames (lines ++ [ln]) := by
      rw [lineNames_append, lineNames_append, lineNames_push]
    refine ⟨lines, ln.push b, ?_, hl.push hm hb, ?_, ?_, ?_⟩
    · cases ln <;> simpa [Line.open, Line.push] using ha'
    · intro k hk'
      rw [hn]
      exact hk k hk'
    · unfold Current
      rw [hn]
      exact hcur
    · cases ln <;> simp [Line.push]

theorem shape_newline2 (h : Shape ⟨.expectingNewline2, req⟩ c)
    (hc : consume ⟨.expectingNewline2, req⟩ b = (p', none)) : Shape p' (c ++ [b]) := by
  simp only [Shape] at h
  obtain ⟨lines, ln, ha, hl, hk, hcur⟩ := h
  have ha' := ha.push b
  simp only [consume, goTo, Parser.reject] at hc
  split_ifs at hc with h₁
  · cases hc
    rw [h₁, List.append_assoc] at ha'
    rw [h₁]
    exact ⟨lines ++ [ln], ha'.line, hl, hk, hcur⟩
  · cases hc

end Steps

/-- The end of the headers keeps the keys: the last header is on a line. -/
theorem keys_finish {p p' : Parser} {lines : List Line} {r : Option Parsed}
    (hk : Keys p.req lines) (hn : p.req.currentHeaderName ∈ lineNames lines)
    (hc : finishHeaders p = (p', r)) : Keys p'.req lines := by
  have hs := hk.store hn
  simp only [finishHeaders, goTo] at hc
  split at hc
  · cases hc
    exact hs
  · split at hc <;> cases hc <;> exact hs

/-- **A step keeps the shape** unless it is a slip. -/
theorem shape_step {p p' : Parser} {c : Bytes} {b : UInt8} (h : Shape p c) (hs : NoSlip p b)
    (hc : consume p b = (p', none)) : Shape p' (c ++ [b]) := by
  obtain ⟨st, req⟩ := p
  cases st
  case methodStart => exact shape_methodStart h hc
  case method => exact shape_method h hc
  case uriStart => exact h.elim
  case uri => exact shape_uri h hs hc
  case httpVersionH => exact shape_http (.inl rfl) h hc
  case httpVersionT1 => exact shape_http (.inr (.inl rfl)) h hc
  case httpVersionT2 => exact shape_http (.inr (.inr (.inl rfl))) h hc
  case httpVersionP => exact shape_http (.inr (.inr (.inr rfl))) h hc
  case httpVersionSlash => exact shape_slash h hc
  case httpVersionMajorStart => exact shape_majorStart h hc
  case httpVersionMajor => exact shape_major h hc
  case httpVersionMinorStart => exact shape_minorStart h hc
  case httpVersionMinor => exact shape_minor h hc
  case expectingNewline1 => exact shape_newline1 h hc
  case headerLineStart => exact shape_lineStart h hs hc
  case headerLws => exact shape_lws h hc
  case headerName => exact shape_name h hc
  case spaceBeforeHeaderValue => exact shape_space h hs hc
  case headerValue => exact shape_value h hc
  case expectingNewline2 => exact shape_newline2 h hc
  case expectingNewline3 =>
    obtain ⟨lines, ha, hl, hk, hn⟩ := h
    by_cases hb : b = 10
    · subst hb
      have hk' := keys_finish hk hn hc
      have hst : p'.state = .readingBody := by
        cases hlen : req.storeHeader.bodyLength with
        | none => rw [consume_newline3_none rfl hlen] at hc; cases hc
        | some n =>
          rw [consume_newline3 rfl hlen] at hc
          split at hc <;> cases hc
          rfl
      unfold Shape
      rw [hst]
      exact ⟨lines, [], by simpa using ha.push 10, hl, hk'⟩
    · rw [consume_newline3_other rfl hb] at hc
      cases hc
  case readingBody =>
    obtain ⟨lines, body, ha, hl, hk⟩ := h
    rw [consume_readingBody rfl] at hc
    split at hc
    · cases hc
    · cases hc
      exact ⟨lines, body ++ [b], by simpa using ha.push b, hl, hk⟩

section Accepted
variable {withTicket : TicketLookup}

theorem shape_fresh : Shape .fresh [] := ⟨rfl, rfl, rfl, rfl, rfl⟩

/-- Along a run without slips the parser keeps the shape. -/
theorem shape_run {s : Bytes} {p : Parser} (hg : (requestParser withTicket).Goes .fresh s p)
    (ha : (requestParser withTicket).Along NoSlip .fresh s) : Shape p s := by
  induction s using List.reverseRecOn generalizing p with
  | nil =>
    rw [Machine.goes_nil_iff.mp hg]
    exact shape_fresh
  | append_singleton s b ih =>
    obtain ⟨u, hu, hub⟩ := hg.prefix
    obtain ⟨hs, hb⟩ := hu.along_append.mp ha
    have hstep : (requestParser withTicket).step u b = (p, none) := by
      rcases hst : (requestParser withTicket).step u b with ⟨t, _ | r⟩
      · rw [hub.unique (.single hst)]
      · exact (hub.not_stops (.here hst)).elim
    exact shape_step (ih hu hs) hb.head (consume_of_go hstep)

/-- An accepted request whose run has no slip has the form. -/
theorem form_of_noSlip {s : Bytes} {t : Parser}
    (h : (requestParser withTicket).Stops .fresh s .accepted t [])
    (ha : (requestParser withTicket).Along NoSlip .fresh s) : Form s t.req := by
  obtain ⟨pre, b, u, rfl, hg, hst⟩ := h.split
  have hshape := shape_run hg (hg.along_append.mp ha).1
  obtain ⟨p', hc, hsame, -⟩ := consume_of_accept hst
  have hkeys : ∀ lines, Keys p'.req lines → Keys t.req lines := by
    intro lines hk k hk'
    rw [hsame.headers] at hk'
    exact hk k hk'
  by_cases h3 : u.state = .expectingNewline3
  · unfold Shape at hshape
    rw [h3] at hshape
    obtain ⟨lines, ⟨l, rfl⟩, hl, hk, hn⟩ := hshape
    by_cases hb : b = 10
    · subst hb
      have hfin : consume u 10 = finishHeaders u := by
        obtain ⟨st, req⟩ := u
        cases h3
        rfl
      rw [hfin] at hc
      exact ⟨l, lines, [], by simp, hl, hkeys _ (keys_finish hk hn hc)⟩
    · rw [consume_newline3_other h3 hb] at hc
      cases hc
  · by_cases hr : u.state = .readingBody
    · unfold Shape at hshape
      rw [hr] at hshape
      obtain ⟨lines, body, ⟨l, rfl⟩, hl, hk⟩ := hshape
      rw [consume_readingBody hr] at hc
      obtain ⟨rfl, -⟩ := Prod.mk.inj hc
      exact ⟨l, lines, body ++ [b], by simp, hl, hkeys _ hk⟩
    · have hn := (@consume_head u b h3 hr).1
      rw [hc] at hn
      simp at hn

/-- Reading well-formed lines that the parser does not reject passes no slip. -/
theorem lines_passes {lines : List Line} {req : Request} {ys rest : Bytes} {t : Parser}
    (hw : ∀ ln ∈ lines, ln.WellFormed)
    (hreq : req.headers.isEmpty = false → req.currentHeaderName ≠ [])
    (h : (requestParser withTicket).Stops ⟨.headerLineStart, req⟩
      (lines.flatMap Line.bytes ++ ys) .accepted t rest) :
    ∃ req', (requestParser withTicket).Passes NoSlip ⟨.headerLineStart, req⟩
        (lines.flatMap Line.bytes) ⟨.headerLineStart, req'⟩ ∧
      (lines ≠ [] → req'.currentHeaderName ≠ []) ∧ (lines = [] → req' = req) := by
  induction lines generalizing req with
  | nil => exact ⟨req, .nil _, by simp, by simp⟩
  | cons ln lines ih =>
    rw [List.flatMap_cons, List.append_assoc] at h
    have hln := hw ln (by simp)
    have key : (requestParser withTicket).Passes NoSlip ⟨.headerLineStart, req⟩ ln.bytes
        ⟨.headerLineStart, req.readLine ln⟩ ∧ (req.readLine ln).currentHeaderName ≠ [] := by
      cases ln with
      | header name value =>
        have hne : (req.readLine (.header name value)).currentHeaderName ≠ [] := by
          simp only [Request.readLine, flushHeader_name, List.nil_append]
          exact hln.1
        cases value with
        | nil =>
          obtain ⟨t', ht'⟩ := @header_stops withTicket req name (lines.flatMap Line.bytes ++ ys) hln
          cases (h.unique ht').1
        | cons c v => exact ⟨header_passes hln, hne⟩
      | more blanks text =>
        cases hh : req.headers.isEmpty with
        | true =>
          obtain ⟨t', rest', ht'⟩ :=
            @more_stops withTicket req _ _ (lines.flatMap Line.bytes ++ ys) hln hh
          cases (h.unique ht').1
        | false => exact ⟨more_passes hln hh, hreq hh⟩
    obtain ⟨req', hp, hne, -⟩ := ih (fun a ha => hw a (by simp [ha])) (fun _ => key.2)
      ((key.1.goes.stops_iff).mp h)
    refine ⟨req', key.1.append hp, fun _ => ?_, by simp⟩
    rcases eq_or_ne lines [] with rfl | hl
    · rw [List.flatMap_nil] at hp
      cases Machine.goes_nil_iff.mp hp.goes
      exact key.2
    · exact hne hl

/-- After the headers no byte is a slip. -/
theorem along_noSlip_body {p : Parser} (s : Bytes)
    (hp : p.state = .expectingNewline3 ∨ p.state = .readingBody) :
    (requestParser withTicket).Along NoSlip p s := by
  induction s generalizing p with
  | nil => trivial
  | cons b s ih =>
    have hb : NoSlip p b := by
      rcases hp with hp | hp <;> exact noSlip_of_state (by simp [hp]) (by simp [hp]) (by simp [hp])
    rcases hst : (requestParser withTicket).step p b with ⟨u, _ | r⟩
    · refine (Machine.along_cons_go hst).mpr ⟨hb, ih (.inr ?_)⟩
      have hc := consume_of_go hst
      rcases hp with hp | hp
      · by_cases hb10 : b = 10
        · subst hb10
          cases hlen : p.req.storeHeader.bodyLength with
          | none => rw [consume_newline3_none hp hlen] at hc; cases hc
          | some n =>
            rw [consume_newline3 hp hlen] at hc
            split at hc <;> cases hc
            rfl
        · rw [consume_newline3_other hp hb10] at hc
          cases hc
      · rw [consume_readingBody hp] at hc
        obtain ⟨rfl, -⟩ := Prod.mk.inj hc
        rfl
    · exact (Machine.along_cons_stop hst).mpr hb

theorem reading_headers {p t : Parser} {s rest : Bytes} (hp : p.state = .readingBody)
    (h : (requestParser withTicket).Stops p s .accepted t rest) :
    t.req.headers = p.req.headers := by
  induction s generalizing p with
  | nil => exact (Machine.not_stops_nil h).elim
  | cons b s ih =>
    have hc := @consume_readingBody p b hp
    split at hc
    · obtain ⟨t', r, hst, hsame, -, -⟩ := @step_of_accept withTicket _ _ _ hc
      obtain ⟨-, rfl, -⟩ := (Machine.stops_cons_of_stop hst).mp h
      exact hsame.headers
    · exact @ih ⟨.readingBody, { p.req with body := p.req.body ++ [b] }⟩ rfl
        ((Machine.stops_cons_of_go (step_of_go hc)).mp h)

/-- The headers of an accepted request are those at the end of its headers. -/
theorem newline3_headers {p t : Parser} {s rest : Bytes} (hp : p.state = .expectingNewline3)
    (h : (requestParser withTicket).Stops p s .accepted t rest) :
    t.req.headers = p.req.storeHeader.headers := by
  cases s with
  | nil => exact (Machine.not_stops_nil h).elim
  | cons b s =>
    by_cases hb : b = 10
    · subst hb
      cases hlen : p.req.storeHeader.bodyLength with
      | none =>
        have hc := consume_newline3_none hp hlen
        have hst : (requestParser withTicket).step p 10 =
            ({ p with req := p.req.storeHeader }, some (.raised .badLexicalCast)) := by
          simp only [requestParser, parseByte, hc]
        cases ((Machine.stops_cons_of_stop hst).mp h).1
      | some n =>
        have hc := consume_newline3 hp hlen
        split at hc
        · have := (Machine.stops_cons_of_go (step_of_go hc)).mp h
          rw [reading_headers rfl this]
          rfl
        · obtain ⟨t', r, hst, hsame, -, -⟩ := @step_of_accept withTicket _ _ _ hc
          obtain ⟨-, rfl, -⟩ := (Machine.stops_cons_of_stop hst).mp h
          exact hsame.headers
    · have hc := consume_newline3_other hp hb
      cases ((Machine.stops_cons_of_stop (step_of_reject hc)).mp h).1

/-- The run over an accepted request that has the form has no slip. -/
theorem noSlip_of_form {s : Bytes} {t : Parser}
    (h : (requestParser withTicket).Stops .fresh s .accepted t []) (hf : Form s t.req) :
    (requestParser withTicket).Along NoSlip .fresh s := by
  obtain ⟨l, lines, body, rfl, hl, hk⟩ := hf
  have hline := @requestLine_passes withTicket l
  simp only [List.append_assoc] at h ⊢
  have h₁ := hline.goes.stops_iff.mp h
  obtain ⟨req', hp, hne, hnil⟩ := lines_passes hl.wellFormed
    (fun hh => by simp [RequestLine.request, Request.fresh] at hh) h₁
  have h₂ := hp.goes.stops_iff.mp h₁
  have hcr : (requestParser withTicket).step ⟨.headerLineStart, req'⟩ 13 =
      (⟨.expectingNewline3, req'⟩, none) := step_of_go rfl
  have hname : req'.currentHeaderName ≠ [] := by
    rcases eq_or_ne lines [] with rfl | hlines
    · -- With no line the parser stores the empty key, which no line has.
      cases hnil rfl
      have h₃ := newline3_headers rfl ((Machine.stops_cons_of_go hcr).mp h₂)
      obtain ⟨name, hn, -⟩ := hk [] (by rw [h₃]; simp [Request.storeHeader, RequestLine.request,
        Request.fresh, decodeStr, toUpperCopy])
      cases hn
    · exact hne hlines
  rw [hline.goes.along_append, hp.goes.along_append]
  refine ⟨hline.along, hp.along, (Machine.along_cons_go hcr).mpr ⟨?_, ?_⟩⟩
  · exact noSlip_lineStart rfl fun _ => hname
  · exact along_noSlip_body _ (.inl rfl)

/-- **Soundness of acceptance**: the bytes of an accepted request have the form, with every
stored key from a named line, if and only if no step of the run was a slip. -/
theorem accepted_form_iff (withTicket : TicketLookup) (s rest : Bytes) (t : Parser)
    (h : (requestParser withTicket).Stops .fresh (s ++ rest) .accepted t rest) :
    Form s t.req ↔ (requestParser withTicket).Along NoSlip .fresh s :=
  ⟨noSlip_of_form h.consumed, form_of_noSlip h.consumed⟩

end Accepted

/-- A `GET` with one header. -/
def getBytes : Bytes := lit "GET / HTTP/1.0\r\nA: b\r\n\r\n"

theorem accepted_form_iff_get : ∃ t,
    (requestParser fun _ => .error .notFound).Stops .fresh getBytes .accepted t [] ∧
      (Form getBytes t.req ↔
        (requestParser fun _ => .error .notFound).Along NoSlip .fresh getBytes) := by
  have hs : (requestParser fun _ => .error .notFound).Stops .fresh (getBytes ++ []) .accepted
      ((requestParser fun _ => .error .notFound).feed .fresh getBytes).state [] := rfl
  exact ⟨_, hs, accepted_form_iff _ getBytes [] _ hs⟩

/-- A request whose uri is empty. -/
def emptyUriBytes : Bytes := lit "GET  HTTP/1.0\r\nA: b\r\n\r\n"

/-- A request with an empty uri is accepted. -/
theorem empty_uri_accepted : ¬ ∀ (withTicket : TicketLookup) (s rest : Bytes) (t : Parser),
    (requestParser withTicket).Stops .fresh (s ++ rest) .accepted t rest → Form s t.req := by
  intro h
  have hs : (requestParser fun _ => .error .notFound).Stops .fresh (emptyUriBytes ++ [])
      .accepted ((requestParser fun _ => .error .notFound).feed .fresh emptyUriBytes).state [] :=
    rfl
  have ha := noSlip_of_form hs.consumed (h _ _ _ _ hs)
  refine Machine.along_iff.mp ha (lit "GET ") 32 (lit "HTTP/1.0\r\nA: b\r\n\r\n")
    ⟨.uri, { Request.fresh with method := lit "GET" }⟩ rfl rfl ?_
  exact .emptyUri rfl rfl

end Ews
