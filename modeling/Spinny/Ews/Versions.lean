import Spinny.Ews.Accepted
import Spinny.Ews.RoundTrip

/-!
# The version of an accepted request

The states of the version read any number of digits into an `int`. The addition of a digit is
`v * 10 + input - '0'`, whose left half is evaluated first: it leaves the range of an `int`
before the version does.

* `NoOverflow`: a step of the parser that computes no number outside of `int`.
* `VersionLine`: the request line of any accepted request; its digits are those of the version.
* `versions_iff`: the two numbers are read as they are written, and no step overflows, exactly if
  they are small enough.
-/

namespace Ews

open Bytes Boost Spinny

/-! ## The request line of any accepted request -/

/-- Method and uri: two texts without a space, also empty ones. -/
structure Names where
  method : Bytes
  uri : Bytes
  method_free : 32 ∉ method
  uri_free : 32 ∉ uri

/-- `method SP uri SP`. -/
def Names.bytes (n : Names) : Bytes := n.method ++ [32] ++ n.uri ++ [32]

/-- What stands before the header lines. -/
structure VersionLine extends Names where
  major : Bytes
  minor : Bytes
  major_digits : Digits major
  minor_digits : Digits minor

/-- `method SP uri SP HTTP/digits.digits CRLF`. -/
def VersionLine.bytes (l : VersionLine) : Bytes :=
  l.toNames.bytes ++ lit "HTTP/" ++ l.major ++ [46] ++ l.minor ++ [13, 10]

/-- A text is cut at the first place of a byte in one way. -/
theorem cut_unique {c : UInt8} {x x' z z' : Bytes} (hx : c ∉ x) (hx' : c ∉ x')
    (h : x ++ c :: z = x' ++ c :: z') : x = x' ∧ z = z' := by
  induction x generalizing x' with
  | nil =>
    cases x' with
    | nil => exact ⟨rfl, (List.cons.inj h).2⟩
    | cons b x' =>
      obtain rfl := (List.cons.inj h).1
      exact absurd List.mem_cons_self hx'
  | cons a x ih =>
    rw [List.mem_cons, not_or] at hx
    cases x' with
    | nil => exact absurd (List.cons.inj h).1.symm hx.1
    | cons b x' =>
      rw [List.mem_cons, not_or] at hx'
      obtain ⟨rfl, htail⟩ := List.cons.inj h
      obtain ⟨rfl, hz⟩ := ih hx.2 hx'.2 htail
      exact ⟨rfl, hz⟩

theorem Digits.not_mem {ds : Bytes} (h : Digits ds) : 46 ∉ ds ∧ 13 ∉ ds :=
  ⟨fun hm => (isDigit_ne (h.2 _ hm)).1 rfl, fun hm => (isDigit_ne (h.2 _ hm)).2 rfl⟩

/-- The bytes of a request determine its version. -/
theorem VersionLine.unique {l l' : VersionLine} {tail tail' : Bytes}
    (h : l.bytes ++ tail = l'.bytes ++ tail') : l.major = l'.major ∧ l.minor = l'.minor := by
  simp only [bytes, Names.bytes, List.append_assoc, List.cons_append, List.nil_append] at h
  obtain ⟨-, h⟩ := cut_unique l.method_free l'.method_free h
  obtain ⟨-, h⟩ := cut_unique l.uri_free l'.uri_free h
  have h := List.append_cancel_left h
  obtain ⟨hmajor, h⟩ := cut_unique l.major_digits.not_mem.1 l'.major_digits.not_mem.1 h
  obtain ⟨hminor, -⟩ := cut_unique l.minor_digits.not_mem.2 l'.minor_digits.not_mem.2 h
  exact ⟨hmajor, hminor⟩

/-! ## The accumulation -/

/-- An `int` holds the number. -/
def FitsInt (n : Int) : Prop := -2147483648 ≤ n ∧ n < 2147483648

/-- `v * 10 + input - '0'` computes no number outside of `int`. -/
def AddsDigit (v : Int) (input : UInt8) : Prop :=
  FitsInt (v * 10) ∧ FitsInt (v * 10 + charVal input) ∧ FitsInt (v * 10 + charVal input - 48)

/-- The step computes no number outside of `int`. -/
def NoOverflow (p : Parser) (b : UInt8) : Prop :=
  isDigitChar (charVal b) = true →
    (p.state = .httpVersionMajorStart ∨ p.state = .httpVersionMajor →
      AddsDigit p.req.httpVersionMajor b) ∧
    (p.state = .httpVersionMinorStart ∨ p.state = .httpVersionMinor →
      AddsDigit p.req.httpVersionMinor b)

/-- A number that is read without an overflow. -/
def Small (ds : Bytes) : Prop := foldDigits 0 ds + 48 < 2 ^ 31

theorem foldDigits_push (ds : Bytes) (b : UInt8) :
    foldDigits 0 (ds ++ [b]) = foldDigits 0 ds * 10 + digitVal b := by
  rw [foldDigits_append, foldDigits_cons, foldDigits_nil]

/-- The digits are accumulated to the number they denote. -/
theorem version_of_small {ds : Bytes} (h : Digits ds) (hs : Small ds) :
    version ds = foldDigits 0 ds := by
  have hlt : foldDigits 0 ds < 2 ^ 31 := by
    unfold Small at hs
    omega
  exact foldl_addDigit h.2 hlt

/-- One more digit is read without an overflow exactly if the longer number is small. -/
theorem small_push {ds : Bytes} {b : UInt8} {v : Int} (hb : isDigit b = true)
    (hv : Small ds → v = foldDigits 0 ds) :
    Small ds ∧ AddsDigit v b ↔ Small (ds ++ [b]) := by
  have hd := isDigit_iff.mp hb
  have hpush := foldDigits_push ds b
  unfold digitVal at hpush
  unfold Small
  rw [hpush]
  constructor
  · rintro ⟨hs, -, hadd, -⟩
    rw [hv hs, charVal_of_lt (by omega)] at hadd
    unfold FitsInt at hadd
    omega
  · intro hs
    have hs' : Small ds := by
      unfold Small
      omega
    refine ⟨hs', ?_⟩
    unfold AddsDigit FitsInt
    rw [hv hs', charVal_of_lt (by omega)]
    omega

/-! ## The parser -/

/-- The states behind the version. -/
def State.behindVersion : State → Bool
  | .headerLineStart | .headerLws | .headerName | .spaceBeforeHeaderValue | .headerValue
  | .expectingNewline2 | .expectingNewline3 | .readingBody => true
  | _ => false

/-- The parser has read a request line with this version, and `A` tells whether without an
overflow. -/
def AfterVersion (A : Prop) (req : Request) (c : Bytes) : Prop :=
  ∃ (l : VersionLine) (tail : Bytes), c = l.bytes ++ tail ∧
    req.httpVersionMajor = version l.major ∧ req.httpVersionMinor = version l.minor ∧
    (A ↔ Small l.major ∧ Small l.minor)

/-- What the parser has read when it is in its state; `A` tells whether without an overflow. -/
def Numbers (A : Prop) (p : Parser) (c : Bytes) : Prop :=
  match p.state with
  | .methodStart => A ∧ c = []
  | .method => A ∧ 32 ∉ c
  | .uriStart => False
  | .uri => A ∧ ∃ m u, c = m ++ [32] ++ u ∧ 32 ∉ m ∧ 32 ∉ u
  | .httpVersionH => A ∧ ∃ n : Names, c = n.bytes
  | .httpVersionT1 => A ∧ ∃ n : Names, c = n.bytes ++ [72]
  | .httpVersionT2 => A ∧ ∃ n : Names, c = n.bytes ++ [72, 84]
  | .httpVersionP => A ∧ ∃ n : Names, c = n.bytes ++ [72, 84, 84]
  | .httpVersionSlash => A ∧ ∃ n : Names, c = n.bytes ++ [72, 84, 84, 80]
  | .httpVersionMajorStart =>
    A ∧ (∃ n : Names, c = n.bytes ++ lit "HTTP/") ∧ p.req.httpVersionMajor = 0 ∧
      p.req.httpVersionMinor = 0
  | .httpVersionMajor =>
    ∃ (n : Names) (x : Bytes), c = n.bytes ++ lit "HTTP/" ++ x ∧ Digits x ∧
      p.req.httpVersionMajor = version x ∧ p.req.httpVersionMinor = 0 ∧ (A ↔ Small x)
  | .httpVersionMinorStart =>
    ∃ (n : Names) (x : Bytes), c = n.bytes ++ lit "HTTP/" ++ x ++ [46] ∧ Digits x ∧
      p.req.httpVersionMajor = version x ∧ p.req.httpVersionMinor = 0 ∧ (A ↔ Small x)
  | .httpVersionMinor =>
    ∃ (n : Names) (x y : Bytes), c = n.bytes ++ lit "HTTP/" ++ x ++ [46] ++ y ∧ Digits x ∧
      Digits y ∧ p.req.httpVersionMajor = version x ∧ p.req.httpVersionMinor = version y ∧
      (A ↔ Small x ∧ Small y)
  | .expectingNewline1 =>
    ∃ (n : Names) (x y : Bytes), c = n.bytes ++ lit "HTTP/" ++ x ++ [46] ++ y ++ [13] ∧ Digits x ∧
      Digits y ∧ p.req.httpVersionMajor = version x ∧ p.req.httpVersionMinor = version y ∧
      (A ↔ Small x ∧ Small y)
  | _ => AfterVersion A p.req c

theorem numbers_behind {A : Prop} {p : Parser} {c : Bytes} (h : p.state.behindVersion = true) :
    Numbers A p c ↔ AfterVersion A p.req c := by
  obtain ⟨st, req⟩ := p
  cases st <;> first | exact Iff.rfl | cases h

section

variable {A : Prop} {p p' : Parser} {req : Request} {c : Bytes} {b : UInt8}

/-- No step outside of the digits overflows. -/
theorem noOverflow_of_state (h₁ : p.state ≠ .httpVersionMajorStart)
    (h₂ : p.state ≠ .httpVersionMajor) (h₃ : p.state ≠ .httpVersionMinorStart)
    (h₄ : p.state ≠ .httpVersionMinor) : NoOverflow p b := by
  refine fun _ => ⟨?_, ?_⟩
  · rintro (h | h)
    · exact absurd h h₁
    · exact absurd h h₂
  · rintro (h | h)
    · exact absurd h h₃
    · exact absurd h h₄

/-- A step behind the version keeps it. -/
theorem consume_behind (h : p.state.behindVersion = true) (b : UInt8) :
    (consume p b).1.state.behindVersion = true ∧
      (consume p b).1.req.httpVersionMajor = p.req.httpVersionMajor ∧
      (consume p b).1.req.httpVersionMinor = p.req.httpVersionMinor := by
  obtain ⟨st, req⟩ := p
  cases st
  case expectingNewline3 =>
    simp only [consume, Parser.reject, finishHeaders]
    split_ifs
    · split
      · exact ⟨rfl, rfl, rfl⟩
      · split_ifs <;> exact ⟨rfl, rfl, rfl⟩
    · exact ⟨rfl, rfl, rfl⟩
  case headerLineStart | headerLws | headerName | spaceBeforeHeaderValue | headerValue |
      expectingNewline2 | readingBody =>
    simp only [consume, goTo, Parser.reject]
    split_ifs <;> exact ⟨rfl, rfl, rfl⟩
  all_goals cases h

theorem numbers_methodStart (h : Numbers A ⟨.methodStart, req⟩ c)
    (hc : consume ⟨.methodStart, req⟩ b = (p', none)) : Numbers A p' (c ++ [b]) := by
  obtain ⟨hA, rfl⟩ := h
  simp only [consume, goTo, Parser.reject] at hc
  split_ifs at hc with h₁
  · cases hc
    refine ⟨hA, ?_⟩
    simpa using (tokenByte_ne h₁).1.symm
  · cases hc

theorem numbers_method (h : Numbers A ⟨.method, req⟩ c)
    (hc : consume ⟨.method, req⟩ b = (p', none)) : Numbers A p' (c ++ [b]) := by
  obtain ⟨hA, hfree⟩ := h
  simp only [consume, goTo, Parser.reject] at hc
  split_ifs at hc with h₁ h₂
  · cases hc
    exact ⟨hA, c, [], by simp [h₁], hfree, by simp⟩
  · cases hc
    refine ⟨hA, ?_⟩
    simpa using ⟨hfree, (tokenByte_ne h₂).1.symm⟩
  · cases hc

theorem numbers_uri (h : Numbers A ⟨.uri, req⟩ c) (hc : consume ⟨.uri, req⟩ b = (p', none)) :
    Numbers A p' (c ++ [b]) := by
  obtain ⟨hA, m, u, rfl, hm, hu⟩ := h
  simp only [consume, goTo, Parser.reject] at hc
  split_ifs at hc with h₁ h₂
  · cases hc
    exact ⟨hA, ⟨m, u, hm, hu⟩, by simp [Names.bytes, h₁]⟩
  · cases hc
  · cases hc
    refine ⟨hA, m, u ++ [b], by simp, hm, ?_⟩
    simpa using ⟨hu, Ne.symm h₁⟩

/-- The states that read one fixed byte of `HTTP`. -/
theorem numbers_http {st : State}
    (hst : st = .httpVersionH ∨ st = .httpVersionT1 ∨ st = .httpVersionT2 ∨ st = .httpVersionP)
    (h : Numbers A ⟨st, req⟩ c) (hc : consume ⟨st, req⟩ b = (p', none)) :
    Numbers A p' (c ++ [b]) := by
  rcases hst with rfl | rfl | rfl | rfl
  all_goals
    obtain ⟨hA, n, rfl⟩ := h
    simp only [consume, goTo, Parser.reject] at hc
    split_ifs at hc with h₁
    · cases hc
      exact ⟨hA, n, by simp [h₁]⟩
    · cases hc

theorem numbers_slash (h : Numbers A ⟨.httpVersionSlash, req⟩ c)
    (hc : consume ⟨.httpVersionSlash, req⟩ b = (p', none)) : Numbers A p' (c ++ [b]) := by
  obtain ⟨hA, n, rfl⟩ := h
  simp only [consume, goTo, Parser.reject] at hc
  split_ifs at hc with h₁
  · cases hc
    exact ⟨hA, ⟨n, by simp [h₁, lit]⟩, rfl, rfl⟩
  · cases hc

/-- Before the first digit the number is 0. -/
theorem small_nil : Small [] := by
  unfold Small
  decide

theorem version_push (ds : Bytes) (b : UInt8) :
    version (ds ++ [b]) = addDigit (version ds) b := by
  rw [version, List.foldl_append]
  rfl

theorem numbers_majorStart (h : Numbers A ⟨.httpVersionMajorStart, req⟩ c)
    (hc : consume ⟨.httpVersionMajorStart, req⟩ b = (p', none)) :
    Numbers (A ∧ NoOverflow ⟨.httpVersionMajorStart, req⟩ b) p' (c ++ [b]) := by
  obtain ⟨hA, ⟨n, rfl⟩, hmajor, hminor⟩ := h
  dsimp only at hmajor hminor
  simp only [consume, goTo, Parser.reject] at hc
  split_ifs at hc with h₁
  · cases hc
    have hb := isDigit_of_isDigitChar h₁
    have hsmall := @small_push [] b 0 hb fun _ => rfl
    refine ⟨n, [b], rfl, Digits.push (.inl rfl) h₁, ?_, hminor, ?_⟩
    · rw [hmajor]
      rfl
    · rw [← List.nil_append [b], ← hsmall]
      simp [NoOverflow, h₁, hA, hmajor, small_nil]
  · cases hc

theorem numbers_major (h : Numbers A ⟨.httpVersionMajor, req⟩ c)
    (hc : consume ⟨.httpVersionMajor, req⟩ b = (p', none)) :
    Numbers (A ∧ NoOverflow ⟨.httpVersionMajor, req⟩ b) p' (c ++ [b]) := by
  obtain ⟨n, x, rfl, hx, hmajor, hminor, hA⟩ := h
  dsimp only at hmajor hminor
  simp only [consume, goTo, Parser.reject] at hc
  split_ifs at hc with h₁ h₂
  · cases hc
    refine ⟨n, x, by simp [h₁], hx, hmajor, hminor, ?_⟩
    subst h₁
    rw [← hA]
    exact and_iff_left fun hd => absurd hd (by decide)
  · cases hc
    have hb := isDigit_of_isDigitChar h₂
    have hsmall := small_push hb (version_of_small hx)
    refine ⟨n, x ++ [b], by simp, Digits.push (.inr hx) h₂, ?_, hminor, ?_⟩
    · rw [version_push, hmajor]
    · rw [← hsmall]
      simp [NoOverflow, h₂, hA, hmajor]
  · cases hc

theorem numbers_minorStart (h : Numbers A ⟨.httpVersionMinorStart, req⟩ c)
    (hc : consume ⟨.httpVersionMinorStart, req⟩ b = (p', none)) :
    Numbers (A ∧ NoOverflow ⟨.httpVersionMinorStart, req⟩ b) p' (c ++ [b]) := by
  obtain ⟨n, x, rfl, hx, hmajor, hminor, hA⟩ := h
  dsimp only at hmajor hminor
  simp only [consume, goTo, Parser.reject] at hc
  split_ifs at hc with h₁
  · cases hc
    have hb := isDigit_of_isDigitChar h₁
    have hsmall := @small_push [] b 0 hb fun _ => rfl
    refine ⟨n, x, [b], rfl, hx, Digits.push (.inl rfl) h₁, hmajor, ?_, ?_⟩
    · rw [hminor]
      rfl
    · rw [← List.nil_append [b], ← hsmall]
      simp [NoOverflow, h₁, hA, hminor, small_nil]
  · cases hc

theorem numbers_minor (h : Numbers A ⟨.httpVersionMinor, req⟩ c)
    (hc : consume ⟨.httpVersionMinor, req⟩ b = (p', none)) :
    Numbers (A ∧ NoOverflow ⟨.httpVersionMinor, req⟩ b) p' (c ++ [b]) := by
  obtain ⟨n, x, y, rfl, hx, hy, hmajor, hminor, hA⟩ := h
  dsimp only at hmajor hminor
  simp only [consume, goTo, Parser.reject] at hc
  split_ifs at hc with h₁ h₂
  · cases hc
    refine ⟨n, x, y, by simp [h₁], hx, hy, hmajor, hminor, ?_⟩
    subst h₁
    rw [← hA]
    exact and_iff_left fun hd => absurd hd (by decide)
  · cases hc
    have hb := isDigit_of_isDigitChar h₂
    have hsmall := small_push hb (version_of_small hy)
    refine ⟨n, x, y ++ [b], by simp, hx, Digits.push (.inr hy) h₂, hmajor, ?_, ?_⟩
    · rw [version_push, hminor]
    · rw [← hsmall]
      simp [NoOverflow, h₂, hA, hminor, and_assoc]
  · cases hc

theorem numbers_newline1 (h : Numbers A ⟨.expectingNewline1, req⟩ c)
    (hc : consume ⟨.expectingNewline1, req⟩ b = (p', none)) : Numbers A p' (c ++ [b]) := by
  obtain ⟨n, x, y, rfl, hx, hy, hmajor, hminor, hA⟩ := h
  simp only [consume, goTo, Parser.reject] at hc
  split_ifs at hc with h₁
  · cases hc
    exact ⟨⟨n, x, y, hx, hy⟩, [], by simp [VersionLine.bytes, h₁], hmajor, hminor, hA⟩
  · cases hc

theorem numbers_after (hp : p.state.behindVersion = true) (h : Numbers A p c)
    (hc : consume p b = (p', none)) : Numbers A p' (c ++ [b]) := by
  obtain ⟨hp', hmajor, hminor⟩ := consume_behind hp b
  rw [hc] at hp' hmajor hminor
  obtain ⟨l, tail, rfl, h₁, h₂, hA⟩ := (numbers_behind hp).mp h
  refine (numbers_behind hp').mpr ⟨l, tail ++ [b], by simp, ?_, ?_, hA⟩
  · rw [hmajor, h₁]
  · rw [hminor, h₂]

theorem Numbers.congr {B : Prop} (hAB : A ↔ B) (h : Numbers A p c) : Numbers B p c := by
  rwa [← propext hAB]

/-- **A step keeps what has been read**, and overflows exactly if the number gets too large. -/
theorem numbers_step (h : Numbers A p c) (hc : consume p b = (p', none)) :
    Numbers (A ∧ NoOverflow p b) p' (c ++ [b]) := by
  have hquiet : ∀ {q : Parser}, q.state ≠ .httpVersionMajorStart → q.state ≠ .httpVersionMajor →
      q.state ≠ .httpVersionMinorStart → q.state ≠ .httpVersionMinor →
        Numbers A p' (c ++ [b]) → Numbers (A ∧ NoOverflow q b) p' (c ++ [b]) :=
    fun h₁ h₂ h₃ h₄ hn =>
      hn.congr (and_iff_left (noOverflow_of_state h₁ h₂ h₃ h₄)).symm
  obtain ⟨st, req⟩ := p
  cases st
  case methodStart => exact hquiet nofun nofun nofun nofun (numbers_methodStart h hc)
  case method => exact hquiet nofun nofun nofun nofun (numbers_method h hc)
  case uriStart => exact h.elim
  case uri => exact hquiet nofun nofun nofun nofun (numbers_uri h hc)
  case httpVersionH => exact hquiet nofun nofun nofun nofun (numbers_http (.inl rfl) h hc)
  case httpVersionT1 => exact hquiet nofun nofun nofun nofun (numbers_http (.inr (.inl rfl)) h hc)
  case httpVersionT2 =>
    exact hquiet nofun nofun nofun nofun (numbers_http (.inr (.inr (.inl rfl))) h hc)
  case httpVersionP =>
    exact hquiet nofun nofun nofun nofun (numbers_http (.inr (.inr (.inr rfl))) h hc)
  case httpVersionSlash => exact hquiet nofun nofun nofun nofun (numbers_slash h hc)
  case httpVersionMajorStart => exact numbers_majorStart h hc
  case httpVersionMajor => exact numbers_major h hc
  case httpVersionMinorStart => exact numbers_minorStart h hc
  case httpVersionMinor => exact numbers_minor h hc
  case expectingNewline1 => exact hquiet nofun nofun nofun nofun (numbers_newline1 h hc)
  all_goals exact hquiet nofun nofun nofun nofun (numbers_after rfl h hc)

end

section

variable {withTicket : TicketLookup}

/-- What has been read after a run, and whether it overflowed. -/
theorem numbers_run {s : Bytes} {p : Parser} (hg : (requestParser withTicket).Goes .fresh s p) :
    Numbers ((requestParser withTicket).Along NoOverflow .fresh s) p s := by
  induction s using List.reverseRecOn generalizing p with
  | nil =>
    rw [Machine.goes_nil_iff.mp hg]
    exact ⟨trivial, rfl⟩
  | append_singleton s b ih =>
    obtain ⟨u, hu, hub⟩ := hg.prefix
    have hstep : (requestParser withTicket).step u b = (p, none) := by
      rcases hst : (requestParser withTicket).step u b with ⟨t, _ | r⟩
      · rw [hub.unique (.single hst)]
      · exact (hub.not_stops (.here hst)).elim
    refine (numbers_step (ih hu) (consume_of_go hstep)).congr ?_
    rw [hu.along_append, Machine.along_cons_go hstep]
    exact and_congr_right fun _ => (and_iff_left trivial).symm

/-- An accepted request has a version, which was read without an overflow exactly if both numbers
are small. -/
theorem accepted_numbers {s : Bytes} {t : Parser}
    (h : (requestParser withTicket).Stops .fresh s .accepted t []) :
    AfterVersion ((requestParser withTicket).Along NoOverflow .fresh s) t.req s := by
  obtain ⟨pre, b, u, rfl, hg, hst⟩ := h.split
  obtain ⟨p', hc, hsame, -⟩ := consume_of_accept hst
  have hend : u.state = .expectingNewline3 ∨ u.state = .readingBody := by
    by_contra hother
    rw [not_or] at hother
    have hn := (@consume_head u b hother.1 hother.2).1
    rw [hc] at hn
    simp at hn
  have hbehind : u.state.behindVersion = true := by
    rcases hend with hs | hs <;> rw [hs] <;> rfl
  obtain ⟨l, tail, rfl, hmajor, hminor, hA⟩ := (numbers_behind hbehind).mp (numbers_run hg)
  obtain ⟨-, hmajor', hminor'⟩ := consume_behind hbehind b
  rw [hc] at hmajor' hminor'
  have hquiet : NoOverflow u b := by
    rcases hend with hs | hs <;> apply noOverflow_of_state <;> rw [hs] <;> nofun
  refine ⟨l, tail ++ [b], by simp, ?_, ?_, ?_⟩
  · rw [hsame.httpVersionMajor, hmajor', hmajor]
  · rw [hsame.httpVersionMinor, hminor', hminor]
  · rw [hg.along_append, Machine.along_cons_stop hst, and_iff_left hquiet, hA]

/-- **The version of an accepted request** stands in its request line; it is read as it is written
and no addition overflows exactly if both numbers are at most 2147483599. -/
theorem versions_iff (s rest : Bytes) (t : Parser)
    (h : (requestParser withTicket).Stops .fresh (s ++ rest) .accepted t rest) :
    (∃ (l : VersionLine) (tail : Bytes), s = l.bytes ++ tail) ∧
      ∀ (l : VersionLine) (tail : Bytes), s = l.bytes ++ tail →
        ((t.req.httpVersionMajor = foldDigits 0 l.major ∧
            t.req.httpVersionMinor = foldDigits 0 l.minor ∧
            (requestParser withTicket).Along NoOverflow .fresh s) ↔
          Small l.major ∧ Small l.minor) := by
  obtain ⟨l, tail, hs, hmajor, hminor, hA⟩ := accepted_numbers h.consumed
  refine ⟨⟨l, tail, hs⟩, fun l' tail' hs' => ?_⟩
  obtain ⟨h₁, h₂⟩ := VersionLine.unique (hs'.symm.trans hs)
  rw [h₁, h₂]
  constructor
  · rintro ⟨-, -, halong⟩
    exact hA.mp halong
  · intro hsmall
    refine ⟨?_, ?_, hA.mpr hsmall⟩
    · rw [hmajor, version_of_small l.major_digits hsmall.1]
    · rw [hminor, version_of_small l.minor_digits hsmall.2]

end

theorem versions_iff_get : ∃ t,
    (requestParser fun _ => .error .notFound).Stops .fresh getBytes .accepted t [] ∧
      ∃ (l : VersionLine) (tail : Bytes), getBytes = l.bytes ++ tail := by
  have hs : (requestParser fun _ => .error .notFound).Stops .fresh (getBytes ++ []) .accepted
      ((requestParser fun _ => .error .notFound).feed .fresh getBytes).state [] := rfl
  exact ⟨_, hs, (versions_iff getBytes [] _ hs).1⟩

theorem digits_lateMajor : Digits (lit "2147483648") := ⟨by decide, by decide +kernel⟩

theorem digits_lateMinor : Digits (lit "0") := ⟨by decide, by decide +kernel⟩

/-- The request line of a request of the version 2147483648.0. -/
def lateLine : VersionLine where
  method := lit "GET"
  uri := lit "/"
  major := lit "2147483648"
  minor := lit "0"
  method_free := by decide
  uri_free := by decide
  major_digits := digits_lateMajor
  minor_digits := digits_lateMinor

/-- The request. -/
def lateBytes : Bytes := lateLine.bytes ++ lit "A: b\r\n\r\n"

/-- Its version is read as another number. -/
theorem late_version_wraps : ¬ ∀ (withTicket : TicketLookup) (s rest : Bytes) (t : Parser),
    (requestParser withTicket).Stops .fresh (s ++ rest) .accepted t rest →
      ∀ (l : VersionLine) (tail : Bytes), s = l.bytes ++ tail →
        t.req.httpVersionMajor = foldDigits 0 l.major ∧
          t.req.httpVersionMinor = foldDigits 0 l.minor := by
  intro h
  have hfed : ((requestParser fun _ => .error .notFound).feed .fresh (lateBytes ++ [])).result =
        some .accepted ∧
      ((requestParser fun _ => .error .notFound).feed .fresh (lateBytes ++ [])).rest = [] ∧
      ((requestParser fun _ => .error .notFound).feed .fresh
        (lateBytes ++ [])).state.req.httpVersionMajor = -2147483648 := by
    decide +kernel
  obtain ⟨hresult, hrest, hmajor⟩ := hfed
  have hs := Machine.stops_of_result_some hresult
  rw [hrest] at hs
  have hnumber := (h _ lateBytes [] _ hs lateLine (lit "A: b\r\n\r\n") rfl).1
  rw [hmajor] at hnumber
  exact absurd hnumber (by decide)

end Ews
