import Spinny.Lib.Reader

/-!
# The tokens of an SQL text

The tokens that `getToken` of `tokenize.c` finds in a text, one after another, read byte by byte:
names and keywords, numbers, what stands between quotes with a doubled quote for one, names in
brackets, blobs, parameters, and what begins no token. Blanks and comments complete nothing, and
an operator of two bytes comes out as two marks. A parser stops at the first illegal token, so it
does not matter here how far one reaches.

* `step`, `flush`: what one byte does, and what the end of the text completes.
* `outside`: no literal, identifier or comment is open.
* `tokens_string`, `tokens_unclosed`: a quoted text between two others.
* `Alone`: a text that the `)` behind it does not belong to.
-/

namespace Sql

open Bytes

inductive Quote where
  | single | double | back
  deriving DecidableEq

def Quote.byte : Quote → UInt8
  | .single => 39
  | .double => 34
  | .back => 96

/-- A token. -/
inductive Token where
  /-- A name or a keyword. -/
  | word (w : Bytes)
  | number (w : Bytes)
  /-- A text between single quotes, with the doubled quotes in it single. -/
  | string (t : Bytes)
  /-- An identifier between other quotes, with the doubled quotes in it single. -/
  | quoted (q : Quote) (t : Bytes)
  /-- An identifier in brackets. One that is not closed goes on to the end of the text. -/
  | bracketed (t : Bytes)
  | blob (digits : Bytes)
  /-- A parameter: `?1`, `#1`, or a name behind `#`, `$`, `@` or `:`. -/
  | parameter (w : Bytes)
  | mark (b : UInt8)
  | illegal (t : Bytes)
  deriving DecidableEq

/-- The part of a number that is read. -/
inductive Part where
  | whole | fraction | scale
  deriving DecidableEq

/-- Where the reading of a text stands. -/
inductive Mode where
  | idle
  | blank
  | word (w : Bytes)
  | number (w : Bytes) (p : Part)
  /-- Behind a number and an `e`, which is a name unless digits follow. -/
  | exponent (w : Bytes) (e : UInt8)
  /-- Behind such an `e` and a sign. -/
  | sign (w : Bytes) (e s : UInt8)
  /-- Behind a `.` that may begin a number. -/
  | dot
  /-- Behind a `-` that may begin a comment. -/
  | minus
  /-- Behind a `/` that may begin a comment. -/
  | slash
  /-- Behind a `/*` that begins a comment unless the text ends with it. -/
  | slashStar
  /-- Behind a `!`, which stands for itself only in front of `=`. -/
  | bang
  | lineComment
  /-- In a `/*` comment; `star`: the last byte was a `*`. -/
  | blockComment (star : Bool)
  /-- Between quotes. -/
  | quoted (q : Quote) (t : Bytes)
  /-- Behind a quote that ends the text, unless another one follows. -/
  | closing (q : Quote) (t : Bytes)
  | bracketed (t : Bytes)
  /-- In a blob literal with the letter `x`. -/
  | blob (x : UInt8) (q : Quote) (digits : Bytes)
  /-- In the digits of a parameter. -/
  | digits (w : Bytes)
  | hash
  /-- In the name of a parameter; `named`: it has a byte. -/
  | parameter (w : Bytes) (named : Bool)
  /-- Behind a `:` that goes on with the parameter if another one follows. -/
  | colon (w : Bytes) (named : Bool)
  /-- Between the parentheses of a parameter. -/
  | index (w : Bytes)
  deriving DecidableEq

/-- A byte of a name. -/
def isNameByte (b : UInt8) : Bool :=
  128 ≤ b || isDigit b || (65 ≤ b && b ≤ 90) || (97 ≤ b && b ≤ 122) || b == 36 || b == 95

/-- A byte that begins blanks. -/
def isBlank (b : UInt8) : Bool := b == 32 || b == 9 || b == 10 || b == 12 || b == 13

/-- `isspace`: the blanks go on with a vertical tab, but do not begin with one. -/
def isSpace (b : UInt8) : Bool := isBlank b || b == 11

def isHexDigit (b : UInt8) : Bool := isDigit b || (65 ≤ b && b ≤ 70) || (97 ≤ b && b ≤ 102)

/-- A byte that is an operator or a part of one: `%&()*+,;<=>|~`. -/
def isMark (b : UInt8) : Bool :=
  b == 37 || b == 38 || (40 ≤ b && b ≤ 44) || (59 ≤ b && b ≤ 62) || b == 124 || b == 126

def quoteOf (b : UInt8) : Option Quote :=
  if b = 39 then some .single else if b = 34 then some .double else if b = 96 then some .back
  else none

/-- A text between quotes. -/
def closed : Quote → Bytes → Token
  | .single, t => .string t
  | q, t => .quoted q t

/-- A parameter needs a name. -/
def nameless (w : Bytes) (named : Bool) : Token := if named then .parameter w else .illegal w

/-- The tokens that the end of the text completes. -/
def flush : Mode → List Token
  | .idle | .blank | .lineComment | .blockComment _ => []
  | .word w => [.word w]
  | .number w _ => [.number w]
  | .exponent w e => [.number w, .word [e]]
  | .sign w e s => [.number w, .word [e], .mark s]
  | .dot => [.mark 46]
  | .minus => [.mark 45]
  | .slash => [.mark 47]
  | .slashStar => [.mark 47, .mark 42]
  | .bang => [.illegal [33]]
  | .quoted q t => [.illegal (q.byte :: t)]
  | .closing q t => [closed q t]
  | .bracketed t => [.bracketed t]
  | .blob _ _ t => [.blob t]
  | .digits w => [.parameter w]
  | .hash => [.illegal [35]]
  | .parameter w named => [nameless w named]
  | .colon w named => [nameless w named, .illegal [58]]
  | .index w => [.illegal w]

/-- A byte that begins something. -/
def enter (b : UInt8) : List Token × Mode :=
  if isBlank b then ([], .blank)
  else if b = 45 then ([], .minus)
  else if b = 47 then ([], .slash)
  else if b = 46 then ([], .dot)
  else if b = 33 then ([], .bang)
  else if b = 91 then ([], .bracketed [])
  else if b = 63 then ([], .digits [b])
  else if b = 35 then ([], .hash)
  else if b = 36 ∨ b = 58 ∨ b = 64 then ([], .parameter [b] false)
  else if isDigit b then ([], .number [b] .whole)
  else if isNameByte b then ([], .word [b])
  else
    match quoteOf b with
    | some q => ([], .quoted q [])
    | none => ([if isMark b then .mark b else .illegal [b]], .idle)

/-- A byte behind something that it ends. -/
def leave (m : Mode) (b : UInt8) : List Token × Mode := (flush m ++ (enter b).1, (enter b).2)

/-- A byte behind digits of a number. -/
def numberStep (w : Bytes) (p : Part) (b : UInt8) : List Token × Mode :=
  if isDigit b then ([], .number (w ++ [b]) p)
  else if b = 46 ∧ p = .whole then ([], .number (w ++ [b]) .fraction)
  else if (b = 101 ∨ b = 69) ∧ p ≠ .scale then ([], .exponent w b)
  else leave (.number w p) b

/-- A byte behind a part of a parameter. -/
def parameterStep (w : Bytes) (named : Bool) (b : UInt8) : List Token × Mode :=
  if isNameByte b then ([], .parameter (w ++ [b]) true)
  else if b = 40 ∧ named then ([], .index (w ++ [b]))
  else if b = 58 then ([], .colon w named)
  else leave (.parameter w named) b

/-- One byte. -/
def step (m : Mode) (b : UInt8) : List Token × Mode :=
  match m with
  | .idle => enter b
  | .blank => if isSpace b then ([], .blank) else enter b
  | .word w =>
    if b = 39 ∧ (w = [120] ∨ w = [88]) then ([], .blob (w.headD 0) .single [])
    else if b = 34 ∧ (w = [120] ∨ w = [88]) then ([], .blob (w.headD 0) .double [])
    else if isNameByte b then ([], .word (w ++ [b]))
    else leave m b
  | .number w p => numberStep w p b
  | .exponent w e =>
    if isDigit b then ([], .number (w ++ [e, b]) .scale)
    else if b = 43 ∨ b = 45 then ([], .sign w e b)
    else if isNameByte b then ([.number w], .word [e, b])
    else leave m b
  | .sign w e s =>
    if isDigit b then ([], .number (w ++ [e, s, b]) .scale)
    else if b = 45 ∧ s = 45 then ([.number w, .word [e]], .lineComment)
    else leave m b
  | .dot => if isDigit b then ([], .number [46, b] .fraction) else leave m b
  | .minus => if b = 45 then ([], .lineComment) else leave m b
  | .slash => if b = 42 then ([], .slashStar) else leave m b
  | .slashStar => ([], .blockComment (b == 42))
  | .bang => if b = 61 then ([.mark 33, .mark 61], .idle) else leave m b
  | .lineComment => ([], if b = 10 then .idle else .lineComment)
  | .blockComment star => ([], if star ∧ b = 47 then .idle else .blockComment (b == 42))
  | .quoted q t => ([], if b = q.byte then .closing q t else .quoted q (t ++ [b]))
  | .closing q t => if b = q.byte then ([], .quoted q (t ++ [b])) else leave m b
  | .bracketed t => if b = 93 then ([.bracketed t], .idle) else ([], .bracketed (t ++ [b]))
  | .blob x q t =>
    if b = q.byte then
      ([if t.length % 2 = 0 then .blob t else .illegal (x :: b :: t)], .idle)
    else if isHexDigit b then ([], .blob x q (t ++ [b]))
    else (.illegal (x :: q.byte :: t) :: (enter b).1, (enter b).2)
  | .digits w => if isDigit b then ([], .digits (w ++ [b])) else leave m b
  | .hash => if isDigit b then ([], .digits [35, b]) else parameterStep [35] false b
  | .parameter w named => parameterStep w named b
  | .colon w named =>
    if b = 58 then ([], .parameter (w ++ [b, b]) named)
    else (nameless w named :: (parameterStep [58] false b).1, (parameterStep [58] false b).2)
  | .index w =>
    if b = 41 then ([.parameter (w ++ [b])], .idle)
    else if isSpace b then leave m b
    else ([], .index (w ++ [b]))

/-- The reader of SQL texts. -/
def reader : Reader Token Mode where
  step m b := some (step m b)
  finish m := some (flush m)

/-- A C interface sees a text up to its first NUL. -/
def seen (s : Bytes) : Bytes := s.takeWhile (· ≠ 0)

/-- The tokens of a text. -/
def tokens (s : Bytes) : Option (List Token) := reader.tokensFrom .idle (seen s)

/-- No literal, identifier or comment is open, and no index of a parameter. Behind a closing single
quote the literal is not over: one that follows would belong to it. -/
def Mode.outside : Mode → Bool
  | .idle | .blank | .dot | .minus | .slash | .bang | .digits _ | .hash => true
  | .parameter _ _ | .colon _ _ => true
  | .closing q _ => q != .single
  | _ => false

/-- A text behind which no literal, identifier or comment is open. -/
def endsOutside (s : Bytes) : Bool := ((reader.scan .idle s).map fun r => r.2.outside).getD false

/-- A text with each single quote doubled. -/
def doubled (s : Bytes) : Bytes := replaceAll 39 [39, 39] s

/-! ## Reading -/

/-- Every text has tokens. -/
theorem exists_scan (m : Mode) (s : Bytes) : ∃ ts m', reader.scan m s = some (ts, m') := by
  induction s generalizing m with
  | nil => exact ⟨[], m, rfl⟩
  | cons b s ih =>
    obtain ⟨ts, m', h⟩ := ih (step m b).2
    refine ⟨(step m b).1 ++ ts, m', ?_⟩
    rw [Reader.scan_cons]
    simp only [reader, Option.bind_some] at h ⊢
    rw [h]
    rfl

theorem exists_tokens (s : Bytes) : ∃ ts, tokens s = some ts := by
  obtain ⟨ts, m, h⟩ := exists_scan .idle (seen s)
  exact ⟨ts ++ flush m, by rw [tokens, Reader.tokensFrom, h]; rfl⟩

/-- A vertical tab goes on with blanks, but begins none. -/
example : tokens (lit "\x0Bkey \x0B1e+") =
    some [.illegal [11], .word (lit "key"), .number (lit "1"), .word (lit "e"), .mark 43] := by
  decide

/-- Neither the `)` of a parameter nor the quote of a blob is a token of its own. -/
example : tokens (lit "$n::m(1)X'0a'.5") =
    some [.parameter (lit "$n::m(1)"), .blob (lit "0a"), .number (lit ".5")] := by
  decide

/-- A quoted text with its quotes doubled. -/
theorem scan_doubled (t s : Bytes) :
    reader.scan (.quoted .single t) (doubled s) = some ([], .quoted .single (t ++ s)) := by
  induction s generalizing t with
  | nil => rw [List.append_nil]; rfl
  | cons b s ih =>
    have happ := ih (t ++ [b])
    rw [List.append_assoc, List.singleton_append] at happ
    by_cases hb : b = 39
    · subst hb
      have h₁ : reader.step (.quoted .single t) 39 = some ([], .closing .single t) := rfl
      have h₂ : reader.step (.closing .single t) 39 = some ([], .quoted .single (t ++ [39])) := rfl
      have hcons : doubled (39 :: s) = 39 :: 39 :: doubled s := rfl
      rw [hcons, Reader.scan_cons_of_step h₁, Reader.scan_cons_of_step h₂, happ]
    · have h₁ : reader.step (.quoted .single t) b = some ([], .quoted .single (t ++ [b])) := by
        simp [reader, step, Quote.byte, hb]
      have hcons : doubled (b :: s) = b :: doubled s := by simp [doubled, replaceAll, hb]
      rw [hcons, Reader.scan_cons_of_step h₁, happ]

/-- A single quote where nothing is open. -/
theorem step_quote {m : Mode} (h : m.outside = true) :
    reader.step m 39 = some (flush m, .quoted .single []) := by
  cases m with
  | closing q t =>
    cases q with
    | single => cases h
    | _ => rfl
  | _ => first | rfl | cases h

/-- What follows the closing quote, if it is no quote. -/
theorem tokensFrom_closing (t : Bytes) {s : Bytes} (h : s.head? ≠ some 39) :
    reader.tokensFrom (.closing .single t) s =
      (reader.tokensFrom .idle s).map (.string t :: ·) := by
  cases s with
  | nil => rfl
  | cons b s =>
    have hb : ¬ b = 39 := by simpa using h
    have hclosing : reader.step (.closing .single t) b =
        some (.string t :: (enter b).1, (enter b).2) := by
      simp [reader, step, Quote.byte, hb, leave, flush, closed]
    have hidle : reader.step .idle b = some (enter b) := rfl
    obtain ⟨ts, m, hs⟩ := exists_scan (enter b).2 s
    rw [Reader.tokensFrom, Reader.tokensFrom, Reader.scan_cons, Reader.scan_cons, hclosing, hidle]
    simp only [Option.bind_some, hs, Option.map_some, List.cons_append]
    rfl

theorem tokensFrom_of_scan {s : Bytes} {ts : List Token} {m : Mode}
    (h : reader.scan .idle s = some (ts, m)) :
    reader.tokensFrom .idle s = some (ts ++ flush m) := by
  rw [Reader.tokensFrom, h]
  rfl

theorem exists_outside {s : Bytes} (h : endsOutside s = true) :
    ∃ ts m, reader.scan .idle s = some (ts, m) ∧ m.outside = true := by
  obtain ⟨ts, m, hscan⟩ := exists_scan .idle s
  rw [endsOutside, hscan] at h
  exact ⟨ts, m, hscan, h⟩

/-- A text between quotes, behind one in which nothing is open. -/
theorem tokensFrom_string {pre suf : Bytes} (hpre : endsOutside pre = true)
    (hsuf : suf.head? ≠ some 39) (s : Bytes) :
    reader.tokensFrom .idle (pre ++ 39 :: (doubled s ++ 39 :: suf)) =
      (reader.tokensFrom .idle pre).bind fun ts =>
        (reader.tokensFrom .idle suf).map fun us => ts ++ .string s :: us := by
  obtain ⟨ts, m, hscan, hm⟩ := exists_outside hpre
  have hopen : reader.scan .idle (pre ++ 39 :: doubled s) =
      some (ts ++ flush m, .quoted .single s) := by
    have hdoubled := scan_doubled [] s
    rw [List.nil_append] at hdoubled
    rw [Reader.scan_append, hscan, Option.bind_some, Reader.scan_cons, step_quote hm,
      Option.bind_some, hdoubled]
    simp
  have hclose : reader.scan .idle (pre ++ 39 :: (doubled s ++ [39])) =
      some (ts ++ flush m, .closing .single s) := by
    have happ := @Reader.scan_append _ _ reader .idle (pre ++ 39 :: doubled s) [39]
    rw [hopen] at happ
    have hquote : reader.scan (.quoted .single s) [39] = some ([], .closing .single s) := rfl
    rw [Option.bind_some, hquote] at happ
    simpa using happ
  have htext : pre ++ 39 :: (doubled s ++ 39 :: suf) =
      (pre ++ 39 :: (doubled s ++ [39])) ++ suf := by simp
  rw [htext, Reader.tokensFrom_append hclose, tokensFrom_closing s hsuf,
    tokensFrom_of_scan hscan, Option.bind_some, Option.map_map]
  rfl

/-- A text that ends inside quotes. -/
theorem tokensFrom_unclosed {pre : Bytes} (hpre : endsOutside pre = true) (s : Bytes) :
    reader.tokensFrom .idle (pre ++ 39 :: doubled s) =
      (reader.tokensFrom .idle pre).map (· ++ [.illegal (39 :: s)]) := by
  obtain ⟨ts, m, hscan, hm⟩ := exists_outside hpre
  have hdoubled := scan_doubled [] s
  rw [List.nil_append] at hdoubled
  rw [tokensFrom_of_scan hscan, Reader.tokensFrom, Reader.scan_append, hscan, Option.bind_some,
    Reader.scan_cons, step_quote hm, Option.bind_some, hdoubled]
  simp [reader, flush, Quote.byte]

/-- A byte that begins a quoted text, an identifier in brackets, a comment or a parameter, or goes
on with one. -/
def opens (b : UInt8) : Bool :=
  (quoteOf b).isSome || b == 91 || b == 45 || b == 47 || b == 40 || b == 58

/-- In a text without such bytes only names, numbers and marks are read, and parameters without an
index. -/
def Mode.plain : Mode → Bool
  | .idle | .blank | .word _ | .number _ _ | .exponent _ _ | .sign _ _ _ | .dot | .bang => true
  | .digits _ | .hash | .parameter _ _ => true
  | _ => false

theorem plain_enter {b : UInt8} (h : opens b = false) : (enter b).2.plain = true := by
  have hbyte : ∀ b, opens b = false → (enter b).2.plain = true := by decide +kernel
  exact hbyte b h

theorem plain_parameterStep (w : Bytes) (named : Bool) {b : UInt8} (h : opens b = false) :
    (parameterStep w named b).2.plain = true := by
  have hbyte : b ≠ 40 ∧ b ≠ 58 := by
    constructor <;> rintro rfl <;> cases h
  simp only [parameterStep, hbyte.1, hbyte.2, false_and, if_false]
  split
  · rfl
  · exact plain_enter h

theorem plain_step {m : Mode} (hm : m.plain = true) {b : UInt8} (h : opens b = false) :
    (step m b).2.plain = true := by
  have henter := plain_enter h
  have hparameter := fun w named => plain_parameterStep w named h
  have hquotes : b ≠ 39 ∧ b ≠ 34 ∧ b ≠ 45 := by
    refine ⟨?_, ?_, ?_⟩ <;> rintro rfl <;> cases h
  cases m with
  | idle => exact henter
  | hash =>
    simp only [step]
    split
    · rfl
    · exact hparameter _ _
  | parameter w named => exact hparameter w named
  | word w =>
    simp only [step, hquotes.1, hquotes.2.1, false_and, if_false]
    split
    · rfl
    · exact henter
  | number w p =>
    simp only [step, numberStep]
    split_ifs <;> first | rfl | exact henter
  | sign w e s =>
    simp only [step, hquotes.2.2, false_and, if_false]
    split_ifs <;> first | rfl | exact henter
  | blank | dot | bang | exponent _ _ | digits _ =>
    simp only [step]
    split_ifs <;> first | rfl | exact henter
  | _ => cases hm

theorem scan_plain {s : Bytes} (h : ∀ b ∈ s, opens b = false) {m : Mode} (hm : m.plain = true) :
    ∃ ts m', reader.scan m s = some (ts, m') ∧ m'.plain = true := by
  induction s generalizing m with
  | nil => exact ⟨[], m, rfl, hm⟩
  | cons b s ih =>
    obtain ⟨hb, hs⟩ := List.forall_mem_cons.mp h
    obtain ⟨ts, m', hscan, hm'⟩ := ih hs (plain_step hm hb)
    have hstep : reader.step m b = some (step m b) := rfl
    refine ⟨(step m b).1 ++ ts, m', ?_, hm'⟩
    rw [Reader.scan_cons, hstep, Option.bind_some, hscan]
    rfl

/-- Nothing is open behind the `=` of a plain text. -/
theorem endsOutside_plain {s : Bytes} (h : ∀ b ∈ s, opens b = false) :
    endsOutside (s ++ [61]) = true := by
  obtain ⟨ts, m, hscan, hm⟩ := scan_plain h (m := .idle) rfl
  have hmark : reader.scan m [61] = some ((step m 61).1, .idle) := by
    cases m with
    | number w p => cases p <;> rfl
    | parameter w named => cases named <;> rfl
    | _ => first | rfl | cases hm
  rw [endsOutside, Reader.scan_append, hscan, Option.bind_some, hmark]
  rfl

/-- The digits of a number. -/
theorem scan_digits {s : Bytes} (h : ∀ b ∈ s, isDigit b = true) (w : Bytes) (p : Part) :
    reader.scan (.number w p) s = some ([], .number (w ++ s) p) := by
  induction s generalizing w with
  | nil => rw [List.append_nil]; rfl
  | cons b s ih =>
    obtain ⟨hb, hs⟩ := List.forall_mem_cons.mp h
    have hstep : reader.step (.number w p) b = some ([], .number (w ++ [b]) p) := by
      simp [reader, step, numberStep, hb]
    rw [Reader.scan_cons_of_step hstep, ih hs, List.append_assoc, List.singleton_append]

/-- The sign of a number is a mark, and its digits are a number. -/
theorem scan_showInt (n : Int) :
    ∃ ts w, reader.scan .blank (showInt n) = some (ts, .number w .whole) := by
  obtain ⟨d, ds, hds⟩ := List.exists_cons_of_ne_nil (decimal_ne_nil n.natAbs)
  have hdigits : ∀ b ∈ d :: ds, isDigit b = true := fun b hb =>
    isDigit_of_mem_decimal (hds ▸ hb)
  obtain ⟨hd, hrest⟩ := List.forall_mem_cons.mp hdigits
  have hfirst : ∀ d, isDigit d = true → step .blank d = ([], .number [d] .whole) ∧
      step .minus d = ([.mark 45], .number [d] .whole) := by
    decide +kernel
  have hblank : reader.step .blank d = some ([], .number [d] .whole) := by
    rw [← (hfirst d hd).1]
    rfl
  have hminus : reader.step .minus d = some ([.mark 45], .number [d] .whole) := by
    rw [← (hfirst d hd).2]
    rfl
  unfold showInt
  rw [hds]
  split
  · have hsign : reader.step .blank 45 = some ([], .minus) := rfl
    refine ⟨[.mark 45], d :: ds, ?_⟩
    rw [Reader.scan_cons_of_step hsign, Reader.scan_cons, hminus, Option.bind_some,
      scan_digits hrest]
    rfl
  · refine ⟨[], d :: ds, ?_⟩
    rw [Reader.scan_cons_of_step hblank, scan_digits hrest]
    rfl

/-! ## What a C interface sees -/

theorem seen_eq {s : Bytes} (h : nulFree s = true) : seen s = s := by
  refine List.takeWhile_eq_self_iff.mpr fun b hb => ?_
  simp only [nulFree_iff] at h
  simpa using fun hb' : b = 0 => h (hb' ▸ hb)

theorem nulFree_doubled {s : Bytes} (h : nulFree s = true) : nulFree (doubled s) = true := by
  simp only [nulFree_iff, doubled,
    replaceAll, List.mem_flatMap, not_exists, not_and] at h ⊢
  intro b hb
  split
  · decide
  · rw [List.mem_singleton]
    exact fun hb' => h (hb' ▸ hb)

/-- A text between quotes. -/
theorem tokens_string {pre suf s : Bytes} (hpre : nulFree pre = true)
    (hout : endsOutside pre = true) (hsuf : nulFree suf = true) (hquote : suf.head? ≠ some 39)
    (hs : nulFree s = true) :
    tokens (pre ++ 39 :: (doubled s ++ 39 :: suf)) =
      (tokens pre).bind fun ts => (tokens suf).map fun us => ts ++ .string s :: us := by
  have hall : nulFree (pre ++ 39 :: (doubled s ++ 39 :: suf)) = true := by
    have hdoubled := nulFree_doubled hs
    simp only [nulFree_iff,
      List.mem_append, List.mem_cons, not_or] at hpre hsuf hdoubled ⊢
    exact ⟨hpre, by decide, hdoubled, by decide, hsuf⟩
  rw [tokens, tokens, tokens, seen_eq hall, seen_eq hpre, seen_eq hsuf,
    tokensFrom_string hout hquote]

/-- A text between quotes that holds a NUL: the C interface sees no closing quote. -/
theorem tokens_unclosed {pre s : Bytes} (hpre : nulFree pre = true)
    (hout : endsOutside pre = true) (hs : nulFree s = false) (rest : Bytes) :
    tokens (pre ++ 39 :: (doubled s ++ rest)) =
      (tokens pre).map (· ++ [.illegal (39 :: seen s)]) := by
  have hmem : 0 ∈ s := by simpa [nulFree] using hs
  obtain ⟨s₁, s₂, rfl, hs₁⟩ := List.eq_append_cons_of_mem hmem
  have hfree : nulFree s₁ = true := by simpa [nulFree] using hs₁
  have hseen : ∀ t u : Bytes, nulFree t = true → seen (t ++ 0 :: u) = t := by
    intro t u ht
    have hall := List.takeWhile_eq_self_iff.mp (seen_eq ht)
    rw [seen, List.takeWhile_append_of_pos hall]
    simp
  have htext : pre ++ 39 :: (doubled (s₁ ++ 0 :: s₂) ++ rest) =
      (pre ++ 39 :: doubled s₁) ++ 0 :: (doubled s₂ ++ rest) := by
    simp [doubled, replaceAll]
  have hfront : nulFree (pre ++ 39 :: doubled s₁) = true := by
    have hdoubled := nulFree_doubled hfree
    simp only [nulFree_iff,
      List.mem_append, List.mem_cons, not_or] at hpre hdoubled ⊢
    exact ⟨hpre, by decide, hdoubled⟩
  rw [tokens, tokens, htext, hseen _ _ hfront, hseen _ _ hfree, seen_eq hpre,
    tokensFrom_unclosed hout]

/-! ## A text in parentheses -/

/-- A byte of a text of names, numbers, blanks, commas and closing parentheses. -/
def isTail (b : UInt8) : Bool := isNameByte b || b == 32 || b == 41 || b == 44

/-- What stands around a text in parentheses: in front, nothing is open; behind, names and
numbers. -/
structure Around (pre suf : Bytes) (ts us : List Token) : Prop where
  free : nulFree pre = true
  front : reader.scan .idle pre = some (ts, .idle)
  paren : suf.head? = some 41
  tail : ∀ b ∈ suf, isTail b = true
  back : tokens suf = some us

variable {pre suf v : Bytes} {ts us : List Token}

theorem Around.nulFree (h : Around pre suf ts us) : Bytes.nulFree suf = true := by
  have hzero : 0 ∉ suf := by
    intro hmem
    exact absurd (h.tail 0 hmem) (by decide)
  simpa [Bytes.nulFree] using hzero

theorem Around.tokens_eq (h : Around pre suf ts us) (hv : Bytes.nulFree v = true) :
    tokens (pre ++ v ++ suf) = (reader.tokensFrom .idle (v ++ suf)).map (ts ++ ·) := by
  have hall : Bytes.nulFree (pre ++ v ++ suf) = true := by
    have hpre := h.free
    have hsuf := h.nulFree
    simp only [Bytes.nulFree, Bool.not_eq_true', List.contains_eq_mem, decide_eq_false_iff_not,
      List.mem_append, not_or] at hpre hsuf hv ⊢
    exact ⟨⟨hpre, hv⟩, hsuf⟩
  rw [tokens, seen_eq hall, List.append_assoc, Reader.tokensFrom_append h.front]

/-- Behind the `)` a text is read as by itself. -/
theorem Around.split (h : Around pre suf ts us) : ∃ r us', suf = 41 :: r ∧
    us = .mark 41 :: us' ∧ reader.tokensFrom .idle r = some us' ∧ ∀ b ∈ r, isTail b = true := by
  obtain ⟨r, rfl⟩ : ∃ r, suf = 41 :: r := by
    cases suf with
    | nil => cases h.paren
    | cons b r => exact ⟨r, by rw [Option.some.inj h.paren]⟩
  obtain ⟨ys, m, hscan⟩ := exists_scan .idle r
  have hrest : reader.tokensFrom .idle r = some (ys ++ flush m) := tokensFrom_of_scan hscan
  have hback := h.back
  have hparen : reader.scan .idle [41] = some ([.mark 41], .idle) := rfl
  rw [tokens, seen_eq h.nulFree, ← List.singleton_append, Reader.tokensFrom_append hparen,
    hrest] at hback
  exact ⟨r, _, rfl, (Option.some.inj hback).symm, hrest, (List.forall_mem_cons.mp h.tail).2⟩

end Sql
