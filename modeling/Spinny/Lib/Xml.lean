import Spinny.Lib.Js.Scan

/-!
# Documents of XML

The reading of a document in UTF-8, byte by byte, into runs of characters and markup. A character
stays the bytes that encode it.

* `encoded`: the bytes are characters of XML in UTF-8.
* `tokens`: the tokens of a document: a run of characters with its references replaced, and the
  text of a tag, a comment, a section or an instruction as it stands.
* `Node`: what an element holds, with its tokens.
* `Reads raw t`: between two tags `raw` is read as the characters `t`.
* `reads_weigh`: what reading does to a weight; `filled_iff`: when the texts that are put between
  the tags of a document are read as they are meant.
-/

namespace Xml

open Bytes

/-! ## Tokens -/

/-- A token of a document. -/
inductive Token where
  /-- A run of characters. -/
  | text (t : Bytes)
  /-- What stands between `<` and `>`. -/
  | markup (raw : Bytes)
  deriving DecidableEq

/-- How far the reading has come. -/
inductive Mode where
  /-- In a run of characters, behind at most two brackets. -/
  | text (read : Bytes) (brackets : Nat)
  /-- Inside a reference. -/
  | reference (read name : Bytes)
  /-- Inside markup. -/
  | markup (raw : Bytes)
  deriving DecidableEq

/-- A byte of a character. A carriage return is read as a line feed, so that it stands for no text
of its own, and is left out. -/
def isChar (b : UInt8) : Bool := 32 ≤ b || b == 9 || b == 10

/-- A code point that a reference may give. -/
def isCodePoint (n : Nat) : Bool :=
  n == 9 || n == 10 || n == 13 || (32 ≤ n && n ≤ 0xD7FF) || (0xE000 ≤ n && n ≤ 0xFFFD) ||
    (0x10000 ≤ n && n ≤ 0x10FFFF)

/-- The value of digits in a base, if all of them are digits. -/
def digitsValue (base : Nat) (ds : Bytes) : Option Nat :=
  if ds = [] then none
  else ds.foldlM (fun n b => do
    let d ← Js.hexValue b
    if d < base then some (base * n + d) else none) 0

/-- The character of a code point. -/
def charOf (n : Nat) : Option Bytes := if isCodePoint n then some (Js.utf8 n) else none

/-- What a reference with this name stands for. -/
def referent : Bytes → Option Bytes
  | 35 :: 120 :: ds => (digitsValue 16 ds).bind charOf
  | 35 :: ds => (digitsValue 10 ds).bind charOf
  | name =>
    if name = lit "lt" then some [60]
    else if name = lit "gt" then some [62]
    else if name = lit "amp" then some [38]
    else if name = lit "apos" then some [39]
    else if name = lit "quot" then some [34]
    else none

/-- A byte of the name of a reference. -/
def isNameByte (b : UInt8) : Bool :=
  isDigit b || (65 ≤ b && b ≤ 90) || (97 ≤ b && b ≤ 122) || b == 35

/-- The quote that is open at the end of a tag so far. -/
def openQuote (raw : Bytes) : Option UInt8 :=
  raw.foldl (fun q b =>
    match q with
    | some c => if b = c then none else some c
    | none => if b = 34 ∨ b = 39 then some b else none) none

/-- The byte `>` closes the markup. -/
def closes (raw : Bytes) : Bool :=
  if (lit "!--").isPrefixOf raw then (lit "--").isSuffixOf raw && 5 ≤ raw.length
  else if (lit "![CDATA[").isPrefixOf raw then (lit "]]").isSuffixOf raw && 10 ≤ raw.length
  else if (lit "?").isPrefixOf raw then (lit "?").isSuffixOf raw && 2 ≤ raw.length
  else openQuote raw == none

/-- The byte cannot go on with the markup. -/
def refuses (raw : Bytes) (b : UInt8) : Bool :=
  !isChar b || (b == 60 && raw.head?.any fun c => c != 33 && c != 63)

/-- The token of a run of characters. -/
def run (t : Bytes) : List Token := if t = [] then [] else [.text t]

/-- One byte: the tokens that it completes, and how the reading goes on. -/
def step : Mode → UInt8 → Option (List Token × Mode)
  | .text read brackets, b =>
    if b = 60 then some (run read, .markup [])
    else if b = 38 then some ([], .reference read [])
    else if b = 62 ∧ brackets = 2 then none
    else if isChar b then
      some ([], .text (read ++ [b]) (if b = 93 then min 2 (brackets + 1) else 0))
    else none
  | .reference read name, b =>
    if b = 59 then (referent name).map fun c => ([], .text (read ++ c) 0)
    else if isNameByte b then some ([], .reference read (name ++ [b]))
    else none
  | .markup raw, b =>
    if b = 62 ∧ closes raw then some ([.markup raw], .text [] 0)
    else if refuses raw b then none
    else some ([], .markup (raw ++ [b]))

/-- The end of the document. -/
def finish : Mode → Option (List Token)
  | .text read _ => some (run read)
  | _ => none

/-- The start of a document, and of what stands behind a tag. -/
def start : Mode := .text [] 0

/-- The reading of documents. -/
@[reducible] def reader : Reader Token Mode := ⟨step, finish⟩

/-! ## The encoding -/

/-- A character of which some bytes have been read. -/
structure Pending where
  /-- The bytes that are to come. -/
  owed : Nat
  value : Nat
  /-- The least code point that is written with so many bytes. -/
  least : Nat
  deriving DecidableEq

/-- One byte of UTF-8: `none` if no character goes on with it. -/
def decodeStep : Option Pending → UInt8 → Option (Option Pending)
  | none, b =>
    let n := b.toNat
    if n < 0x80 then some none
    else if n < 0xC0 then none
    else if n < 0xE0 then some (some ⟨1, n - 0xC0, 0x80⟩)
    else if n < 0xF0 then some (some ⟨2, n - 0xE0, 0x800⟩)
    else if n < 0xF8 then some (some ⟨3, n - 0xF0, 0x10000⟩)
    else none
  | some p, b =>
    let n := b.toNat
    if 0x80 ≤ n ∧ n < 0xC0 then
      let value := p.value * 64 + (n - 0x80)
      if p.owed ≠ 1 then some (some ⟨p.owed - 1, value, p.least⟩)
      else if p.least ≤ value ∧ isCodePoint value then some none
      else none
    else none

/-- The bytes are whole characters, each of them one of XML. -/
def encoded (s : Bytes) : Bool := s.foldlM decodeStep none == some none

/-- The tokens of a document. -/
def tokens (s : Bytes) : Option (List Token) :=
  if encoded s then reader.tokensFrom start s else none

/-! ## What a document holds -/

/-- The content of an element. -/
inductive Node where
  | text (t : Bytes)
  /-- An element with the name and the attributes as its start tag gives them. -/
  | element (name attributes : Bytes) (content : List Node)

mutual

/-- The tokens of a node. -/
def Node.tokens : Node → List Token
  | .text t => run t
  | .element name attributes content =>
    .markup (name ++ attributes) :: (contentTokens content ++ [.markup (47 :: name)])

/-- The tokens of what an element holds. -/
def contentTokens : List Node → List Token
  | [] => []
  | n :: ns => n.tokens ++ contentTokens ns

end

/-- An element that holds characters only. -/
def leaf (name t : Bytes) : Node := .element name [] [.text t]

/-! ## ASCII -/

theorem decodeStep_ascii {b : UInt8} (hb : b < 128) : decodeStep none b = some none := by
  have hn : b.toNat < 0x80 := UInt8.lt_iff_toNat_lt.mp hb
  simp only [decodeStep, if_pos hn]

/-- A byte of ASCII is a character of its own, and ends none. -/
theorem encoded_append_cons {b : UInt8} (hb : b < 128) (s t : Bytes) :
    encoded (s ++ b :: t) = (encoded s && encoded t) := by
  have hn : ¬ 0x80 ≤ b.toNat := Nat.not_le.mpr (UInt8.lt_iff_toNat_lt.mp hb)
  unfold encoded
  rw [List.foldlM_append]
  rcases s.foldlM decodeStep none with _ | _ | p
  · rfl
  · simp [decodeStep_ascii hb]
  · have hstep : decodeStep (some p) b = none := if_neg fun h => hn h.1
    simp [hstep]

theorem encoded_ascii_append {s : Bytes} (hs : s.all (· < 128) = true) (t : Bytes) :
    encoded (s ++ t) = encoded t := by
  induction s with
  | nil => rfl
  | cons b s ih =>
    simp only [List.all_cons, Bool.and_eq_true, decide_eq_true_eq] at hs
    exact (encoded_append_cons hs.1 [] (s ++ t)).trans ((Bool.true_and _).trans (ih hs.2))

theorem encoded_ascii {s : Bytes} (hs : s.all (· < 128) = true) : encoded s = true := by
  rw [← List.append_nil s, encoded_ascii_append hs]
  rfl

/-! ## Runs of characters -/

/-- Between two tags the bytes `raw` are read as the characters `t`, whatever they encode. -/
def Scans (raw t : Bytes) : Prop := ∃ brackets, reader.scan start raw = some ([], .text t brackets)

/-- Between two tags the text `raw` is read as the characters `t`. -/
structure Reads (raw t : Bytes) : Prop where
  encoded : encoded raw = true
  scans : Scans raw t

/-- The weight of a text. -/
def weigh (w : UInt8 → Int) (t : Bytes) : Int := (t.map w).sum

@[simp] theorem weigh_nil (w : UInt8 → Int) : weigh w [] = 0 := rfl

@[simp] theorem weigh_cons (w : UInt8 → Int) (b : UInt8) (t : Bytes) :
    weigh w (b :: t) = w b + weigh w t := by
  simp [weigh]

@[simp] theorem weigh_append (w : UInt8 → Int) (s t : Bytes) :
    weigh w (s ++ t) = weigh w s + weigh w t := by
  simp [weigh]

theorem utf8_shape {n : Nat} (h : n ≤ 0x10FFFF) :
    (∃ b, Js.utf8 n = [b]) ∨ (Js.utf8 n).length ≤ 4 ∧ ∀ b ∈ Js.utf8 n, 128 ≤ b := by
  have hbyte : ∀ k, 128 ≤ k → k < 256 → 128 ≤ UInt8.ofNat k := by
    intro k h₁ h₂
    rw [UInt8.le_iff_toNat_le, UInt8.toNat_ofNat', Nat.mod_eq_of_lt h₂]
    exact h₁
  unfold Js.utf8
  split_ifs with h₁ h₂ h₃
  · exact .inl ⟨_, rfl⟩
  all_goals
    refine .inr ⟨by simp, ?_⟩
    simp only [List.forall_mem_cons]
  · exact ⟨hbyte _ (by omega) (by omega), hbyte _ (by omega) (by omega), fun _ h => nomatch h⟩
  · exact ⟨hbyte _ (by omega) (by omega), hbyte _ (by omega) (by omega),
      hbyte _ (by omega) (by omega), fun _ h => nomatch h⟩
  · exact ⟨hbyte _ (by omega) (by omega), hbyte _ (by omega) (by omega),
      hbyte _ (by omega) (by omega), hbyte _ (by omega) (by omega), fun _ h => nomatch h⟩

/-- A reference stands for one byte, or for a few beyond ASCII. -/
theorem referent_shape {name c : Bytes} (h : referent name = some c) :
    (∃ b, c = [b]) ∨ c.length ≤ 4 ∧ ∀ b ∈ c, 128 ≤ b := by
  have hchar : ∀ n, charOf n = some c → (∃ b, c = [b]) ∨ c.length ≤ 4 ∧ ∀ b ∈ c, 128 ≤ b := by
    intro n hn
    unfold charOf at hn
    split at hn
    · rename_i hpoint
      obtain rfl := Option.some.inj hn
      refine utf8_shape ?_
      simp only [isCodePoint, Bool.or_eq_true, Bool.and_eq_true, beq_iff_eq,
        decide_eq_true_eq] at hpoint
      omega
    · cases hn
  unfold referent at h
  split at h
  · obtain ⟨n, -, hn⟩ := Option.bind_eq_some_iff.mp h
    exact hchar n hn
  · obtain ⟨n, -, hn⟩ := Option.bind_eq_some_iff.mp h
    exact hchar n hn
  · split_ifs at h <;> exact .inl ⟨_, (Option.some.inj h).symm⟩

/-- What a weight may be for a reference to lose `loss` of it. -/
def Loses (w : UInt8 → Int) (loss : Int) : Prop :=
  ∀ name c, (∀ b ∈ name, isNameByte b = true) → referent name = some c →
    weigh w c + loss ≤ w 38 + weigh w name + w 59

/-- The weight that has been read, with that of an open reference. -/
def Mode.weight (w : UInt8 → Int) (loss : Int) : Mode → Int
  | .text read _ => weigh w read
  | .reference read name => weigh w read + w 38 + weigh w name - loss
  | .markup _ => 0

/-- Outside of markup, with a name so far that may go on. -/
def Mode.Open : Mode → Prop
  | .text _ _ => True
  | .reference _ name => ∀ b ∈ name, isNameByte b = true
  | .markup _ => False

theorem step_open {w : UInt8 → Int} {loss : Int} (hw : Loses w loss) {m : Mode} (hm : m.Open)
    {b : UInt8} (hb : b ≠ 60) {r : List Token × Mode} (h : step m b = some r) :
    r.1 = [] ∧ r.2.Open ∧
      r.2.weight w loss + (if b = 38 then loss else 0) ≤ m.weight w loss + w b := by
  cases m with
  | text read brackets =>
    simp only [step] at h
    rw [if_neg hb] at h
    split_ifs at h with h₁ h₂ h₃ h₄
    · obtain rfl := Option.some.inj h
      refine ⟨rfl, fun c hc => absurd hc List.not_mem_nil, ?_⟩
      simp [Mode.weight, h₁]
    · obtain rfl := Option.some.inj h
      exact ⟨rfl, trivial, by simp [Mode.weight, h₁]⟩
    · obtain rfl := Option.some.inj h
      exact ⟨rfl, trivial, by simp [Mode.weight, h₁]⟩
  | reference read name =>
    simp only [step] at h
    split_ifs at h with h₁ h₂
    · obtain ⟨c, hc, rfl⟩ := Option.map_eq_some_iff.mp h
      have hlose := hw name c hm hc
      refine ⟨rfl, trivial, ?_⟩
      rw [h₁, if_neg (by decide)]
      simp only [Mode.weight, weigh_append]
      omega
    · obtain rfl := Option.some.inj h
      refine ⟨rfl, ?_, ?_⟩
      · intro c hc
        rcases List.mem_append.mp hc with hc | hc
        · exact hm c hc
        · rw [List.mem_singleton.mp hc]
          exact h₂
      · have h38 : b ≠ 38 := by
          rintro rfl
          exact absurd h₂ (by decide)
        rw [if_neg h38]
        simp only [Mode.weight, weigh_append, weigh_cons, weigh_nil]
        omega
  | markup raw => exact hm.elim

/-- Without `<` no token is completed, and no weight is gained. -/
theorem scan_open {w : UInt8 → Int} {loss : Int} (hw : Loses w loss) {m : Mode} (hm : m.Open)
    {s : Bytes} (hs : 60 ∉ s) {r : List Token × Mode} (h : reader.scan m s = some r) :
    r.1 = [] ∧ r.2.Open ∧ r.2.weight w loss + s.count 38 * loss ≤ m.weight w loss + weigh w s := by
  induction s generalizing m r with
  | nil =>
    obtain rfl := Option.some.inj h
    exact ⟨rfl, hm, by simp⟩
  | cons b s ih =>
    rw [List.mem_cons, not_or] at hs
    rw [Reader.scan_cons] at h
    obtain ⟨r₁, h₁, h⟩ := Option.bind_eq_some_iff.mp h
    obtain ⟨r₂, h₂, rfl⟩ := Option.map_eq_some_iff.mp h
    obtain ⟨ht₁, hm₁, hw₁⟩ := step_open hw hm (Ne.symm hs.1) h₁
    obtain ⟨ht₂, hm₂, hw₂⟩ := ih hm₁ hs.2 h₂
    refine ⟨by rw [ht₁, ht₂]; rfl, hm₂, ?_⟩
    rw [weigh_cons, List.count_cons]
    dsimp only
    by_cases hb : b = 38
    · rw [if_pos hb] at hw₁
      subst hb
      simp only [beq_self_eq_true, if_true]
      push_cast
      rw [add_mul]
      omega
    · rw [if_neg hb] at hw₁
      rw [if_neg (by simpa using hb), Nat.add_zero]
      omega

/-- What reading does to a weight. -/
theorem Scans.weigh_le {w : UInt8 → Int} {loss : Int} (hw : Loses w loss) {raw t : Bytes}
    (h60 : 60 ∉ raw) (h : Scans raw t) : weigh w t + raw.count 38 * loss ≤ weigh w raw := by
  obtain ⟨n, hn⟩ := h
  have hle := (scan_open (m := start) hw trivial h60 hn).2.2
  simpa [start, Mode.weight] using hle

/-- The bytes that start something else than characters, and the line end. -/
def markWeight (b : UInt8) : Int := if b = 38 then 2 else if b = 60 ∨ b = 10 then 1 else 0

theorem markWeight_nonneg (b : UInt8) : 0 ≤ markWeight b := by
  unfold markWeight
  split_ifs <;> decide

theorem weigh_nonneg {w : UInt8 → Int} (hw : ∀ b, 0 ≤ w b) (t : Bytes) : 0 ≤ weigh w t := by
  induction t with
  | nil => simp
  | cons b t ih =>
    rw [weigh_cons]
    exact add_nonneg (hw b) ih

theorem weigh_le_of_mem {w : UInt8 → Int} (hw : ∀ b, 0 ≤ w b) {b : UInt8} {t : Bytes}
    (h : b ∈ t) : w b ≤ weigh w t := by
  induction t with
  | nil => exact absurd h List.not_mem_nil
  | cons c t ih =>
    rw [weigh_cons]
    rcases List.mem_cons.mp h with rfl | h
    · have := weigh_nonneg hw t
      omega
    · have := ih h
      have := hw c
      omega

theorem weigh_eq_zero {w : UInt8 → Int} {t : Bytes} (h : ∀ b ∈ t, w b = 0) : weigh w t = 0 := by
  induction t with
  | nil => rfl
  | cons b t ih =>
    rw [weigh_cons, h b (by simp), ih fun c hc => h c (by simp [hc]), add_zero]

theorem weigh_congr {w w' : UInt8 → Int} {t : Bytes} (h : ∀ b ∈ t, w b = w' b) :
    weigh w t = weigh w' t := by
  unfold weigh
  rw [List.map_congr_left h]

theorem weigh_add (w w' : UInt8 → Int) (t : Bytes) :
    weigh (fun b => w b + w' b) t = weigh w t + weigh w' t := by
  unfold weigh
  exact List.sum_map_add

theorem weigh_one (t : Bytes) : weigh (fun _ => 1) t = t.length := by
  simp [weigh]

theorem weigh_le_of_infix {w : UInt8 → Int} (hw : ∀ b, 0 ≤ w b) {s t : Bytes} (h : s <:+: t) :
    weigh w s ≤ weigh w t := by
  obtain ⟨u, v, rfl⟩ := h
  have hu := weigh_nonneg hw u
  have hv := weigh_nonneg hw v
  simp only [weigh_append]
  omega

/-- A reference gives no more marks than its own. -/
theorem markWeight_loses : Loses markWeight 0 := by
  intro name c _ hc
  have hname := weigh_nonneg markWeight_nonneg name
  have h38 : markWeight 38 = 2 := rfl
  have h59 : markWeight 59 = 0 := rfl
  rcases referent_shape hc with ⟨b, rfl⟩ | ⟨-, hhigh⟩
  · have hb : markWeight b ≤ 2 := by
      unfold markWeight
      split_ifs <;> decide
    rw [weigh_cons, weigh_nil]
    omega
  · have hzero : weigh markWeight c = 0 := by
      refine weigh_eq_zero fun b hb => ?_
      have h128 := hhigh b hb
      have h₁ : b ≠ 38 := by rintro rfl; exact absurd h128 (by decide)
      have h₂ : ¬ (b = 60 ∨ b = 10) := by
        rintro (rfl | rfl) <;> exact absurd h128 (by decide)
      rw [markWeight, if_neg h₁, if_neg h₂]
    omega

/-! ## Texts between tags -/

/-- The first token that is completed inside markup is that markup. -/
theorem tokensFrom_markup {raw s : Bytes} {ts : List Token}
    (h : reader.tokensFrom (.markup raw) s = some ts) : ∃ raw' ts', ts = .markup raw' :: ts' := by
  induction s generalizing raw with
  | nil => cases h
  | cons b s ih =>
    unfold Reader.tokensFrom at h
    rw [Reader.scan_cons] at h
    obtain ⟨r, hr, hfinish⟩ := Option.bind_eq_some_iff.mp h
    obtain ⟨r₁, hstep, hr⟩ := Option.bind_eq_some_iff.mp hr
    obtain ⟨r₂, hscan, rfl⟩ := Option.map_eq_some_iff.mp hr
    obtain ⟨us, hus, rfl⟩ := Option.map_eq_some_iff.mp hfinish
    simp only [step] at hstep
    split_ifs at hstep
    · obtain rfl := Option.some.inj hstep
      exact ⟨raw, _, rfl⟩
    · obtain rfl := Option.some.inj hstep
      have htail : reader.tokensFrom (.markup (raw ++ [b])) s = some (r₂.1 ++ us) := by
        unfold Reader.tokensFrom
        rw [hscan, Option.bind_some, hus]
        rfl
      exact ih htail

/-- A text that starts with `<` starts with markup. -/
theorem tokensFrom_start {s : Bytes} {ts : List Token}
    (h : reader.tokensFrom start (60 :: s) = some ts) : ∃ raw ts', ts = .markup raw :: ts' := by
  have hstep : reader.step start 60 = some ([], .markup []) := rfl
  unfold Reader.tokensFrom at h
  rw [Reader.scan_cons_of_step hstep] at h
  exact tokensFrom_markup h

/-- The run of characters in front of `<` is completed by it. -/
theorem tokensFrom_run (t : Bytes) (n : Nat) (s : Bytes) :
    reader.tokensFrom (.text t n) (60 :: s) =
      (reader.tokensFrom start (60 :: s)).map (run t ++ ·) := by
  have hstep : reader.step start 60 = some ([], .markup []) := rfl
  unfold Reader.tokensFrom
  rw [Reader.scan_cons, Reader.scan_cons_of_step hstep,
    show reader.step (.text t n) 60 = some (run t, .markup []) from rfl, Option.bind_some]
  cases reader.scan (.markup []) s with
  | none => rfl
  | some r =>
    simp only [Option.map_some, Option.bind_some]
    cases finish r.2 <;> simp

theorem run_append_inj {s t raw raw' : Bytes} {ts ts' : List Token}
    (h : run s ++ .markup raw :: ts = run t ++ .markup raw' :: ts') :
    s = t ∧ Token.markup raw :: ts = .markup raw' :: ts' := by
  unfold run at h
  split_ifs at h with hs ht ht
  · exact ⟨hs.trans ht.symm, h⟩
  · simp at h
  · simp at h
  · simp only [List.singleton_append, List.cons.injEq, Token.text.injEq] at h
    exact ⟨h.1, by rw [h.2.1, h.2.2]⟩

/-- A text without `<` in front of a tag is read as a run of characters. -/
theorem run_before_tag {p s : Bytes} (hp : 60 ∉ p) {us : List Token}
    (h : reader.tokensFrom start (p ++ 60 :: s) = some us) :
    ∃ t raw ts, Scans p t ∧ us = run t ++ .markup raw :: ts ∧
      reader.tokensFrom start (60 :: s) = some (.markup raw :: ts) := by
  have hscan : ∃ r, reader.scan start p = some r := by
    unfold Reader.tokensFrom at h
    rw [Reader.scan_append] at h
    cases hr : reader.scan start p with
    | none => simp [hr] at h
    | some r => exact ⟨r, rfl⟩
  obtain ⟨⟨ts₀, m⟩, hr⟩ := hscan
  obtain ⟨hnil, hopen, -⟩ := scan_open (m := start) markWeight_loses trivial hp hr
  dsimp only at hnil hopen
  subst hnil
  rw [Reader.tokensFrom_append hr] at h
  cases m with
  | text t n =>
    rw [tokensFrom_run] at h
    cases hs : reader.tokensFrom start (60 :: s) with
    | none => simp [hs] at h
    | some us' =>
      obtain ⟨raw, ts, rfl⟩ := tokensFrom_start hs
      simp only [hs, Option.map_some, List.nil_append, Option.some.injEq] at h
      exact ⟨t, raw, ts, ⟨n, hr⟩, h.symm, rfl⟩
  | reference read name =>
    -- No reference goes on with `<`.
    have hnone : reader.tokensFrom (.reference read name) (60 :: s) = none := rfl
    simp [hnone] at h
  | markup raw => exact hopen.elim

/-- A text that is put between tags. -/
structure Gap where
  raw : Bytes
  /-- The characters that it is put there for. -/
  meant : Bytes
  /-- What stands behind it, up to the next such place. -/
  after : Bytes

/-- The tokens of a text that stands between two such places. -/
def fixedTokens (t : Bytes) : List Token := ((reader.scan start t).getD ([], start)).1

/-- The text is of ASCII and starts and ends with a tag. -/
def isFixed (t : Bytes) : Bool :=
  t.all (· < 128) && t.head? == some 60 && (reader.scan start t).map Prod.snd == some start

theorem isFixed_iff {t : Bytes} : isFixed t = true ↔ t.all (· < 128) = true ∧
    (∃ s, t = 60 :: s) ∧ reader.scan start t = some (fixedTokens t, start) := by
  unfold isFixed fixedTokens
  rw [Bool.and_eq_true, Bool.and_eq_true, and_assoc, beq_iff_eq, beq_iff_eq]
  refine and_congr_right fun _ => and_congr ?_ ?_
  · cases t with
    | nil => simp
    | cons b s => simp
  · rcases reader.scan start t with _ | ⟨ts, m⟩ <;> simp

/-- One place: the rest of the document is read as it is meant, and the text as well. -/
theorem gap_iff {g : Gap} (hfixed : isFixed g.after = true)
    (hweigh : weigh markWeight g.raw ≤ weigh markWeight g.meant) (s : Bytes) (ts : List Token) :
    reader.tokensFrom start (g.raw ++ (g.after ++ s)) =
        some (run g.meant ++ (fixedTokens g.after ++ ts)) ↔
      Scans g.raw g.meant ∧ reader.tokensFrom start s = some ts := by
  obtain ⟨-, ⟨a, ha⟩, hscan⟩ := isFixed_iff.mp hfixed
  have hrest : reader.tokensFrom start (g.after ++ s) =
      (reader.tokensFrom start s).map (fixedTokens g.after ++ ·) :=
    Reader.tokensFrom_append hscan s
  constructor
  · intro h
    have hfirst : ∃ raw ts', fixedTokens g.after = .markup raw :: ts' := by
      have hfrom : reader.tokensFrom start (60 :: a) = some (fixedTokens g.after) := by
        unfold Reader.tokensFrom
        rw [← ha, hscan]
        exact congrArg some (List.append_nil _)
      exact tokensFrom_start hfrom
    obtain ⟨raw, ts', hfixed'⟩ := hfirst
    by_cases h60 : 60 ∈ g.raw
    · -- The run up to the first `<` would have to be the whole text, which has more marks.
      obtain ⟨p, q, hraw, hp⟩ := List.eq_append_cons_of_mem h60
      rw [hraw, List.append_assoc, List.cons_append] at h
      obtain ⟨t, raw', us, hread, heq, -⟩ := run_before_tag hp h
      rw [hfixed', List.cons_append] at heq
      obtain ⟨ht, -⟩ := run_append_inj heq
      have hle := hread.weigh_le markWeight_loses hp
      have hq := weigh_nonneg markWeight_nonneg q
      have hmark : markWeight 60 = 1 := rfl
      rw [hraw, weigh_append, weigh_cons, ht] at hweigh
      omega
    · rw [show g.after ++ s = 60 :: (a ++ s) by rw [ha, List.cons_append]] at h
      obtain ⟨t, raw', us, hread, heq, hus⟩ := run_before_tag h60 h
      rw [hfixed', List.cons_append] at heq
      obtain ⟨rfl, hmarkup⟩ := run_append_inj heq
      refine ⟨hread, ?_⟩
      rw [← List.cons_append, ← ha, hrest, ← hmarkup, ← List.cons_append, ← hfixed'] at hus
      exact Reader.map_append_eq_some.mp hus
  · rintro ⟨⟨n, hn⟩, hs⟩
    rw [Reader.tokensFrom_append hn, ha, List.cons_append, tokensFrom_run, ← List.cons_append,
      ← ha, hrest, hs]
    rfl

/-- One place: the text is encoded on its own. -/
theorem encoded_gap {g : Gap} (hfixed : isFixed g.after = true) (s : Bytes) :
    encoded (g.raw ++ (g.after ++ s)) = (encoded g.raw && encoded s) := by
  obtain ⟨hascii, ⟨a, ha⟩, -⟩ := isFixed_iff.mp hfixed
  rw [ha, List.all_cons, Bool.and_eq_true] at hascii
  rw [ha, List.cons_append, encoded_append_cons (by decide), encoded_ascii_append hascii.2]

/-- When the texts that are put between the tags of a document are read as they are meant. -/
theorem filled_iff {lead last : Bytes} (hlead : isFixed lead = true)
    (hascii : last.all (· < 128) = true) {us : List Token}
    (hlast : reader.tokensFrom start last = some us) {gaps : List Gap}
    (h : ∀ g ∈ gaps, isFixed g.after = true ∧ weigh markWeight g.raw ≤ weigh markWeight g.meant) :
    tokens (lead ++ ((gaps.flatMap fun g => g.raw ++ g.after) ++ last)) =
        some (fixedTokens lead ++
          ((gaps.flatMap fun g => run g.meant ++ fixedTokens g.after) ++ us)) ↔
      ∀ g ∈ gaps, Reads g.raw g.meant := by
  obtain ⟨hleadAscii, -, hleadScan⟩ := isFixed_iff.mp hlead
  have hencoded : encoded (lead ++ ((gaps.flatMap fun g => g.raw ++ g.after) ++ last)) = true ↔
      ∀ g ∈ gaps, encoded g.raw = true := by
    rw [encoded_ascii_append hleadAscii]
    induction gaps with
    | nil => simpa using encoded_ascii hascii
    | cons g gaps ih =>
      rw [List.flatMap_cons, List.append_assoc, List.append_assoc, encoded_gap (h g (by simp)).1,
        Bool.and_eq_true, List.forall_mem_cons, ih fun g' hg' => h g' (by simp [hg'])]
  have hscans : reader.tokensFrom start (lead ++
        ((gaps.flatMap fun g => g.raw ++ g.after) ++ last)) =
      some (fixedTokens lead ++ ((gaps.flatMap fun g => run g.meant ++ fixedTokens g.after) ++ us)) ↔
        ∀ g ∈ gaps, Scans g.raw g.meant := by
    clear hencoded
    rw [Reader.tokensFrom_append hleadScan, Reader.map_append_eq_some]
    induction gaps with
    | nil => simp [hlast]
    | cons g gaps ih =>
      have hg := h g (by simp)
      simp only [List.flatMap_cons, List.append_assoc] at ih ⊢
      rw [gap_iff hg.1 hg.2, List.forall_mem_cons, ih fun g' hg' => h g' (by simp [hg'])]
  unfold tokens
  split_ifs with hall
  · rw [hscans]
    exact forall₂_congr fun g hg =>
      ⟨fun hs => ⟨hencoded.mp hall g hg, hs⟩, Reads.scans⟩
  · refine iff_of_false (by simp) fun hreads => hall ?_
    exact hencoded.mpr fun g hg => (hreads g hg).encoded

/-! ## Texts that stand for themselves -/

/-- Characters only, without the end of a section. -/
structure Plain (t : Bytes) : Prop where
  encoded : encoded t = true
  char : ∀ b ∈ t, isChar b = true ∧ b ≠ 38 ∧ b ≠ 60
  close : ¬ [93, 93, 62] <:+: t

theorem scan_plain {t : Bytes} (hchar : ∀ b ∈ t, isChar b = true ∧ b ≠ 38 ∧ b ≠ 60)
    {n : Nat} (hn : n ≤ 2) (hclose : ¬ [93, 93, 62] <:+: List.replicate n 93 ++ t) (read : Bytes) :
    ∃ n', reader.scan (.text read n) t = some ([], .text (read ++ t) n') := by
  induction t generalizing n read with
  | nil => exact ⟨n, by simp⟩
  | cons b t ih =>
    obtain ⟨hb, h38, h60⟩ := hchar b (by simp)
    have hgt : ¬ (b = 62 ∧ n = 2) := by
      rintro ⟨rfl, rfl⟩
      exact hclose ⟨[], t, rfl⟩
    have hstep : reader.step (.text read n) b =
        some ([], .text (read ++ [b]) (if b = 93 then min 2 (n + 1) else 0)) := by
      simp only [step, if_neg h60, if_neg h38, if_neg hgt, if_pos hb]
    have hnext : ¬ [93, 93, 62] <:+:
        List.replicate (if b = 93 then min 2 (n + 1) else 0) 93 ++ t := by
      refine fun hin => hclose (hin.trans ?_)
      split_ifs with hb93
      · refine List.IsSuffix.isInfix ⟨List.replicate (n + 1 - min 2 (n + 1)) 93, ?_⟩
        rw [← List.append_assoc, List.replicate_append_replicate,
          Nat.sub_add_cancel (Nat.min_le_right _ _), List.replicate_succ', hb93]
        simp
      · exact List.IsSuffix.isInfix ⟨List.replicate n 93 ++ [b], by simp⟩
    obtain ⟨n', hn'⟩ := ih (fun c hc => hchar c (by simp [hc]))
      (n := if b = 93 then min 2 (n + 1) else 0) (by split_ifs <;> omega) hnext (read ++ [b])
    refine ⟨n', ?_⟩
    rw [Reader.scan_cons_of_step hstep, hn']
    simp

theorem Plain.reads {t : Bytes} (h : Plain t) : Reads t t :=
  ⟨h.encoded, scan_plain h.char (Nat.zero_le 2) h.close []⟩

/-- Inside markup no run of characters is left open. -/
theorem scan_markup {raw s : Bytes} {m : Mode} (h : reader.scan (.markup raw) s = some ([], m)) :
    ∃ raw', m = .markup raw' := by
  induction s generalizing raw with
  | nil => exact ⟨raw, (Prod.mk.inj (Option.some.inj h)).2.symm⟩
  | cons b s ih =>
    rw [Reader.scan_cons] at h
    obtain ⟨r, hstep, h⟩ := Option.bind_eq_some_iff.mp h
    obtain ⟨r', hr', heq⟩ := Option.map_eq_some_iff.mp h
    simp only [step] at hstep
    split_ifs at hstep
    · obtain rfl := Option.some.inj hstep
      simp at heq
    · obtain rfl := Option.some.inj hstep
      rw [List.nil_append] at heq
      exact ih (hr'.trans (congrArg some heq))

/-- What is read as characters has no `<`. -/
theorem Scans.not_mem {raw t : Bytes} (h : Scans raw t) : 60 ∉ raw := by
  intro hmem
  obtain ⟨n, hn⟩ := h
  obtain ⟨p, q, rfl, hp⟩ := List.eq_append_cons_of_mem hmem
  rw [Reader.scan_append] at hn
  obtain ⟨⟨ts, m⟩, hr, hn⟩ := Option.bind_eq_some_iff.mp hn
  obtain ⟨r', hr', heq⟩ := Option.map_eq_some_iff.mp hn
  obtain ⟨-, hopen, -⟩ := scan_open (m := start) markWeight_loses trivial hp hr
  obtain ⟨hnil, hmode⟩ := Prod.mk.inj heq
  obtain ⟨-, hnil'⟩ := List.append_eq_nil_iff.mp hnil
  rw [Reader.scan_cons] at hr'
  obtain ⟨r₁, hstep, hr'⟩ := Option.bind_eq_some_iff.mp hr'
  obtain ⟨r₂, hr₂, rfl⟩ := Option.map_eq_some_iff.mp hr'
  obtain ⟨-, hnil₂⟩ := List.append_eq_nil_iff.mp hnil'
  dsimp only at hmode hnil₂ hopen
  cases m with
  | text read k =>
    obtain rfl := Option.some.inj hstep
    obtain ⟨raw', hraw⟩ := scan_markup (hr₂.trans (by rw [← hnil₂]))
    rw [hraw] at hmode
    cases hmode
  | reference read name => cases hstep
  | markup raw' => exact hopen.elim

/-- What stands behind a byte of a text has no end of a section, and the byte makes none. -/
theorem not_close_cons {b : UInt8} {t : Bytes} {n : Nat} (hn : n ≤ 2) (hgt : ¬ (b = 62 ∧ n = 2))
    (h : ¬ [93, 93, 62] <:+: List.replicate (if b = 93 then min 2 (n + 1) else 0) 93 ++ t) :
    ¬ [93, 93, 62] <:+: List.replicate n 93 ++ b :: t := by
  by_cases hb : b = 93
  · subst hb
    rw [if_pos rfl] at h
    interval_cases n <;> simp_all [List.infix_cons_iff, List.replicate]
  · rw [if_neg hb] at h
    have hb' : (93 : UInt8) ≠ b := Ne.symm hb
    have hgt' : n = 2 → (62 : UInt8) ≠ b := fun h2 h62 => hgt ⟨h62.symm, h2⟩
    interval_cases n <;> simp_all [List.infix_cons_iff, List.replicate, List.cons_prefix_cons]

/-- Without references a text is read as it stands. -/
theorem scan_no_reference {t : Bytes} (h38 : 38 ∉ t) (h60 : 60 ∉ t) {read : Bytes} {n : Nat}
    (hn : n ≤ 2) {r : List Token × Mode} (h : reader.scan (.text read n) t = some r) :
    (∃ n', r = ([], .text (read ++ t) n')) ∧ (∀ b ∈ t, isChar b = true) ∧
      ¬ [93, 93, 62] <:+: List.replicate n 93 ++ t := by
  induction t generalizing read n r with
  | nil =>
    obtain rfl := Option.some.inj h
    refine ⟨⟨n, by simp⟩, fun _ h => absurd h List.not_mem_nil, fun hin => ?_⟩
    have hmem := hin.subset (show (62 : UInt8) ∈ [93, 93, 62] by decide)
    simp at hmem
  | cons b t ih =>
    simp only [List.mem_cons, not_or] at h38 h60
    by_cases hgt : b = 62 ∧ n = 2
    · rw [Reader.scan_cons, show reader.step (.text read n) b = none by
        simp only [step, if_neg (Ne.symm h60.1), if_neg (Ne.symm h38.1), if_pos hgt]] at h
      cases h
    · by_cases hchar : isChar b = true
      · have hstep : reader.step (.text read n) b =
            some ([], .text (read ++ [b]) (if b = 93 then min 2 (n + 1) else 0)) := by
          simp only [step, if_neg (Ne.symm h60.1), if_neg (Ne.symm h38.1), if_neg hgt,
            if_pos hchar]
        rw [Reader.scan_cons_of_step hstep] at h
        obtain ⟨⟨n', rfl⟩, hall, hclose⟩ := ih h38.2 h60.2 (by split_ifs <;> omega) h
        exact ⟨⟨n', by simp⟩, by simpa [hchar] using hall, not_close_cons hn hgt hclose⟩
      · rw [Reader.scan_cons, show reader.step (.text read n) b = none by
          simp only [step, if_neg (Ne.symm h60.1), if_neg (Ne.symm h38.1), if_neg hgt,
            if_neg hchar]] at h
        cases h

/-- Without references a text is read as itself. -/
theorem Reads.of_no_reference {raw t : Bytes} (h : Reads raw t) (h38 : 38 ∉ raw) :
    t = raw ∧ Plain raw := by
  have h60 := h.scans.not_mem
  obtain ⟨hencoded, n, hn⟩ := h
  obtain ⟨⟨n', heq⟩, hchar, hclose⟩ := scan_no_reference h38 h60 (Nat.zero_le 2) hn
  simp only [Prod.mk.injEq, Mode.text.injEq, List.nil_append, true_and] at heq
  refine ⟨heq.1, hencoded, fun b hb => ⟨hchar b hb, ?_, ?_⟩, hclose⟩
  · rintro rfl
    exact h38 hb
  · rintro rfl
    exact h60 hb

/-- The length, where a reference counts for more than what it stands for. -/
def lengthWeight (b : UInt8) : Int := if b = 38 then 5 else 1

theorem lengthWeight_nonneg (b : UInt8) : 0 ≤ lengthWeight b := by
  unfold lengthWeight
  split_ifs <;> decide

theorem lengthWeight_loses : Loses lengthWeight 1 := by
  intro name c _ hc
  have hname := weigh_nonneg lengthWeight_nonneg name
  have hle : weigh lengthWeight c ≤ 5 := by
    rcases referent_shape hc with ⟨b, rfl⟩ | ⟨hlen, hhigh⟩
    · rw [weigh_cons, weigh_nil]
      unfold lengthWeight
      split_ifs <;> decide
    · have hone : weigh lengthWeight c = c.length := by
        rw [← weigh_one]
        refine weigh_congr fun b hb => if_neg ?_
        rintro rfl
        exact absurd (hhigh 38 hb) (by decide)
      omega
  have h38 : lengthWeight 38 = 5 := rfl
  have h59 : lengthWeight 59 = 1 := rfl
  omega

/-- A text that is read as itself has no references. -/
theorem reads_self_iff {t : Bytes} : Reads t t ↔ Plain t := by
  refine ⟨fun h => ?_, Plain.reads⟩
  have hle := h.scans.weigh_le lengthWeight_loses h.scans.not_mem
  exact (h.of_no_reference (List.count_eq_zero.mp (by omega))).2

end Xml
