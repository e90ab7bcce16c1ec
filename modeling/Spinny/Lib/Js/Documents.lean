import Spinny.Lib.Js.Strings

/-!
# Texts that are literals of JavaScript

* `Value`: what a literal denotes, with its tokens.
* `Piece`: fixed text, numbers and strings; `tokens_text_iff`: what the tokens of a text of pieces
  are.
* `document_iff`: when a text of pieces is the literal of a value.
-/

namespace Js

open Bytes

/-! ## Values -/

/-- How the name of a property is written. -/
inductive Key where
  | word (w : Bytes)
  | string (s : Bytes)
  deriving DecidableEq

/-- What a literal denotes. -/
inductive Value where
  | number (n : Int)
  | string (s : Bytes)
  | boolean (b : Bool)
  | array (elements : List Value)
  | object (members : List (Key × Value))

/-- The tokens of a number. -/
def numberTokens (n : Int) : List Token :=
  if n < 0 then [.mark 45, .number (decimal n.natAbs)] else [.number (decimal n.natAbs)]

/-- The token of a name. -/
def Key.token : Key → Token
  | word w => .word w
  | string s => .string s

mutual

/-- The tokens of the literal of a value. -/
def Value.tokens : Value → List Token
  | .number n => numberTokens n
  | .string s => [.string s]
  | .boolean b => [.word (if b then lit "true" else lit "false")]
  | .array vs => .mark 91 :: (elementTokens vs ++ [.mark 93])
  | .object ms => .mark 123 :: (memberTokens ms ++ [.mark 125])

/-- The elements of an array. -/
def elementTokens : List Value → List Token
  | [] => []
  | [v] => v.tokens
  | v :: vs => v.tokens ++ .mark 44 :: elementTokens vs

/-- The properties of an object. -/
def memberTokens : List (Key × Value) → List Token
  | [] => []
  | [(k, v)] => k.token :: .mark 58 :: v.tokens
  | (k, v) :: ms => k.token :: .mark 58 :: (v.tokens ++ .mark 44 :: memberTokens ms)

end

/-- The text is the literal of the value. -/
def Denotes (text : Bytes) (v : Value) : Prop := tokens text = some v.tokens

/-! ## Pieces -/

/-- A piece of a text whose strings stand between quotes `q`. -/
inductive Piece where
  /-- A text without strings of its own. -/
  | fixed (t : Bytes)
  /-- A number and the text behind it. -/
  | number (n : Int) (t : Bytes)
  /-- A string in which `x` is escaped. -/
  | string (x : Option UInt8) (s : Bytes)

/-- The tokens of a text that ends between tokens. -/
def fixedTokens (t : Bytes) : List Token := ((scan .idle t).getD ([], .idle)).1

/-- The text ends between tokens and has no backslash. -/
def isFixed (t : Bytes) : Bool := (scan .idle t).map Prod.snd == some .idle && !t.contains 92

namespace Piece

/-- The text of a piece. -/
def text (q : UInt8) : Piece → Bytes
  | fixed t => t
  | number n t => showInt n ++ t
  | string x s => q :: (escaped x s ++ [q])

/-- The tokens that the piece stands for. -/
def tokens : Piece → List Token
  | fixed t => fixedTokens t
  | number n t => numberTokens n ++ fixedTokens t
  | string _ s => [.string s]

/-- The piece can be told from those beside it. -/
def fits (q : UInt8) : Piece → Bool
  | fixed t => isFixed t
  | number _ t => isFixed t && t.head?.any fun b => !isDigit b
  | string x _ => (q == 39 || q == 34) && x.all fun b => b == 39 || b == 34

/-- The piece is read back. -/
def reads (q : UInt8) : Piece → Bool
  | string x s => survives q x s
  | _ => true

end Piece

theorem isFixed_iff {t : Bytes} :
    isFixed t = true ↔ scan .idle t = some (fixedTokens t, .idle) ∧ 92 ∉ t := by
  unfold isFixed fixedTokens
  rcases h : scan .idle t with _ | ⟨ts, m⟩
  · simp
  · simp

theorem step_digit {b : UInt8} (h : isDigit b = true) :
    step .idle b = some ([], .number [b]) := by
  have hb : isBlank b = false ∧ ¬ (b = 39 ∨ b = 34) := by
    revert b
    decide +kernel
  simp [step, idleStep, hb, h]

theorem scan_digits {d s : Bytes} (h : ∀ b ∈ s, isDigit b = true) (t : Bytes) :
    scan (.number d) (s ++ t) = scan (.number (d ++ s)) t := by
  induction s generalizing d with
  | nil => simp
  | cons b s ih =>
    have hstep : step (.number d) b = some ([], .number (d ++ [b])) := if_pos (h b (by simp))
    rw [List.cons_append, scan_cons_of_step hstep, ih fun c hc => h c (by simp [hc])]
    simp

/-- A number ends before a byte that is no digit. -/
theorem scan_number (n : Nat) {t : Bytes} {b : UInt8} (hb : t.head? = some b)
    (hdigit : isDigit b = false) :
    scan .idle (decimal n ++ t) =
      (scan .idle t).map fun r => (.number (decimal n) :: r.1, r.2) := by
  obtain ⟨c, s, hcs⟩ := List.exists_cons_of_ne_nil (decimal_ne_nil n)
  have hall : ∀ c ∈ decimal n, isDigit c = true := fun _ hc => isDigit_of_mem_decimal hc
  rw [hcs] at hall ⊢
  obtain ⟨b', t, rfl⟩ : ∃ b' t', t = b' :: t' := by
    cases t with
    | nil => cases hb
    | cons b' t' => exact ⟨b', t', rfl⟩
  obtain rfl := Option.some.inj hb
  have hstep : step (.number (c :: s)) b' =
      some (.number (c :: s) :: (idleStep b').1, (idleStep b').2) := if_neg (by simp [hdigit])
  rw [List.cons_append, scan_cons_of_step (step_digit (hall c (by simp))),
    scan_digits fun b hb => hall b (by simp [hb]), List.singleton_append, scan_cons, hstep,
    scan_cons, show step .idle b' = some (idleStep b') from rfl]
  simp only [Option.bind_some]
  cases scan (idleStep b').2 t <;> rfl

theorem scan_showInt (n : Int) {t : Bytes} {b : UInt8} (hb : t.head? = some b)
    (hdigit : isDigit b = false) :
    scan .idle (showInt n ++ t) = (scan .idle t).map fun r => (numberTokens n ++ r.1, r.2) := by
  unfold showInt numberTokens
  split_ifs
  · rw [List.cons_append, scan_cons, show step .idle 45 = some ([.mark 45], .idle) from rfl,
      Option.bind_some, scan_number _ hb hdigit]
    cases scan .idle t <;> rfl
  · rw [scan_number _ hb hdigit]
    cases scan .idle t <;> rfl

/-- What stands before the first `q` or the end of the line has no backslash. -/
def Calm (q : UInt8) (t : Bytes) : Prop :=
  92 ∉ t.takeWhile fun b => b != q && b != 10 && b != 13

theorem Calm.append {q : UInt8} {s t : Bytes} (hs : 92 ∉ s) (ht : Calm q t) :
    Calm q (s ++ t) := by
  induction s with
  | nil => exact ht
  | cons b s ih =>
    simp only [List.mem_cons, not_or] at hs
    unfold Calm
    rw [List.cons_append, List.takeWhile_cons]
    split
    · exact fun hmem => (List.mem_cons.mp hmem).elim hs.1 (ih hs.2)
    · exact List.not_mem_nil

theorem not_mem_showInt (n : Int) : 92 ∉ showInt n := by
  have hdigits : ∀ k, 92 ∉ decimal k := fun k hk => by
    have := isDigit_of_mem_decimal hk
    simp [isDigit] at this
  unfold showInt
  split
  · simp [hdigits]
  · exact hdigits _

theorem calm_text {q : UInt8} {ps : List Piece} (h : ∀ p ∈ ps, p.fits q = true) :
    Calm q (ps.flatMap (Piece.text q)) := by
  induction ps with
  | nil => exact List.not_mem_nil
  | cons p ps ih =>
    have hp := h p (by simp)
    have hrest := ih fun p' hp' => h p' (by simp [hp'])
    rw [List.flatMap_cons]
    cases p with
    | fixed t => exact Calm.append (isFixed_iff.mp hp).2 hrest
    | number n t =>
      simp only [Piece.fits, Bool.and_eq_true] at hp
      refine Calm.append ?_ hrest
      rw [Piece.text, List.mem_append, not_or]
      exact ⟨not_mem_showInt n, (isFixed_iff.mp hp.1).2⟩
    | string x s => simp [Piece.text, Calm]

/-- What is read of a text up to a place between tokens. -/
theorem tokens_append {s t : Bytes} {ts : List Token} (h : scan .idle s = some (ts, .idle)) :
    Js.tokens (s ++ t) = (Js.tokens t).map (ts ++ ·) := Reader.tokensFrom_append h t

/-- From inside a string the first token that is completed is a string. -/
theorem scan_quoted {q : UInt8} {read t : Bytes} {e : Escape} {ts : List Token} {m : Mode}
    (hr : scan (.quoted q read e) t = some (ts, m)) :
    (ts = [] ∧ finish m = none) ∨ ∃ v ts', ts = .string v :: ts' := by
  induction t generalizing read e with
  | nil =>
    obtain ⟨rfl, rfl⟩ := Prod.mk.inj (Option.some.inj hr)
    exact .inl ⟨rfl, rfl⟩
  | cons b t ih =>
    obtain ⟨r, hstep, -⟩ := Option.bind_eq_some_iff.mp hr
    obtain ⟨ts', hts', rfl⟩ := scan_cons_eq hstep hr
    cases quotedStep_within hstep with
    | closed => exact .inr ⟨_, _, rfl⟩
    | more => exact ih hts'

/-- The tokens of a text of pieces are those that the pieces stand for exactly if all of its
strings are read back. -/
theorem tokens_text_iff {q : UInt8} {ps : List Piece} (h : ∀ p ∈ ps, p.fits q = true) :
    Js.tokens (ps.flatMap (Piece.text q)) = some (ps.flatMap Piece.tokens) ↔
      ∀ p ∈ ps, p.reads q = true := by
  induction ps with
  | nil => simp [Js.tokens, tokensFrom, Reader.tokensFrom, finish]
  | cons p ps ih =>
    have hp := h p (by simp)
    have hps : ∀ p ∈ ps, p.fits q = true := fun p' hp' => h p' (by simp [hp'])
    rw [List.flatMap_cons, List.flatMap_cons, List.forall_mem_cons, ← ih hps]
    -- A piece that is read as its tokens leaves the rest as it is.
    have key : scan .idle (p.text q) = some (p.tokens, .idle) → p.reads q = true →
        (Js.tokens (p.text q ++ ps.flatMap (Piece.text q)) =
            some (p.tokens ++ ps.flatMap Piece.tokens) ↔
          p.reads q = true ∧
            Js.tokens (ps.flatMap (Piece.text q)) = some (ps.flatMap Piece.tokens)) := by
      intro hscan hreads
      rw [tokens_append hscan, Reader.map_append_eq_some]
      exact (and_iff_right hreads).symm
    cases p with
    | fixed t => exact key (isFixed_iff.mp hp).1 rfl
    | number n t =>
      simp only [Piece.fits, Bool.and_eq_true, Option.any_eq_true] at hp
      obtain ⟨ht, b, hb, hdigit⟩ := hp
      refine key ?_ rfl
      rw [Piece.text, scan_showInt n hb (by simpa using hdigit), (isFixed_iff.mp ht).1]
      rfl
    | string x s =>
      have hq : IsQuote q x := by
        simp only [Piece.fits, Bool.and_eq_true, Bool.or_eq_true, beq_iff_eq] at hp
        refine ⟨hp.1, fun b hb => ?_⟩
        subst hb
        simpa using hp.2
      have hopen : step .idle q = some ([], .quoted q [] .none) := by
        rcases hq.quote with rfl | rfl <;> rfl
      by_cases hs : survives q x s = true
      · refine key ?_ hs
        rw [Piece.text, scan_cons_of_step hopen, scan_of_survives hq hs]
        rfl
      · refine ⟨fun htokens => absurd ?_ hs, fun hreads => absurd hreads.1 hs⟩
        simp only [Piece.text, Piece.tokens, List.cons_append, List.append_assoc,
          List.nil_append, Js.tokens, tokensFrom, Reader.tokensFrom] at htokens
        rw [Reader.scan_cons_of_step (R := reader) hopen] at htokens
        obtain ⟨⟨ts, m⟩, hscan, hfinish⟩ := Option.bind_eq_some_iff.mp htokens
        obtain ⟨us, hus, heq⟩ := Option.map_eq_some_iff.mp hfinish
        dsimp only at hus heq
        rcases scan_quoted hscan with ⟨-, hnone⟩ | ⟨v, ts', rfl⟩
        · rw [hnone] at hus
          cases hus
        · rw [List.cons_append, List.cons.injEq, Token.string.injEq] at heq
          obtain ⟨rfl, -⟩ := heq
          exact survives_of_scan hq (calm_text hps) hscan

/-- When a text of pieces is the literal of a value. -/
theorem document_iff {q : UInt8} {ps : List Piece} {v : Value}
    (h : ∀ p ∈ ps, p.fits q = true) (hv : ps.flatMap Piece.tokens = v.tokens) :
    Denotes (ps.flatMap (Piece.text q)) v ↔ ∀ p ∈ ps, p.reads q = true := by
  rw [Denotes, ← hv, tokens_text_iff h]

end Js
