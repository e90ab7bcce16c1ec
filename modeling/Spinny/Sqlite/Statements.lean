import Spinny.Sqlite.Lexer
import Spinny.Sqlite.Buffer

/-!
# The statements a connection writes

`parse` reads the four forms of statement that `check_and_create_tables`, `connection::save` and
`connection::load` write, and no others. A text is taken apart as `Piece`s, each of which gives its
own tokens.

* `tokens_pieces`: the tokens of a text of pieces; none if a literal in it holds a NUL, since
  SQLite reads the text up to its first NUL.
* `parse_create`, `parse_insert`, `parse_update`, `parse_load`: what SQLite makes of each text.
-/

namespace Sqlite

open Bytes Boost

/-- A literal. -/
inductive Literal where
  | int (n : Int)
  | text (t : Bytes)
  deriving DecidableEq

/-- The literal as it is streamed. -/
def Literal.sql : Literal → Bytes
  | int n => showInt n
  | text t => q t

/-- A statement. -/
inductive Statement where
  | create (table : Bytes) (columns : List (Bytes × Bytes))
  | insert (table : Bytes) (fields : List Bytes) (values : List Literal)
  | update (table : Bytes) (assignments : List (Bytes × Literal)) (rowid : Literal)
  /-- One row, by its rowid. -/
  | load (fields : List Bytes) (table : Bytes) (rowid : Literal)
  deriving DecidableEq

/-! ## The grammar -/

/-- The keyword `k`, in any letter case. -/
def isKeyword (k : Bytes) : Token → Bool
  | .word w => toUpperCopy w == k
  | _ => false

/-- A name. -/
def readName : List Token → Option Bytes
  | [.word w] => if isName w then some w else none
  | _ => none

/-- A literal. -/
def readLiteral : List Token → Option Literal
  | [.number d true] => some (.int (foldDigits 0 d))
  | [.minus, .number d true] => some (.int (-foldDigits 0 d))
  | [.string t] => some (.text t)
  | _ => none

/-- A column and its type. -/
def readColumn : List Token → Option (Bytes × Bytes)
  | [.word w, .word ty] => if isName w ∧ isName ty then some (w, ty) else none
  | _ => none

/-- An assignment. -/
def readAssignment : List Token → Option (Bytes × Literal)
  | .word w :: .eq :: ts => if isName w then (readLiteral ts).map fun l => (w, l) else none
  | _ => none

/-- The parts of a list separated by commas. -/
def readList {α : Type} (read : List Token → Option α) (ts : List Token) : Option (List α) :=
  (ts.splitOn .comma).mapM read

/-- `( .. )` and what follows it. -/
def readGroup {α : Type} (read : List Token → Option α) :
    List Token → Option (List α × List Token)
  | .lp :: ts =>
    match ts.dropWhile (· != .rp) with
    | .rp :: rest => (readList read (ts.takeWhile (· != .rp))).map fun l => (l, rest)
    | _ => none
  | _ => none

/-- `where rowid=..` and what follows the literal. -/
def readRowid : List Token → Option Literal
  | k :: .word w :: .eq :: ts =>
    if isKeyword (lit "WHERE") k ∧ w = lit "rowid" then readLiteral ts else none
  | _ => none

/-- `create table ..` behind its keywords. -/
def readCreate : List Token → Option Statement
  | .word t :: ts =>
    match readGroup readColumn ts with
    | some (cols, []) => if isName t then some (.create t cols) else none
    | _ => none
  | _ => none

/-- `insert into ..` behind its keywords. -/
def readInsert : List Token → Option Statement
  | .word t :: ts =>
    match readGroup readName ts with
    | some (fs, k :: ts') =>
      match readGroup readLiteral ts' with
      | some (vs, []) =>
        if isName t ∧ isKeyword (lit "VALUES") k then some (.insert t fs vs) else none
      | _ => none
    | _ => none
  | _ => none

/-- `update ..` behind its keyword. -/
def readUpdate : List Token → Option Statement
  | .word t :: k :: ts =>
    if isName t ∧ isKeyword (lit "SET") k then do
      let as ← readList readAssignment (ts.takeWhile fun t => !isKeyword (lit "WHERE") t)
      let id ← readRowid (ts.dropWhile fun t => !isKeyword (lit "WHERE") t)
      return .update t as id
    else none
  | _ => none

/-- `select .. from .. where rowid=.. limit 1` behind its keyword. -/
def readLoad (ts : List Token) : Option Statement := do
  let fs ← readList readName (ts.takeWhile fun t => !isKeyword (lit "FROM") t)
  match ts.dropWhile fun t => !isKeyword (lit "FROM") t with
  | _ :: .word t :: ts' =>
    let id ← readRowid (ts'.takeWhile fun t => !isKeyword (lit "LIMIT") t)
    match ts'.dropWhile fun t => !isKeyword (lit "LIMIT") t with
    | [_, .number d true] => if isName t ∧ d = lit "1" then some (.load fs t id) else none
    | _ => none
  | _ => none

/-- The statement that the tokens make. -/
def readStatement : List Token → Option Statement
  | k :: ts =>
    if isKeyword (lit "UPDATE") k then readUpdate ts
    else if isKeyword (lit "SELECT") k then readLoad ts
    else
      match ts with
      | k' :: ts' =>
        if isKeyword (lit "INSERT") k ∧ isKeyword (lit "INTO") k' then readInsert ts'
        else if isKeyword (lit "CREATE") k ∧ isKeyword (lit "TABLE") k' then readCreate ts'
        else none
      | [] => none
  | [] => none

/-- A C interface sees a text up to its first NUL. -/
def seen (s : Bytes) : Bytes := s.takeWhile (· != 0)

/-- The statement of a text; `none` for a syntax error. -/
def parse (text : Bytes) : Option Statement := (tokens (seen text)).bind readStatement

/-! ## The pieces of a text -/

/-- A piece of a text. -/
inductive Piece where
  | word (w : Bytes)
  | space
  | lp
  | rp
  | comma
  | eq
  | literal (l : Literal)
  deriving DecidableEq

namespace Piece

/-- The bytes of a piece. -/
def text : Piece → Bytes
  | word w => w
  | space => [32]
  | lp => [40]
  | rp => [41]
  | comma => [44]
  | eq => [61]
  | literal l => l.sql

/-- The tokens of a piece. -/
def toks : Piece → List Token
  | word w => [.word w]
  | space => []
  | lp => [.lp]
  | rp => [.rp]
  | comma => [.comma]
  | eq => [.eq]
  | literal (.int n) =>
    if n < 0 then [.minus, .number (decimal n.natAbs) true] else [.number (decimal n.natAbs) true]
  | literal (.text t) => [.string t]

/-- A word is one to SQLite. -/
def valid : Piece → Bool
  | word w => isWord w
  | _ => true

/-- The piece holds no NUL. -/
def clean : Piece → Bool
  | literal (.text t) => nulFree t
  | _ => true

/-- What the piece must not go on with. -/
def stops : Piece → UInt8 → Bool
  | word _ => isIdChar
  | literal (.int _) => endsNumber
  | literal (.text _) => (· == 39)
  | space => (· == 11)
  | _ => fun _ => false

/-- The second piece may follow the first. -/
def meets : Piece → Piece → Bool
  | word _, word _ => false
  | word _, literal (.int _) => false
  | literal (.int _), literal (.int _) => false
  | literal (.int _), word w => !(w.head? == some 101 || w.head? == some 69)
  | literal (.text _), literal (.text _) => false
  | _, _ => true

end Piece

/-- A blank, a bracket, a comma or `=`: it may stand next to anything. -/
def Piece.isSymbol : Piece → Bool
  | .word _ | .literal _ => false
  | _ => true

/-- A symbol that is no blank: it may stand next to any text. -/
def Piece.isMark : Piece → Bool
  | .word _ | .literal _ | .space => false
  | _ => true

theorem Piece.meets_symbol {p p' : Piece} (h : p'.isSymbol = true) : p.meets p' = true := by
  cases p' with
  | word => cases h
  | literal => cases h
  | _ => rcases p with _ | _ | _ | _ | _ | _ | _ | _ <;> rfl

theorem Piece.symbol_meets {p p' : Piece} (h : p.isSymbol = true) : p.meets p' = true := by
  cases p with
  | word => cases h
  | literal => cases h
  | _ => rfl

/-- The pieces can be told apart again. -/
structure Joins (ps : List Piece) : Prop where
  valid : ∀ p ∈ ps, p.valid = true
  meets : ps.IsChain fun p p' => p.meets p' = true

theorem Joins.nil : Joins [] := ⟨by simp, List.isChain_nil⟩

theorem Joins.single {p : Piece} (h : p.valid = true) : Joins [p] :=
  ⟨by simpa using h, List.isChain_singleton _⟩

theorem Joins.cons {p p' : Piece} {ps : List Piece} (h : p.valid = true)
    (hm : p.meets p' = true) (hj : Joins (p' :: ps)) : Joins (p :: p' :: ps) :=
  ⟨List.forall_mem_cons.mpr ⟨h, hj.valid⟩, List.isChain_cons_cons.mpr ⟨hm, hj.meets⟩⟩

/-- Pieces with a symbol between them. -/
theorem Joins.append {ps qs : List Piece} (hp : Joins ps) (hq : Joins qs)
    (h : ps.getLast?.all Piece.isSymbol = true ∨ qs.head?.all Piece.isSymbol = true) :
    Joins (ps ++ qs) := by
  refine ⟨fun p hmem => (List.mem_append.mp hmem).elim (hp.valid p) (hq.valid p),
    List.isChain_append.mpr ⟨hp.meets, hq.meets, fun p hlast p' hhead => ?_⟩⟩
  rcases h with h | h
  · rw [Option.mem_def] at hlast
    exact Piece.symbol_meets (by simpa [hlast] using h)
  · rw [Option.mem_def] at hhead
    exact Piece.meets_symbol (by simpa [hhead] using h)

/-- The text of pieces. -/
def textOf (ps : List Piece) : Bytes := ps.flatMap Piece.text

@[simp] theorem textOf_nil : textOf [] = [] := rfl

@[simp] theorem textOf_cons (p : Piece) (ps : List Piece) : textOf (p :: ps) = p.text ++ textOf ps :=
  rfl

@[simp] theorem textOf_append (ps qs : List Piece) : textOf (ps ++ qs) = textOf ps ++ textOf qs :=
  List.flatMap_append

theorem seen_append {s : Bytes} (h : nulFree s = true) (t : Bytes) : seen (s ++ t) = s ++ seen t := by
  refine List.takeWhile_append_of_pos fun b hb => ?_
  simp only [nulFree_iff] at h
  simp only [bne_iff_ne]
  rintro rfl
  exact h hb

theorem stopsAt_cons {p : UInt8 → Bool} {b : UInt8} {s : Bytes} : StopsAt p (b :: s) ↔ p b = false := by
  simp [StopsAt]

theorem StopsAt.seen {p : UInt8 → Bool} {s : Bytes} (h : StopsAt p s) : StopsAt p (seen s) := by
  cases s with
  | nil => exact h
  | cons b s =>
    by_cases hb : b = 0
    · simp [Sqlite.seen, StopsAt, hb]
    · rw [Sqlite.seen, List.takeWhile_cons_of_pos (by simpa using hb)]
      exact stopsAt_cons.mpr (stopsAt_cons.mp h)

theorem nulFree_q {t : Bytes} (h : nulFree t = true) : nulFree (q t) = true := by
  simp only [nulFree_iff] at h ⊢
  simp only [q, replaceAll, List.mem_append, List.mem_singleton, List.mem_flatMap, not_or,
    not_exists, not_and]
  refine ⟨⟨by decide, fun b hb h0 => ?_⟩, by decide⟩
  split at h0
  · exact absurd h0 (by decide)
  · exact h (List.mem_singleton.mp h0 ▸ hb)

/-- A text in quotes ends at its first NUL, still open. -/
theorem seen_quoted_of_nul {t : Bytes} (h : nulFree t = false) (rest : Bytes) :
    ∃ t', seen (q t ++ rest) = 39 :: replaceAll 39 [39, 39] t' := by
  refine ⟨t.takeWhile (· != 0), ?_⟩
  have key : ∀ t : Bytes, nulFree t = false →
      seen (replaceAll 39 [39, 39] t ++ ([39] ++ rest)) =
        replaceAll 39 [39, 39] (t.takeWhile (· != 0)) := by
    intro t ht
    induction t with
    | nil => cases ht
    | cons b t ih =>
      by_cases hb : b = 0
      · subst hb
        rfl
      · have ht' : nulFree t = false := by
          simpa [nulFree, Ne.symm hb] using ht
        rw [List.takeWhile_cons_of_pos (by simpa using hb)]
        simp only [replaceAll, List.flatMap_cons, List.append_assoc] at ih ⊢
        rw [seen_append (by split <;> simp [nulFree, Ne.symm hb]), ih ht']
  rw [q, List.append_assoc, List.append_assoc, seen_append (by decide), key t h]
  rfl

namespace Piece

/-- A byte of a decimal number is none of the others. -/
theorem digit_stops {b : UInt8} (h : isDigit b = true) :
    (b == 39) = false ∧ (b == 45) = false := by
  revert b
  decide +kernel

/-- The first byte of a piece that may follow is one the piece may go on with. -/
theorem stopsAt_of_meets {p p' : Piece} (hm : p.meets p' = true) (hv : p'.valid = true)
    (s : Bytes) : StopsAt p.stops (p'.text ++ s) := by
  cases p' with
  | word w =>
    cases w with
    | nil => cases hv
    | cons b w =>
      simp only [valid, isWord, Bool.and_eq_true] at hv
      obtain ⟨-, -, -, -, -, -, h₇, h₈, -, -⟩ := alpha_cases hv.1.1.1
      refine stopsAt_cons.mpr ?_
      cases p with
      | word => cases hm
      | literal l =>
        cases l with
        | int n =>
          simp only [meets, List.head?_cons, Bool.not_eq_true', Bool.or_eq_false_iff] at hm
          have hdot : b ≠ 46 := by
            rintro rfl
            exact absurd hv.1.1.1 (by decide)
          simp only [stops, endsNumber, h₈, Bool.false_or, Bool.or_eq_false_iff, beq_eq_false_iff_ne]
          exact ⟨⟨hdot, by simpa using hm.1⟩, by simpa using hm.2⟩
        | text t => simpa [stops] using fun h => h₇ (.inl h)
      | space =>
        have hbyte : ∀ b, isAlpha b = true → (b == 11) = false := by decide +kernel
        exact hbyte b hv.1.1.1
      | _ => rfl
  | literal l =>
    cases l with
    | text t => cases p with
      | literal l => cases l with
        | int n => exact stopsAt_cons.mpr rfl
        | text t' => cases hm
      | _ => exact stopsAt_cons.mpr rfl
    | int n =>
      have hhead : ∀ b ∈ (showInt n ++ s).head?, b = 45 ∨ isDigit b = true := by
        intro b hb
        unfold showInt at hb
        split at hb
        · exact .inl (by simpa using hb.symm)
        · obtain ⟨d, ds, hd⟩ := List.exists_cons_of_ne_nil (decimal_ne_nil n.natAbs)
          rw [hd] at hb
          obtain rfl : d = b := by simpa using hb
          exact .inr (isDigit_of_mem_decimal (hd ▸ List.mem_cons_self))
      intro b hb
      rcases hhead b hb with rfl | hd
      · cases p with
        | word => cases hm
        | literal l => cases l with
          | int => cases hm
          | text => rfl
        | _ => rfl
      · obtain ⟨h₁, -⟩ := digit_stops hd
        cases p with
        | word => cases hm
        | literal l => cases l with
          | int => cases hm
          | text => exact h₁
        | space =>
          have hbyte : ∀ b, isDigit b = true → (b == 11) = false := by decide +kernel
          exact hbyte b hd
        | _ => rfl
  | _ =>
    cases p with
    | literal l => cases l <;> exact stopsAt_cons.mpr rfl
    | _ => exact stopsAt_cons.mpr rfl

/-- A piece without a NUL is read as its tokens. -/
theorem tokens_append {p : Piece} (hv : p.valid = true) {rest : Bytes} (h : StopsAt p.stops rest) :
    tokens (p.text ++ rest) = (tokens rest).map (p.toks ++ ·) := by
  cases p with
  | word w => exact tokens_word hv h
  | space =>
    rw [text, List.singleton_append, tokens_space h]
    simp [toks]
  | lp => exact tokens_lp rest
  | rp => exact tokens_rp rest
  | comma => exact tokens_comma rest
  | eq => exact tokens_eq rest
  | literal l =>
    cases l with
    | text t =>
      have := tokens_quoted t h
      simpa [text, toks, Literal.sql, q] using this
    | int n =>
      simp only [text, toks, Literal.sql, showInt]
      split
      · have hminus : StopsAt (· == 45) (decimal n.natAbs ++ rest) := by
          obtain ⟨d, ds, hd⟩ := List.exists_cons_of_ne_nil (decimal_ne_nil n.natAbs)
          rw [hd]
          exact stopsAt_cons.mpr
            (digit_stops (isDigit_of_mem_decimal (hd ▸ List.mem_cons_self))).2
        rw [List.cons_append, tokens_minus hminus, tokens_decimal _ h, Option.map_map]
        rfl
      · exact tokens_decimal _ h

/-- Only the literals can hold a NUL. -/
theorem nulFree_text {p : Piece} (hv : p.valid = true) (hc : p.clean = true) :
    nulFree p.text = true := by
  cases p with
  | word w =>
    cases w with
    | nil => cases hv
    | cons b w =>
      simp only [valid, isWord, Bool.and_eq_true, List.all_eq_true] at hv
      simp only [text, nulFree, Bool.not_eq_true', List.contains_eq_mem, decide_eq_false_iff_not,
        List.mem_cons, not_or]
      refine ⟨?_, fun h => absurd (hv.2 0 h) (by decide)⟩
      rintro rfl
      exact absurd hv.1.1.1 (by decide)
  | literal l =>
    cases l with
    | int n => exact nulFree_showInt n
    | text t => exact nulFree_q hc
  | _ => rfl

end Piece

/-- **The tokens of a text of pieces.** A NUL in a literal leaves the text open. -/
theorem tokens_pieces {ps : List Piece} (h : Joins ps) :
    tokens (seen (textOf ps)) =
      if ps.all Piece.clean then some (ps.flatMap Piece.toks) else none := by
  induction ps with
  | nil => rfl
  | cons p ps ih =>
    have hp := h.valid p (by simp)
    have htail := ih ⟨fun p' hp' => h.valid p' (by simp [hp']), h.meets.tail⟩
    have hstop : StopsAt p.stops (textOf ps) := by
      cases ps with
      | nil => simp [StopsAt]
      | cons p' ps =>
        exact Piece.stopsAt_of_meets (List.isChain_cons_cons.mp h.meets).1 (h.valid p' (by simp)) _
    rw [textOf_cons, List.all_cons, List.flatMap_cons]
    cases hc : p.clean with
    | true =>
      rw [seen_append (Piece.nulFree_text hp hc), Piece.tokens_append hp hstop.seen, htail,
        Bool.true_and]
      split <;> rfl
    | false =>
      rcases p with _ | _ | _ | _ | _ | _ | _ | t <;> try cases hc
      obtain ⟨t', ht'⟩ := seen_quoted_of_nul hc (textOf ps)
      rw [Piece.text, Literal.sql, ht', tokens_open]
      rfl

/-- The tokens of pieces that end in a mark, whatever follows them. -/
theorem tokens_pieces_append {ps : List Piece} (h : Joins ps) (hc : ps.all Piece.clean = true)
    (hlast : ps.getLast?.all Piece.isMark = true) (rest : Bytes) :
    tokens (seen (textOf ps ++ rest)) = (tokens (seen rest)).map (ps.flatMap Piece.toks ++ ·) := by
  induction ps with
  | nil => simp
  | cons p ps ih =>
    have hp := h.valid p (by simp)
    rw [List.all_cons, Bool.and_eq_true] at hc
    have hstop : StopsAt p.stops (textOf ps ++ seen rest) := by
      cases ps with
      | nil =>
        have hmark : p.isMark = true := by simpa using hlast
        cases p with
        | word => cases hmark
        | literal => cases hmark
        | space => cases hmark
        | _ => exact fun _ _ => rfl
      | cons p' ps =>
        rw [textOf_cons, List.append_assoc]
        exact Piece.stopsAt_of_meets (List.isChain_cons_cons.mp h.meets).1 (h.valid p' (by simp)) _
    have htail : Joins ps := ⟨fun p' hp' => h.valid p' (by simp [hp']), h.meets.tail⟩
    have hlast' : ps.getLast?.all Piece.isMark = true := by
      cases ps with
      | nil => rfl
      | cons p' ps => simpa using hlast
    have hnul : nulFree (textOf ps) = true := by
      have hall : ∀ p' ∈ ps, nulFree p'.text = true := fun p' hp' =>
        Piece.nulFree_text (htail.valid p' hp') (List.all_eq_true.mp hc.2 p' hp')
      simp only [nulFree_iff] at hall ⊢
      simpa [textOf] using hall
    rw [textOf_cons, List.append_assoc, seen_append (Piece.nulFree_text hp hc.1), seen_append hnul,
      Piece.tokens_append hp hstop, ← seen_append hnul, ih htail hc.2 hlast', Option.map_map]
    congr 1
    funext ts
    simp

/-! ## Lists of parts -/

/-- The parts with a separator between them. -/
def joinWith {α : Type} (sep : α) : List (List α) → List α
  | [] => []
  | [s] => s
  | s :: s' :: ss => s ++ sep :: joinWith sep (s' :: ss)

theorem joinWith_eq {α : Type} (sep : α) (ss : List (List α)) :
    joinWith sep ss = [sep].intercalate ss := by
  fun_induction joinWith sep ss with
  | case1 => rfl
  | case2 s => rw [List.intercalate_singleton]
  | case3 s s' ss ih => rw [List.intercalate_cons_cons, ih, List.append_assoc, List.singleton_append]

theorem mem_joinWith {α : Type} {sep a : α} {ss : List (List α)} (h : a ∈ joinWith sep ss) :
    a = sep ∨ ∃ s ∈ ss, a ∈ s := by
  fun_induction joinWith sep ss with
  | case1 => cases h
  | case2 s => exact .inr ⟨s, by simp, h⟩
  | case3 s s' ss ih =>
    rcases List.mem_append.mp h with h | h
    · exact .inr ⟨s, by simp, h⟩
    · rcases List.mem_cons.mp h with h | h
      · exact .inl h
      · obtain h | ⟨t, ht, ha⟩ := ih h
        · exact .inl h
        · exact .inr ⟨t, by simp [ht], ha⟩

theorem flatMap_joinWith {α β : Type} (f : α → List β) (sep : α) (sep' : β) (hsep : f sep = [sep'])
    (ss : List (List α)) :
    (joinWith sep ss).flatMap f = joinWith sep' (ss.map (·.flatMap f)) := by
  fun_induction joinWith sep ss with
  | case1 => rfl
  | case2 s => rfl
  | case3 s s' ss ih =>
    rw [List.flatMap_append, List.flatMap_cons, ih, hsep]
    rfl

theorem all_joinWith {α : Type} (p : α → Bool) {sep : α} (hsep : p sep = true)
    (ss : List (List α)) : (joinWith sep ss).all p = ss.all (·.all p) := by
  fun_induction joinWith sep ss with
  | case1 => rfl
  | case2 s => simp
  | case3 s s' ss ih => 
    rw [List.all_append, List.all_cons, ih, hsep, Bool.true_and]
    rfl

/-- Parts with commas between them. -/
theorem Joins.joinWith {ss : List (List Piece)} (h : ∀ s ∈ ss, Joins s) :
    Joins (joinWith .comma ss) := by
  fun_induction Sqlite.joinWith Piece.comma ss with
  | case1 => exact .nil
  | case2 s => exact h s (by simp)
  | case3 s s' ss ih =>
    have hrest := ih fun t ht => h t (by simp [ht])
    exact (h s (by simp)).append ((Joins.single rfl).append hrest (.inl rfl)) (.inr rfl)

section Lists

variable {α : Type} {read : List Token → Option α} {seg : α → List Token} {items : List α}

theorem readList_joinWith (hne : items ≠ []) (hread : ∀ a ∈ items, read (seg a) = some a)
    (hcomma : ∀ a ∈ items, .comma ∉ seg a) :
    readList read (joinWith .comma (items.map seg)) = some items := by
  rw [readList, joinWith_eq, List.splitOn_intercalate _ (by simpa using hcomma) (by simpa using hne)]
  clear hne hcomma
  induction items with
  | nil => rfl
  | cons a items ih =>
    rw [List.map_cons, List.mapM_cons, hread a (by simp), ih fun b hb => hread b (by simp [hb])]
    rfl

/-- A list whose first part cannot be read, however it goes on. -/
theorem readList_eq_none {ts : List Token} (hcomma : .comma ∉ ts)
    (hread : ∀ ts', read (ts ++ ts') = none) (rest : List Token) :
    readList read (ts ++ rest) = none := by
  have hsplit : ∃ seg segs, (ts ++ rest).splitOn .comma = (ts ++ seg) :: segs := by
    clear hread
    induction ts with
    | nil => exact List.exists_cons_of_ne_nil (List.splitOn_ne_nil _ _)
    | cons t ts ih =>
      rw [List.mem_cons, not_or] at hcomma
      obtain ⟨seg, segs, h⟩ := ih hcomma.2
      refine ⟨seg, segs, ?_⟩
      rw [List.cons_append, List.splitOn_cons_eq_if_modifyHead, h,
        if_neg (by simpa using Ne.symm hcomma.1)]
      rfl
  obtain ⟨seg, segs, h⟩ := hsplit
  rw [readList, h, List.mapM_cons, hread]
  rfl

theorem readGroup_joinWith (hne : items ≠ []) (hread : ∀ a ∈ items, read (seg a) = some a)
    (hcomma : ∀ a ∈ items, .comma ∉ seg a) (hrp : ∀ a ∈ items, .rp ∉ seg a) (rest : List Token) :
    readGroup read (.lp :: (joinWith .comma (items.map seg) ++ .rp :: rest)) =
      some (items, rest) := by
  have hall : ∀ t ∈ joinWith .comma (items.map seg), (t != Token.rp) = true := by
    intro t ht
    rw [bne_iff_ne]
    rintro rfl
    obtain h | ⟨s, hs, ht⟩ := mem_joinWith ht
    · cases h
    · obtain ⟨a, ha, rfl⟩ := List.mem_map.mp hs
      exact hrp a ha ht
  simp only [readGroup, List.dropWhile_append_of_pos hall, List.takeWhile_append_of_pos hall]
  rw [List.dropWhile_cons_of_neg (by simp), List.takeWhile_cons_of_neg (by simp), List.append_nil,
    readList_joinWith hne hread hcomma]
  rfl

end Lists

/-! ## The four statements -/

/-- A name in every place. -/
def isField (w : Bytes) : Bool := isWord w && isName w

/-- The names of a description are names to SQLite. -/
structure Description.Named (td : Description) : Prop where
  tableName : isField td.tableName = true
  fields : ∀ f ∈ td.fields, isField f = true
  fields_ne : td.fields ≠ []

/-- The literal holds no NUL. -/
def Literal.clean (l : Literal) : Bool := (Piece.literal l).clean

/-- The tokens of a literal. -/
def Literal.toks (l : Literal) : List Token := (Piece.literal l).toks

theorem Literal.read_toks (l : Literal) : readLiteral l.toks = some l := by
  cases l with
  | text t => rfl
  | int n =>
    simp only [Literal.toks, Piece.toks]
    split
    · simp only [readLiteral, foldDigits_decimal]
      congr 2
      omega
    · simp only [readLiteral, foldDigits_decimal]
      congr 2
      omega

theorem Literal.toks_plain (l : Literal) {t : Token} (h : t ∈ l.toks) :
    t ≠ .comma ∧ t ≠ .rp ∧ ∀ k, isKeyword k t = false := by
  cases l with
  | text s =>
    obtain rfl := List.mem_singleton.mp h
    exact ⟨by simp, by simp, fun _ => rfl⟩
  | int n =>
    simp only [Literal.toks, Piece.toks] at h
    split at h
    · rcases List.mem_pair.mp h with rfl | rfl <;> exact ⟨by simp, by simp, fun _ => rfl⟩
    · obtain rfl := List.mem_singleton.mp h
      exact ⟨by simp, by simp, fun _ => rfl⟩

theorem readName_word {w : Bytes} (h : isField w = true) : readName [.word w] = some w := by
  simp only [isField, Bool.and_eq_true] at h
  rw [readName, if_pos h.2]

theorem isWord_of_isField {w : Bytes} (h : isField w = true) : isWord w = true := by
  simp only [isField, Bool.and_eq_true] at h
  exact h.1

theorem isName_of_isField {w : Bytes} (h : isField w = true) : isName w = true := by
  simp only [isField, Bool.and_eq_true] at h
  exact h.2

/-- A name is no keyword. -/
theorem isKeyword_word {w k : Bytes} (h : isField w = true) (hk : k ∈ keywords) :
    isKeyword k (.word w) = false := by
  simp only [isField, isName, Bool.and_eq_true, Bool.not_eq_true', List.contains_eq_mem,
    decide_eq_false_iff_not] at h
  simp only [isKeyword, beq_eq_false_iff_ne]
  rintro rfl
  exact h.2 hk

theorem insertFields_eq (td : Description) (h : td.fields ≠ []) :
    td.insertFields = 32 :: joinWith 44 td.fields := by
  obtain ⟨f, fs, hf⟩ := List.exists_cons_of_ne_nil h
  have key : ∀ (f : Bytes) (fs : List Bytes),
      f ++ fs.flatMap (fun g => [44] ++ g) = joinWith 44 (f :: fs) := by
    intro f fs
    induction fs generalizing f with
    | nil => simp [joinWith]
    | cons g gs ih => simp only [List.flatMap_cons, joinWith, ← ih, List.append_assoc]; rfl
  rw [Description.insertFields, hf, ← key]
  simp only [List.append_assoc]
  rfl

/-- The pieces of a list of names. -/
def namePieces (fs : List Bytes) : List Piece := joinWith .comma (fs.map fun f => [.word f])

/-- The pieces of a list of literals. -/
def literalPieces (vs : List Literal) : List Piece :=
  joinWith .comma (vs.map fun l => [.literal l])

/-- The pieces of a list of assignments. -/
def assignmentPieces (as : List (Bytes × Literal)) : List Piece :=
  joinWith .comma (as.map fun a => [.word a.1, .eq, .literal a.2])

/-- The pieces of the columns of a table. -/
def columnPieces : List (Bytes × Bytes) → List Piece
  | [] => []
  | c :: cs =>
    joinWith .comma ([.word c.1, .space, .word c.2] ::
      cs.map fun c => [.space, .word c.1, .space, .word c.2])

/-- The pieces of a `create table`. -/
def createPieces (table : Bytes) (cols : List (Bytes × Bytes)) : List Piece :=
  [.word (lit "create"), .space, .word (lit "table"), .space, .word table, .lp] ++
    columnPieces cols ++ [.rp]

/-- The pieces of an `insert`. -/
def insertPieces (td : Description) (vs : List Literal) : List Piece :=
  [.word (lit "insert"), .space, .word (lit "into"), .space, .word td.tableName, .lp, .space] ++
    namePieces td.fields ++ [.rp, .space, .word (lit "values"), .space, .lp] ++ literalPieces vs ++
    [.rp]

/-- The pieces of an `update`. -/
def updatePieces (table : Bytes) (as : List (Bytes × Literal)) (id : Int) : List Piece :=
  [.word (lit "update"), .space, .word table, .space, .word (lit "set"), .space] ++
    assignmentPieces as ++
    [.space, .word (lit "where"), .space, .word (lit "rowid"), .eq, .literal (.int id)]

/-- The pieces of the `select` of `load`. -/
def loadPieces (td : Description) (id : Int) : List Piece :=
  [.word (lit "select"), .space, .space] ++ namePieces (td.fields ++ [lit "rowid"]) ++
    [.space, .word (lit "from"), .space, .word td.tableName, .space, .word (lit "where"), .space,
      .word (lit "rowid"), .eq, .literal (.int id), .space, .word (lit "limit"), .space,
      .literal (.int 1)]

theorem textOf_joinWith (ss : List (List Piece)) :
    textOf (joinWith .comma ss) = joinWith 44 (ss.map textOf) :=
  flatMap_joinWith Piece.text .comma 44 rfl ss

theorem toks_joinWith (ss : List (List Piece)) :
    (joinWith .comma ss).flatMap Piece.toks = joinWith .comma (ss.map (·.flatMap Piece.toks)) :=
  flatMap_joinWith Piece.toks .comma .comma rfl ss

/-! ### Names -/

section Names

variable {fs : List Bytes} (h : ∀ f ∈ fs, isField f = true)

include h in
theorem joins_namePieces : Joins (namePieces fs) := by
  refine Joins.joinWith fun s hs => ?_
  obtain ⟨f, hf, rfl⟩ := List.mem_map.mp hs
  exact Joins.single (isWord_of_isField (h f hf))

theorem textOf_namePieces (fs : List Bytes) : textOf (namePieces fs) = joinWith 44 fs := by
  rw [namePieces, textOf_joinWith, List.map_map]
  congr 1
  simp [Function.comp_def, Piece.text]

theorem clean_namePieces (fs : List Bytes) : (namePieces fs).all Piece.clean = true := by
  rw [namePieces, all_joinWith _ rfl]
  simp [Piece.clean]

theorem toks_namePieces (fs : List Bytes) :
    (namePieces fs).flatMap Piece.toks = joinWith .comma (fs.map fun f => [.word f]) := by
  rw [namePieces, toks_joinWith, List.map_map]
  rfl

include h in
theorem readGroup_names (hne : fs ≠ []) (rest : List Token) :
    readGroup readName (.lp :: (joinWith .comma (fs.map fun f => [.word f]) ++ .rp :: rest)) =
      some (fs, rest) :=
  readGroup_joinWith hne (fun f hf => readName_word (h f hf)) (by simp) (by simp) rest

end Names

/-! ### Literals -/

theorem joins_literalPieces (vs : List Literal) : Joins (literalPieces vs) := by
  refine Joins.joinWith fun s hs => ?_
  obtain ⟨l, -, rfl⟩ := List.mem_map.mp hs
  exact Joins.single rfl

theorem textOf_literalPieces (vs : List Literal) :
    textOf (literalPieces vs) = joinWith 44 (vs.map Literal.sql) := by
  rw [literalPieces, textOf_joinWith, List.map_map]
  congr 1
  simp [Function.comp_def, Piece.text]

theorem clean_literalPieces (vs : List Literal) :
    (literalPieces vs).all Piece.clean = vs.all Literal.clean := by
  rw [literalPieces, all_joinWith _ rfl, List.all_map]
  simp only [Function.comp_def, List.all_cons, List.all_nil, Bool.and_true]
  rfl

theorem toks_literalPieces (vs : List Literal) :
    (literalPieces vs).flatMap Piece.toks = joinWith .comma (vs.map Literal.toks) := by
  rw [literalPieces, toks_joinWith, List.map_map]
  congr 1
  simp [Function.comp_def, Literal.toks]

theorem readGroup_literals {vs : List Literal} (hne : vs ≠ []) (rest : List Token) :
    readGroup readLiteral (.lp :: (joinWith .comma (vs.map Literal.toks) ++ .rp :: rest)) =
      some (vs, rest) :=
  readGroup_joinWith hne (fun l _ => l.read_toks) (fun l _ hm => (l.toks_plain hm).1 rfl)
    (fun l _ hm => (l.toks_plain hm).2.1 rfl) rest

/-! ### Insert -/

theorem joins_insertPieces {td : Description} (h : td.Named) (vs : List Literal) :
    Joins (insertPieces td vs) := by
  have hhead : Joins [.word (lit "insert"), .space, .word (lit "into"), .space,
      .word td.tableName, .lp, .space] :=
    .cons (by decide) rfl <| .cons rfl rfl <| .cons (by decide) rfl <| .cons rfl rfl <|
      .cons (isWord_of_isField h.tableName) rfl <| .cons rfl rfl <| .single rfl
  have hmid : Joins [.rp, .space, .word (lit "values"), .space, .lp] :=
    .cons rfl rfl <| .cons rfl rfl <| .cons (by decide) rfl <| .cons rfl rfl <| .single rfl
  refine Joins.append (Joins.append (Joins.append (Joins.append hhead ?_ (.inl rfl)) hmid
    (.inr rfl)) (joins_literalPieces vs) (.inl ?_)) (.single rfl) (.inr rfl)
  · exact joins_namePieces h.fields
  · rw [List.getLast?_append]
    rfl

/-- The text of `save` for an object that is not stored. -/
theorem saveText_insert {td : Description} (h : td.Named) {obj : Saved} {vs : List Literal}
    (hid : obj.dbId = 0) (hvs : obj.tableInsertValues = joinWith 44 (vs.map Literal.sql)) :
    saveText td obj = textOf (insertPieces td vs) := by
  have h₁ : lit "insert into " = lit "insert" ++ (32 :: (lit "into" ++ [32])) := by decide
  have h₂ : lit ") values (" = 41 :: 32 :: (lit "values" ++ [32, 40]) := by decide
  have h₃ : lit "(" = [40] := by decide
  have h₄ : lit ")" = [41] := by decide
  rw [saveText, if_pos hid, insertFields_eq td h.fields_ne, hvs, h₁, h₂, h₃, h₄]
  simp [insertPieces, textOf_namePieces, textOf_literalPieces, Piece.text]

/-- **What SQLite makes of an `insert`.** -/
theorem parse_insert {td : Description} (h : td.Named) {obj : Saved} {vs : List Literal}
    (hid : obj.dbId = 0) (hvs : obj.tableInsertValues = joinWith 44 (vs.map Literal.sql))
    (hne : vs ≠ []) :
    parse (saveText td obj) =
      if vs.all Literal.clean then some (.insert td.tableName td.fields vs) else none := by
  rw [saveText_insert h hid hvs, parse, tokens_pieces (joins_insertPieces h vs)]
  have hclean : (insertPieces td vs).all Piece.clean = vs.all Literal.clean := by
    simp [insertPieces, clean_namePieces, clean_literalPieces, Piece.clean]
  rw [hclean]
  split
  · have htoks : (insertPieces td vs).flatMap Piece.toks =
        .word (lit "insert") :: .word (lit "into") :: .word td.tableName :: .lp ::
          (joinWith .comma (td.fields.map fun f => [.word f]) ++ .rp :: .word (lit "values") ::
            .lp :: (joinWith .comma (vs.map Literal.toks) ++ [.rp])) := by
      simp [insertPieces, toks_namePieces, toks_literalPieces, Piece.toks]
    have hname := isName_of_isField h.tableName
    have hinsert : readInsert (.word td.tableName :: .lp ::
        (joinWith .comma (td.fields.map fun f => [.word f]) ++ .rp :: .word (lit "values") ::
          .lp :: (joinWith .comma (vs.map Literal.toks) ++ [.rp]))) =
        some (.insert td.tableName td.fields vs) := by
      simp only [readInsert, readGroup_names h.fields h.fields_ne, readGroup_literals hne]
      rw [if_pos ⟨hname, by decide⟩]
    rw [htoks, Option.bind_some, readStatement, if_neg (by decide), if_neg (by decide)]
    simp only [hinsert]
    rw [if_pos (by decide)]
  · rfl

/-! ### Update -/

/-- An assignment as it is streamed. -/
def assignmentSql (a : Bytes × Literal) : Bytes := a.1 ++ 61 :: a.2.sql

section Update

variable {table : Bytes} (ht : isField table = true) {as : List (Bytes × Literal)}
  (ha : ∀ a ∈ as, isField a.1 = true)

include ht ha in
theorem joins_updatePieces (id : Int) : Joins (updatePieces table as id) := by
  have hhead : Joins [.word (lit "update"), .space, .word table, .space, .word (lit "set"),
      .space] :=
    .cons (by decide) rfl <| .cons rfl rfl <| .cons (isWord_of_isField ht) rfl <|
      .cons rfl rfl <| .cons (by decide) rfl <| .single rfl
  have htail : Joins [.space, .word (lit "where"), .space, .word (lit "rowid"), .eq,
      .literal (.int id)] :=
    .cons rfl rfl <| .cons (by decide) rfl <| .cons rfl rfl <| .cons (by decide) rfl <|
      .cons rfl rfl <| .single rfl
  refine (hhead.append (Joins.joinWith fun s hs => ?_) (.inl rfl)).append htail (.inr rfl)
  obtain ⟨a, hmem, rfl⟩ := List.mem_map.mp hs
  exact .cons (isWord_of_isField (ha a hmem)) rfl <| .cons rfl rfl <| .single rfl

/-- The text of `save` for a stored object. -/
theorem saveText_update {td : Description} {obj : Saved} (hid : obj.dbId ≠ 0)
    {as : List (Bytes × Literal)}
    (has : obj.tableUpdateValues = joinWith 44 (as.map assignmentSql)) :
    saveText td obj = textOf (updatePieces td.tableName as obj.dbId) := by
  have h₁ : lit "update " = lit "update" ++ [32] := by decide
  have h₂ : lit " set " = 32 :: (lit "set" ++ [32]) := by decide
  have h₃ : lit " where rowid=" = 32 :: (lit "where" ++ (32 :: (lit "rowid" ++ [61]))) := by decide
  have hlist : textOf (assignmentPieces as) = joinWith 44 (as.map assignmentSql) := by
    rw [assignmentPieces, textOf_joinWith, List.map_map]
    congr 1
    simp [Function.comp_def, Piece.text, assignmentSql]
  rw [saveText, if_neg hid, has, h₁, h₂, h₃]
  simp [updatePieces, hlist, Piece.text, Literal.sql]

include ha in
/-- The tokens of the assignments hold no `where`. -/
theorem not_where_assignments :
    ∀ t ∈ joinWith .comma (as.map fun a => .word a.1 :: .eq :: a.2.toks),
      (!isKeyword (lit "WHERE") t) = true := by
  intro t hmem
  obtain rfl | ⟨s, hs, hmem⟩ := mem_joinWith hmem
  · rfl
  · obtain ⟨a, haa, rfl⟩ := List.mem_map.mp hs
    rcases List.mem_cons.mp hmem with rfl | hmem
    · rw [isKeyword_word (ha a haa) (by decide)]
      rfl
    · rcases List.mem_cons.mp hmem with rfl | hmem
      · rfl
      · rw [(a.2.toks_plain hmem).2.2]
        rfl

include ht ha in
/-- **What SQLite makes of an `update`.** -/
theorem parse_update {td : Description} (htd : td.tableName = table) {obj : Saved}
    (hid : obj.dbId ≠ 0) (has : obj.tableUpdateValues = joinWith 44 (as.map assignmentSql))
    (hne : as ≠ []) :
    parse (saveText td obj) =
      if as.all fun a => a.2.clean then some (.update table as (.int obj.dbId)) else none := by
  rw [saveText_update hid has, htd, parse, tokens_pieces (joins_updatePieces ht ha _)]
  have hclean : (updatePieces table as obj.dbId).all Piece.clean = as.all fun a => a.2.clean := by
    have hlist : (assignmentPieces as).all Piece.clean = as.all fun a => a.2.clean := by
      rw [assignmentPieces, all_joinWith _ rfl, List.all_map]
      simp only [Function.comp_def, List.all_cons, List.all_nil, Bool.and_true]
      rfl
    simp only [updatePieces, List.all_append, hlist]
    simp [Piece.clean]
  rw [hclean]
  split
  · have hlist : (assignmentPieces as).flatMap Piece.toks =
        joinWith .comma (as.map fun a => .word a.1 :: .eq :: a.2.toks) := by
      rw [assignmentPieces, toks_joinWith, List.map_map]
      congr 1
      simp [Function.comp_def, Piece.toks, Literal.toks]
    have htoks : (updatePieces table as obj.dbId).flatMap Piece.toks =
        .word (lit "update") :: .word table :: .word (lit "set") ::
          (joinWith .comma (as.map fun a => .word a.1 :: .eq :: a.2.toks) ++
            .word (lit "where") :: .word (lit "rowid") :: .eq :: (Literal.int obj.dbId).toks) := by
      simp only [updatePieces, List.flatMap_append, hlist]
      simp [Piece.toks, Literal.toks]
    have hlists : readList readAssignment
        (joinWith .comma (as.map fun a => .word a.1 :: .eq :: a.2.toks)) = some as := by
      refine readList_joinWith hne (fun a haa => ?_) fun a _ hm => ?_
      · rw [readAssignment, if_pos (isName_of_isField (ha a haa)), a.2.read_toks]
        rfl
      · simp only [List.mem_cons, reduceCtorEq, false_or] at hm
        exact (a.2.toks_plain hm).1 rfl
    have hall := not_where_assignments ha
    rw [htoks, Option.bind_some, readStatement, if_pos (by decide), readUpdate,
      if_pos ⟨isName_of_isField ht, by decide⟩, List.takeWhile_append_of_pos hall,
      List.dropWhile_append_of_pos hall, List.takeWhile_cons_of_neg (by decide),
      List.dropWhile_cons_of_neg (by decide), List.append_nil, hlists, readRowid,
      if_pos (by decide), Literal.read_toks]
    rfl
  · rfl

end Update

/-! ### Load -/

theorem joinWith_concat {α : Type} (sep : α) {ss : List (List α)} (h : ss ≠ []) (s : List α) :
    joinWith sep (ss ++ [s]) = joinWith sep ss ++ sep :: s := by
  fun_induction joinWith sep ss with
  | case1 => exact absurd rfl h
  | case2 s' => rfl
  | case3 s' s'' ss ih =>
    have := ih (by simp)
    simp only [List.cons_append] at this ⊢
    rw [joinWith, this, List.append_assoc, List.cons_append]

/-- The text that `load` streams. -/
theorem loadText_eq {td : Description} (h : td.Named) (id : Int) :
    loadManyText td (lit "rowid") (showInt id) [] 1 = textOf (loadPieces td id) := by
  have h₁ : lit "select " = lit "select" ++ [32] := by decide
  have h₂ : lit ",rowid from " = 44 :: (lit "rowid" ++ (32 :: (lit "from" ++ [32]))) := by decide
  have h₃ : lit " where " = 32 :: (lit "where" ++ [32]) := by decide
  have h₄ : lit " limit " = 32 :: (lit "limit" ++ [32]) := by decide
  have h₅ : lit "=" = [61] := by decide
  rw [loadManyText, selectText, orderText, if_pos (by decide), if_neg (by simp), if_pos (by decide),
    insertFields_eq td h.fields_ne, h₁, h₂, h₃, h₄, h₅]
  simp [loadPieces, textOf_namePieces, joinWith_concat 44 h.fields_ne, Piece.text, Literal.sql]

theorem readStatement_select (ts : List Token) :
    readStatement (.word (lit "select") :: ts) = readLoad ts := by
  rw [readStatement.eq_def]
  simp only
  rw [if_neg (by decide), if_pos (by decide)]

/-- **What SQLite makes of the `select` of `load`.** -/
theorem parse_load {td : Description} (h : td.Named) (id : Int) :
    parse (loadManyText td (lit "rowid") (showInt id) [] 1) =
      some (.load (td.fields ++ [lit "rowid"]) td.tableName (.int id)) := by
  have hfields : ∀ f ∈ td.fields ++ [lit "rowid"], isField f = true := by
    intro f hf
    rcases List.mem_append.mp hf with hf | hf
    · exact h.fields f hf
    · obtain rfl := List.mem_singleton.mp hf
      decide
  have hjoins : Joins (loadPieces td id) := by
    have hhead : Joins [.word (lit "select"), .space, .space] :=
      .cons (by decide) rfl <| .cons rfl rfl <| .single rfl
    have htail : Joins [.space, .word (lit "from"), .space, .word td.tableName, .space,
        .word (lit "where"), .space, .word (lit "rowid"), .eq, .literal (.int id), .space,
        .word (lit "limit"), .space, .literal (.int 1)] :=
      .cons rfl rfl <| .cons (by decide) rfl <| .cons rfl rfl <|
        .cons (isWord_of_isField h.tableName) rfl <| .cons rfl rfl <| .cons (by decide) rfl <|
        .cons rfl rfl <| .cons (by decide) rfl <| .cons rfl rfl <| .cons rfl rfl <|
        .cons rfl rfl <| .cons (by decide) rfl <| .cons rfl rfl <| .single rfl
    exact (hhead.append (joins_namePieces hfields) (.inl rfl)).append htail (.inr rfl)
  have hclean : (loadPieces td id).all Piece.clean = true := by
    simp [loadPieces, clean_namePieces, Piece.clean]
  have htoks : (loadPieces td id).flatMap Piece.toks =
      .word (lit "select") ::
        (joinWith .comma ((td.fields ++ [lit "rowid"]).map fun f => [.word f]) ++
          .word (lit "from") :: .word td.tableName :: .word (lit "where") ::
            .word (lit "rowid") :: .eq :: ((Literal.int id).toks ++
              [.word (lit "limit"), .number (decimal 1) true])) := by
    simp only [loadPieces, List.flatMap_append, toks_namePieces]
    simp [Piece.toks, Literal.toks]
  have hfrom : ∀ t ∈ joinWith .comma ((td.fields ++ [lit "rowid"]).map fun f => [.word f]),
      (!isKeyword (lit "FROM") t) = true := by
    intro t ht
    obtain rfl | ⟨s, hs, ht⟩ := mem_joinWith ht
    · rfl
    · obtain ⟨f, hf, rfl⟩ := List.mem_map.mp hs
      obtain rfl := List.mem_singleton.mp ht
      rw [isKeyword_word (hfields f hf) (by decide)]
      rfl
  have hlimit : ∀ t ∈ .word (lit "where") :: .word (lit "rowid") :: .eq :: (Literal.int id).toks,
      (!isKeyword (lit "LIMIT") t) = true := by
    intro t ht
    simp only [List.mem_cons] at ht
    rcases ht with rfl | rfl | rfl | ht
    · decide
    · decide
    · rfl
    · rw [((Literal.int id).toks_plain ht).2.2]
      rfl
  rw [loadText_eq h, parse, tokens_pieces hjoins, if_pos hclean, htoks, Option.bind_some,
    readStatement_select, readLoad,
    List.takeWhile_append_of_pos hfrom, List.dropWhile_append_of_pos hfrom,
    List.takeWhile_cons_of_neg (by decide), List.dropWhile_cons_of_neg (by decide), List.append_nil,
    readList_joinWith (by simp) (fun f hf => readName_word (hfields f hf)) (by simp)]
  have hsplit : .word (lit "where") :: .word (lit "rowid") :: .eq :: ((Literal.int id).toks ++
      [.word (lit "limit"), .number (decimal 1) true]) =
      (.word (lit "where") :: .word (lit "rowid") :: .eq :: (Literal.int id).toks) ++
        [.word (lit "limit"), .number (decimal 1) true] := rfl
  simp only [Option.bind_eq_bind, Option.bind_some]
  rw [hsplit, List.takeWhile_append_of_pos hlimit, List.dropWhile_append_of_pos hlimit,
    List.takeWhile_cons_of_neg (by decide), List.dropWhile_cons_of_neg (by decide), List.append_nil,
    readRowid, if_pos (by decide), Literal.read_toks]
  simp only [Option.bind_some]
  rw [if_pos ⟨isName_of_isField h.tableName, by decide⟩]

/-! ### Create -/

/-- A column as it is streamed. -/
def columnSql (c : Bytes × Bytes) : Bytes := c.1 ++ 32 :: c.2

/-- The text that `check_and_create_tables` streams for a table it does not find. -/
def createText (table : Bytes) (cols : List (Bytes × Bytes)) : Bytes :=
  lit "create table " ++ table ++ lit "(" ++
    (match cols with
      | [] => []
      | c :: cs => columnSql c ++ cs.flatMap fun c => lit ", " ++ columnSql c) ++
    lit ")"

theorem readStatement_create (ts : List Token) :
    readStatement (.word (lit "create") :: .word (lit "table") :: ts) = readCreate ts := by
  rw [readStatement.eq_def]
  simp only
  rw [if_neg (by decide), if_neg (by decide), if_neg (by decide), if_pos (by decide)]

/-- **What SQLite makes of a `create table`.** -/
theorem parse_create {table : Bytes} (ht : isField table = true) {cols : List (Bytes × Bytes)}
    (hc : ∀ c ∈ cols, isField c.1 = true ∧ isField c.2 = true) (hne : cols ≠ []) :
    parse (createText table cols) = some (.create table cols) := by
  obtain ⟨c, cs, rfl⟩ := List.exists_cons_of_ne_nil hne
  have hjoins : Joins (createPieces table (c :: cs)) := by
    have hhead : Joins [.word (lit "create"), .space, .word (lit "table"), .space, .word table,
        .lp] :=
      .cons (by decide) rfl <| .cons rfl rfl <| .cons (by decide) rfl <| .cons rfl rfl <|
        .cons (isWord_of_isField ht) rfl <| .single rfl
    refine (hhead.append (Joins.joinWith fun s hs => ?_) (.inl rfl)).append (.single rfl) (.inr rfl)
    have hcol : ∀ d ∈ c :: cs, Joins [.word d.1, .space, .word d.2] := fun d hm =>
      .cons (isWord_of_isField (hc d hm).1) rfl <| .cons rfl rfl <|
        .single (isWord_of_isField (hc d hm).2)
    rcases List.mem_cons.mp hs with rfl | hs
    · exact hcol c (by simp)
    · obtain ⟨c', hc', rfl⟩ := List.mem_map.mp hs
      exact .cons rfl rfl (hcol c' (by simp [hc']))
  have htext : createText table (c :: cs) = textOf (createPieces table (c :: cs)) := by
    have h₁ : lit "create table " = lit "create" ++ (32 :: (lit "table" ++ [32])) := by decide
    have h₂ : lit "(" = [40] := by decide
    have h₃ : lit ")" = [41] := by decide
    have h₄ : lit ", " = [44, 32] := by decide
    have hcols : ∀ (x : Bytes) (cs : List (Bytes × Bytes)),
        joinWith 44 (x :: cs.map fun c => 32 :: columnSql c) =
          x ++ cs.flatMap fun c => lit ", " ++ columnSql c := by
      intro x cs
      induction cs generalizing x with
      | nil => simp [joinWith]
      | cons d ds ih => simp only [List.map_cons, joinWith, ih, h₄, List.flatMap_cons]; simp
    have hlist : textOf (columnPieces (c :: cs)) =
        columnSql c ++ cs.flatMap fun c => lit ", " ++ columnSql c := by
      rw [columnPieces, textOf_joinWith, ← hcols]
      congr 1
      simp [Function.comp_def, Piece.text, columnSql]
    rw [createText, h₁, h₂, h₃]
    simp only [createPieces, textOf_append, hlist]
    simp [Piece.text]
  have hclean : (createPieces table (c :: cs)).all Piece.clean = true := by
    have hsep : Piece.clean .comma = true := rfl
    simp only [createPieces, columnPieces, List.all_append, all_joinWith Piece.clean hsep]
    simp [Piece.clean]
  have htoks : (createPieces table (c :: cs)).flatMap Piece.toks =
      .word (lit "create") :: .word (lit "table") :: .word table :: .lp ::
        (joinWith .comma ((c :: cs).map fun c => [.word c.1, .word c.2]) ++ .rp :: []) := by
    have hlist : (columnPieces (c :: cs)).flatMap Piece.toks =
        joinWith .comma ((c :: cs).map fun c => [.word c.1, .word c.2]) := by
      rw [columnPieces, toks_joinWith]
      congr 1
      simp [Function.comp_def, Piece.toks]
    simp only [createPieces, List.flatMap_append, hlist]
    simp [Piece.toks]
  have hgroup := @readGroup_joinWith _ readColumn (fun c => [.word c.1, .word c.2]) _ hne
    (fun c hm => if_pos ⟨isName_of_isField (hc c hm).1, isName_of_isField (hc c hm).2⟩) (by simp)
    (by simp) []
  rw [htext, parse, tokens_pieces hjoins, if_pos hclean, htoks, Option.bind_some,
    readStatement_create, readCreate, hgroup]
  simp only
  rw [if_pos (isName_of_isField ht)]

end Sqlite
