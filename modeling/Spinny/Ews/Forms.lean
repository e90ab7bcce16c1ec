import Spinny.Ews.Identity
import Spinny.Ews.Urls

/-!
# The variables of a request

`parse_form_elements` runs one regular expression over a whole uri or body.

* `readPieces`: what it finds, piece by piece; `formMatches_pieces`.
* `referencePairs`: the query cut at every `&`, and each piece at its first `=`.
* `reads_reference`: when both agree.
* `decode_encoded`: the variables of an encoded request.
-/

namespace Ews

open Bytes Boost Spinny Proc

/-! ## Pieces -/

/-- A text cut at every `&`. -/
def cutAmp : Bytes → List Bytes
  | [] => [[]]
  | b :: s =>
    if b = 38 then [] :: cutAmp s
    else
      match cutAmp s with
      | [] => [[b]]
      | p :: ps => (b :: p) :: ps

/-- Pieces with a `&` between them. -/
def joinAmp : List Bytes → Bytes
  | [] => []
  | p :: ps => p ++ ps.flatMap (38 :: ·)

/-- A piece at its first `=`, if it has one. -/
def splitParam (p : Bytes) : Option (Bytes × Bytes) :=
  if 61 ∈ p then some (p.takeWhile (· ≠ 61), (p.dropWhile (· ≠ 61)).drop 1) else none

/-- Both texts of a pair decoded. -/
def decodePairs (es : List (Bytes × Bytes)) : List (Bytes × Bytes) :=
  es.map fun e => (decodeStr e.1, decodeStr e.2)

/-- What the regular expression finds in pieces, the text `pending` in front of the first. -/
def readPieces (pending : Bytes) : List Bytes → List (Bytes × Bytes)
  | [] => []
  | p :: ps =>
    match splitParam p with
    | some e => (behindMark (pending ++ e.1), e.2) :: readPieces [] ps
    | none => readPieces (pending ++ p ++ [38]) ps

theorem cutAmp_ne_nil (s : Bytes) : cutAmp s ≠ [] := by
  cases s with
  | nil => simp [cutAmp]
  | cons b s =>
    unfold cutAmp
    split
    · simp
    · split <;> simp

theorem joinAmp_cons (p : Bytes) {ps : List Bytes} (h : ps ≠ []) :
    joinAmp (p :: ps) = p ++ 38 :: joinAmp ps := by
  obtain ⟨q, qs, rfl⟩ := List.exists_cons_of_ne_nil h
  rfl

theorem joinAmp_cutAmp (s : Bytes) : joinAmp (cutAmp s) = s := by
  induction s with
  | nil => rfl
  | cons b s ih =>
    unfold cutAmp
    split
    · rename_i hb
      rw [joinAmp_cons _ (cutAmp_ne_nil s), ih, hb, List.nil_append]
    · obtain ⟨p, ps, hp⟩ := List.exists_cons_of_ne_nil (cutAmp_ne_nil s)
      rw [hp] at ih ⊢
      dsimp only
      cases ps with
      | nil => exact congrArg (b :: ·) ih
      | cons q ps => exact congrArg (b :: ·) ih

theorem not_mem_cutAmp (s : Bytes) : ∀ p ∈ cutAmp s, 38 ∉ p := by
  induction s with
  | nil => simp [cutAmp]
  | cons b s ih =>
    unfold cutAmp
    split
    · simpa using ih
    · rename_i hb
      obtain ⟨p, ps, hp⟩ := List.exists_cons_of_ne_nil (cutAmp_ne_nil s)
      rw [hp] at ih ⊢
      dsimp only
      simp only [List.forall_mem_cons] at ih ⊢
      exact ⟨by simp [Ne.symm hb, ih.1], ih.2⟩

/-- A piece with a `=` is a name, the `=` and a value. -/
theorem splitParam_append {name : Bytes} (h : 61 ∉ name) (value : Bytes) :
    splitParam (name ++ 61 :: value) = some (name, value) := by
  have hall : ∀ b ∈ name, (fun b : UInt8 => decide (b ≠ 61)) b = true := by
    intro b hb
    simpa using fun hb' : b = 61 => h (hb' ▸ hb)
  rw [splitParam, if_pos (by simp), List.takeWhile_append_of_pos hall,
    List.dropWhile_append_of_pos hall]
  simp

theorem splitParam_eq_some {p : Bytes} {e : Bytes × Bytes} (h : splitParam p = some e) :
    p = e.1 ++ 61 :: e.2 ∧ 61 ∉ e.1 := by
  by_cases hp : 61 ∈ p
  · obtain ⟨name, value, rfl, hname⟩ := List.eq_append_cons_of_mem hp
    rw [splitParam_append hname] at h
    obtain rfl := Option.some.inj h
    exact ⟨rfl, hname⟩
  · rw [splitParam, if_neg hp] at h
    cases h

theorem splitParam_eq_none {p : Bytes} : splitParam p = none ↔ 61 ∉ p := by
  simp [splitParam]

theorem valueSpan {value : Bytes} (h : 38 ∉ value) (rest : Bytes) :
    (value ++ 38 :: rest).takeWhile valueByte = value ∧
      (value ++ 38 :: rest).dropWhile valueByte = 38 :: rest := by
  have hall : ∀ b ∈ value, valueByte b = true := by
    intro b hb
    simpa [valueByte] using fun hb' : b = 38 => h (hb' ▸ hb)
  rw [List.takeWhile_append_of_pos hall, List.dropWhile_append_of_pos hall,
    List.takeWhile_cons_of_neg (by decide), List.append_nil]
  exact ⟨rfl, List.dropWhile_cons_of_neg (by decide)⟩

theorem valueSpan_end {value : Bytes} (h : 38 ∉ value) :
    value.takeWhile valueByte = value ∧ value.dropWhile valueByte = [] := by
  have hall : ∀ b ∈ value, valueByte b = true := by
    intro b hb
    simpa [valueByte] using fun hb' : b = 38 => h (hb' ▸ hb)
  exact ⟨List.takeWhile_eq_self_iff.mpr hall, List.dropWhile_eq_nil_iff.mpr hall⟩

@[simp] theorem formMatches_nil : formMatches [] = ([], false) := rfl

/-- The first match of a text, and the matches in the pieces behind its value. -/
theorem formMatches_cons {s name value : Bytes} {ps : List Bytes} (h : 38 ∉ value)
    (hs : formSearch (maxStateCount s.length) 0 s = .found name (value ++ ps.flatMap (38 :: ·))) :
    formMatches s = ((name, value) :: (formMatches (joinAmp ps)).1,
      (formMatches (joinAmp ps)).2) := by
  rw [formMatches_found hs]
  cases ps with
  | nil =>
    rw [List.flatMap_nil, List.append_nil, (valueSpan_end h).1, (valueSpan_end h).2]
    rfl
  | cons p ps =>
    rw [List.flatMap_cons, List.cons_append, (valueSpan h _).1, (valueSpan h _).2]
    rfl

theorem formMatches_none {s : Bytes} (h : 61 ∉ s) (hgives : givesUp s = false) :
    (formMatches s).1 = [] := by
  rcases formSearch_none (maxStateCount s.length) 0 h with hsearch | hsearch
  · rw [formMatches, formElements, hsearch]
  · rw [givesUp_of_overrun hsearch] at hgives
    cases hgives

/-- What the regular expression finds in a text that it searches to the end. -/
theorem formMatches_pieces {ps : List Bytes} (hps : ∀ p ∈ ps, 38 ∉ p) {pending : Bytes}
    (hpend : 61 ∉ pending) (h : givesUp (pending ++ joinAmp ps) = false) :
    (formMatches (pending ++ joinAmp ps)).1 = readPieces pending ps := by
  induction ps generalizing pending with
  | nil =>
    rw [joinAmp, List.append_nil] at h ⊢
    exact formMatches_none hpend h
  | cons p ps ih =>
    obtain ⟨hp, hps⟩ := List.forall_mem_cons.mp hps
    rw [readPieces]
    cases hsplit : splitParam p with
    | some e =>
      obtain ⟨hpe, he⟩ := splitParam_eq_some hsplit
      have hvalue : 38 ∉ e.2 := fun hm => hp (hpe ▸ by simp [hm])
      have htext : pending ++ joinAmp (p :: ps) =
          (pending ++ e.1) ++ 61 :: (e.2 ++ ps.flatMap (38 :: ·)) := by
        rw [joinAmp]
        conv => lhs; rw [hpe]
        simp
      have hhead : 61 ∉ pending ++ e.1 := by simp [hpend, he]
      rw [htext] at h ⊢
      rcases formSearch_head (maxStateCount (pending ++ e.1 ++
        61 :: (e.2 ++ ps.flatMap (38 :: ·))).length) 0 hhead (e.2 ++ ps.flatMap (38 :: ·)) with
        hsearch | hsearch
      · have hcons := formMatches_cons hvalue hsearch
        rw [givesUp, hcons] at h
        rw [hcons]
        have htail := @ih hps [] List.not_mem_nil h
        rw [List.nil_append] at htail
        rw [htail]
      · rw [givesUp_of_overrun hsearch] at h
        cases h
    | none =>
      have hp61 := splitParam_eq_none.mp hsplit
      have hpend' : 61 ∉ pending ++ p ++ [38] := by simp [hpend, hp61]
      by_cases hnil : ps = []
      · subst hnil
        rw [joinAmp, List.flatMap_nil, List.append_nil] at h ⊢
        exact formMatches_none (by simp [hpend, hp61]) h
      · have htext : pending ++ joinAmp (p :: ps) = (pending ++ p ++ [38]) ++ joinAmp ps := by
          rw [joinAmp_cons p hnil]
          simp
        rw [htext] at h ⊢
        exact ih hps hpend' h

/-- What the regular expression finds in a whole text. -/
theorem formMatches_cut {s : Bytes} (h : givesUp s = false) :
    (formMatches s).1 = readPieces [] (cutAmp s) := by
  have hjoin := joinAmp_cutAmp s
  have hpieces := @formMatches_pieces _ (not_mem_cutAmp s) [] List.not_mem_nil
  rw [List.nil_append, hjoin] at hpieces
  exact hpieces h

/-! ## Encoded pairs -/

/-- Letters, digits and the marks `-_.!~*'()`. -/
def isUnreserved (b : UInt8) : Bool :=
  Sqlite.isAlpha b || isDigit b || (lit "-_.!~*'()").contains b

/-- A text `name=value`. -/
def param (e : Bytes × Bytes) : Bytes := e.1 ++ 61 :: e.2

/-- The pairs percent-encoded, with a `=` in each and a `&` between them. -/
def EncodesForm (pairs : List (Bytes × Bytes)) (text : Bytes) : Prop :=
  ∃ es, List.Forall₂ (fun p e => Encodes isUnreserved p.1 e.1 ∧ Encodes isUnreserved p.2 e.2)
    pairs es ∧ text = joinAmp (es.map param)

/-- Neither half of a pair holds a separator. -/
structure Unseparated (e : Bytes × Bytes) : Prop where
  name_mark : 63 ∉ e.1
  name_eq : 61 ∉ e.1
  name_amp : 38 ∉ e.1
  value_amp : 38 ∉ e.2

/-- A name at the start of a text is found at once. -/
theorem formSearch_here (max count : Nat) {name : Bytes} (h₁ : 61 ∉ name) (h₂ : 63 ∉ name)
    (rest : Bytes) : formSearch max count (name ++ 61 :: rest) = .found name rest := by
  cases name with
  | nil => rfl
  | cons b name =>
    have hb : b ≠ 63 := fun hb => h₂ (by simp [hb])
    obtain ⟨hdrop, htake⟩ := nameSpan (nameByte_of h₁ h₂) rest
    rw [List.cons_append] at hdrop htake ⊢
    rw [formSearch, skipMark, if_neg hb, hdrop, htake]
    rfl

theorem formMatches_params {es : List (Bytes × Bytes)} (h : ∀ e ∈ es, Unseparated e) :
    formMatches (joinAmp (es.map param)) = (es, false) := by
  induction es with
  | nil => rfl
  | cons e es ih =>
    obtain ⟨he, hes⟩ := List.forall_mem_cons.mp h
    have htext : joinAmp ((e :: es).map param) =
        e.1 ++ 61 :: (e.2 ++ (es.map param).flatMap (38 :: ·)) := by
      simp [joinAmp, param]
    rw [htext, formMatches_cons he.value_amp (formSearch_here _ _ he.name_eq he.name_mark _),
      ih hes]

theorem encodesForm_unseparated {pairs es : List (Bytes × Bytes)}
    (h : List.Forall₂ (fun p e => Encodes isUnreserved p.1 e.1 ∧ Encodes isUnreserved p.2 e.2)
      pairs es) : (∀ e ∈ es, Unseparated e) ∧ decodePairs es = pairs := by
  induction h with
  | nil => exact ⟨by simp, rfl⟩
  | cons hpe _ ih =>
    rename_i p e ps es _
    obtain ⟨h₁, h₂⟩ := hpe
    refine ⟨List.forall_mem_cons.mpr ⟨⟨h₁.not_mem (by decide) (by decide) (by decide),
      h₁.not_mem (by decide) (by decide) (by decide),
      h₁.not_mem (by decide) (by decide) (by decide),
      h₂.not_mem (by decide) (by decide) (by decide)⟩, ih.1⟩, ?_⟩
    have hdecode : ∀ {s e : Bytes}, Encodes isUnreserved s e → decodeStr e = s := by
      intro s e he
      have h := decodeStr_encodes (by decide) he []
      rwa [List.append_nil, decodeStr, List.append_nil] at h
    rw [decodePairs, List.map_cons, hdecode h₁, hdecode h₂]
    exact congrArg (p :: ·) ih.2

/-- A body of encoded pairs. -/
theorem formPairs_body {pairs : List (Bytes × Bytes)} {text : Bytes} (h : EncodesForm pairs text) :
    givesUp text = false ∧ formPairs text = pairs := by
  obtain ⟨es, hes, rfl⟩ := h
  obtain ⟨hsep, hdecode⟩ := encodesForm_unseparated hes
  rw [givesUp, formPairs, formMatches_params hsep]
  exact ⟨rfl, hdecode⟩

/-- A uri with encoded pairs behind a path. -/
theorem formPairs_uri {pairs : List (Bytes × Bytes)} {path text : Bytes}
    (h : EncodesForm pairs text) (hpath : 61 ∉ path)
    (hsearch : givesUp (path ++ 63 :: text) = false) :
    formPairs (path ++ 63 :: text) = pairs := by
  obtain ⟨es, hes, rfl⟩ := h
  obtain ⟨hsep, hdecode⟩ := encodesForm_unseparated hes
  rw [← hdecode]
  cases es with
  | nil =>
    have hnone : 61 ∉ path ++ 63 :: joinAmp (([] : List (Bytes × Bytes)).map param) := by
      simp [joinAmp, hpath]
    rw [formPairs, formMatches_none hnone hsearch]
    rfl
  | cons e es =>
    obtain ⟨he, hsep⟩ := List.forall_mem_cons.mp hsep
    have htext : path ++ 63 :: joinAmp ((e :: es).map param) =
        (path ++ 63 :: e.1) ++ 61 :: (e.2 ++ (es.map param).flatMap (38 :: ·)) := by
      simp [joinAmp, param]
    rw [htext] at hsearch ⊢
    rcases formSearch_head (maxStateCount (path ++ 63 :: e.1 ++ 61 :: (e.2 ++
      (es.map param).flatMap (38 :: ·))).length) 0
      (show 61 ∉ path ++ 63 :: e.1 by simp [hpath, he.name_eq]) (e.2 ++ (es.map param).flatMap (38 :: ·)) with h | h
    · rw [formPairs, formMatches_cons he.value_amp h, formMatches_params hsep, behindMark_append,
        behindMark_eq he.name_mark]
      rfl
    · rw [givesUp_of_overrun h] at hsearch
      cases hsearch

/-! ## The variables of a completed request -/

/-- The pairs pushed into an empty map. -/
theorem getElem?_pushed (es : List (Bytes × Bytes)) (n : Bytes) :
    (es.foldl (fun m e => m.push e.1 e.2) (∅ : Varibles))[n]? =
      if valuesOf n es = [] then none else some (valuesOf n es) := by
  induction es using List.reverseRecOn with
  | nil => simp [valuesOf]
  | append_singleton es e ih =>
    have hvalues : valuesOf n (es ++ [e]) = valuesOf n es ++ if e.1 = n then [e.2] else [] := by
      by_cases h : e.1 = n <;> simp [valuesOf, List.filter_append, h]
    rw [List.foldl_append, List.foldl_cons, List.foldl_nil, Varibles.push,
      Std.ExtTreeMap.getElem?_insert, hvalues]
    by_cases h : e.1 = n
    · rw [h, ih]
      by_cases hes : valuesOf n es = [] <;> simp [hes]
    · simp [h, ih]

variable {withTicket : TicketLookup}

/-- The final decode of a request without cookies. -/
theorem varibles_decode {req : Request} (hc : req.cookies = []) (hu : givesUp req.uri = false)
    (hb : givesUp req.body = false) :
    outcome (performFinalDecode withTicket) req = .ok () ∧
      (after (performFinalDecode withTicket) req).varibles =
        (formPairs req.uri ++ formPairs req.body).foldl (fun m e => m.push e.1 e.2)
          req.varibles := by
  have hok : outcome (performFinalDecode withTicket) req = .ok () := by
    rw [decode_ok_iff]
    rintro (h | h | ⟨h, -⟩)
    · rw [hu] at h
      cases h
    · rw [hb] at h
      cases h
    · exact h hc
  refine ⟨hok, ?_⟩
  have hform : ∀ (str : Bytes) (req : Request), givesUp str = false →
      outcome (parseFormElements str) req = .ok () := fun str req h => by
    rw [outcome_parseFormElements, h, if_neg (by simp)]
  have hcookies : ∀ req : Request, outcome (decodeCookies withTicket []) req = .ok () ∧
      after (decodeCookies withTicket []) req = req := fun req => ⟨rfl, rfl⟩
  rw [performFinalDecode, after_bind_ok (outcome_modify _ _), after_modify,
    after_bind_ok (outcome_get _), after_get, after_bind_ok (hform _ _ hu),
    after_parseFormElements, after_bind_ok (outcome_get _), after_get,
    after_bind_ok (hform _ _ hb), after_parseFormElements, after_bind_ok (outcome_get _),
    after_get]
  set forms : Request :=
    { req with
      url := (decodeStr req.uri).takeWhile (· ≠ 63)
      varibles := (req.varibles.addForm req.uri).addForm req.body } with hforms
  have hempty : forms.cookies = [] := hc
  rw [hempty, after_bind_ok (hcookies forms).1, (hcookies forms).2, after_modify,
    List.foldl_append, ← addForm_eq, ← addForm_eq]
  rfl

/-- The variables of an encoded request are the pairs that were encoded. -/
theorem decode_encoded {req : Request} (hreq : req.Fresh)
    (hcookie : req.headers[lit "COOKIE"]? = none) {first second : List (Bytes × Bytes)}
    {path query : Bytes} (hpath : 61 ∉ path)
    (hquery : EncodesForm first query) (huri : req.uri = path ++ 63 :: query)
    (hbody : EncodesForm second req.body) (hsearch : givesUp req.uri = false) :
    outcome (performFinalDecode withTicket) req = .ok () ∧
      ∀ n, (after (performFinalDecode withTicket) req).varibles[n]? =
        if valuesOf n (first ++ second) = [] then none
        else some (valuesOf n first ++ valuesOf n second) := by
  have hc : req.cookies = [] := by rw [Request.cookies, Request.getHeaderString, hcookie]; rfl
  obtain ⟨hb, hsecond⟩ := formPairs_body hbody
  have hfirst : formPairs req.uri = first := by
    rw [huri] at hsearch ⊢
    exact formPairs_uri hquery hpath hsearch
  obtain ⟨hok, hvaribles⟩ := @varibles_decode withTicket req hc hsearch hb
  refine ⟨hok, fun n => ?_⟩
  rw [hvaribles, hfirst, hsecond, hreq.varibles, getElem?_pushed]
  simp [valuesOf]

/-- A repeated name, an empty one and an empty value. -/
theorem decode_encoded_post :
    (after (performFinalDecode noTickets)
      { requestFor (lit "/pl?a=x%26y&a=&=%3F") with body := lit "a=z&b=1" }).varibles[lit "a"]? =
      some [lit "x&y", [], lit "z"] := by
  have ha : Encodes isUnreserved (lit "a") (lit "a") := .plain (by decide) .nil
  have hxy : Encodes isUnreserved (lit "x&y") (lit "x%26y") :=
    .plain (by decide) (.escape (show hexVal 50 = some 2 by decide)
      (show hexVal 54 = some 6 by decide) (by decide) (.plain (by decide) .nil))
  have hmark : Encodes isUnreserved (lit "?") (lit "%3F") :=
    .escape (show hexVal 51 = some 3 by decide) (show hexVal 70 = some 15 by decide) (by decide)
      .nil
  have hfirst : EncodesForm [(lit "a", lit "x&y"), (lit "a", []), ([], lit "?")]
      (lit "a=x%26y&a=&=%3F") :=
    ⟨[(lit "a", lit "x%26y"), (lit "a", []), ([], lit "%3F")],
      .cons ⟨ha, hxy⟩ (.cons ⟨ha, .nil⟩ (.cons ⟨.nil, hmark⟩ .nil)), by decide⟩
  have hsecond : EncodesForm [(lit "a", lit "z"), (lit "b", lit "1")] (lit "a=z&b=1") :=
    ⟨[(lit "a", lit "z"), (lit "b", lit "1")],
      .cons ⟨ha, .plain (by decide) .nil⟩
        (.cons ⟨.plain (by decide) .nil, .plain (by decide) .nil⟩ .nil), by decide⟩
  exact ((decode_encoded ⟨rfl, rfl⟩ rfl (show 61 ∉ lit "/pl" by decide) hfirst rfl hsecond
    (givesUp_of_short (by decide))).2 (lit "a")).trans (by decide)

/-! ## The reference reading -/

/-- The text behind the first `?`. -/
def query (uri : Bytes) : Bytes := (uri.dropWhile (· ≠ 63)).drop 1

/-- The pairs of a query: cut at every `&`, each piece with a `=` cut at the first one. -/
def referencePairs (uri : Bytes) : List (Bytes × Bytes) :=
  decodePairs ((cutAmp (query uri)).filterMap splitParam)

/-- `parse_form_elements` returns, and these are the pairs it pushes. -/
structure ReadsAs (uri : Bytes) (pairs : List (Bytes × Bytes)) : Prop where
  returns : ∀ req, outcome (parseFormElements uri) req = .ok ()
  pairs : formPairs uri = pairs

/-- The pieces without a `=` come last, and no name holds a `?`. -/
def paramsFirst : List Bytes → Bool
  | [] => true
  | p :: ps =>
    match splitParam p with
    | some e => !e.1.contains 63 && paramsFirst ps
    | none => ps.all fun q => (splitParam q).isNone

/-- No `=` stands in the path, and the query is in order. -/
def readsPlainly (uri : Bytes) : Bool :=
  !(rawPath uri).contains 61 && paramsFirst (cutAmp (query uri))

/-- `&`, `=` or `?`. -/
def isSeparator (b : UInt8) : Bool := b == 38 || b == 61 || b == 63

/-- No separator is one of the two bytes behind a `%`. -/
def WholeEscapes (s : Bytes) : Prop :=
  ∀ u c v, s = u ++ c :: v → isSeparator c = true → 37 ∉ u.reverse.take 2

theorem WholeEscapes.within {s t : Bytes} (h : WholeEscapes t) (hs : s <:+: t) :
    WholeEscapes s := by
  obtain ⟨a, b, rfl⟩ := hs
  rintro u c v rfl hc hmem
  refine h (a ++ u) c (v ++ b) (by simp) hc ?_
  rw [List.reverse_append, List.take_append]
  exact List.mem_append_left _ hmem

/-- An escape does not reach over a separator behind whole escapes. -/
theorem decodeStr_append {u : Bytes} {c : UInt8} (hu : 37 ∉ u.reverse.take 2) (hc : c ≠ 37)
    (v : Bytes) : decodeStr (u ++ c :: v) = decodeStr u ++ c :: decodeStr v := by
  have htail : ∀ {a s : Bytes}, 37 ∉ (a ++ s).reverse.take 2 → 37 ∉ s.reverse.take 2 := by
    intro a s h hmem
    rw [List.reverse_append, List.take_append] at h
    exact h (List.mem_append_left _ hmem)
  fun_induction decodeStr u with
  | case1 => rw [List.nil_append, decodeStr_cons hc, List.nil_append]
  | case2 a b s ih =>
    have hs : 37 ∉ s.reverse.take 2 := htail (a := [37, a, b]) hu
    rw [List.cons_append, List.cons_append, List.cons_append, decodeStr, ih hs, List.append_assoc]
  | case3 s h =>
    rcases s with _ | ⟨a, _ | ⟨b, s⟩⟩
    · simp at hu
    · simp at hu
    · exact absurd rfl (h a b s)
  | case4 b s _ h ih =>
    have hb : b ≠ 37 := h
    rw [List.cons_append, decodeStr_cons hb, ih (htail (a := [b]) hu), List.cons_append]

theorem length_decodeStr_append {u : Bytes} {c : UInt8} {v : Bytes} (h : WholeEscapes (u ++ c :: v))
    (hc : isSeparator c = true) :
    (decodeStr v).length < (decodeStr (u ++ c :: v)).length := by
  have hne : c ≠ 37 := by
    rintro rfl
    cases hc
  rw [decodeStr_append (h u c v rfl hc) hne]
  simp
  omega

theorem splitParam_none_iff {ps : List Bytes} :
    ps.filterMap splitParam = [] ↔ ∀ p ∈ ps, splitParam p = none := List.filterMap_eq_nil_iff

theorem length_readPieces (pending : Bytes) (ps : List Bytes) :
    (readPieces pending ps).length = (ps.filterMap splitParam).length := by
  induction ps generalizing pending with
  | nil => rfl
  | cons p ps ih =>
    rw [readPieces, List.filterMap_cons]
    cases splitParam p with
    | some e => simp [ih]
    | none => exact ih _

/-- Nothing of what stands before a `?` is read. -/
theorem readPieces_mark (x y : Bytes) (ps : List Bytes) :
    readPieces (x ++ 63 :: y) ps = readPieces y ps := by
  induction ps generalizing y with
  | nil => rfl
  | cons p ps ih =>
    rw [readPieces, readPieces]
    cases splitParam p with
    | some e =>
      simp only [List.append_assoc, List.cons_append, behindMark_append]
    | none =>
      simp only [List.append_assoc, List.cons_append]
      exact ih _

theorem readPieces_skip {init : List Bytes} (h : ∀ p ∈ init, splitParam p = none) (pending : Bytes)
    (ps : List Bytes) :
    ∃ pending', readPieces pending (init ++ ps) = readPieces pending' ps := by
  induction init generalizing pending with
  | nil => exact ⟨pending, rfl⟩
  | cons p init ih =>
    obtain ⟨hp, hinit⟩ := List.forall_mem_cons.mp h
    rw [List.cons_append, readPieces, hp]
    exact ih hinit _

theorem readPieces_mark_cons {a : Bytes} (ha : 61 ∉ a) (b x : Bytes) (ps : List Bytes) :
    readPieces x ((a ++ 63 :: b) :: ps) = readPieces [] (b :: ps) := by
  rw [readPieces, readPieces]
  cases hb : splitParam b with
  | some e =>
    obtain ⟨hbe, he⟩ := splitParam_eq_some hb
    have hsplit : splitParam (a ++ 63 :: b) = some (a ++ 63 :: e.1, e.2) := by
      rw [hbe, show a ++ 63 :: (e.1 ++ 61 :: e.2) = (a ++ 63 :: e.1) ++ 61 :: e.2 by simp]
      exact splitParam_append (by simp [ha, he]) _
    rw [hsplit]
    dsimp only
    rw [← List.append_assoc, behindMark_append, List.nil_append]
  | none =>
    have hb61 := splitParam_eq_none.mp hb
    have hsplit : splitParam (a ++ 63 :: b) = none :=
      splitParam_eq_none.mpr (by simp [ha, hb61])
    rw [hsplit]
    dsimp only
    rw [show x ++ (a ++ 63 :: b) ++ [38] = (x ++ a) ++ 63 :: (b ++ [38]) by simp, readPieces_mark,
      List.nil_append]

theorem behindMark_suffix {t : Bytes} (h : 63 ∉ t) (s : Bytes) :
    behindMark (s ++ t) = behindMark s ++ t := by
  have hall : ∀ b ∈ t.reverse, (fun b : UInt8 => decide (b ≠ 63)) b = true := by
    intro b hb
    simpa using fun hb' : b = 63 => h (hb' ▸ List.mem_reverse.mp hb)
  rw [behindMark, List.rtakeWhile, List.reverse_append, List.takeWhile_append_of_pos hall]
  simp [behindMark, List.rtakeWhile]

/-- The last `?` of a text. -/
theorem exists_last_mark {s : Bytes} (h : 63 ∈ s) : ∃ t u, s = t ++ 63 :: u ∧ 63 ∉ u := by
  obtain ⟨u, t, htext, hu⟩ := List.eq_append_cons_of_mem (List.mem_reverse.mpr h)
  refine ⟨t.reverse, u.reverse, ?_, fun hm => hu (List.mem_reverse.mp hm)⟩
  rw [← List.reverse_reverse s, htext]
  simp

/-- A name that is decoded with more in front of it is another name. -/
theorem decodeStr_longer {u v t : Bytes} {c : UInt8} (h : WholeEscapes t)
    (ht : u ++ c :: v <:+: t) (hc : isSeparator c = true) :
    decodeStr (u ++ c :: v) ≠ decodeStr v := by
  intro heq
  have := length_decodeStr_append (h.within ht) hc
  rw [heq] at this
  exact absurd this (Nat.lt_irrefl _)

/-- A piece without a `=` in front of one with it changes the name of that one. -/
theorem readPieces_ne {ps : List Bytes} {x : Bytes} (h : WholeEscapes (x ++ 38 :: joinAmp ps))
    (hps : ∃ p ∈ ps, splitParam p ≠ none) :
    decodePairs (readPieces (x ++ [38]) ps) ≠ decodePairs (ps.filterMap splitParam) := by
  induction ps generalizing x with
  | nil => simp at hps
  | cons p ps ih =>
    rw [readPieces, List.filterMap_cons]
    cases hp : splitParam p with
    | some e =>
      obtain ⟨hpe, -⟩ := splitParam_eq_some hp
      have htext : x ++ 38 :: joinAmp (p :: ps) =
          x ++ 38 :: e.1 ++ (61 :: e.2 ++ ps.flatMap (38 :: ·)) := by
        rw [joinAmp]
        conv => lhs; rw [hpe]
        simp
      intro heq
      have hname : decodeStr (behindMark (x ++ [38] ++ e.1)) = decodeStr e.1 :=
        congrArg Prod.fst (List.cons.inj heq).1
      by_cases hmark : 63 ∈ e.1
      · -- The name is cut at its last `?`.
        obtain ⟨t, u, hname', hu⟩ := exists_last_mark hmark
        rw [hname', ← List.append_assoc, behindMark_append, behindMark_eq hu] at hname
        refine decodeStr_longer h ?_ rfl hname.symm
        rw [htext, hname']
        exact ⟨x ++ [38], 61 :: e.2 ++ ps.flatMap (38 :: ·), by simp⟩
      · -- The pieces before belong to the name.
        have hbehind : behindMark (x ++ [38] ++ e.1) = behindMark x ++ 38 :: e.1 := by
          rw [List.append_assoc, behindMark_suffix (by simp [hmark])]
          rfl
        rw [hbehind] at hname
        refine decodeStr_longer h ?_ rfl hname
        obtain ⟨y, hy⟩ : behindMark x <:+ x := List.rtakeWhile_suffix _ _
        rw [htext]
        refine ⟨y, 61 :: e.2 ++ ps.flatMap (38 :: ·), ?_⟩
        conv => rhs; rw [← hy]
        simp
    | none =>
      have hrest : ∃ q ∈ ps, splitParam q ≠ none := by
        obtain ⟨q, hq, hne⟩ := hps
        refine ⟨q, (List.mem_cons.mp hq).resolve_left ?_, hne⟩
        rintro rfl
        exact hne hp
      have hne : ps ≠ [] := by
        rintro rfl
        simp at hrest
      rw [joinAmp_cons p hne] at h
      have hnext := @ih (x ++ 38 :: p) (by simpa using h) hrest
      simpa using hnext

/-- Pieces in order are read as they are cut. -/
theorem readPieces_of_paramsFirst {ps : List Bytes} (h : paramsFirst ps = true) :
    readPieces [] ps = ps.filterMap splitParam := by
  induction ps with
  | nil => rfl
  | cons p ps ih =>
    rw [readPieces, List.filterMap_cons]
    rw [paramsFirst] at h
    cases hp : splitParam p with
    | some e =>
      simp only [hp, Bool.and_eq_true, Bool.not_eq_true', List.contains_eq_mem,
        decide_eq_false_iff_not] at h
      dsimp only
      rw [List.nil_append, behindMark_eq h.1, ih h.2]
    | none =>
      simp only [hp, List.all_eq_true, Option.isNone_iff_eq_none] at h
      have hnil : ps.filterMap splitParam = [] := splitParam_none_iff.mpr h
      refine List.eq_nil_of_length_eq_zero ?_ |>.trans hnil.symm
      rw [length_readPieces, hnil]
      rfl

/-- Pieces that are read as they are cut are in order. -/
theorem paramsFirst_of_readPieces {ps : List Bytes} (h : WholeEscapes (joinAmp ps))
    (heq : decodePairs (readPieces [] ps) = decodePairs (ps.filterMap splitParam)) :
    paramsFirst ps = true := by
  induction ps with
  | nil => rfl
  | cons p ps ih =>
    rw [paramsFirst]
    cases hp : splitParam p with
    | some e =>
      obtain ⟨hpe, -⟩ := splitParam_eq_some hp
      rw [readPieces, List.filterMap_cons, hp] at heq
      obtain ⟨hhead, htail⟩ := List.cons.inj heq
      have hname : decodeStr (behindMark e.1) = decodeStr e.1 := congrArg Prod.fst hhead
      have hmark : 63 ∉ e.1 := by
        intro hmark
        obtain ⟨t, u, hname', hu⟩ := exists_last_mark hmark
        rw [hname', behindMark_append, behindMark_eq hu] at hname
        refine decodeStr_longer h ?_ rfl hname.symm
        exact ⟨[], 61 :: e.2 ++ ps.flatMap (38 :: ·), by rw [joinAmp, hpe, hname']; simp⟩
      have htext : WholeEscapes (joinAmp ps) := by
        cases ps with
        | nil => exact fun u c v huv => absurd huv (by simp [joinAmp])
        | cons q qs =>
          refine h.within ⟨p ++ [38], [], ?_⟩
          rw [joinAmp_cons p (List.cons_ne_nil q qs)]
          simp
      simp [hmark, ih htext htail]
    | none =>
      by_contra hnot
      simp only [List.all_eq_true, Option.isNone_iff_eq_none, not_forall] at hnot
      obtain ⟨q, hq, hne⟩ := hnot
      rw [joinAmp_cons p (List.ne_nil_of_mem hq)] at h
      refine readPieces_ne h ⟨q, hq, hne⟩ ?_
      rw [readPieces, List.filterMap_cons, hp] at heq
      exact heq

/-- The pieces of a text with a `?`: the first of the query ends the last of the path. -/
theorem cutAmp_mark (path : Bytes) : ∃ init a, cutAmp path = init ++ [a] ∧
    ∀ y b ps, cutAmp y = b :: ps → cutAmp (path ++ 63 :: y) = init ++ (a ++ 63 :: b) :: ps := by
  induction path with
  | nil =>
    refine ⟨[], [], rfl, fun y b ps hy => ?_⟩
    rw [List.nil_append, cutAmp, if_neg (by decide), hy]
    rfl
  | cons c path ih =>
    obtain ⟨init, a, hpath, hcut⟩ := ih
    by_cases hc : c = 38
    · refine ⟨[] :: init, a, ?_, fun y b ps hy => ?_⟩
      · rw [cutAmp, if_pos hc, hpath, List.cons_append]
      · rw [List.cons_append, cutAmp, if_pos hc, hcut y b ps hy, List.cons_append]
    · cases init with
      | nil =>
        refine ⟨[], c :: a, ?_, fun y b ps hy => ?_⟩
        · rw [cutAmp, if_neg hc, hpath]
          rfl
        · rw [List.cons_append, cutAmp, if_neg hc, hcut y b ps hy]
          rfl
      | cons p init =>
        refine ⟨(c :: p) :: init, a, ?_, fun y b ps hy => ?_⟩
        · rw [cutAmp, if_neg hc, hpath]
          rfl
        · rw [List.cons_append, cutAmp, if_neg hc, hcut y b ps hy]
          rfl

theorem mem_cutAmp_eq {s : Bytes} : 61 ∈ s ↔ ∃ p ∈ cutAmp s, 61 ∈ p := by
  induction s with
  | nil => simp [cutAmp]
  | cons b s ih =>
    unfold cutAmp
    split
    · rename_i hb
      simp [hb, ih]
    · obtain ⟨p, ps, hp⟩ := List.exists_cons_of_ne_nil (cutAmp_ne_nil s)
      rw [List.mem_cons, ih, hp]
      simp only [List.mem_cons, exists_eq_or_imp, or_assoc]

/-- A uri with a `?`. -/
theorem exists_query {uri : Bytes} (h : 63 ∈ uri) : uri = rawPath uri ++ 63 :: query uri := by
  obtain ⟨path, y, rfl, hpath⟩ := List.eq_append_cons_of_mem h
  have hall : ∀ b ∈ path, (fun b : UInt8 => decide (b ≠ 63)) b = true := by
    intro b hb
    simpa using fun hb' : b = 63 => hpath (hb' ▸ hb)
  rw [rawPath, query, List.takeWhile_append_of_pos hall, List.dropWhile_append_of_pos hall]
  simp

theorem infix_joinAmp {ps : List Bytes} {p : Bytes} (h : p ∈ ps) : p <:+: joinAmp ps := by
  obtain ⟨init, rest, rfl⟩ := List.append_of_mem h
  cases init with
  | nil => exact ⟨[], rest.flatMap (38 :: ·), by simp [joinAmp]⟩
  | cons q init =>
    exact ⟨q ++ init.flatMap (38 :: ·) ++ [38], rest.flatMap (38 :: ·), by simp [joinAmp]⟩

/-- A path without a `=` is not read. -/
theorem readPieces_path {uri : Bytes} (hmark : 63 ∈ uri) (hpath : 61 ∉ rawPath uri) :
    readPieces [] (cutAmp uri) = readPieces [] (cutAmp (query uri)) := by
  obtain ⟨init, a, hcut, hmarked⟩ := cutAmp_mark (rawPath uri)
  obtain ⟨b, ps, hquery⟩ := List.exists_cons_of_ne_nil (cutAmp_ne_nil (query uri))
  have hnone : ∀ p ∈ cutAmp (rawPath uri), 61 ∉ p := fun p hp hmem =>
    hpath (mem_cutAmp_eq.mpr ⟨p, hp, hmem⟩)
  rw [hcut] at hnone
  have huri := hmarked _ _ _ hquery
  rw [← exists_query hmark] at huri
  obtain ⟨pending, hskip⟩ := readPieces_skip
    (show ∀ p ∈ init, splitParam p = none from fun p hp =>
      splitParam_eq_none.mpr (hnone p (by simp [hp]))) [] ((a ++ 63 :: b) :: ps)
  rw [huri, hskip, readPieces_mark_cons (hnone a (by simp)), hquery]

/-- A path with a `=` adds a pair or changes one. -/
theorem readPieces_path_ne {uri : Bytes} (h : WholeEscapes uri) (hmark : 63 ∈ uri)
    (hpath : 61 ∈ rawPath uri) :
    decodePairs (readPieces [] (cutAmp uri)) ≠
      decodePairs ((cutAmp (query uri)).filterMap splitParam) := by
  obtain ⟨init, a, hcut, hmarked⟩ := cutAmp_mark (rawPath uri)
  obtain ⟨b, ps, hquery⟩ := List.exists_cons_of_ne_nil (cutAmp_ne_nil (query uri))
  have huri := hmarked _ _ _ hquery
  rw [← exists_query hmark] at huri
  intro heq
  have hlen := congrArg List.length heq
  simp only [decodePairs, List.length_map, length_readPieces] at hlen
  rw [huri, hquery, List.filterMap_append, List.length_append] at hlen
  have hb : splitParam (a ++ 63 :: b) = none → splitParam b = none := fun h => by
    rw [splitParam_eq_none] at h ⊢
    exact fun hb => h (by simp [hb])
  by_cases hinit : ∀ p ∈ init, splitParam p = none
  · -- The `=` is in the piece that the `?` divides.
    have ha : 61 ∈ a := by
      obtain ⟨p, hp, hmem⟩ := mem_cutAmp_eq.mp hpath
      rw [hcut, List.mem_append, List.mem_singleton] at hp
      rcases hp with hp | rfl
      · exact absurd hmem (splitParam_eq_none.mp (hinit p hp))
      · exact hmem
    obtain ⟨a₁, a₂, rfl, ha₁⟩ := List.eq_append_cons_of_mem ha
    have hsplit : splitParam (a₁ ++ 61 :: a₂ ++ 63 :: b) = some (a₁, a₂ ++ 63 :: b) := by
      rw [List.append_assoc]
      exact splitParam_append ha₁ _
    rw [List.filterMap_eq_nil_iff.mpr hinit, List.filterMap_cons, List.filterMap_cons,
      hsplit] at hlen
    cases he : splitParam b with
    | none => simp [he] at hlen
    | some e =>
      obtain ⟨hbe, -⟩ := splitParam_eq_some he
      obtain ⟨pending, hskip⟩ := readPieces_skip hinit [] ((a₁ ++ 61 :: a₂ ++ 63 :: b) :: ps)
      rw [huri, hskip, hquery, readPieces, hsplit, List.filterMap_cons, he] at heq
      have hvalue : decodeStr (a₂ ++ 63 :: b) = decodeStr e.2 :=
        congrArg Prod.snd (List.cons.inj heq).1
      have htext : a₂ ++ 63 :: b = (a₂ ++ 63 :: e.1) ++ 61 :: e.2 := by
        conv => lhs; rw [hbe]
        simp
      rw [htext] at hvalue
      refine decodeStr_longer h ?_ rfl hvalue
      have hpiece := @infix_joinAmp (cutAmp uri) (a₁ ++ 61 :: a₂ ++ 63 :: b) (by rw [huri]; simp)
      rw [joinAmp_cutAmp] at hpiece
      refine List.IsInfix.trans ⟨a₁ ++ [61], [], ?_⟩ hpiece
      rw [← htext]
      simp
  · have hpos : 0 < (init.filterMap splitParam).length := by
      rw [List.length_pos_iff]
      exact fun hnil => hinit (List.filterMap_eq_nil_iff.mp hnil)
    rw [List.filterMap_cons, List.filterMap_cons] at hlen
    cases ha : splitParam (a ++ 63 :: b) with
    | none =>
      simp only [ha, hb ha] at hlen
      omega
    | some e =>
      cases hb' : splitParam b <;> simp only [ha, hb', List.length_cons] at hlen <;> omega

theorem formPairs_eq {uri : Bytes} (h : givesUp uri = false) :
    formPairs uri = decodePairs (readPieces [] (cutAmp uri)) := by
  rw [formPairs, formMatches_cut h]
  rfl

theorem returns_parseFormElements (uri : Bytes) :
    (∀ req, outcome (parseFormElements uri) req = .ok ()) ↔ givesUp uri = false := by
  constructor
  · intro h
    have hfresh := h .fresh
    rw [outcome_parseFormElements] at hfresh
    by_contra hgives
    rw [if_pos (by simpa using hgives)] at hfresh
    cases hfresh
  · intro h req
    rw [outcome_parseFormElements, h, if_neg (by simp)]

/-- When the variables of a uri are those of its query. -/
theorem reads_reference (uri : Bytes) :
    (givesUp uri = false ∧ readsPlainly uri = true → ReadsAs uri (referencePairs uri)) ∧
      (WholeEscapes uri → ReadsAs uri (referencePairs uri) →
        givesUp uri = false ∧ readsPlainly uri = true) := by
  by_cases hmark : 63 ∈ uri
  · constructor
    · rintro ⟨hgives, hplain⟩
      simp only [readsPlainly, Bool.and_eq_true, Bool.not_eq_true', List.contains_eq_mem,
        decide_eq_false_iff_not] at hplain
      refine ⟨(returns_parseFormElements uri).mpr hgives, ?_⟩
      rw [formPairs_eq hgives, readPieces_path hmark hplain.1,
        readPieces_of_paramsFirst hplain.2, referencePairs]
    · rintro hwhole ⟨hreturns, hpairs⟩
      have hgives := (returns_parseFormElements uri).mp hreturns
      rw [formPairs_eq hgives, referencePairs] at hpairs
      have hpath : 61 ∉ rawPath uri := fun h => readPieces_path_ne hwhole hmark h hpairs
      rw [readPieces_path hmark hpath] at hpairs
      have hquery : WholeEscapes (joinAmp (cutAmp (query uri))) := by
        rw [joinAmp_cutAmp]
        refine hwhole.within ⟨rawPath uri ++ [63], [], ?_⟩
        conv => rhs; rw [exists_query hmark]
        simp
      exact ⟨hgives, by simp [readsPlainly, hpath, paramsFirst_of_readPieces hquery hpairs]⟩
  · have hall : ∀ b ∈ uri, (fun b : UInt8 => decide (b ≠ 63)) b = true := by
      intro b hb
      simpa using fun hb' : b = 63 => hmark (hb' ▸ hb)
    have hraw : rawPath uri = uri := List.takeWhile_eq_self_iff.mpr hall
    have hquery : query uri = [] := by
      rw [query, List.dropWhile_eq_nil_iff.mpr hall]
      rfl
    have hreference : referencePairs uri = [] := by
      rw [referencePairs, hquery]
      decide
    have hplain : readsPlainly uri = true ↔ 61 ∉ uri := by
      rw [readsPlainly, hraw, hquery]
      simp [cutAmp, paramsFirst, splitParam]
    rw [hplain, hreference]
    constructor
    · rintro ⟨hgives, huri⟩
      refine ⟨(returns_parseFormElements uri).mpr hgives, ?_⟩
      rw [formPairs, formMatches_none huri hgives]
      rfl
    · rintro - ⟨hreturns, hpairs⟩
      have hgives := (returns_parseFormElements uri).mp hreturns
      refine ⟨hgives, fun huri => ?_⟩
      obtain ⟨p, hp, hmem⟩ := mem_cutAmp_eq.mp huri
      have hlen := congrArg List.length hpairs
      rw [formPairs_eq hgives, decodePairs, List.length_map, length_readPieces, List.length_nil,
        List.length_eq_zero_iff, List.filterMap_eq_nil_iff] at hlen
      exact splitParam_eq_none.mp (hlen p hp) hmem

theorem reads_reference_list :
    ReadsAs (lit "/list?start=5&limit=%31&all") [(lit "start", lit "5"), (lit "limit", lit "1")] :=
  (reads_reference (lit "/list?start=5&limit=%31&all")).1
    ⟨givesUp_of_short (by decide), by decide⟩

/-- A parameter without a value changes the name of the next one. -/
theorem valueless_renames : ¬ ∀ uri, ReadsAs uri (referencePairs uri) := by
  intro h
  have hpairs := (h (lit "/list?all&start=5")).pairs
  revert hpairs
  decide

end Ews
