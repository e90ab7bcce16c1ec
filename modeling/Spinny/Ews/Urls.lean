import Spinny.Ews.Decode
import Spinny.Sqlite.Values

/-!
# The url of a request and its elements

`perform_final_decode` decodes the whole uri, cuts the result at its first `?` and splits what is
left at the runs of `/`.

* `Encodes`: percent-encoded texts; `decodeStr_encodes`: they decode to what they encode.
* `url_iff`: when the url is the decoded path; an escape of `?` ends it early.
* `Cuts`, `cuts_iff`: a text cut at its runs of `/`.
* `elements_iff`: when the count and the fields `u1` to `u5` are right; a `char` holds the count.
-/

namespace Ews

open Bytes Boost Spinny Proc

variable {withTicket : TicketLookup}

/-! ## Escapes -/

/-- A percent-encoded text: the bytes of `raw` may stand for themselves, and any byte may be
written as `%` and two hexadecimal digits. -/
inductive Encodes (raw : UInt8 → Bool) : Bytes → Bytes → Prop where
  | nil : Encodes raw [] []
  | plain {b : UInt8} {s e : Bytes} : raw b = true → Encodes raw s e →
      Encodes raw (b :: s) (b :: e)
  | escape {b x y : UInt8} {v v' : Int} {s e : Bytes} : hexVal x = some v → hexVal y = some v' →
      16 * v + v' = b.toNat → Encodes raw s e → Encodes raw (b :: s) (37 :: x :: y :: e)

theorem hexGet_digits {x y : UInt8} {v v' : Int} (hx : hexVal x = some v) (hy : hexVal y = some v') :
    hexGet x y = some (16 * v + v') := by
  have hcases : ∀ z : UInt8, (hexVal z).isSome = true →
      isSpace z = false ∧ z ≠ 43 ∧ z ≠ 45 ∧ z ≠ 120 ∧ z ≠ 88 := by
    decide +kernel
  obtain ⟨h₁, h₂, h₃, -, -⟩ := hcases x (by rw [hx]; rfl)
  obtain ⟨-, -, -, h₄, h₅⟩ := hcases y (by rw [hy]; rfl)
  simp [hexGet, h₁, h₂, h₃, h₄, h₅, hx, hy]

theorem decodeStr_cons {b : UInt8} (h : b ≠ 37) (s : Bytes) :
    decodeStr (b :: s) = b :: decodeStr s := by
  conv => lhs; unfold decodeStr
  split
  · simp_all
  · simp_all
  · simp_all
  · rename_i heq
    cases heq
    rfl

section

variable {raw : UInt8 → Bool} {s e : Bytes}

/-- What a percent-encoded text decodes to, with a text behind it. -/
theorem decodeStr_encodes (hraw : raw 37 = false) (h : Encodes raw s e) (rest : Bytes) :
    decodeStr (e ++ rest) = s ++ decodeStr rest := by
  induction h with
  | nil => rfl
  | plain hb _ ih =>
    rename_i b _ _ _
    have hne : b ≠ 37 := by
      rintro rfl
      rw [hraw] at hb
      cases hb
    rw [List.cons_append, decodeStr_cons hne, ih, List.cons_append]
  | escape hx hy hv _ ih =>
    rename_i b x y v v' _ _ _
    have hpair : decodePair x y = [b] := by
      have hmod : ((b.toNat : Int) % 256).toNat = b.toNat := by
        have := b.toNat_lt
        omega
      rw [decodePair, hexGet_digits hx hy, hv]
      simp only [hmod, UInt8.ofNat_toNat]
    simp only [List.cons_append]
    rw [decodeStr, hpair, ih, List.singleton_append]

/-- A byte that must be escaped and is part of no escape does not stand in an encoded text. -/
theorem Encodes.not_mem (h : Encodes raw s e) {c : UInt8} (hc : c ≠ 37) (hraw : raw c = false)
    (hd : hexVal c = none) : c ∉ e := by
  induction h with
  | nil => exact List.not_mem_nil
  | plain hb _ ih =>
    rw [List.mem_cons, not_or]
    refine ⟨?_, ih⟩
    rintro rfl
    rw [hb] at hraw
    cases hraw
  | escape hx hy _ _ ih =>
    simp only [List.mem_cons, not_or]
    refine ⟨hc, ?_, ?_, ih⟩
    · rintro rfl
      rw [hd] at hx
      cases hx
    · rintro rfl
      rw [hd] at hy
      cases hy

end

/-! ## The url -/

/-- The uri before its first `?`. -/
def rawPath (uri : Bytes) : Bytes := uri.takeWhile (· ≠ 63)

/-- Nothing comes of a text before its first `?`. -/
def endsAtMark (s : Bytes) : Bool := s.isEmpty || s.head? == some 63

/-- No escape of the path denotes `?`, and none reaches over the first raw `?`, save where nothing
comes of it and nothing comes of what is behind it up to the next `?`. -/
def pathKept : Bytes → Bool
  | [] => true
  | 37 :: a :: b :: s =>
    if a = 63 ∨ b = 63 then decodePair a b == [] && endsAtMark (decodeStr s)
    else decodePair a b != [63] && pathKept s
  | 37 :: _ => true
  | b :: s => b == 63 || pathKept s

/-- The fields that the final decode fills from the url. -/
def Request.urlFields (req : Request) : Bytes × Int × Bytes × Bytes × Bytes × Bytes × Bytes :=
  (req.url, req.numUrlElements, req.u1, req.u2, req.u3, req.u4, req.u5)

/-- The part of the final decode between the url and its elements. -/
def decodeForms (withTicket : TicketLookup) : Proc Request Raised Unit := do
  parseFormElements (← get).uri
  parseFormElements (← get).body
  decodeCookies withTicket (← get).cookies

theorem performFinalDecode_eq : performFinalDecode withTicket = (do
    modify fun req => { req with url := (decodeStr req.uri).takeWhile (· ≠ 63) }
    decodeForms withTicket
    modify fun req => req.setElements (splitSlash req.url)) := by
  simp only [performFinalDecode, decodeForms, bind_assoc]

theorem parseFormElements_keepsUrl (str : Bytes) :
    Keeps (Same Request.urlFields) (parseFormElements str) := by
  intro req
  rw [after_parseFormElements]
  rfl

theorem decodeForms_keepsUrl : Keeps (Same Request.urlFields) (decodeForms withTicket) := by
  refine Keeps.get.bind fun _ => (parseFormElements_keepsUrl _).bind fun _ => ?_
  refine Keeps.get.bind fun _ => (parseFormElements_keepsUrl _).bind fun _ => ?_
  refine Keeps.get.bind fun _ => ?_
  unfold decodeCookies
  split
  · exact Keeps.pure _
  · refine (parseFormElements_keepsUrl _).bind fun _ => Keeps.get.bind fun _ => ?_
    dsimp only
    split
    · intro req
      unfold lookUpTicket
      split <;> rfl
    · exact Keeps.pure _

/-- The final decode sets the url whether it returns or not. -/
theorem url_decode (req : Request) : (after (performFinalDecode withTicket) req).url =
    (decodeStr req.uri).takeWhile (· ≠ 63) := by
  have hkeep : ∀ req : Request, (after (decodeForms withTicket >>= fun _ =>
      modify fun req => req.setElements (splitSlash req.url)) req).url = req.url := by
    intro req
    have hforms := congrArg Prod.fst (@decodeForms_keepsUrl withTicket req)
    rw [after_bind]
    split
    · exact hforms
    · exact hforms
  rw [performFinalDecode_eq, after_bind_ok (outcome_modify _ _), after_modify, hkeep]

theorem endsAtMark_iff (s : Bytes) : endsAtMark s = true ↔ s.takeWhile (· ≠ 63) = [] := by
  cases s with
  | nil => simp [endsAtMark]
  | cons b s =>
    by_cases hb : b = 63 <;> simp [endsAtMark, hb]

/-- What a `%` and two bytes come to is no byte or one. -/
theorem decodePair_cases (a b : UInt8) :
    decodePair a b = [] ∨ ∃ c, decodePair a b = [c] := by
  unfold decodePair
  cases hexGet a b with
  | none => exact .inl rfl
  | some v => exact .inr ⟨_, rfl⟩

/-- An escape with a raw `?` in it does not denote `?`. -/
theorem decodePair_mark {a b : UInt8} (h : a = 63 ∨ b = 63) : decodePair a b ≠ [63] := by
  rcases h with rfl | rfl
  · have : ∀ b, decodePair 63 b ≠ [63] := by decide +kernel
    exact this b
  · have : ∀ a, decodePair a 63 ≠ [63] := by decide +kernel
    exact this a

theorem takeWhile_pair {p : List UInt8} {s : Bytes} (hp : p = [] ∨ ∃ c, p = [c]) (h : p ≠ [63]) :
    (p ++ s).takeWhile (· ≠ 63) = p ++ s.takeWhile (· ≠ 63) := by
  rcases hp with rfl | ⟨c, rfl⟩
  · rfl
  · have hc : c ≠ 63 := fun hc => h (by rw [hc])
    simp [hc]

/-- When decoding first and cutting then is cutting first and decoding then. -/
theorem pathKept_iff (uri : Bytes) :
    (decodeStr uri).takeWhile (· ≠ 63) = decodeStr (rawPath uri) ↔ pathKept uri = true := by
  fun_induction pathKept uri with
  | case1 => simp [decodeStr, rawPath]
  | case2 a b s h =>
    -- The escape ends behind the raw `?`, and nothing of it is left of the path.
    have hpath : decodeStr (rawPath (37 :: a :: b :: s)) = [] := by
      by_cases ha : a = 63
      · simp [rawPath, ha, decodeStr]
      · simp [rawPath, ha, h.resolve_left ha, decodeStr]
    rw [hpath, decodeStr, takeWhile_pair (decodePair_cases a b) (decodePair_mark h),
      List.append_eq_nil_iff, Bool.and_eq_true, beq_iff_eq, endsAtMark_iff]
  | case3 a b s h ih =>
    obtain ⟨ha, hb⟩ := not_or.mp h
    have hpath : decodeStr (rawPath (37 :: a :: b :: s)) =
        decodePair a b ++ decodeStr (rawPath s) := by
      simp [rawPath, ha, hb, decodeStr]
    rw [hpath, decodeStr, Bool.and_eq_true, bne_iff_ne]
    by_cases hpair : decodePair a b = [63]
    · simp [hpair]
    · rw [takeWhile_pair (decodePair_cases a b) hpair, List.append_right_inj, ih]
      simp [hpair]
  | case4 s h =>
    have hshort : s = [] ∨ ∃ c, s = [c] := by
      rcases s with _ | ⟨a, _ | ⟨b, s⟩⟩
      · exact .inl rfl
      · exact .inr ⟨a, rfl⟩
      · exact absurd rfl (h a b s)
    rcases hshort with rfl | ⟨c, rfl⟩
    · simp [rawPath, decodeStr]
    · by_cases hc : c = 63 <;> simp [rawPath, decodeStr, hc]
  | case5 b s _ h ih =>
    have hb : b ≠ 37 := h
    rw [decodeStr_cons hb]
    by_cases hmark : b = 63
    · simp [rawPath, decodeStr, hmark]
    · have hpath : rawPath (b :: s) = b :: rawPath s := by simp [rawPath, hmark]
      rw [hpath, decodeStr_cons hb, List.takeWhile_cons_of_pos (by simpa using hmark),
        List.cons_eq_cons, and_iff_right rfl, ih]
      simp [hmark]

theorem takeWhile_append_mark (s t : Bytes) :
    (s ++ 63 :: t).takeWhile (· ≠ 63) = s.takeWhile (· ≠ 63) := by
  rw [List.takeWhile_append]
  split
  · rename_i h
    rw [List.takeWhile_cons_of_neg (by simp), List.append_nil,
      (List.takeWhile_prefix (l := s) (· ≠ 63)).eq_of_length h]
  · rfl

/-- What a path may hold as it is. -/
def isPathByte (b : UInt8) : Bool := b != 37 && b != 63

/-- When the url is the decoded path of the uri, and which paths come through an encoding. -/
theorem url_iff (req : Request) :
    ((after (performFinalDecode withTicket) req).url = decodeStr (rawPath req.uri) ↔
      pathKept req.uri = true) ∧
    ∀ path e query, Encodes isPathByte path e → req.uri = e ∨ req.uri = e ++ 63 :: query →
      ((after (performFinalDecode withTicket) req).url = path ↔ 63 ∉ path) := by
  refine ⟨?_, fun path e query he huri => ?_⟩
  · rw [url_decode, pathKept_iff]
  · have hurl : (decodeStr req.uri).takeWhile (· ≠ 63) = path.takeWhile (· ≠ 63) := by
      rcases huri with huri | huri
      · have h := decodeStr_encodes rfl he []
        rw [List.append_nil, decodeStr, List.append_nil] at h
        rw [huri, h]
      · rw [huri, decodeStr_encodes rfl he, decodeStr_cons (by decide), takeWhile_append_mark]
    rw [url_decode, hurl, List.takeWhile_eq_self_iff]
    simp only [ne_eq, decide_not, Bool.not_eq_true', decide_eq_false_iff_not]
    exact ⟨fun h hm => h 63 hm rfl, fun h b hb hb' => h (hb' ▸ hb)⟩

/-- An escaped `?` ends the url. -/
theorem url_cut : ¬ ∀ req : Request,
    (after (performFinalDecode fun _ => .error .notFound) req).url =
      decodeStr (rawPath req.uri) := by
  intro h
  have hreq := h { Request.fresh with uri := lit "/song/a%3Fb" }
  rw [url_decode] at hreq
  revert hreq
  decide

/-! ## The elements -/

/-- A text cut at its runs of `/`. -/
inductive Cuts : Bytes → List Bytes → Prop where
  | last {e : Bytes} : 47 ∉ e → Cuts e [e]
  | cons {e s : Bytes} {n : Nat} {es : List Bytes} : 47 ∉ e → 47 ∉ s.head? → Cuts s es →
      Cuts (e ++ List.replicate (n + 1) 47 ++ s) (e :: es)

theorem splitFrom_append {cur e : Bytes} (he : 47 ∉ e) (rest : Bytes) :
    splitFrom false cur (e ++ rest) = splitFrom false (cur ++ e) rest := by
  induction e generalizing cur with
  | nil => rw [List.nil_append, List.append_nil]
  | cons b e ih =>
    obtain ⟨hb, he⟩ := not_or.mp fun h => he (List.mem_cons.mpr h)
    rw [List.cons_append, splitFrom, if_neg (Ne.symm hb), ih he, List.append_assoc,
      List.singleton_append]

theorem splitFrom_delims (n : Nat) {s : Bytes} (hs : 47 ∉ s.head?) :
    splitFrom true [] (List.replicate n 47 ++ s) = splitSlash s := by
  induction n with
  | zero =>
    cases s with
    | nil => rfl
    | cons b s =>
      have hb : b ≠ 47 := by simpa [eq_comm] using hs
      simp only [splitSlash, List.replicate_zero, List.nil_append, splitFrom, if_neg hb]
  | succ n ih => rw [List.replicate_succ, List.cons_append, splitFrom, if_pos rfl, if_pos rfl, ih]

theorem Cuts.splitSlash_eq {s : Bytes} {es : List Bytes} (h : Cuts s es) : splitSlash s = es := by
  induction h with
  | last he =>
    have h := @splitFrom_append [] _ he []
    rw [List.append_nil] at h
    rw [splitSlash, h]
    rfl
  | cons he hs _ ih =>
    rw [splitSlash, List.append_assoc, splitFrom_append he, List.replicate_succ,
      List.cons_append, splitFrom, if_pos rfl, if_neg (by decide), splitFrom_delims _ hs, ih]
    rfl

theorem exists_cuts (s : Bytes) : ∃ es, Cuts s es := by
  induction s with
  | nil => exact ⟨[[]], .last List.not_mem_nil⟩
  | cons b s ih =>
    obtain ⟨es, h⟩ := ih
    by_cases hb : b = 47
    · subst hb
      by_cases hs : 47 ∈ s.head?
      · -- The run goes on: `s` begins with its other bytes.
        cases h with
        | last he => exact absurd (List.mem_of_mem_head? hs) he
        | cons he hs' h =>
          rename_i e s n es
          cases e with
          | nil => exact ⟨[] :: es, .cons (n := n + 1) he hs' h⟩
          | cons c e =>
            have hc : c = 47 := by simpa using hs
            exact absurd (by simp [hc]) he
      · exact ⟨[] :: es, .cons (e := []) (n := 0) List.not_mem_nil hs h⟩
    · cases h with
      | last he => exact ⟨[b :: s], .last (by simp [he, Ne.symm hb])⟩
      | cons he hs h =>
        rename_i e s n es
        exact ⟨(b :: e) :: es, .cons (e := b :: e) (n := n) (by simp [he, Ne.symm hb]) hs h⟩

/-- `boost::split` cuts at the runs of `/`. -/
theorem cuts_iff {s : Bytes} {es : List Bytes} : Cuts s es ↔ splitSlash s = es := by
  refine ⟨Cuts.splitSlash_eq, ?_⟩
  rintro rfl
  obtain ⟨es, h⟩ := exists_cuts s
  exact h.splitSlash_eq ▸ h

/-- A request without elements, as `request::request` makes it. -/
structure Request.Unsplit (req : Request) : Prop where
  u1 : req.u1 = []
  u2 : req.u2 = []
  u3 : req.u3 = []
  u4 : req.u4 = []
  u5 : req.u5 = []

theorem consume_unsplit {p : Parser} (h : p.req.Unsplit) (b : UInt8) :
    (consume p b).1.req.Unsplit := by
  obtain ⟨st, req⟩ := p
  cases st
  case expectingNewline3 =>
    simp only [consume, finishHeaders]
    repeat' split
    all_goals exact ⟨h.1, h.2, h.3, h.4, h.5⟩
  all_goals
    simp only [consume]
    split_ifs <;> exact ⟨h.1, h.2, h.3, h.4, h.5⟩

/-- A request is without elements until the final decode of it. -/
theorem unsplit_of_goes {bytes : List UInt8} {p : Parser}
    (h : (requestParser withTicket).Goes .fresh bytes p) (b : UInt8) :
    (consume p b).1.req.Unsplit := by
  refine consume_unsplit (h.inv (I := fun p => p.req.Unsplit) (fun s a t hs hstep => ?_)
    ⟨rfl, rfl, rfl, rfl, rfl⟩) b
  have := consume_unsplit hs a
  rwa [consume_of_go hstep] at this

/-- The field `u1` to `u5` of a number. -/
def Request.u (req : Request) : Nat → Bytes
  | 1 => req.u1
  | 2 => req.u2
  | 3 => req.u3
  | 4 => req.u4
  | 5 => req.u5
  | _ => []

/-- What a completed final decode leaves of the url. -/
theorem urlFields_decode {req : Request}
    (h : outcome (performFinalDecode withTicket) req = .ok ()) :
    ∃ forms : Request, forms.urlFields =
        { req with url := (decodeStr req.uri).takeWhile (· ≠ 63) }.urlFields ∧
      after (performFinalDecode withTicket) req = forms.setElements (splitSlash forms.url) := by
  rw [performFinalDecode_eq] at h ⊢
  rw [outcome_bind_ok (outcome_modify _ _), after_modify] at h
  rw [after_bind_ok (outcome_modify _ _), after_modify]
  obtain ⟨_, hforms, -⟩ := bind_eq_ok.mp h
  rw [after_bind_ok hforms, after_modify]
  exact ⟨_, decodeForms_keepsUrl _, rfl⟩

/-- The count goes through a `char`. -/
theorem urlElements_eq (k : Nat) : urlElements (k + 1) = min (toChar k) 5 := by
  have h : toChar (toChar ((k + 1 : Nat) : Int) - 1) = toChar k := by
    unfold toChar
    omega
  simp only [urlElements, h]
  split <;> omega

theorem u_setElements {req : Request} (h : req.Unsplit) (es : List Bytes) {i : Nat} (hi : 1 ≤ i)
    (hi' : i ≤ 5) : (req.setElements es).u i =
      if (i : Int) ≤ urlElements es.length then es.getD i [] else [] := by
  obtain rfl | rfl | rfl | rfl | rfl : i = 1 ∨ i = 2 ∨ i = 3 ∨ i = 4 ∨ i = 5 := by omega
  · simp [Request.setElements, Request.u, h.u1]
  · simp [Request.setElements, Request.u, h.u2]
  · simp [Request.setElements, Request.u, h.u3]
  · simp [Request.setElements, Request.u, h.u4]
  · simp [Request.setElements, Request.u, h.u5]

/-- The count and the fields are those of the elements behind the first. -/
structure Request.HasElements (req : Request) (k : Nat) (es : List Bytes) : Prop where
  count : req.numUrlElements = min k 5
  taken : ∀ i, 1 ≤ i → i ≤ min k 5 → es[i]? = some (req.u i)
  empty : ∀ i, min k 5 < i → req.u i = []

/-- When the count and the fields of a completed request are those of its url. -/
theorem elements_iff {req : Request} (hreq : req.Unsplit)
    (hok : outcome (performFinalDecode withTicket) req = .ok ()) {k : Nat} {es : List Bytes}
    (hcuts : Cuts (after (performFinalDecode withTicket) req).url es) (hk : es.length = k + 1) :
    (after (performFinalDecode withTicket) req).HasElements k es ↔
      k < 5 ∨ 5 ≤ k % 256 ∧ k % 256 < 128 := by
  obtain ⟨forms, hfields, hafter⟩ := urlFields_decode hok
  simp only [Request.urlFields, Prod.mk.injEq] at hfields
  obtain ⟨-, -, h₁, h₂, h₃, h₄, h₅⟩ := hfields
  have hforms : forms.Unsplit := ⟨h₁.trans hreq.u1, h₂.trans hreq.u2, h₃.trans hreq.u3,
    h₄.trans hreq.u4, h₅.trans hreq.u5⟩
  rw [hafter] at hcuts ⊢
  have hes : splitSlash forms.url = es := Cuts.splitSlash_eq hcuts
  rw [hes]
  have hcount : (forms.setElements es).numUrlElements = min (toChar k) 5 := by
    rw [Request.setElements, hk, urlElements_eq]
  have hn : urlElements es.length = min (toChar k) 5 := by rw [hk, urlElements_eq]
  have hchar : toChar (k : Int) = ((k % 256 + 128) % 256 : Nat) - 128 := by
    unfold toChar
    omega
  constructor
  · intro h
    have := hcount.symm.trans h.count
    omega
  · intro h
    have hmin : min (toChar (k : Int)) 5 = min k 5 := by omega
    refine ⟨hcount.trans hmin, fun i hi hi' => ?_, fun i hi => ?_⟩
    · rw [u_setElements hforms es hi (by omega), hn, hmin, if_pos (by omega),
        List.getD_eq_getElem?_getD, List.getElem?_eq_getElem (by omega)]
      rfl
    · by_cases hi' : 1 ≤ i ∧ i ≤ 5
      · rw [u_setElements hforms es hi'.1 hi'.2, hn, hmin, if_neg (by omega)]
      · obtain rfl | ⟨j, rfl⟩ : i = 0 ∨ ∃ j, i = j + 6 := by
          rcases Nat.eq_zero_or_pos i with h | h
          · exact .inl h
          · exact .inr ⟨i - 6, by omega⟩
        · rfl
        · rfl

/-- Lookups that find nobody. -/
def noTickets : TicketLookup := fun _ => .error .notFound

/-- A request for an uri. -/
def requestFor (uri : Bytes) : Request := { Request.fresh with uri }

theorem unsplit_requestFor (uri : Bytes) : (requestFor uri).Unsplit := ⟨rfl, rfl, rfl, rfl, rfl⟩

theorem requestFor_ok {uri : Bytes} (h : uri.length ≤ 1000) :
    outcome (performFinalDecode noTickets) (requestFor uri) = .ok () := by
  rw [decode_ok_iff]
  rintro (hu | hb | ⟨hc, -⟩)
  · rw [requestFor, givesUp_of_short h] at hu
    cases hu
  · cases hb
  · exact hc rfl

theorem elements_song : (after (performFinalDecode noTickets)
    (requestFor (lit "/song/dl/x?a=b"))).HasElements 3 [[], lit "song", lit "dl", lit "x"] :=
  (elements_iff (unsplit_requestFor _) (requestFor_ok (by decide)) (by
    rw [url_decode]
    exact cuts_iff.mpr (by decide)) rfl).mpr (by decide)

/-- 128 elements are none. -/
theorem elements_lost : ¬ ∀ (req : Request), req.Unsplit →
    outcome (performFinalDecode noTickets) req = .ok () → ∀ k es,
    Cuts (after (performFinalDecode noTickets) req).url es → es.length = k + 1 →
      (after (performFinalDecode noTickets) req).HasElements k es := by
  intro h
  obtain ⟨uri, huri⟩ : ∃ uri, uri = (List.replicate 128 (lit "/a")).flatten := ⟨_, rfl⟩
  have hlen : uri.length ≤ 1000 := by
    rw [huri]
    decide +kernel
  have hdecode : (decodeStr uri).takeWhile (· ≠ 63) = uri := by
    rw [huri]
    decide +kernel
  have hsplit : splitSlash uri = [] :: List.replicate 128 (lit "a") := by
    rw [huri]
    decide +kernel
  have hok := requestFor_ok hlen
  have hurl : (after (performFinalDecode noTickets) (requestFor uri)).url = uri :=
    (url_decode _).trans hdecode
  obtain ⟨hcount, -, -⟩ := h _ (unsplit_requestFor uri) hok 128 _
    (cuts_iff.mpr (hurl.symm ▸ hsplit)) (by simp)
  obtain ⟨forms, hfields, hafter⟩ := urlFields_decode hok
  have hforms : forms.url = uri := (congrArg Prod.fst hfields).trans hdecode
  rw [hafter, hforms, hsplit, Request.setElements, List.length_cons, List.length_replicate,
    urlElements_eq] at hcount
  change min (toChar ((128 : Nat) : Int)) 5 = ((min 128 5 : Nat) : Int) at hcount
  exact absurd hcount (by decide)

end Ews
