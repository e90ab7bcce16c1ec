import Spinny.Ews.Identity
import Spinny.Ews.RoundTrip

/-!
# The ticket among other cookies

A `Cookie` header joins its cookies with `; `; the parser takes its value apart with the regular
expression of a query string, after it was decoded once as a header and before names and values are
decoded once more.

* `cookieHeader`: the value of the header; `GetsUser`: what a session needs.
* `formMatches_single`: a text without `&` is one element.
* `getsUser_iff`: when the ticket is found; without `%` and `&` only if it is the only cookie.
-/

namespace Ews

open Bytes Boost Sqlite Spinny Proc

/-- The cookies as a browser joins them. -/
def joinCookies : List (Bytes × Bytes) → Bytes
  | [] => []
  | [c] => c.1 ++ 61 :: c.2
  | c :: c' :: cs => c.1 ++ 61 :: c.2 ++ lit "; " ++ joinCookies (c' :: cs)

/-- The value of a `Cookie` header with the ticket between other cookies. -/
def cookieHeader (before : List (Bytes × Bytes)) (ticket : Bytes) (later : List (Bytes × Bytes)) :
    Bytes :=
  joinCookies (before ++ (lit "Ticket", ticket) :: later)

/-- A cookie with a token other than `Ticket` for a name and no semicolon in its value. -/
structure OtherCookie (c : Bytes × Bytes) : Prop where
  name_ne : c.1 ≠ lit "Ticket"
  name_token : c.1 ≠ [] ∧ ∀ b ∈ c.1, isToken (charVal b) = true
  value : 59 ∉ c.2

/-- Neither `%` nor `&`. -/
def plain (s : Bytes) : Bool := s.all fun b => b != 37 && b != 38

/-! ## Texts without `%` and `&` -/

theorem decodeStr_of_plain {s : Bytes} (h : plain s = true) : decodeStr s = s := by
  refine decodeStr_of_no_percent fun hm => ?_
  have := List.all_eq_true.mp h 37 hm
  cases this

theorem plain_of_cons {b : UInt8} {s : Bytes} (h : plain (b :: s) = true) : plain s = true := by
  simp only [plain, List.all_cons, Bool.and_eq_true] at h
  exact h.2

theorem plain_append {s t : Bytes} : plain (s ++ t) = (plain s && plain t) := by
  simp [plain]

/-- A text without `&` is one element of the form regex. -/
theorem formMatches_single {name s : Bytes} (hn : ∀ b ∈ name, nameByte b = true)
    (hs : plain s = true) : formMatches (name ++ 61 :: s) = ([(name, s)], false) := by
  have hvalue : ∀ b ∈ s, valueByte b = true := by
    intro b hb
    have := List.all_eq_true.mp hs b hb
    simp only [Bool.and_eq_true] at this
    exact this.2
  have hfound : formSearch (maxStateCount (name ++ 61 :: s).length) 0 (name ++ 61 :: s) =
      .found name s := by
    have hskip : ∀ b t, name ++ 61 :: s = b :: t → skipMark b t = name ++ 61 :: s := by
      intro b t ht
      have hb : b ≠ 63 := by
        rintro rfl
        cases name with
        | nil => exact absurd (List.cons.inj ht).1 (by decide)
        | cons c name =>
          have hc := hn c (by simp)
          rw [(List.cons.inj ht).1] at hc
          exact absurd hc (by decide)
      rw [skipMark, if_neg hb, ht]
    obtain ⟨b, t, ht⟩ := List.exists_cons_of_ne_nil (show name ++ 61 :: s ≠ [] by simp)
    rw [ht, formSearch, hskip b t ht, List.dropWhile_append_of_pos hn,
      List.takeWhile_append_of_pos hn]
    simp [nameByte]
  rw [formMatches_found hfound, List.dropWhile_eq_nil_iff.mpr hvalue,
    List.takeWhile_eq_self_iff.mpr hvalue]
  rfl

theorem plain_joinCookies {cs : List (Bytes × Bytes)}
    (h : ∀ c ∈ cs, plain c.1 = true ∧ plain c.2 = true) : plain (joinCookies cs) = true := by
  have hone : ∀ c ∈ cs, plain (c.1 ++ 61 :: c.2) = true := by
    intro c hc
    obtain ⟨h₁, h₂⟩ := h c hc
    rw [plain_append, h₁, Bool.true_and]
    exact h₂
  fun_induction joinCookies cs with
  | case1 => rfl
  | case2 c => exact hone c (by simp)
  | case3 c c' cs ih =>
    rw [plain_append, plain_append, hone c (by simp)]
    exact ih (fun d hd => h d (by simp [hd])) fun d hd => hone d (by simp [hd])

/-- The header begins with its first cookie. -/
theorem joinCookies_cons (c : Bytes × Bytes) (cs : List (Bytes × Bytes)) :
    ∃ s, joinCookies (c :: cs) = c.1 ++ 61 :: (c.2 ++ s) ∧ (s = [] ↔ cs = []) ∧
      ∀ b ∈ s.head?, b = 59 := by
  cases cs with
  | nil => exact ⟨[], by simp [joinCookies], by simp, by simp⟩
  | cons c' cs =>
    refine ⟨lit "; " ++ joinCookies (c' :: cs), ?_, ?_, ?_⟩
    · simp [joinCookies]
    · simp [show lit "; " = [59, 32] by decide]
    · simp [show lit "; " = [59, 32] by decide]

/-- A token is a name to the form regex. -/
theorem nameByte_of_token {b : UInt8} (h : isToken (charVal b) = true) : nameByte b = true := by
  revert b
  decide +kernel

variable [Affinity]

/-- The first `Ticket` among the elements that the form regex finds is the ticket `t`, as the
column `ticket` compares it. -/
def FirstTicket (cookies : Bytes) (t : Text) : Prop :=
  givesUp cookies = false ∧
    ∃ x, (valuesOf (lit "Ticket") (formPairs cookies)).head? = some x ∧ x ≠ [] ∧
      nulFree x = true ∧ store x = t.cell

/-- Whenever there is a user with the ticket `t`, the request is completed with such a user. -/
def GetsUser (req : Request) (t : Text) : Prop :=
  ∀ users : Table UserRow, (∃ r ∈ users.rows, r.2.ticket = t) →
    outcome (performFinalDecode (ticketLookup users)) req = .ok () ∧
      ∃ r ∈ users.rows, r.2.ticket = t ∧
        (after (performFinalDecode (ticketLookup users)) req).user = some (User.ofRow r.1 r.2)

omit [Affinity] in
/-- The ticket of a request without a parameter of that name is the first one of its cookies. -/
theorem ticket_of_no_params {req : Request} (hf : req.Fresh)
    (hp : ∀ e ∈ formPairs req.uri ++ formPairs req.body, e.1 ≠ lit "Ticket") :
    req.ticket = (valuesOf (lit "Ticket") (formPairs req.cookies)).head?.getD [] := by
  rw [hf.ticket_eq, tickets_of_no_params hp]

/-- **A request with no `Ticket` but in its cookies** gets the user of a ticket exactly if
`boost::regex` does not give up on it and finds that ticket first. -/
theorem getsUser_iff_firstTicket {req : Request} (hf : req.Fresh)
    (hp : ∀ e ∈ formPairs req.uri ++ formPairs req.body, e.1 ≠ lit "Ticket") (t : Text) :
    GetsUser req t ↔
      givesUp req.uri = false ∧ givesUp req.body = false ∧ FirstTicket req.cookies t := by
  have htick := ticket_of_no_params hf hp
  constructor
  · intro h
    obtain ⟨hok, r, -, -, huser⟩ := h (.single 1 ⟨.empty, .empty, t, 0, 0⟩)
      ⟨(1, ⟨.empty, .empty, t, 0, 0⟩), by simp, rfl⟩
    rw [user_of_completes hf hok] at huser
    rw [decode_ok_iff] at hok
    simp only [DecodeFails, not_or, not_and, Bool.not_eq_true] at hok
    obtain ⟨hu, hb, hc⟩ := hok
    split at huser
    · cases huser
    · rename_i hne
      rw [not_or] at hne
      refine ⟨hu, hb, (hc hne.1).1, req.ticket, ?_, hne.2, ?_⟩
      · cases hv : (valuesOf (lit "Ticket") (formPairs req.cookies)).head? with
        | none => exact absurd (by rw [htick, hv]; rfl) hne.2
        | some x => rw [htick, hv, Option.getD_some]
      · rw [foundUser_eq] at huser
        split at huser
        · rename_i hn
          refine ⟨hn, ?_⟩
          by_contra hstore
          simp [Table.select, Ne.symm hstore] at huser
        · cases huser
  · rintro ⟨hu, hb, hg, x, hx, hne, hn, hstore⟩ users ⟨r, hr, hrt⟩
    have hxt : req.ticket = x := by rw [htick, hx, Option.getD_some]
    have hcne : req.cookies ≠ [] := by
      intro he
      rw [he] at hx
      cases hx
    have hok := completes_of hu hb hg (hxt ▸ hn) users
    refine ⟨hok, ?_⟩
    rw [user_of_completes hf hok, if_neg (by simp [hcne, hxt, hne]), hxt, foundUser_eq, if_pos hn]
    cases hs : users.select fun _ u => u.ticket.cell == store x with
    | nil =>
      have hmem : r ∈ users.select fun _ u => u.ticket.cell == store x :=
        Table.mem_select.mpr ⟨hr, by simp [hrt, hstore]⟩
      rw [hs] at hmem
      cases hmem
    | cons r' rs =>
      have hmem : r' ∈ users.select fun _ u => u.ticket.cell == store x := by simp [hs]
      obtain ⟨hr', ht'⟩ := Table.mem_select.mp hmem
      refine ⟨r', hr', Text.ext ?_, rfl⟩
      rw [hstore] at ht'
      exact eq_of_beq ht'

/-- A ticket as `generate_new_ticket` makes it, of lower-case letters. -/
def Lettered (t : Bytes) : Prop := t ≠ [] ∧ ∀ b ∈ t, 97 ≤ b.toNat ∧ b.toNat ≤ 122

omit [Affinity] in
theorem Lettered.plain {t : Bytes} (h : Lettered t) : plain t = true := by
  refine List.all_eq_true.mpr fun b hb => ?_
  have hb' := h.2 b hb
  have h₁ : b ≠ 37 := by
    rintro rfl
    exact absurd hb'.1 (by decide)
  have h₂ : b ≠ 38 := by
    rintro rfl
    exact absurd hb'.1 (by decide)
  simp [h₁, h₂]

omit [Affinity] in
theorem Lettered.eq_cons {t : Bytes} (h : Lettered t) :
    ∃ b s, t = b :: s ∧ isLower b = true := by
  obtain ⟨b, s, rfl⟩ := List.exists_cons_of_ne_nil h.1
  have hb := h.2 b (by simp)
  have h₁ : (97 : UInt8) ≤ b := UInt8.le_iff_toNat_le.mpr hb.1
  have h₂ : b ≤ (122 : UInt8) := UInt8.le_iff_toNat_le.mpr hb.2
  exact ⟨b, s, rfl, by simp [isLower, h₁, h₂]⟩

/-- No column changes a text that begins with a letter. -/
theorem Lettered.store_append {t : Bytes} (h : Lettered t) (s : Bytes) :
    store (t ++ s) = .text (t ++ s) := by
  obtain ⟨b, t, rfl, hb⟩ := h.eq_cons
  refine store_alpha b (t ++ s) ?_
  rw [isLower] at hb
  rw [isAlpha, hb, Bool.or_true]

/-- A ticket that reads as letters is a text. -/
theorem Lettered.cell_eq {t : Text} (h : Lettered t.val) : t.cell = .text t.val := by
  obtain ⟨b, s, hs, hb⟩ := h.eq_cons
  rw [hs]
  exact Cell.eq_text hs hb

/-- **Cookies without `%` and `&`**: the ticket is found only if it is the only cookie. -/
theorem firstTicket_plain {before later : List (Bytes × Bytes)} {t : Text} (ht : Lettered t.val)
    (hother : ∀ c ∈ before ++ later, OtherCookie c)
    (hplain : ∀ c ∈ before ++ later, plain c.1 = true ∧ plain c.2 = true) :
    FirstTicket (decodeStr (cookieHeader before t.val later)) t ↔ before = [] ∧ later = [] := by
  have hall : plain (cookieHeader before t.val later) = true := by
    refine plain_joinCookies fun c hc => ?_
    rcases List.mem_append.mp hc with hc | hc
    · exact hplain c (by simp [hc])
    · rcases List.mem_cons.mp hc with rfl | hc
      · exact ⟨(by decide : plain (lit "Ticket") = true), ht.plain⟩
      · exact hplain c (by simp [hc])
  rw [decodeStr_of_plain hall]
  cases before with
  | cons c before =>
    obtain ⟨s, hs, -, -⟩ := joinCookies_cons c (before ++ (lit "Ticket", t.val) :: later)
    have hheader : cookieHeader (c :: before) t.val later = c.1 ++ 61 :: (c.2 ++ s) := hs
    have hc := hother c (by simp)
    rw [hheader] at hall ⊢
    rw [plain_append, Bool.and_eq_true] at hall
    have hm := formMatches_single (fun b hb => nameByte_of_token (hc.name_token.2 b hb))
      (plain_of_cons hall.2)
    refine iff_of_false ?_ (by simp)
    rintro ⟨-, x, hx, -⟩
    rw [formPairs, hm] at hx
    simp [valuesOf, decodeStr_of_plain hall.1, hc.name_ne] at hx
  | nil =>
    obtain ⟨s, hs, hnil, hhead⟩ := joinCookies_cons (lit "Ticket", t.val) later
    have hheader : cookieHeader [] t.val later = lit "Ticket" ++ 61 :: (t.val ++ s) := hs
    rw [hheader] at hall ⊢
    rw [plain_append, Bool.and_eq_true] at hall
    have hrest := plain_of_cons hall.2
    have hname : ∀ b ∈ lit "Ticket", nameByte b = true := by decide +kernel
    have hm := formMatches_single hname hrest
    have hvalues : valuesOf (lit "Ticket") (formPairs (lit "Ticket" ++ 61 :: (t.val ++ s))) =
        [t.val ++ s] := by
      rw [formPairs, hm]
      simp [valuesOf, decodeStr_of_plain hall.1, decodeStr_of_plain hrest]
    have htrue : True ∧ later = [] ↔ later = [] := by simp
    rw [eq_self_iff_true, htrue, ← hnil]
    constructor
    · rintro ⟨-, x, hx, -, -, hstore⟩
      rw [hvalues, List.head?_cons, Option.some.injEq] at hx
      rw [← hx, ht.store_append, ht.cell_eq, Cell.text.injEq] at hstore
      exact List.append_right_eq_self.mp hstore
    · rintro rfl
      have hstore : store t.val = t.cell := by
        rw [ht.cell_eq]
        simpa using ht.store_append []
      refine ⟨by rw [givesUp, hm], t.val, ?_, ht.1, t.nulFree_val, hstore⟩
      rw [hvalues, List.append_nil, List.head?_cons]

/-- **The ticket among other cookies**: the user is found exactly if the regular expression of a
query string finds the ticket first in the decoded header; where no cookie has a `%` or a `&`, that
is if there is no other cookie. -/
theorem getsUser_iff {req : Request} (hf : req.Fresh)
    (hp : ∀ e ∈ formPairs req.uri ++ formPairs req.body, e.1 ≠ lit "Ticket") {t : Text}
    (ht : Lettered t.val) {before later : List (Bytes × Bytes)}
    (hother : ∀ c ∈ before ++ later, OtherCookie c)
    (hc : req.cookies = decodeStr (cookieHeader before t.val later)) :
    (GetsUser req t ↔
      givesUp req.uri = false ∧ givesUp req.body = false ∧
        FirstTicket (decodeStr (cookieHeader before t.val later)) t) ∧
    ((∀ c ∈ before ++ later, plain c.1 = true ∧ plain c.2 = true) →
      (GetsUser req t ↔
        givesUp req.uri = false ∧ givesUp req.body = false ∧ before = [] ∧ later = [])) := by
  have hiff := getsUser_iff_firstTicket hf hp t
  rw [hc] at hiff
  refine ⟨hiff, fun hplain => ?_⟩
  rw [hiff, firstTicket_plain ht hother hplain]

/-! ## A session with one cookie, and with two -/

/-- A ticket. -/
def someTicket : @Text integerAffinity :=
  @Text.ofLiteral integerAffinity (lit "abcdefghijklmnopqrstuvwxy") (by decide)

omit [Affinity] in
theorem someTicket_val : @Text.val integerAffinity someTicket = lit "abcdefghijklmnopqrstuvwxy" := by decide

omit [Affinity] in
theorem someTicket_lettered : Lettered (@Text.val integerAffinity someTicket) := by
  rw [someTicket_val]
  exact ⟨by decide, by decide +kernel⟩

/-- A request for `/` with these cookies around the ticket. -/
def sessionRequest (before later : List (Bytes × Bytes)) : Request :=
  cookieRequest (lit "/") (decodeStr (cookieHeader before (@Text.val integerAffinity someTicket) later))

omit [Affinity] in
theorem sessionRequest_params (before later : List (Bytes × Bytes)) :
    ∀ e ∈ formPairs (sessionRequest before later).uri ++
      formPairs (sessionRequest before later).body, e.1 ≠ lit "Ticket" := by
  have h : formPairs (lit "/") ++ formPairs [] = [] := by decide
  change ∀ e ∈ formPairs (lit "/") ++ formPairs [], e.1 ≠ lit "Ticket"
  rw [h]
  simp

omit [Affinity] in
theorem sessionRequest_getsUser :
    @GetsUser integerAffinity (sessionRequest [] []) someTicket :=
  ((@getsUser_iff integerAffinity (sessionRequest [] []) (fresh_cookieRequest _ _)
    (sessionRequest_params [] []) someTicket someTicket_lettered [] [] (by simp)
    (cookies_cookieRequest _ _)).2 (by simp)).mpr ⟨by decide, by decide, rfl, rfl⟩

omit [Affinity] in
/-- A cookie before the ticket hides it. -/
theorem cookie_hides_ticket : ¬ ∀ (req : Request) (t : @Text integerAffinity)
    (before later : List (Bytes × Bytes)), req.Fresh →
    (∀ e ∈ formPairs req.uri ++ formPairs req.body, e.1 ≠ lit "Ticket") →
    Lettered (@Text.val integerAffinity t) → (∀ c ∈ before ++ later, OtherCookie c) →
    req.cookies = decodeStr (cookieHeader before (@Text.val integerAffinity t) later) →
    @GetsUser integerAffinity req t := by
  intro h
  have hother : ∀ c ∈ [(lit "lang", lit "en")] ++ ([] : List (Bytes × Bytes)), OtherCookie c := by
    intro c hc
    obtain rfl : c = (lit "lang", lit "en") := by simpa using hc
    exact ⟨by decide, ⟨by decide, by decide +kernel⟩, by decide⟩
  have hplain : ∀ c ∈ [(lit "lang", lit "en")] ++ ([] : List (Bytes × Bytes)),
      plain c.1 = true ∧ plain c.2 = true := by
    intro c hc
    obtain rfl : c = (lit "lang", lit "en") := by simpa using hc
    exact ⟨by decide, by decide⟩
  have hc := cookies_cookieRequest (lit "/")
    (decodeStr (cookieHeader [(lit "lang", lit "en")] (@Text.val integerAffinity someTicket) []))
  have hgets := h (sessionRequest [(lit "lang", lit "en")] []) someTicket
    [(lit "lang", lit "en")] [] (fresh_cookieRequest _ _) (sessionRequest_params _ _)
    someTicket_lettered hother hc
  have hfirst := ((@getsUser_iff_firstTicket integerAffinity
    (sessionRequest [(lit "lang", lit "en")] []) (fresh_cookieRequest _ _)
    (sessionRequest_params _ _) someTicket).mp hgets).2.2
  rw [sessionRequest, hc, @firstTicket_plain integerAffinity _ _ _ someTicket_lettered hother
    hplain] at hfirst
  exact absurd hfirst.1 (by simp)

end Ews
