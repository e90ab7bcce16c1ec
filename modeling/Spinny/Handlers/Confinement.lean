import Spinny.Ews.Urls
import Spinny.Handlers.Streams

/-!
# The files that `Files::handle` opens

The test for `..` is on the decoded url; what is opened is `doc_root / request_path`, with
`index.html` added to a directory.

* `serving`: files by the path that is opened.
* `Confines`: the handler opens a path that is `doc_root` with names below it, or it raises.
* `confines_iff`: it does unless the decoded url passes the test with an embedded NUL.
-/

namespace Handlers.Files

open Bytes Boost Spinny Sqlite Ews Proc

variable [Affinity] {withTicket : TicketLookup}

/-- Files are opened by their paths: `file` says what the file of a path reads as, and `root` is
the path `doc_root`. -/
def serving (root : Bytes) (file : Bytes → Option Bytes) (env : Env) : Env :=
  { env with docFile := fun path => (Path.slash root path).bind file }

/-- The handler opens the file of the path `q`, and no other. -/
structure Opens (root : Bytes) (file : Bytes → Option Bytes) (env : Env) (req : Request)
    (w : World) (q : Bytes) : Prop where
  only : ∀ file', file' q = file q →
    handle (serving root file' env) req = handle (serving root file env) req
  missing : file q = none →
    outcome (handle (serving root file env) req) w = .error (.exn (.notFoundError req.url)) ∧
      after (handle (serving root file env) req) w = w
  found : ∀ data, file q = some data →
    outcome (handle (serving root file env) req) w = .ok .stop ∧
      (after (handle (serving root file env) req) w).rep.content = w.rep.content ++ data

/-- The handler raises whatever the files are, and leaves the world as it is. -/
structure Refuses (root : Bytes) (env : Env) (req : Request) (w : World) (e : Exn) : Prop where
  raises : ∀ file, outcome (handle (serving root file env) req) w = .error (.exn e)
  leaves : ∀ file, after (handle (serving root file env) req) w = w

/-- The handler opens a path that is `doc_root` with names below it, or it raises and opens none. -/
def Confines (root : Bytes) (file : Bytes → Option Bytes) (env : Env) (req : Request)
    (w : World) : Prop :=
  (∃ q, Path.Below root q ∧ Opens root file env req w q) ∨ ∃ e, Refuses root env req w e

/-- The handler turns the request away by its own test. -/
abbrev TurnedAway (url : Bytes) : Prop := url.head? ≠ some 47 ∨ hasDotDot url = true

omit [Affinity] in
theorem hasDotDot_iff (path : Bytes) : hasDotDot path = true ↔ Path.TwoDots path := by
  simp only [hasDotDot, List.any_eq_true, List.mem_tails, List.isPrefixOf_iff_prefix]
  constructor
  · rintro ⟨t, hsuffix, hpre⟩
    exact hpre.isInfix.trans hsuffix.isInfix
  · rintro ⟨s, t, rfl⟩
    exact ⟨lit ".." ++ t, ⟨s, by simp [lit]⟩, List.prefix_append _ _⟩

omit [Affinity] in
theorem withIndex_not_twoDots {path : Bytes} (h : ¬ Path.TwoDots path) :
    ¬ Path.TwoDots (withIndex path) := by
  unfold withIndex
  split_ifs with hdir
  · exact Path.not_twoDots_joined (.inr (.inr (.inl hdir))) h (by decide)
  · exact h

omit [Affinity] in
theorem zero_mem_withIndex {path : Bytes} : 0 ∈ withIndex path ↔ 0 ∈ path := by
  unfold withIndex
  split_ifs
  · rw [List.mem_append, or_iff_left (by decide)]
  · rfl

theorem handle_refuses {root : Bytes} {env : Env} {req : Request} {w : World}
    (h : TurnedAway req.url) :
    Refuses root env req w (.error (lit "Illegal (for us) character seq .. in request")) := by
  constructor
  · intro file
    rw [handle, if_pos h]
    rfl
  · intro file
    rw [handle, if_pos h]
    rfl

/-- What the handler comes to with a path. -/
theorem handle_opens {root : Bytes} {file : Bytes → Option Bytes} {env : Env} {req : Request}
    {w : World} {p q : Bytes} (h : ¬ TurnedAway req.url)
    (hp : Path.toPath (withIndex req.url) = some p) (hq : Path.slash root p = some q) :
    Opens root file env req w q := by
  have hfile : ∀ file, (serving root file env).docFile p = file q := fun file => by
    change (Path.slash root p).bind file = file q
    rw [hq, Option.bind_some]
  have hsend : ∀ file,
      handle (serving root file env) req = (send (serving root file env) req p).run := by
    intro file
    rw [handle, if_neg h, hp]
    rfl
  constructor
  · intro file' hsame
    rw [hsend, hsend]
    simp only [send, hfile, hsame]
  · intro hnone
    rw [hsend, send, hfile, hnone]
    exact ⟨rfl, rfl⟩
  · intro data hdata
    rw [hsend, send, hfile, hdata]
    exact ⟨rfl, rfl⟩

/-- The assertion ends the program: no file is opened, and nothing is raised. -/
theorem handle_aborts {env : Env} {req : Request} (h : ¬ TurnedAway req.url)
    (hp : Path.toPath (withIndex req.url) = none) (w : World) :
    outcome (handle env req) w = .error .aborts := by
  rw [handle, if_neg h, hp]
  rfl

/-- For every uri the handler opens a path that is `doc_root` with names below it, or raises, if and
only if the decoded url is turned away or holds no NUL. -/
theorem confines_iff {dir root : Bytes} (hroot : Path.toPath dir = some root)
    (file : Bytes → Option Bytes) (env : Env) (raw : Request) (w : World) :
    let req := after (performFinalDecode withTicket) raw
    Confines root file env req w ↔ TurnedAway req.url ∨ 0 ∉ req.url := by
  intro req
  by_cases haway : TurnedAway req.url
  · exact iff_of_true (.inr ⟨_, handle_refuses haway⟩) (.inl haway)
  · rw [or_iff_right haway]
    constructor
    · intro hconfines hzero
      have haborts : outcome (handle (serving root file env) req) w = .error .aborts :=
        handle_aborts haway (Path.toPath_eq_none.mpr (zero_mem_withIndex.mpr hzero)) w
      obtain ⟨q, -, hopens⟩ | ⟨e, hrefuses⟩ := hconfines
      · cases hfile : file q with
        | none => cases haborts.symm.trans (hopens.missing hfile).1
        | some data => cases haborts.symm.trans (hopens.found data hfile).1
      · cases haborts.symm.trans (hrefuses.raises file)
    · intro hzero
      have hplain : ¬ Path.TwoDots req.url := fun hd => haway (.inr ((hasDotDot_iff _).mpr hd))
      have hp := Path.toPath_of_not_mem (mt zero_mem_withIndex.mp hzero)
      obtain ⟨q, hq, hbelow⟩ := Path.slash_below hroot hp (withIndex_not_twoDots hplain)
      exact .inl ⟨q, hbelow, handle_opens haway hp hq⟩

omit [Affinity] in
theorem toPath_www : Path.toPath (lit "/www") = some (lit "/www") := by
  simp [Path.toPath, Path.pathAppend, Path.appended, Path.appendElements_cons, Path.appendElements,
    Path.dropRootParents, Path.dropParents, lit]

/-- A request for this uri. -/
def forUri (uri : Bytes) : Request := { Request.fresh with uri := uri }

omit [Affinity] in
/-- An escaped dot and an empty element. -/
theorem confines_style : ∃ _ : Affinity, Confines (lit "/www") (fun _ => none) .plain
    (after (performFinalDecode fun _ => .error .notFound) (forUri (lit "/css//%2e/a.css")))
      (.start .empty) := by
  let _ := integerAffinity
  exact ⟨integerAffinity, (confines_iff toPath_www (fun _ => none) .plain _ _).mpr
    (.inr (by decide +kernel))⟩

omit [Affinity] in
/-- The NUL of the url makes the assertion fail. -/
theorem nul_aborts : ∃ _ : Affinity, ¬ ∀ (dir root : Bytes), Path.toPath dir = some root →
    ∀ (file : Bytes → Option Bytes) (env : Env) (raw : Request) (w : World),
      Confines root file env (after (performFinalDecode fun _ => .error .notFound) raw) w := by
  let _ := integerAffinity
  refine ⟨integerAffinity, fun h => ?_⟩
  have hpasses : ¬ TurnedAway (lit "/a.css" ++ [0]) := by decide +kernel
  have hurl : (after (performFinalDecode fun _ => .error .notFound)
      (forUri (lit "/a.css%00"))).url = lit "/a.css" ++ [0] := by decide +kernel
  have haborts : ∀ file, outcome (handle (serving (lit "/www") file .plain)
      (after (performFinalDecode fun _ => .error .notFound) (forUri (lit "/a.css%00"))))
        (.start .empty) = .error .aborts := fun file =>
    handle_aborts (hurl ▸ hpasses)
      (Path.toPath_eq_none.mpr (zero_mem_withIndex.mpr (hurl ▸ by decide))) _
  obtain ⟨q, -, hopens⟩ | ⟨e, hrefuses⟩ := h _ _ toPath_www (fun _ => none) .plain
    (forUri (lit "/a.css%00")) (.start .empty)
  · cases (haborts _).symm.trans (hopens.missing rfl).1
  · cases (haborts _).symm.trans (hrefuses.raises fun _ => none)

end Handlers.Files
