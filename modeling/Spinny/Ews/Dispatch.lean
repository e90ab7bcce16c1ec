import Spinny.Ews.RequestHandler

/-!
# The loops of `handle_request`

`register_new_handler` and the two nested loops as they stand, with the list of the handlers that
are called so far beside the world.

* `registered`: the list of each phase.
* `calling`: `handle_request` with the calls; `calling_world`: it does to the world what
  `handleRequest` does.
* `Continues`, `Ends`: the answers of the handlers along a run.
* `dispatches`: which handlers are called, and the reply that is left.
-/

namespace Ews

open Bytes Spinny Sqlite Proc

variable [Affinity]

/-! ## Registration -/

/-- `register_new_handler`: `push_back` on the list of the phase. -/
def registerNewHandler (lists : RequestPhase → List RequestHandler) (h : RequestHandler) :
    RequestPhase → List RequestHandler :=
  Function.update lists h.phase (lists h.phase ++ [h])

/-- The lists after the handlers have been made one after the other. -/
def registered (handlers : List RequestHandler) : RequestPhase → List RequestHandler :=
  handlers.foldl registerNewHandler fun _ => []

theorem foldl_register (handlers : List RequestHandler)
    (lists : RequestPhase → List RequestHandler) (phase : RequestPhase) :
    handlers.foldl registerNewHandler lists phase =
      lists phase ++ handlers.filter fun h => h.phase = phase := by
  induction handlers generalizing lists with
  | nil => exact (List.append_nil _).symm
  | cons h hs ih =>
    rw [List.foldl_cons, ih]
    unfold registerNewHandler
    by_cases hp : h.phase = phase
    · subst hp
      simp
    · simp [hp, Function.update_of_ne (Ne.symm hp)]

/-- The four lists in a row are the handlers by phase, as registered inside a phase. -/
theorem registered_inPhases (handlers : List RequestHandler) :
    [RequestPhase.beginning, .middle, .end, .last].flatMap (registered handlers) =
      inPhases handlers := by
  unfold inPhases registered
  congr 1
  funext phase
  rw [foldl_register]
  rfl

/-! ## The loops -/

/-- The world and the handlers called so far. -/
abbrev Calls := World × List RequestHandler

/-- Code of the world among code that counts the calls. -/
def uncounted {α : Type} (x : Run α) : Proc Calls Raise α := focus Prod.fst (fun w s => (w, s.2)) id x

/-- The call of one handler, with the `catch` clauses around it. -/
def call (env : Env) (req : Request) (h : RequestHandler) : Proc Calls Raise RequestStatus := do
  modify fun s => (s.1, s.2 ++ [h])
  uncounted (tryHandler env req h)

/-- The loop over the handlers of a phase: both an exception and the status leave it. -/
def overHandlers (env : Env) (req : Request) :
    RequestStatus → List RequestHandler → Proc Calls Raise RequestStatus
  | status, [] => return status
  | _, h :: hs => do
    let status ← call env req h
    if status = .stop then return status else overHandlers env req status hs

/-- The loop over the phases. -/
def overPhases (env : Env) (req : Request) (lists : RequestPhase → List RequestHandler) :
    RequestStatus → List RequestPhase → Proc Calls Raise RequestStatus
  | status, [] => return status
  | status, phase :: phases => do
    if status = .stop then return status
    else overPhases env req lists (← overHandlers env req status (lists phase)) phases

/-- Both loops. -/
def loops (handlers : List RequestHandler) (env : Env) (req : Request) :
    Proc Calls Raise RequestStatus :=
  overPhases env req (registered handlers) .continue [.beginning, .middle, .end, .last]

/-- `handle_request`. -/
def calling (handlers : List RequestHandler) (env : Env) (req : Request) :
    Proc Calls Raise Unit := do
  let status ← loops handlers env req
  uncounted (greetUser env req)
  if status ≠ .stop then uncounted (modifyRep fun rep => rep.setTo .notFound)

/-! ## The world alone -/

/-- `x` does to the world, and comes to, what `y` does. -/
def Mirrors {α : Type} (x : Proc Calls Raise α) (y : Run α) : Prop :=
  ∀ s, outcome x s = outcome y s.1 ∧ (after x s).1 = after y s.1

theorem Mirrors.pure {α : Type} (a : α) : Mirrors (Pure.pure a) (Pure.pure a) :=
  fun _ => ⟨rfl, rfl⟩

theorem Mirrors.uncounted {α : Type} (x : Run α) : Mirrors (uncounted x) x := by
  intro s
  unfold Ews.uncounted
  refine ⟨?_, rfl⟩
  rw [outcome_focus]
  cases outcome x s.1 <;> rfl

theorem Mirrors.bind {α β : Type} {x : Proc Calls Raise α} {y : Run α}
    {f : α → Proc Calls Raise β} {g : α → Run β} (hx : Mirrors x y) (hf : ∀ a, Mirrors (f a) (g a)) :
    Mirrors (x >>= f) (y >>= g) := by
  intro s
  obtain ⟨hout, hafter⟩ := hx s
  rw [outcome_bind, outcome_bind, after_bind, after_bind, hout]
  cases outcome y s.1 with
  | ok a =>
    have h := hf a (after x s)
    rw [hafter] at h
    exact h
  | error e => exact ⟨rfl, hafter⟩

theorem Mirrors.call (env : Env) (req : Request) (h : RequestHandler) :
    Mirrors (call env req h) (tryHandler env req h) := by
  intro s
  exact Mirrors.uncounted (tryHandler env req h) (s.1, s.2 ++ [h])

theorem Mirrors.overHandlers (env : Env) (req : Request) (hs : List RequestHandler) :
    Mirrors (overHandlers env req .continue hs) (passOn env req hs) := by
  induction hs with
  | nil => exact Mirrors.pure _
  | cons h hs ih =>
    refine (Mirrors.call env req h).bind fun status => ?_
    cases status with
    | stop => exact Mirrors.pure _
    | «continue» => exact ih

theorem passOn_append (env : Env) (req : Request) (a b : List RequestHandler) :
    passOn env req (a ++ b) = (do
      match ← passOn env req a with
      | .stop => return .stop
      | .continue => passOn env req b) := by
  induction a with
  | nil => rfl
  | cons h hs ih =>
    rw [List.cons_append, passOn, passOn, bind_assoc]
    congr 1
    funext status
    cases status with
    | stop => rfl
    | «continue» => exact ih

theorem Mirrors.overPhases (env : Env) (req : Request)
    (lists : RequestPhase → List RequestHandler) (phases : List RequestPhase) :
    Mirrors (overPhases env req lists .continue phases)
      (passOn env req (phases.flatMap lists)) := by
  induction phases with
  | nil => exact Mirrors.pure _
  | cons phase phases ih =>
    rw [List.flatMap_cons, passOn_append]
    refine (Mirrors.overHandlers env req (lists phase)).bind fun status => ?_
    cases status with
    | stop =>
      cases phases with
      | nil => exact Mirrors.pure _
      | cons p ps => exact Mirrors.pure _
    | «continue» => exact ih

/-- The loops do to the world what `handleRequest` does. -/
theorem calling_world (handlers : List RequestHandler) (env : Env) (req : Request) :
    Mirrors (calling handlers env req) (handleRequest handlers env req) := by
  unfold calling handleRequest loops
  rw [← registered_inPhases]
  refine (Mirrors.overPhases _ _ _ _).bind fun status => (Mirrors.uncounted _).bind fun _ => ?_
  cases status with
  | stop => exact Mirrors.pure _
  | «continue» => exact Mirrors.uncounted _

/-! ## Which handlers are called -/

/-- The handlers are called in turn, and each lets the request pass on. -/
inductive Continues (env : Env) (req : Request) : World → List RequestHandler → World → Prop where
  | nil (w : World) : Continues env req w [] w
  | cons {w w' : World} {h : RequestHandler} {hs : List RequestHandler} :
      outcome (h.handle env req) w = .ok .continue →
      Continues env req (after (h.handle env req) w) hs w' → Continues env req w (h :: hs) w'

theorem Continues.append {env : Env} {req : Request} {w w' w'' : World}
    {a b : List RequestHandler} (ha : Continues env req w a w') (hb : Continues env req w' b w'') :
    Continues env req w (a ++ b) w'' := by
  induction ha with
  | nil w => exact hb
  | cons h _ ih => exact .cons h (ih hb)

/-- The handler stops the request or throws. -/
def Ends (env : Env) (req : Request) (w : World) (h : RequestHandler) : Prop :=
  outcome (h.handle env req) w = .ok .stop ∨ ∃ e, outcome (h.handle env req) w = .error (.exn e)

/-- A handler continues, stops or throws an exception. -/
def Behaves (env : Env) (req : Request) (h : RequestHandler) : Prop :=
  ∀ w r, outcome (h.handle env req) w = .error r → ∃ e, r = .exn e

/-- What the loops over some handlers come to: the status, the world and the handlers called. -/
inductive Passed (env : Env) (req : Request) (w : World) :
    List RequestHandler → RequestStatus → World → List RequestHandler → Prop where
  | through {hs : List RequestHandler} {w' : World} : Continues env req w hs w' →
      Passed env req w hs .continue w' hs
  | ended {before rest : List RequestHandler} {h : RequestHandler} {w₁ : World} :
      Continues env req w before w₁ → Ends env req w₁ h →
      Passed env req w (before ++ h :: rest) .stop (after (tryHandler env req h) w₁) (before ++ [h])

section

variable {env : Env} {req : Request} {w w' w'' : World} {a b called called' : List RequestHandler}
  {status : RequestStatus}

theorem Passed.append (ha : Passed env req w a .continue w' called)
    (hb : Passed env req w' b status w'' called') :
    Passed env req w (a ++ b) status w'' (called ++ called') := by
  cases ha with
  | through ha =>
    cases hb with
    | through hb => exact .through (ha.append hb)
    | ended hb he =>
      rw [← List.append_assoc, ← List.append_assoc]
      exact .ended (ha.append hb) he

theorem Passed.stop_append (ha : Passed env req w a .stop w' called) (b : List RequestHandler) :
    Passed env req w (a ++ b) .stop w' called := by
  cases ha with
  | ended ha he =>
    rw [List.append_assoc]
    exact .ended ha he

end

/-- One call: the status is that of the handler, an exception stops. -/
theorem call_passed {env : Env} {req : Request} {h : RequestHandler} (hb : Behaves env req h)
    (w : World) (l : List RequestHandler) :
    ∃ status w', Passed env req w [h] status w' [h] ∧
      Returns (call env req h) (w, l) status (w', l ++ [h]) := by
  have hcall : ∀ status, outcome (tryHandler env req h) w = .ok status →
      Returns (call env req h) (w, l) status (after (tryHandler env req h) w, l ++ [h]) := by
    intro status hs
    refine .bind ⟨rfl, rfl⟩ ⟨?_, rfl⟩
    change (outcome (tryHandler env req h) w).mapError id = _
    rw [hs]
    rfl
  have hout := outcome_tryHandler env req h w
  cases hh : outcome (h.handle env req) w with
  | ok status =>
    rw [hh] at hout
    refine ⟨status, _, ?_, hcall _ hout⟩
    cases status with
    | stop => exact @Passed.ended _ env req w [] [] h w (.nil w) (.inl hh)
    | «continue» =>
      have hafter : after (tryHandler env req h) w = after (h.handle env req) w := by
        rw [after_tryHandler, hh]
      rw [hafter]
      exact .through (.cons hh (.nil _))
  | error r =>
    obtain ⟨e, rfl⟩ := hb w r hh
    rw [hh] at hout
    exact ⟨.stop, _, @Passed.ended _ env req w [] [] h w (.nil w) (.inr ⟨e, hh⟩), hcall _ hout⟩

/-- The handlers of a phase. -/
theorem overHandlers_passed {env : Env} {req : Request} {hs : List RequestHandler}
    (hb : ∀ h ∈ hs, Behaves env req h) (w : World) (l : List RequestHandler) :
    ∃ status w' called, Passed env req w hs status w' called ∧
      Returns (overHandlers env req .continue hs) (w, l) status (w', l ++ called) := by
  induction hs generalizing w l with
  | nil => exact ⟨.continue, w, [], .through (.nil w), by rw [List.append_nil]; exact .pure _ _⟩
  | cons h hs ih =>
    obtain ⟨status, w', hpassed, hcall⟩ := call_passed (hb h (by simp)) w l
    cases status with
    | stop =>
      refine ⟨.stop, w', [h], hpassed.stop_append hs, ?_⟩
      exact hcall.bind (.pure _ _)
    | «continue» =>
      obtain ⟨status, w'', called, hrest, hrun⟩ := ih (fun x hx => hb x (by simp [hx])) w' (l ++ [h])
      refine ⟨status, w'', h :: called, hpassed.append hrest, ?_⟩
      rw [List.append_assoc] at hrun
      exact hcall.bind hrun

theorem overPhases_passed {env : Env} {req : Request} {lists : RequestPhase → List RequestHandler}
    {phases : List RequestPhase} (hb : ∀ h ∈ phases.flatMap lists, Behaves env req h) (w : World)
    (l : List RequestHandler) :
    ∃ status w' called, Passed env req w (phases.flatMap lists) status w' called ∧
      Returns (overPhases env req lists .continue phases) (w, l) status (w', l ++ called) := by
  induction phases generalizing w l with
  | nil => exact ⟨.continue, w, [], .through (.nil w), by rw [List.append_nil]; exact .pure _ _⟩
  | cons phase phases ih =>
    rw [List.flatMap_cons] at hb ⊢
    obtain ⟨status, w', called, hpassed, hrun⟩ :=
      overHandlers_passed (fun h hh => hb h (List.mem_append_left _ hh)) w l
    cases status with
    | stop =>
      refine ⟨.stop, w', called, hpassed.stop_append _, hrun.bind ?_⟩
      cases phases with
      | nil => exact .pure _ _
      | cons p ps => exact .pure _ _
    | «continue» =>
      obtain ⟨status, w'', called', hrest, hrun'⟩ :=
        ih (fun h hh => hb h (List.mem_append_right _ hh)) w' (l ++ called)
      refine ⟨status, w'', called ++ called', hpassed.append hrest, ?_⟩
      rw [List.append_assoc] at hrun'
      exact hrun.bind hrun'

/-! ## The reply that is left -/

/-- The status for an exception. -/
def statusOf : Exn → StatusType
  | .notFoundError _ | .notFound => .notFound
  | .forbiddenError _ => .forbidden
  | .error _ | .databaseError | .badLexicalCast | .runtimeError => .internalServerError

/-- The page for an exception. -/
def pageOf : Exn → Bytes
  | .notFoundError what =>
    errorPage (lit "Not Found") (lit "404 Not Found error retrieving " ++ what)
  | .notFound => StatusType.notFound.stock
  | .forbiddenError what => errorPage (lit "Forbidden") (lit "403 Forbidden " ++ what)
  | .error what => errorPage (lit "Internal Server Error") (lit "500 " ++ what)
  | .databaseError | .badLexicalCast | .runtimeError => StatusType.internalServerError.stock

/-- The headers of a stock reply, with the length that the content had before. -/
def stockHeaders (length : Nat) : Headers :=
  (((∅ : Headers).insertIfNew (lit "Content-Type") (extensionToType (lit "html"))).insertIfNew
    (lit "Content-Length") (decimal length)).insertIfNew (lit "Connection") (lit "close")

/-- With the cookie of the user. -/
def cookieHeaders (headers : Headers) : Option User → Headers
  | some user => headers.insertIfNew (lit "Set-Cookie") (ticketCookie user.ticket)
  | none => headers

/-- Of what the reply `left` held there are only the user, for the cookie, and the length of the
content. -/
structure Cleared (req : Request) (e : Exn) (left rep : Reply) : Prop where
  status : rep.status = some (statusOf e)
  content : rep.content = pageOf e
  headers : rep.headers =
    cookieHeaders (stockHeaders left.content.length) (left.user <|> req.user)

/-- What `greetUser` does to the reply. -/
def Reply.greeted (req : Request) (rep : Reply) : Reply :=
  { rep with
    user := rep.user <|> req.user
    headers := cookieHeaders rep.headers (rep.user <|> req.user) }

theorem rep_updateAccessTime (env : Env) (user : User) (w : World) :
    (after (user.updateAccessTime env) w).rep = w.rep := by
  unfold User.updateAccessTime
  have htime : outcome (localTime env) w = .ok (env.clock w.readings) := rfl
  rw [after_bind_ok htime, after_execUpdate]
  split <;> rfl

theorem rep_greetUser (env : Env) (req : Request) (w : World) :
    (after (greetUser env req) w).rep = w.rep.greeted req := by
  unfold greetUser Reply.greeted
  rw [after_bind_ok (outcome_modifyRep _ _), after_bind_ok (outcome_get _)]
  dsimp only [after_modifyRep, after_get]
  cases w.rep.user <|> req.user with
  | none => rfl
  | some user =>
    dsimp only
    rw [after_bind_ok (outcome_modifyRep _ _), rep_updateAccessTime]
    rfl

omit [Affinity] in
theorem cleared_caught (req : Request) (e : Exn) (left : Reply) :
    Cleared req e left ((left.caught e).greeted req) := by
  cases e with
  | notFoundError what => exact ⟨rfl, rfl, rfl⟩
  | forbiddenError what => exact ⟨rfl, rfl, rfl⟩
  | error what => exact ⟨rfl, rfl, rfl⟩
  | notFound => exact ⟨rfl, rfl, rfl⟩
  | databaseError => exact ⟨rfl, rfl, rfl⟩
  | badLexicalCast => exact ⟨rfl, rfl, rfl⟩
  | runtimeError => exact ⟨rfl, rfl, rfl⟩

/-- How a request ends that was handed to `called`, with `rest` behind them, in the order of the
phases: `w₁` is the world after `called`, `s` what is left. -/
structure Dispatched (env : Env) (req : Request) (called rest : List RequestHandler) (w₁ : World)
    (s : Calls) : Prop where
  /-- None stops and none throws. -/
  unhandled : rest = [] → s.2 = called ∧ s.1.rep.status = some .notFound
  /-- The first that stops or throws is the last one called. -/
  handled : ∀ h post, rest = h :: post → s.2 = called ++ [h] ∧ Ends env req w₁ h
  thrown : ∀ h post e, rest = h :: post → outcome (h.handle env req) w₁ = .error (.exn e) →
    Cleared req e (after (h.handle env req) w₁).rep s.1.rep

/-- Handlers that continue, stop or throw exceptions are called in the order of the phases until
one does not continue; the request is always answered. -/
theorem dispatches (handlers : List RequestHandler) (env : Env) (req : Request) (w : World)
    (hb : ∀ h ∈ handlers, Behaves env req h)
    (hupdate : outcome (greetUser env req) (after (loops handlers env req) (w, [])).1 = .ok ()) :
    ∃ called rest w₁, inPhases handlers = called ++ rest ∧ Continues env req w called w₁ ∧
      outcome (calling handlers env req) (w, []) = .ok () ∧
      Dispatched env req called rest w₁ (after (calling handlers env req) (w, [])) := by
  have hmem : ∀ h ∈ [RequestPhase.beginning, .middle, .end, .last].flatMap (registered handlers),
      Behaves env req h := by
    intro h hh
    rw [registered_inPhases] at hh
    obtain ⟨_, -, hh⟩ := List.mem_flatMap.mp hh
    exact hb h (List.mem_of_mem_filter hh)
  obtain ⟨status, w', called, hpassed, hrun⟩ := overPhases_passed hmem w []
  rw [registered_inPhases] at hpassed
  change Returns (loops handlers env req) _ _ _ at hrun
  rw [hrun.after] at hupdate
  have hgreet : Returns (uncounted (greetUser env req)) (w', called) ()
      (after (greetUser env req) w', called) := by
    refine ⟨?_, rfl⟩
    change (outcome (greetUser env req).run w').mapError id = _
    rw [outcome_run_ok hupdate]
    rfl
  generalize inPhases handlers = all at hpassed
  cases hpassed with
  | through hpass =>
    have hall : Returns (calling handlers env req) (w, []) () _ :=
      hrun.bind (hgreet.bind ⟨rfl, rfl⟩)
    refine ⟨called, [], w', (List.append_nil _).symm, hpass, hall.outcome, ?_, ?_, ?_⟩
    · intro _
      rw [hall.after]
      exact ⟨rfl, rfl⟩
    · exact fun h post hrest => absurd hrest (by simp)
    · exact fun h post e hrest => absurd hrest (by simp)
  | @ended before rest h w₁ hpass hends =>
    have hall : Returns (calling handlers env req) (w, []) () _ :=
      hrun.bind (hgreet.bind ⟨rfl, rfl⟩)
    refine ⟨before, h :: rest, w₁, rfl, hpass, hall.outcome, ?_, ?_, ?_⟩
    · exact fun hrest => absurd hrest (by simp)
    · rintro h' post hrest
      obtain ⟨rfl, -⟩ := List.cons.inj hrest
      rw [hall.after]
      exact ⟨rfl, hends⟩
    · rintro h' post e hrest he
      obtain ⟨rfl, -⟩ := List.cons.inj hrest
      have hleft : after (tryHandler env req h) w₁ =
          { after (h.handle env req) w₁ with
            rep := (after (h.handle env req) w₁).rep.caught e } := by
        rw [after_tryHandler, he]
      rw [hall.after]
      change Cleared req e _ (after (greetUser env req) (after (tryHandler env req h) w₁)).rep
      rw [rep_greetUser, hleft]
      exact cleared_caught req e _

/-- A handler of the last phase that lets every request pass. -/
def lenient : RequestHandler := ⟨lit "Lenient", .last, fun _ _ => return .continue⟩

/-- A handler of the first phase that throws behind a part of an answer. -/
def broken : RequestHandler :=
  ⟨lit "Broken", .beginning, fun _ _ => do
    modifyRep fun rep => (rep.put (lit "half")).setHeader (lit "X") (lit "y")
    throw (.exn (.error (lit "broken")))⟩

omit [Affinity] in
theorem dispatches_broken : ∃ _ : Affinity, ∃ called rest w₁,
    inPhases [lenient, broken] = called ++ rest ∧
      Continues .plain .fresh (.start .empty) called w₁ ∧
      outcome (calling [lenient, broken] .plain .fresh) (.start .empty, []) = .ok () ∧
      Dispatched .plain .fresh called rest w₁
        (after (calling [lenient, broken] .plain .fresh) (.start .empty, [])) := by
  let _ : Affinity := integerAffinity
  refine ⟨integerAffinity, dispatches [lenient, broken] .plain .fresh (.start .empty) ?_ rfl⟩
  intro h hh w r hr
  obtain rfl | hh := List.mem_cons.mp hh
  · cases hr
  · obtain rfl := List.mem_singleton.mp hh
    exact ⟨.error (lit "broken"), (Except.error.inj hr).symm⟩

end Ews
