import Mathlib

/-!
# Procedures over a state that may raise

A `Proc σ ε α` transforms a state `σ` and returns a value or raises an `ε`; the changes made
before it raises stay, as the effects of a procedure with exceptions do.

* `after`, `outcome`: the state a procedure leaves behind and what it comes to.
* `Keeps R`: every run of a procedure is related by `R` to its start, whether it raises or not;
  closed under sequencing for a reflexive and transitive `R`. With `R` the relation `Same f` it
  says that `f` reads the same off both states.
* `focus`: a procedure on a part of the state.
* `forM_eq_error`: where a loop fails, and what it leaves behind.
-/

/-- A procedure over a state that may raise and keeps its effects when it does. -/
abbrev Proc (σ ε α : Type) := ExceptT ε (StateM σ) α

namespace Proc

variable {σ ε α β : Type}

/-- What the procedure comes to from `s`. -/
def outcome (x : Proc σ ε α) (s : σ) : Except ε α := (StateT.run (ExceptT.run x) s).1

/-- The state the procedure leaves behind. -/
def after (x : Proc σ ε α) (s : σ) : σ := (StateT.run (ExceptT.run x) s).2

/-- Two procedures that always come to the same and leave the same are equal. -/
theorem ext {x y : Proc σ ε α} (ho : ∀ s, outcome x s = outcome y s)
    (ha : ∀ s, after x s = after y s) : x = y :=
  funext fun s => Prod.ext (ho s) (ha s)

@[simp] theorem outcome_pure (a : α) (s : σ) : outcome (pure a : Proc σ ε α) s = .ok a := rfl

@[simp] theorem after_pure (a : α) (s : σ) : after (pure a : Proc σ ε α) s = s := rfl

@[simp] theorem outcome_throw (e : ε) (s : σ) :
    outcome (throw e : Proc σ ε α) s = .error e := rfl

@[simp] theorem after_throw (e : ε) (s : σ) : after (throw e : Proc σ ε α) s = s := rfl

@[simp] theorem outcome_get (s : σ) : outcome (get : Proc σ ε σ) s = .ok s := rfl

@[simp] theorem after_get (s : σ) : after (get : Proc σ ε σ) s = s := rfl

@[simp] theorem outcome_modify (f : σ → σ) (s : σ) :
    outcome (modify f : Proc σ ε Unit) s = .ok () := rfl

@[simp] theorem after_modify (f : σ → σ) (s : σ) :
    after (modify f : Proc σ ε Unit) s = f s := rfl

theorem outcome_bind (x : Proc σ ε α) (f : α → Proc σ ε β) (s : σ) :
    outcome (x >>= f) s =
      match outcome x s with
      | .ok a => outcome (f a) (after x s)
      | .error e => .error e := by
  simp only [outcome, after, ExceptT.run_bind, StateT.run_bind]
  rcases StateT.run (ExceptT.run x) s with ⟨_ | _, _⟩ <;> rfl

theorem after_bind (x : Proc σ ε α) (f : α → Proc σ ε β) (s : σ) :
    after (x >>= f) s =
      match outcome x s with
      | .ok a => after (f a) (after x s)
      | .error _ => after x s := by
  simp only [outcome, after, ExceptT.run_bind, StateT.run_bind]
  rcases StateT.run (ExceptT.run x) s with ⟨_ | _, _⟩ <;> rfl

@[simp] theorem outcome_map (f : α → β) (x : Proc σ ε α) (s : σ) :
    outcome (f <$> x) s = (outcome x s).map f := by
  rw [← bind_pure_comp, outcome_bind]
  cases outcome x s <;> rfl

@[simp] theorem after_map (f : α → β) (x : Proc σ ε α) (s : σ) :
    after (f <$> x) s = after x s := by
  rw [← bind_pure_comp, after_bind]
  cases outcome x s <;> rfl

/-- A sequence returns what its second part returns, after its first part has returned. -/
theorem bind_eq_ok {x : Proc σ ε α} {f : α → Proc σ ε β} {s : σ} {b : β} :
    outcome (x >>= f) s = .ok b ↔
      ∃ a, outcome x s = .ok a ∧ outcome (f a) (after x s) = .ok b := by
  rw [outcome_bind]
  cases outcome x s <;> simp

theorem outcome_bind_ok {x : Proc σ ε α} {s : σ} {a : α} (h : outcome x s = .ok a)
    (f : α → Proc σ ε β) : outcome (x >>= f) s = outcome (f a) (after x s) := by
  rw [outcome_bind, h]

theorem outcome_bind_error {x : Proc σ ε α} {s : σ} {e : ε} (h : outcome x s = .error e)
    (f : α → Proc σ ε β) : outcome (x >>= f) s = .error e := by
  rw [outcome_bind, h]

theorem after_bind_ok {x : Proc σ ε α} {s : σ} {a : α} (h : outcome x s = .ok a)
    (f : α → Proc σ ε β) : after (x >>= f) s = after (f a) (after x s) := by
  rw [after_bind, h]

theorem after_bind_error {x : Proc σ ε α} {s : σ} {e : ε} (h : outcome x s = .error e)
    (f : α → Proc σ ε β) : after (x >>= f) s = after x s := by
  rw [after_bind, h]

/-! ## Single runs -/

/-- From `s` the procedure returns `a` and leaves `s'`. -/
structure Returns (x : Proc σ ε α) (s : σ) (a : α) (s' : σ) : Prop where
  outcome : outcome x s = .ok a
  after : after x s = s'

/-- From `s` the procedure raises `e` and leaves `s'`. -/
structure Raises (x : Proc σ ε α) (s : σ) (e : ε) (s' : σ) : Prop where
  outcome : outcome x s = .error e
  after : after x s = s'

theorem Returns.pure (a : α) (s : σ) : Returns (Pure.pure a : Proc σ ε α) s a s := ⟨rfl, rfl⟩

theorem Returns.bind {x : Proc σ ε α} {f : α → Proc σ ε β} {s s' s'' : σ} {a : α} {b : β}
    (hx : Returns x s a s') (hf : Returns (f a) s' b s'') : Returns (x >>= f) s b s'' := by
  constructor
  · rw [outcome_bind_ok hx.outcome, hx.after, hf.outcome]
  · rw [after_bind_ok hx.outcome, hx.after, hf.after]

theorem Returns.raises {x : Proc σ ε α} {f : α → Proc σ ε β} {s s' s'' : σ} {a : α} {e : ε}
    (hx : Returns x s a s') (hf : Raises (f a) s' e s'') : Raises (x >>= f) s e s'' := by
  constructor
  · rw [outcome_bind_ok hx.outcome, hx.after, hf.outcome]
  · rw [after_bind_ok hx.outcome, hx.after, hf.after]

theorem Raises.bind {x : Proc σ ε α} {s s' : σ} {e : ε} (hx : Raises x s e s')
    (f : α → Proc σ ε β) : Raises (x >>= f) s e s' :=
  ⟨outcome_bind_error hx.outcome f, (after_bind_error hx.outcome f).trans hx.after⟩

theorem after_mapM {γ : Type} {f : γ → Proc σ ε β} {s : σ} {l : List γ}
    (hf : ∀ c ∈ l, Proc.after (f c) s = s) : Proc.after (l.mapM f) s = s := by
  induction l with
  | nil => rfl
  | cons c l ih =>
    obtain ⟨hc, hl⟩ := List.forall_mem_cons.mp hf
    rw [List.mapM_cons, after_bind, hc]
    split
    · rw [after_bind, ih hl]
      split <;> rfl
    · rfl

/-- Procedures that leave the state as it is, one for each element of a list. -/
theorem mapM_returns_iff {γ : Type} {f : γ → Proc σ ε β} {s : σ} {l : List γ} {bs : List β}
    (hf : ∀ c ∈ l, Proc.after (f c) s = s) :
    Returns (l.mapM f) s bs s ↔ List.Forall₂ (fun c b => Proc.outcome (f c) s = .ok b) l bs := by
  induction l generalizing bs with
  | nil =>
    rw [List.mapM_nil, List.forall₂_nil_left_iff]
    exact ⟨fun h => (Except.ok.inj h.outcome).symm, fun h => h ▸ Returns.pure [] s⟩
  | cons c l ih =>
    obtain ⟨hc, hl⟩ := List.forall_mem_cons.mp hf
    rw [List.mapM_cons]
    constructor
    · rintro ⟨hout, -⟩
      cases hb : Proc.outcome (f c) s with
      | error e =>
        rw [outcome_bind_error hb] at hout
        cases hout
      | ok b =>
        rw [outcome_bind_ok hb, hc] at hout
        cases hbs : Proc.outcome (l.mapM f) s with
        | error e =>
          rw [outcome_bind_error hbs] at hout
          cases hout
        | ok rest =>
          rw [outcome_bind_ok hbs] at hout
          obtain rfl := Except.ok.inj hout
          have hafter : Proc.after (l.mapM f) s = s := after_mapM hl
          exact .cons hb ((ih hl).mp ⟨hbs, hafter⟩)
    · intro h
      obtain ⟨b, rest, hb, hrest, rfl⟩ := List.forall₂_cons_left_iff.mp h
      have hc' : Returns (f c) s b s := ⟨hb, hc⟩
      exact hc'.bind (((ih hl).mpr hrest).bind (Returns.pure (b :: rest) s))

/-! ## Catching -/

theorem outcome_tryCatch (x : Proc σ ε α) (f : ε → Proc σ ε α) (s : σ) :
    outcome (tryCatch x f) s =
      match outcome x s with
      | .ok a => .ok a
      | .error e => outcome (f e) (after x s) := by
  change (StateT.run (ExceptT.run (ExceptT.tryCatch x f)) s).1 = _
  simp only [ExceptT.tryCatch, outcome, after, ExceptT.run_mk, StateT.run_bind]
  change (StateT.run (match (StateT.run (ExceptT.run x) s).1 with
    | .ok a => Pure.pure (.ok a)
    | .error e => f e) (StateT.run (ExceptT.run x) s).2).1 = _
  cases (StateT.run (ExceptT.run x) s).1 <;> rfl

theorem after_tryCatch (x : Proc σ ε α) (f : ε → Proc σ ε α) (s : σ) :
    after (tryCatch x f) s =
      match outcome x s with
      | .ok _ => after x s
      | .error e => after (f e) (after x s) := by
  change (StateT.run (ExceptT.run (ExceptT.tryCatch x f)) s).2 = _
  simp only [ExceptT.tryCatch, outcome, after, ExceptT.run_mk, StateT.run_bind]
  change (StateT.run (match (StateT.run (ExceptT.run x) s).1 with
    | .ok a => Pure.pure (.ok a)
    | .error e => f e) (StateT.run (ExceptT.run x) s).2).2 = _
  cases (StateT.run (ExceptT.run x) s).1 <;> rfl

/-! ## Exceptions of another type -/

variable {ε' : Type}

/-- `x` with its exceptions renamed by `f`. -/
def adapt (f : ε → ε') (x : Proc σ ε α) : Proc σ ε' α := ExceptT.adapt f x

theorem outcome_adapt (f : ε → ε') (x : Proc σ ε α) (s : σ) :
    outcome (adapt f x) s = (outcome x s).mapError f := by
  simp only [adapt, ExceptT.adapt, outcome, ExceptT.run_mk]
  rfl

@[simp] theorem after_adapt (f : ε → ε') (x : Proc σ ε α) (s : σ) :
    after (adapt f x) s = after x s := rfl

/-- Renaming exceptions goes through a sequence. -/
theorem adapt_bind (f : ε → ε') (x : Proc σ ε α) (g : α → Proc σ ε β) :
    adapt f (x >>= g) = adapt f x >>= fun a => adapt f (g a) := by
  refine ext (fun s => ?_) fun s => ?_
  · rw [outcome_adapt, outcome_bind, outcome_bind, outcome_adapt]
    cases outcome x s with
    | ok a => exact (outcome_adapt f (g a) _).symm
    | error e => rfl
  · rw [after_adapt, after_bind, after_bind, outcome_adapt]
    cases outcome x s <;> rfl

/-! ## A part of the state -/

section focus

variable {τ : Type}

/-- `x` on a part of the state, with its exceptions renamed by `f`. -/
def focus (get : σ → τ) (put : τ → σ → σ) (f : ε → ε') (x : Proc τ ε α) : Proc σ ε' α :=
  ExceptT.mk fun s => ((outcome x (get s)).mapError f, put (after x (get s)) s)

@[simp] theorem outcome_focus (get : σ → τ) (put : τ → σ → σ) (f : ε → ε') (x : Proc τ ε α)
    (s : σ) : outcome (focus get put f x) s = (outcome x (get s)).mapError f := rfl

@[simp] theorem after_focus (get : σ → τ) (put : τ → σ → σ) (f : ε → ε') (x : Proc τ ε α)
    (s : σ) : after (focus get put f x) s = put (after x (get s)) s := rfl

end focus

/-! ## Raising nothing of a kind -/

/-- No run of `x` raises an `e` with `P e`. -/
def Never (P : ε → Prop) (x : Proc σ ε α) : Prop := ∀ s e, outcome x s = .error e → ¬ P e

theorem Never.pure {P : ε → Prop} (a : α) : Never P (Pure.pure a : Proc σ ε α) :=
  fun s e h => by simp at h

theorem Never.throw {P : ε → Prop} {e : ε} (h : ¬ P e) :
    Never P (MonadExcept.throw e : Proc σ ε α) := by
  intro s e' he
  obtain rfl : e = e' := by simpa using he
  exact h

theorem Never.get {P : ε → Prop} : Never P (MonadState.get : Proc σ ε σ) :=
  fun s e h => by simp at h

theorem Never.change {P : ε → Prop} (f : σ → σ) : Never P (modify f : Proc σ ε PUnit) :=
  fun s e h => by simp at h

theorem Never.bind {P : ε → Prop} {x : Proc σ ε α} {f : α → Proc σ ε β}
    (hx : Never P x) (hf : ∀ a, Never P (f a)) : Never P (x >>= f) := by
  intro s e h
  cases hs : outcome x s with
  | ok a =>
    rw [outcome_bind_ok hs] at h
    exact hf a _ _ h
  | error e' =>
    rw [outcome_bind_error hs] at h
    obtain rfl : e' = e := by simpa using h
    exact hx s _ hs

theorem Never.forM {P : ε → Prop} {γ : Type} {f : γ → Proc σ ε PUnit} (l : List γ)
    (hf : ∀ a, Never P (f a)) : Never P (l.forM f) := by
  induction l with
  | nil => exact Never.pure _
  | cons a l ih => exact (hf a).bind fun _ => ih

/-! ## Relating the end of a run to its start -/

/-- Every run of `x` leaves a state that `R` relates to the one it started in. -/
def Keeps (R : σ → σ → Prop) (x : Proc σ ε α) : Prop := ∀ s, R s (after x s)

theorem Keeps.pure {R : σ → σ → Prop} [Std.Refl R] (a : α) :
    Keeps R (Pure.pure a : Proc σ ε α) := fun s => Std.Refl.refl s

theorem Keeps.throw {R : σ → σ → Prop} [Std.Refl R] (e : ε) :
    Keeps R (MonadExcept.throw e : Proc σ ε α) := fun s => Std.Refl.refl s

theorem Keeps.get {R : σ → σ → Prop} [Std.Refl R] : Keeps R (MonadState.get : Proc σ ε σ) :=
  fun s => Std.Refl.refl s

theorem Keeps.change {R : σ → σ → Prop} {f : σ → σ} (h : ∀ s, R s (f s)) :
    Keeps R (modify f : Proc σ ε PUnit) := h

theorem Keeps.bind {R : σ → σ → Prop} [IsTrans σ R] {x : Proc σ ε α} {f : α → Proc σ ε β}
    (hx : Keeps R x) (hf : ∀ a, Keeps R (f a)) : Keeps R (x >>= f) := by
  intro s
  cases h : outcome x s with
  | ok a =>
    rw [after_bind_ok h]
    exact IsTrans.trans s _ _ (hx s) (hf a _)
  | error e =>
    rw [after_bind_error h]
    exact hx s

theorem Keeps.forM {R : σ → σ → Prop} [Std.Refl R] [IsTrans σ R] {γ : Type}
    {f : γ → Proc σ ε PUnit} (l : List γ) (hf : ∀ a, Keeps R (f a)) : Keeps R (l.forM f) := by
  induction l with
  | nil => exact Keeps.pure _
  | cons a l ih => exact (hf a).bind fun _ => ih

theorem Keeps.forM_mem {R : σ → σ → Prop} [Std.Refl R] [IsTrans σ R] {γ : Type}
    {f : γ → Proc σ ε PUnit} {l : List γ} (hf : ∀ a ∈ l, Keeps R (f a)) : Keeps R (l.forM f) := by
  induction l with
  | nil => exact Keeps.pure _
  | cons a l ih =>
    exact (hf a (by simp)).bind fun _ => ih fun b hb => hf b (by simp [hb])

theorem Keeps.tryCatch {R : σ → σ → Prop} [IsTrans σ R] {x : Proc σ ε α}
    {f : ε → Proc σ ε α} (hx : Keeps R x) (hf : ∀ e, Keeps R (f e)) :
    Keeps R (MonadExcept.tryCatch x f) := by
  intro s
  change R s (after (tryCatchThe ε x f) s)
  rw [show after (tryCatchThe ε x f) s = _ from after_tryCatch x f s]
  split
  · exact hx s
  · exact IsTrans.trans s _ _ (hx s) (hf _ _)

theorem Keeps.mono {R R' : σ → σ → Prop} (h : ∀ s s', R s s' → R' s s') {x : Proc σ ε α}
    (hx : Keeps R x) : Keeps R' x := fun s => h s _ (hx s)

theorem Keeps.adapt {R : σ → σ → Prop} {x : Proc σ ε α} (hx : Keeps R x) (f : ε → ε') :
    Keeps R (adapt f x) := hx

theorem Keeps.foldlM {R : σ → σ → Prop} [Std.Refl R] [IsTrans σ R] {γ : Type}
    {f : β → γ → Proc σ ε β} (l : List γ) (hf : ∀ b a, Keeps R (f b a)) (b : β) :
    Keeps R (l.foldlM f b) := by
  induction l generalizing b with
  | nil => exact Keeps.pure _
  | cons a l ih => exact (hf b a).bind fun b => ih b

theorem Keeps.mapM {R : σ → σ → Prop} [Std.Refl R] [IsTrans σ R] {γ : Type}
    {f : γ → Proc σ ε β} (l : List γ) (hf : ∀ a ∈ l, Keeps R (f a)) : Keeps R (l.mapM f) := by
  induction l with
  | nil => exact Keeps.pure _
  | cons a l ih =>
    rw [List.mapM_cons]
    exact (hf a (by simp)).bind fun b =>
      (ih fun a' ha' => hf a' (by simp [ha'])).bind fun bs => Keeps.pure _

/-- `f` reads the same off both states. -/
def Same {γ : Type} (f : σ → γ) (s s' : σ) : Prop := f s' = f s

instance {γ : Type} (f : σ → γ) : Std.Refl (Same f) := ⟨fun _ => rfl⟩

instance {γ : Type} (f : σ → γ) : IsTrans σ (Same f) := ⟨fun _ _ _ h h' => h'.trans h⟩

/-- What is read off the states stays the same when it is a part of what stays the same. -/
theorem Keeps.same_of {γ δ : Type} {f : σ → γ} (g : γ → δ) {x : Proc σ ε α}
    (hx : Keeps (Same f) x) : Keeps (Same fun s => g (f s)) x :=
  hx.mono fun _ _ h => congrArg g h

/-! ## Where a loop fails -/

theorem forM_cons {γ : Type} (f : γ → Proc σ ε PUnit) (a : γ) (l : List γ) :
    (a :: l).forM f = f a >>= fun _ => l.forM f := rfl

/-- A loop raises where one element raises and those before it have returned; what follows it is
not run. -/
theorem forM_eq_error {γ : Type} {f : γ → Proc σ ε PUnit} {l : List γ} {s : σ} {e : ε}
    (h : outcome (l.forM f) s = .error e) :
    ∃ done a rest, l = done ++ a :: rest ∧ outcome (done.forM f) s = .ok () ∧
      outcome (f a) (after (done.forM f) s) = .error e ∧
      after (l.forM f) s = after (f a) (after (done.forM f) s) := by
  induction l generalizing s with
  | nil => cases h
  | cons a l ih =>
    rw [forM_cons] at h ⊢
    cases ha : outcome (f a) s with
    | error e' =>
      rw [outcome_bind_error ha] at h
      obtain rfl := Except.error.inj h
      exact ⟨[], a, l, rfl, rfl, ha, after_bind_error ha _⟩
    | ok u =>
      rw [outcome_bind_ok ha] at h
      obtain ⟨done, b, rest, rfl, hdone, hb, hafter⟩ := ih h
      refine ⟨a :: done, b, rest, rfl, ?_, ?_, ?_⟩
      · rw [forM_cons, outcome_bind_ok ha, hdone]
      · rw [forM_cons, after_bind_ok ha, hb]
      · rw [forM_cons, after_bind_ok ha, after_bind_ok ha, hafter]

/-! ## What a failed procedure leaves -/

/-- Every run of `x` that raises leaves a state that `R` relates to the one it started in. -/
def OnError (R : σ → σ → Prop) (x : Proc σ ε α) : Prop :=
  ∀ s e, outcome x s = .error e → R s (after x s)

section OnError

variable {R Q : σ → σ → Prop}

theorem Keeps.onError {x : Proc σ ε α} (hx : Keeps R x) : OnError R x := fun s _ _ => hx s

theorem OnError.pure (a : α) : OnError R (Pure.pure a : Proc σ ε α) := fun s e h => by simp at h

theorem OnError.mono (h : ∀ s s', Q s s' → R s s') {x : Proc σ ε α} (hx : OnError Q x) :
    OnError R x := fun s e he => h s _ (hx s e he)

/-- What runs before the operation that may fail counts towards the relation. -/
theorem Keeps.bind_onError (hQ : ∀ s s', Q s s' → R s s')
    (hQR : ∀ s s' s'', Q s s' → R s' s'' → R s s'') {x : Proc σ ε α} {g : α → Proc σ ε β}
    (hx : Keeps Q x) (hg : ∀ a, OnError R (g a)) : OnError R (x >>= g) := by
  intro s e h
  cases hs : outcome x s with
  | ok a =>
    rw [outcome_bind_ok hs] at h
    rw [after_bind_ok hs]
    exact hQR _ _ _ (hx s) (hg a _ _ h)
  | error e' =>
    rw [after_bind_error hs]
    exact hQ _ _ (hx s)

/-- What cannot fail once `x` has returned may follow it. -/
theorem OnError.bind_safe {x : Proc σ ε α} {g : α → Proc σ ε β} (hx : OnError R x)
    (hg : ∀ s a, outcome x s = .ok a → ∃ b, outcome (g a) (after x s) = .ok b) :
    OnError R (x >>= g) := by
  intro s e h
  cases hs : outcome x s with
  | ok a =>
    rw [outcome_bind_ok hs] at h
    obtain ⟨b, hb⟩ := hg s a hs
    rw [hb] at h
    cases h
  | error e' =>
    rw [after_bind_error hs]
    exact hx s e' hs

theorem OnError.adapt {x : Proc σ ε α} (hx : OnError R x) (g : ε → ε') :
    OnError R (adapt g x) := by
  intro s e h
  rw [outcome_adapt] at h
  cases hs : outcome x s with
  | ok a => simp [hs, Except.mapError] at h
  | error e' => exact hx s e' hs

end OnError

end Proc
