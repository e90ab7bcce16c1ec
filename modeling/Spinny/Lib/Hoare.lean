import Spinny.Lib.Proc

/-!
# Triples for procedures that may raise

`Triple P x Q E`: from every state with `P` the procedure `x` returns a value and leaves a state
with `Q`, or raises an exception and leaves a state with `E`.

* `Triple.bind`, `Triple.conseq`, `Triple.tryCatch`: one rule for each way to put procedures
  together.
* `Triple.forM`, `Triple.foldlM`: a loop, by an invariant over what is left of the list.
-/

namespace Proc

variable {σ ε α β γ : Type}

/-- From `P`, `x` returns into `Q` or raises into `E`. -/
def Triple (P : σ → Prop) (x : Proc σ ε α) (Q : α → σ → Prop) (E : ε → σ → Prop) : Prop :=
  ∀ s, P s → match outcome x s with
    | .ok a => Q a (after x s)
    | .error e => E e (after x s)

namespace Triple

variable {P P' : σ → Prop} {x : Proc σ ε α} {Q Q' : α → σ → Prop} {E E' : ε → σ → Prop}

theorem ok (h : Triple P x Q E) {s : σ} (hs : P s) {a : α} (ha : outcome x s = .ok a) :
    Q a (after x s) := by
  have := h s hs
  rwa [ha] at this

theorem error (h : Triple P x Q E) {s : σ} (hs : P s) {e : ε} (he : outcome x s = .error e) :
    E e (after x s) := by
  have := h s hs
  rwa [he] at this

theorem intro (hok : ∀ s a, P s → outcome x s = .ok a → Q a (after x s))
    (herr : ∀ s e, P s → outcome x s = .error e → E e (after x s)) : Triple P x Q E := by
  intro s hs
  cases h : outcome x s with
  | ok a => exact hok s a hs h
  | error e => exact herr s e hs h

/-- What holds at both ends. -/
theorem of_after {R : σ → Prop} (h : ∀ s, P s → R (after x s)) :
    Triple P x (fun _ => R) fun _ => R :=
  intro (fun s _ hs _ => h s hs) fun s _ hs _ => h s hs

theorem after_of {R : σ → Prop} (h : Triple P x (fun _ => R) fun _ => R) {s : σ} (hs : P s) :
    R (after x s) := by
  cases hx : outcome x s with
  | ok a => exact h.ok hs hx
  | error e => exact h.error hs hx

theorem conseq (h : Triple P x Q E) (hP : ∀ s, P' s → P s) (hQ : ∀ a s, Q a s → Q' a s)
    (hE : ∀ e s, E e s → E' e s) : Triple P' x Q' E' :=
  intro (fun _ _ hs ha => hQ _ _ (h.ok (hP _ hs) ha)) fun _ _ hs he => hE _ _ (h.error (hP _ hs) he)

/-- From one state at a time. -/
theorem of_single (h : ∀ s, P s → Triple (· = s) x Q E) : Triple P x Q E :=
  fun s hs => h s hs s rfl

theorem pure (a : α) : Triple (Q a) (Pure.pure a : Proc σ ε α) Q E := fun _ hs => hs

theorem bind {R : β → σ → Prop} {f : α → Proc σ ε β} (hx : Triple P x Q E)
    (hf : ∀ a, Triple (Q a) (f a) R E) : Triple P (x >>= f) R E := by
  intro s hs
  cases ha : outcome x s with
  | ok a =>
    rw [outcome_bind_ok ha, after_bind_ok ha]
    exact hf a _ (hx.ok hs ha)
  | error e =>
    rw [outcome_bind_error ha, after_bind_error ha]
    exact hx.error hs ha

theorem tryCatch {f : ε → Proc σ ε α} (hx : Triple P x Q E)
    (hf : ∀ e, Triple (E e) (f e) Q E') : Triple P (MonadExcept.tryCatch x f) Q E' := by
  intro s hs
  change match outcome (tryCatchThe ε x f) s with
    | .ok a => Q a (after (tryCatchThe ε x f) s)
    | .error e => E' e (after (tryCatchThe ε x f) s)
  rw [show outcome (tryCatchThe ε x f) s = _ from outcome_tryCatch x f s,
    show after (tryCatchThe ε x f) s = _ from after_tryCatch x f s]
  cases ha : outcome x s with
  | ok a => exact hx.ok hs ha
  | error e => exact hf e _ (hx.error hs ha)

/-- A loop, with an invariant over what is left of the list. -/
theorem forM {f : γ → Proc σ ε PUnit} {I : List γ → σ → Prop} (l : List γ)
    (hf : ∀ a l, Triple (I (a :: l)) (f a) (fun _ => I l) E) :
    Triple (I l) (l.forM f) (fun _ => I []) E := by
  induction l with
  | nil => exact pure (Q := fun _ => I []) _
  | cons a l ih => exact (hf a l).bind fun _ => ih

/-- A fold, with an invariant over what is left of the list and the value so far. -/
theorem foldlM {f : β → γ → Proc σ ε β} {I : List γ → β → σ → Prop} (l : List γ) (b : β)
    (hf : ∀ a l b, Triple (I (a :: l) b) (f b a) (I l) E) :
    Triple (I l b) (l.foldlM f b) (I []) E := by
  induction l generalizing b with
  | nil => exact pure b
  | cons a l ih => exact (hf a l b).bind fun b => ih b

end Triple

end Proc
