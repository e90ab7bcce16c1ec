import Mathlib

/-!
# Machines that read symbols one at a time

A `Machine` reads one symbol per step and then goes on or stops with a result. `feed` runs it
over a list of symbols, `feedReads` over consecutive reads, each one passed on only while the
machine has not stopped.

* `feedReads_eq_feed`: how the symbols are cut into reads does not matter.
* `Goes s xs t`: the machine reads all of `xs` from `s` without stopping and is then in `t`;
  `Stops s xs r t rest`: it stops with `r` in `t` and leaves `rest` unread. Both compose along
  `++` (`Goes.append`, `Goes.stops`), and `Stops.split` names the step that stopped.
* `Along P s xs`: `P` holds of every state in which a symbol of `xs` is read, with that symbol.
* `Passes P s xs t`: both, closed under sequencing; `Passes.collect` and `Passes.fold` are the
  loops that gather what they read.
* `feed_inv`: an invariant of the steps holds of the state in which the machine ends.
-/

/-- Reads symbols `α` in states `σ` and stops with a result `ρ`. -/
structure Machine (σ α ρ : Type) where
  step : σ → α → σ × Option ρ

namespace Machine

variable {σ α ρ : Type}

/-- What a run over some symbols ends with: the result if it stopped, the state, and the
symbols it did not read. -/
structure Fed (σ α ρ : Type) where
  result : Option ρ
  state : σ
  rest : List α

/-- Run over `xs` from `s`, up to the first symbol at which the machine stops. -/
def feed (M : Machine σ α ρ) (s : σ) : List α → Fed σ α ρ
  | [] => ⟨none, s, []⟩
  | a :: as =>
    match M.step s a with
    | (t, none) => feed M t as
    | (t, some r) => ⟨some r, t, as⟩

/-- Pass the reads to the machine in turn until one of them makes it stop. -/
def feedReads (M : Machine σ α ρ) (s : σ) : List (List α) → Fed σ α ρ
  | [] => ⟨none, s, []⟩
  | xs :: reads =>
    match feed M s xs with
    | ⟨none, t, _⟩ => feedReads M t reads
    | ⟨some r, t, rest⟩ => ⟨some r, t, rest ++ reads.flatten⟩

/-- The machine reads all of `xs` from `s` without stopping and is then in `t`. -/
def Goes (M : Machine σ α ρ) (s : σ) (xs : List α) (t : σ) : Prop := M.feed s xs = ⟨none, t, []⟩

/-- The machine stops with `r` within `xs`, in state `t`, with `rest` unread. -/
def Stops (M : Machine σ α ρ) (s : σ) (xs : List α) (r : ρ) (t : σ) (rest : List α) : Prop :=
  M.feed s xs = ⟨some r, t, rest⟩

/-- `P` holds of every state of the run over `xs` in which a symbol is read, and the symbol. -/
def Along (M : Machine σ α ρ) (P : σ → α → Prop) (s : σ) : List α → Prop
  | [] => True
  | a :: as =>
    P s a ∧
      match M.step s a with
      | (t, none) => Along M P t as
      | (_, some _) => True

variable {M : Machine σ α ρ} {s t u : σ} {a : α} {r r' : ρ} {xs ys rest : List α}

@[simp] theorem feed_nil : M.feed s [] = ⟨none, s, []⟩ := rfl

theorem feed_cons_go (h : M.step s a = (t, none)) : M.feed s (a :: xs) = M.feed t xs := by
  simp [feed, h]

theorem feed_cons_stop (h : M.step s a = (t, some r)) :
    M.feed s (a :: xs) = ⟨some r, t, xs⟩ := by
  simp [feed, h]

/-- A run that did not stop has read everything. -/
theorem goes_of_result_none (h : (M.feed s xs).result = none) :
    M.Goes s xs (M.feed s xs).state := by
  induction xs generalizing s with
  | nil => rfl
  | cons a as ih =>
    unfold Goes
    rcases hst : M.step s a with ⟨t, _ | r⟩
    · rw [feed_cons_go hst] at h ⊢
      exact ih h
    · rw [feed_cons_stop hst] at h
      cases h

theorem stops_of_result_some (h : (M.feed s xs).result = some r) :
    M.Stops s xs r (M.feed s xs).state (M.feed s xs).rest := by
  unfold Stops
  rw [← h]

/-- A run either goes on over all symbols or stops. -/
theorem goes_or_stops (M : Machine σ α ρ) (s : σ) (xs : List α) :
    (∃ t, M.Goes s xs t) ∨ ∃ r t rest, M.Stops s xs r t rest := by
  cases h : (M.feed s xs).result with
  | none => exact .inl ⟨_, goes_of_result_none h⟩
  | some r => exact .inr ⟨r, _, _, stops_of_result_some h⟩

theorem Goes.nil (s : σ) : M.Goes s [] s := rfl

theorem goes_nil_iff : M.Goes s [] t ↔ t = s := by
  simp [Goes, eq_comm]

theorem Goes.cons (h : M.step s a = (t, none)) (hg : M.Goes t xs u) : M.Goes s (a :: xs) u := by
  unfold Goes
  rw [feed_cons_go h]
  exact hg

theorem Goes.single (h : M.step s a = (t, none)) : M.Goes s [a] t := .cons h (.nil t)

theorem Stops.here (h : M.step s a = (t, some r)) : M.Stops s (a :: xs) r t xs :=
  feed_cons_stop h

theorem Stops.cons (h : M.step s a = (t, none)) (hs : M.Stops t xs r u rest) :
    M.Stops s (a :: xs) r u rest := by
  unfold Stops
  rw [feed_cons_go h]
  exact hs

theorem feed_append_of_goes (h : M.Goes s xs t) : M.feed s (xs ++ ys) = M.feed t ys := by
  induction xs generalizing s with
  | nil => rw [goes_nil_iff.mp h, List.nil_append]
  | cons a as ih =>
    unfold Goes at h
    rcases hst : M.step s a with ⟨u, _ | r⟩
    · rw [feed_cons_go hst] at h
      rw [List.cons_append, feed_cons_go hst]
      exact ih h
    · rw [feed_cons_stop hst] at h
      cases h

theorem feed_append_of_stops (h : M.Stops s xs r t rest) :
    M.feed s (xs ++ ys) = ⟨some r, t, rest ++ ys⟩ := by
  induction xs generalizing s with
  | nil => cases h
  | cons a as ih =>
    unfold Stops at h
    rcases hst : M.step s a with ⟨u, _ | r'⟩
    · rw [feed_cons_go hst] at h
      rw [List.cons_append, feed_cons_go hst]
      exact ih h
    · rw [feed_cons_stop hst] at h
      cases h
      rw [List.cons_append, feed_cons_stop hst]

theorem Goes.append (h : M.Goes s xs t) (h' : M.Goes t ys u) : M.Goes s (xs ++ ys) u := by
  unfold Goes
  rw [feed_append_of_goes h]
  exact h'

theorem Goes.stops (h : M.Goes s xs t) (h' : M.Stops t ys r u rest) :
    M.Stops s (xs ++ ys) r u rest := by
  unfold Stops
  rw [feed_append_of_goes h]
  exact h'

theorem Stops.append (h : M.Stops s xs r t rest) : M.Stops s (xs ++ ys) r t (rest ++ ys) :=
  feed_append_of_stops h

/-- The state after all symbols is determined. -/
theorem Goes.unique (h : M.Goes s xs t) (h' : M.Goes s xs u) : t = u := by
  unfold Goes at h h'
  rw [h] at h'
  cases h'
  rfl

theorem Goes.not_stops (h : M.Goes s xs t) (h' : M.Stops s xs r u rest) : False := by
  unfold Goes at h
  unfold Stops at h'
  rw [h] at h'
  cases h'

/-- How a run stops is determined. -/
theorem Stops.unique {t' : σ} {rest' : List α} (h : M.Stops s xs r t rest)
    (h' : M.Stops s xs r' t' rest') : r' = r ∧ t' = t ∧ rest' = rest := by
  unfold Stops at h h'
  rw [h] at h'
  cases h'
  exact ⟨rfl, rfl, rfl⟩

/-- What follows a part that the machine reads without stopping. -/
theorem Goes.stops_iff (h : M.Goes s xs t) :
    M.Stops s (xs ++ ys) r u rest ↔ M.Stops t ys r u rest := by
  unfold Stops
  rw [feed_append_of_goes h]

theorem stops_cons_of_go (h : M.step s a = (t, none)) :
    M.Stops s (a :: xs) r u rest ↔ M.Stops t xs r u rest := by
  unfold Stops
  rw [feed_cons_go h]

theorem stops_cons_of_stop (h : M.step s a = (t, some r)) :
    M.Stops s (a :: xs) r' u rest ↔ r' = r ∧ u = t ∧ rest = xs := by
  unfold Stops
  rw [feed_cons_stop h]
  constructor
  · intro he
    cases he
    exact ⟨rfl, rfl, rfl⟩
  · rintro ⟨rfl, rfl, rfl⟩
    rfl

theorem not_stops_nil : ¬ M.Stops s [] r u rest := by
  intro h
  cases h

/-- A run that stops goes on over some symbols, and the next one makes it stop. -/
theorem Stops.split (h : M.Stops s xs r t rest) :
    ∃ pre a u, xs = pre ++ a :: rest ∧ M.Goes s pre u ∧ M.step u a = (t, some r) := by
  induction xs generalizing s with
  | nil => cases h
  | cons a as ih =>
    unfold Stops at h
    rcases hst : M.step s a with ⟨u, _ | r'⟩
    · rw [feed_cons_go hst] at h
      obtain ⟨pre, b, v, rfl, hg, hb⟩ := ih h
      exact ⟨a :: pre, b, v, rfl, hg.cons hst, hb⟩
    · rw [feed_cons_stop hst] at h
      cases h
      exact ⟨[], a, s, rfl, .nil s, hst⟩

/-- Every beginning of a part read without stopping is read without stopping. -/
theorem Goes.prefix (h : M.Goes s (xs ++ ys) u) : ∃ t, M.Goes s xs t ∧ M.Goes t ys u := by
  rcases goes_or_stops M s xs with ⟨t, ht⟩ | ⟨r, t, rest, hs⟩
  · refine ⟨t, ht, ?_⟩
    unfold Goes at h
    rwa [feed_append_of_goes ht] at h
  · exact (h.not_stops hs.append).elim

/-- Only what was read matters for how a run stops. -/
theorem Stops.consumed (h : M.Stops s (xs ++ rest) r t rest) : M.Stops s xs r t [] := by
  obtain ⟨pre, a, u, he, hg, hst⟩ := h.split
  have hxs : xs = pre ++ [a] := by
    refine @List.append_cancel_right _ _ rest _ ?_
    simpa using he
  rw [hxs]
  exact hg.stops (.here hst)

/-- A run that stops at its last symbol goes on over every proper beginning. -/
theorem Stops.take_result (h : M.Stops s xs r t []) {k : Nat} (hk : k < xs.length) :
    (M.feed s (xs.take k)).result = none := by
  obtain ⟨pre, a, u, rfl, hg, -⟩ := h.split
  have hk' : k ≤ pre.length := by
    simp only [List.length_append, List.length_singleton] at hk
    omega
  rw [List.take_append_of_le_length hk']
  rw [← List.take_append_drop k pre] at hg
  obtain ⟨v, hv, -⟩ := hg.prefix
  unfold Goes at hv
  rw [hv]

/-- **Cuts do not matter**: reads passed in turn give what one read of all symbols gives. -/
theorem feedReads_eq_feed (M : Machine σ α ρ) (s : σ) (reads : List (List α)) :
    M.feedReads s reads = M.feed s reads.flatten := by
  induction reads generalizing s with
  | nil => rfl
  | cons xs reads ih =>
    rw [List.flatten_cons]
    rcases goes_or_stops M s xs with ⟨t, ht⟩ | ⟨r, t, rest, hs⟩
    · rw [feed_append_of_goes ht, ← ih t]
      unfold Goes at ht
      simp [feedReads, ht]
    · rw [feed_append_of_stops hs]
      unfold Stops at hs
      simp [feedReads, hs]

/-! ## Invariants and traces -/

theorem Goes.inv {I : σ → Prop} (hstep : ∀ s a t, I s → M.step s a = (t, none) → I t)
    (hs : I s) (h : M.Goes s xs t) : I t := by
  induction xs generalizing s with
  | nil => rwa [goes_nil_iff.mp h]
  | cons a as ih =>
    unfold Goes at h
    rcases hst : M.step s a with ⟨u, _ | r⟩
    · rw [feed_cons_go hst] at h
      exact ih (hstep s a u hs hst) h
    · rw [feed_cons_stop hst] at h
      cases h

section Along
variable {P : σ → α → Prop}

theorem along_cons_go (h : M.step s a = (t, none)) :
    M.Along P s (a :: xs) ↔ P s a ∧ M.Along P t xs := by
  simp [Along, h]

theorem along_cons_stop (h : M.step s a = (t, some r)) : M.Along P s (a :: xs) ↔ P s a := by
  simp [Along, h]

theorem Along.head (h : M.Along P s (a :: xs)) : P s a := h.1

theorem Goes.along_append (h : M.Goes s xs t) :
    M.Along P s (xs ++ ys) ↔ M.Along P s xs ∧ M.Along P t ys := by
  induction xs generalizing s with
  | nil => simp [goes_nil_iff.mp h, Along]
  | cons a as ih =>
    unfold Goes at h
    rcases hst : M.step s a with ⟨u, _ | r⟩
    · rw [feed_cons_go hst] at h
      rw [List.cons_append, along_cons_go hst, along_cons_go hst, ih h, and_assoc]
    · rw [feed_cons_stop hst] at h
      cases h

/-- `P` along a run, in terms of the prefixes read before each symbol. -/
theorem along_iff :
    M.Along P s xs ↔ ∀ pre a post t, xs = pre ++ a :: post → M.Goes s pre t → P t a := by
  constructor
  · rintro h pre a post t rfl hg
    exact ((hg.along_append).mp h).2.head
  · intro h
    induction xs generalizing s with
    | nil => trivial
    | cons a as ih =>
      have ha := h [] a as s rfl (.nil s)
      rcases hst : M.step s a with ⟨u, _ | r⟩
      · refine (along_cons_go hst).mpr ⟨ha, ih fun pre b post t he hg => ?_⟩
        exact h (a :: pre) b post t (by rw [he]; rfl) (hg.cons hst)
      · exact (along_cons_stop hst).mpr ha

end Along

/-! ## Runs along which a predicate holds -/

/-- The machine reads all of `xs` from `s`, is then in `t`, and `P` held at every symbol. -/
structure Passes (M : Machine σ α ρ) (P : σ → α → Prop) (s : σ) (xs : List α) (t : σ) : Prop where
  goes : M.Goes s xs t
  along : M.Along P s xs

section Passes
variable {P : σ → α → Prop}

theorem Passes.nil (s : σ) : M.Passes P s [] s := ⟨.nil s, trivial⟩

theorem Passes.cons (h : M.step s a = (t, none)) (ha : P s a) (hp : M.Passes P t xs u) :
    M.Passes P s (a :: xs) u :=
  ⟨hp.goes.cons h, (along_cons_go h).mpr ⟨ha, hp.along⟩⟩

theorem Passes.single (h : M.step s a = (t, none)) (ha : P s a) : M.Passes P s [a] t :=
  .cons h ha (.nil t)

theorem Passes.append (h : M.Passes P s xs t) (h' : M.Passes P t ys u) :
    M.Passes P s (xs ++ ys) u :=
  ⟨h.goes.append h'.goes, h.goes.along_append.mpr ⟨h.along, h'.along⟩⟩

/-- A loop that collects the symbols it reads. -/
theorem Passes.collect (f : List α → σ) (C : α → Prop)
    (hstep : ∀ acc a, C a → M.step (f acc) a = (f (acc ++ [a]), none))
    (hP : ∀ acc a, C a → P (f acc) a) (acc : List α) (hxs : ∀ a ∈ xs, C a) :
    M.Passes P (f acc) xs (f (acc ++ xs)) := by
  induction xs generalizing acc with
  | nil => simpa using Passes.nil (f acc)
  | cons a xs ih =>
    have ha := hxs a (by simp)
    have hr := ih (acc ++ [a]) fun b hb => hxs b (by simp [hb])
    rw [List.append_assoc, List.singleton_append] at hr
    exact .cons (hstep acc a ha) (hP acc a ha) hr

/-- A loop that folds the symbols it reads into a value. -/
theorem Passes.fold {β : Type} (f : β → σ) (g : β → α → β) (C : α → Prop)
    (hstep : ∀ b a, C a → M.step (f b) a = (f (g b a), none))
    (hP : ∀ b a, C a → P (f b) a) (b : β) (hxs : ∀ a ∈ xs, C a) :
    M.Passes P (f b) xs (f (xs.foldl g b)) := by
  induction xs generalizing b with
  | nil => exact .nil (f b)
  | cons a xs ih =>
    have ha := hxs a (by simp)
    exact .cons (hstep b a ha) (hP b a ha) (ih (g b a) fun c hc => hxs c (by simp [hc]))

end Passes

end Machine
