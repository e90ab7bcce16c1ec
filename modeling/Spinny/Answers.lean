import Spinny.Session

/-!
# Answers that come to a value

What the queries and the writing steps of a handler come to in a world whose statement buffer is
empty.

* `execSelect_returns`, `listRows_returns`, `loadRow_returns`: queries leave the world alone.
* `World.wrote`, `putEach_returns`: what is written to the content of the reply.
* `Emits`: what is written by code that may raise, whenever it does not; `Reads`: such code that
  writes nothing.
-/

namespace Spinny

open Bytes Sqlite Ews Proc

/-- What `putEach` writes for elements with these texts. -/
def eachText {α : Type} (text : Bytes → α → Bytes) (used : Bool) : List α → Bytes
  | [] => []
  | a :: rows => text (comma used) a ++ eachText text true rows

theorem eachText_map {α β : Type} (text : Bytes → β → Bytes) (f : α → β) (used : Bool)
    (l : List α) : eachText (fun b a => text b (f a)) used l = eachText text used (l.map f) := by
  induction l generalizing used with
  | nil => rfl
  | cons a l ih => simp only [eachText, List.map_cons, ih]

theorem eachText_append {α : Type} (text : Bytes → α → Bytes) (used : Bool) (k l : List α) :
    eachText text used (k ++ l) = eachText text used k ++ eachText text (used || !k.isEmpty) l := by
  induction k generalizing used with
  | nil => simp [eachText]
  | cons a k ih => simp [eachText, ih]

variable [Affinity]

section

variable {α β : Type} {w : World}

theorem execSelect_returns (hs : w.stale = false) (f : Database → α) :
    Returns (execSelect true f) w (f w.db) w where
  outcome := by
    rw [outcome_execSelect, if_neg (by simp [hs])]
  after := by
    rw [after_execSelect]
    cases w
    simp_all

theorem listRows_returns (hs : w.stale = false) (f : Database → List α) :
    Returns (loadRows true f) w (f w.db) w where
  outcome := by
    rw [outcome_loadRows, if_neg (by simp [hs])]
  after := by
    rw [after_loadRows, Bool.not_true, Bool.or_false]

/-- `load` of a rowid that has a row. -/
theorem loadRow_returns (hs : w.stale = false) (table : Database → Table α) (make : Int → α → β)
    {id : Int} {a : α} (hrow : (id, a) ∈ (table w.db).rows) :
    Returns (loadRow table make id) w (make id a) w where
  outcome := by
    unfold loadRow
    rw [outcome_loadOne, if_neg (by simp [hs]), Table.lookup_eq_some.mpr hrow]
    rfl
  after := by
    unfold loadRow
    rw [after_loadOne, Bool.not_true, Bool.or_false]

end

/-! ## The content of the reply -/

/-- The world with a text written to the reply. -/
def World.wrote (w : World) (text : Bytes) : World := { w with rep := w.rep.put text }

@[simp] theorem World.db_wrote (w : World) (text : Bytes) : (w.wrote text).db = w.db := rfl

@[simp] theorem World.stale_wrote (w : World) (text : Bytes) : (w.wrote text).stale = w.stale :=
  rfl

@[simp] theorem World.wrote_nil (w : World) : w.wrote [] = w := by
  simp [World.wrote, Reply.put]

@[simp] theorem World.wrote_wrote (w : World) (s t : Bytes) :
    (w.wrote s).wrote t = w.wrote (s ++ t) := by
  simp [World.wrote, Reply.put]

theorem put_returns (w : World) (text : Bytes) : Returns (put text) w () (w.wrote text) :=
  ⟨rfl, rfl⟩

theorem putEach_returns {α : Type} {write : Bytes → α → Act Unit} {text : Bytes → α → Bytes}
    {w : World} {rows : List α} (used : Bool)
    (h : ∀ t b, ∀ a ∈ rows, Returns (write b a) (w.wrote t) () (w.wrote (t ++ text b a))) :
    Returns (putEach write used rows) w (used || !rows.isEmpty)
      (w.wrote (eachText text used rows)) := by
  have key : ∀ t used, Returns (putEach write used rows) (w.wrote t) (used || !rows.isEmpty)
      (w.wrote (t ++ eachText text used rows)) := by
    induction rows with
    | nil =>
      intro t used
      rw [eachText, List.append_nil, List.isEmpty_nil, Bool.not_true, Bool.or_false]
      exact Returns.pure used _
    | cons a rows ih =>
      intro t used
      have hrest := ih (fun t b a ha => h t b a (List.mem_cons_of_mem _ ha))
        (t ++ text (comma used) a) true
      rw [Bool.true_or, List.append_assoc] at hrest
      rw [List.isEmpty_cons, Bool.not_false, Bool.or_true, eachText]
      unfold putEach
      rw [List.foldlM_cons]
      exact ((h t (comma used) a (List.mem_cons_self ..)).bind (Returns.pure true _)).bind hrest
  have hw := key [] used
  rw [World.wrote_nil, List.nil_append] at hw
  exact hw

/-! ## What is written by code that may raise -/

section

variable {ε α β γ : Type} {w : World}

/-- Whenever `x` returns, after whatever was written to the reply of `w`, it has changed nothing
but the content of the reply, with a value and a text that are related by `Q`. -/
def Emits (w : World) (x : Proc World ε α) (Q : α → Bytes → Prop) : Prop :=
  ∀ t a, outcome x (w.wrote t) = .ok a →
    ∃ u, Q a u ∧ after x (w.wrote t) = w.wrote (t ++ u)

/-- Whenever `x` returns, it has written nothing and comes to what it comes to in `w`. -/
def Reads (w : World) (x : Proc World ε α) : Prop := Emits w x fun a u => u = [] ∧ outcome x w = .ok a

theorem Emits.imp {x : Proc World ε α} {Q R : α → Bytes → Prop} (hx : Emits w x Q)
    (h : ∀ a u, Q a u → R a u) : Emits w x R := by
  intro t a ha
  obtain ⟨u, hu, hafter⟩ := hx t a ha
  exact ⟨u, h a u hu, hafter⟩

/-- The text that code writes from a world. -/
theorem Emits.content {x : Proc World ε α} {Q : α → Bytes → Prop} {a : α} (hx : Emits w x Q)
    (h : outcome x w = .ok a) : ∃ u, Q a u ∧ (after x w).rep.content = w.rep.content ++ u := by
  rw [← World.wrote_nil w] at h
  obtain ⟨u, hu, hafter⟩ := hx [] a h
  rw [World.wrote_nil, List.nil_append] at hafter
  exact ⟨u, hu, by rw [hafter]; rfl⟩

theorem Emits.pure {Q : α → Bytes → Prop} {a : α} (h : Q a []) :
    Emits w (Pure.pure a : Proc World ε α) Q := by
  intro t b hb
  obtain rfl := Except.ok.inj hb
  exact ⟨[], h, by rw [List.append_nil, after_pure]⟩

theorem Emits.bind {x : Proc World ε α} {f : α → Proc World ε β} {Q : α → Bytes → Prop} {R : β → Bytes → Prop}
    (hx : Emits w x Q) (hf : ∀ a u, Q a u → Emits w (f a) fun b v => R b (u ++ v)) :
    Emits w (x >>= f) R := by
  intro t b hb
  obtain ⟨a, ha, hb⟩ := bind_eq_ok.mp hb
  obtain ⟨u, hu, hafter⟩ := hx t a ha
  rw [hafter] at hb
  obtain ⟨v, hv, hafter'⟩ := hf a u hu _ b hb
  refine ⟨u ++ v, hv, ?_⟩
  rw [after_bind_ok ha, hafter, hafter', List.append_assoc]

theorem Emits.run {x : Act α} {Q : α → Bytes → Prop} (hx : Emits w x Q) : Emits w x.run Q := by
  intro t a ha
  rw [outcome_run] at ha
  cases h : outcome x (w.wrote t) with
  | ok b =>
    rw [h] at ha
    obtain rfl := Except.ok.inj ha
    exact hx t b h
  | error e =>
    rw [h] at ha
    cases ha

theorem Reads.run {x : Act α} (hx : Reads w x) : Reads w x.run :=
  (Emits.run hx).imp fun _ _ h => ⟨h.1, outcome_run_ok h.2⟩

theorem Emits.put {Q : Unit → Bytes → Prop} {s : Bytes} (h : Q () s) :
    Emits w (Spinny.put s) Q := by
  intro t a _
  refine ⟨s, h, ?_⟩
  rw [← World.wrote_wrote]
  exact (put_returns _ s).after

/-- Code after code that reads. -/
theorem Reads.then {x : Proc World ε α} {f : α → Proc World ε β} {R : β → Bytes → Prop} (hx : Reads w x)
    (hf : ∀ a, outcome x w = .ok a → Emits w (f a) R) : Emits w (x >>= f) R := by
  refine hx.bind fun a u hu => ?_
  rw [hu.1]
  exact hf a hu.2

theorem Reads.pure (a : α) : Reads w (Pure.pure a : Proc World ε α) := Emits.pure ⟨rfl, rfl⟩

theorem Reads.throw (e : ε) : Reads w (MonadExcept.throw e : Proc World ε α) :=
  fun _ _ h => nomatch h

theorem Reads.cast (o : Option α) : Reads w (Spinny.cast o) := by
  cases o with
  | none => exact Reads.throw _
  | some a => exact Reads.pure a

/-- Code that comes to the same whatever was written, and leaves it. -/
theorem Reads.of {x : Proc World ε α} (ho : ∀ t, outcome x (w.wrote t) = outcome x w)
    (ha : ∀ t a, outcome x (w.wrote t) = .ok a → after x (w.wrote t) = w.wrote t) :
    Reads w x := by
  intro t a h
  refine ⟨[], ⟨rfl, by rw [← ho t, h]⟩, ?_⟩
  rw [List.append_nil, ha t a h]

/-- A reading that returns leaves the world. -/
theorem Reads.after {x : Proc World ε α} (hx : Reads w x) {a : α} (h : outcome x w = .ok a) :
    Proc.after x w = w := by
  rw [← World.wrote_nil w] at h ⊢
  obtain ⟨u, ⟨rfl, -⟩, hafter⟩ := hx [] a h
  rw [hafter, List.append_nil]

/-- A sequence that starts with a reading and returns goes on from the same world. -/
theorem Reads.step {x : Proc World ε α} {f : α → Proc World ε β} {b : β} (hx : Reads w x)
    (h : outcome (x >>= f) w = .ok b) :
    ∃ a, outcome x w = .ok a ∧ outcome (f a) w = .ok b ∧
      Proc.after (x >>= f) w = Proc.after (f a) w := by
  obtain ⟨a, ha, hb⟩ := bind_eq_ok.mp h
  rw [hx.after ha] at hb
  exact ⟨a, ha, hb, by rw [after_bind_ok ha, hx.after ha]⟩

/-- A reading that returns, as a run. -/
theorem Reads.returns {x : Proc World ε α} {a : α} (hx : Reads w x) (h : outcome x w = .ok a) :
    Returns x w a w := ⟨h, hx.after h⟩

theorem Reads.bind {x : Proc World ε α} {f : α → Proc World ε β} (hx : Reads w x) (hf : ∀ a, Reads w (f a)) :
    Reads w (x >>= f) := by
  refine hx.then fun a ha => (hf a).imp fun b u hu => ⟨hu.1, ?_⟩
  rw [outcome_bind_ok ha, hx.after ha, hu.2]

/-- Without a refused text a query leaves the world. -/
theorem unstale {w : World} (hs : w.stale = false) : { w with stale := false } = w := by
  cases w
  simp_all

theorem reads_execSelect (accepted : Bool) (f : Database → α) :
    Reads w (execSelect accepted f) := by
  refine Reads.of (fun t => ?_) fun t a h => ?_
  · rw [outcome_execSelect, outcome_execSelect, World.stale_wrote, World.db_wrote]
  · rw [outcome_execSelect] at h
    rw [after_execSelect]
    split at h
    · cases h
    · rename_i hc
      push Not at hc
      exact unstale (by simpa using hc.1)

theorem reads_execText (f : Database → α) : Reads w (execText f) :=
  Reads.of (fun _ => rfl) fun _ _ _ => rfl

theorem reads_loadStored (rs : Option (ResultSet α)) : Reads w (loadStored rs) := by
  refine Reads.of (fun t => ?_) fun t a h => ?_
  · rw [outcome_loadStored, outcome_loadStored, World.stale_wrote]
  · rw [outcome_loadStored] at h
    rw [after_loadStored]
    cases rs with
    | none => cases h
    | some r =>
      rw [Option.isNone_some, Bool.or_false]

theorem reads_begin (rs : ResultSet α) : Reads w rs.begin :=
  Reads.of (fun t => by rw [outcome_begin, outcome_begin, World.db_wrote])
    fun t _ _ => after_begin rs _

theorem reads_loadRows (accepted : Bool) (f : Database → List α) :
    Reads w (loadRows accepted f) :=
  (reads_loadStored _).bind reads_begin

theorem loadRows_ok {f : Database → List α} {l : List α} (h : outcome (loadRows true f) w = .ok l) :
    l = f w.db := by
  rw [outcome_loadRows] at h
  split at h
  · cases h
  · exact (Except.ok.inj h).symm

theorem execSelect_ok {f : Database → α} {a : α} (h : outcome (execSelect true f) w = .ok a) :
    a = f w.db := by
  rw [outcome_execSelect] at h
  split at h
  · cases h
  · exact (Except.ok.inj h).symm

theorem reads_loadRow (table : Database → Table α) (make : Int → α → β) (id : Int) :
    Reads w (loadRow table make id) := by
  refine (reads_loadStored _).bind fun rs => (reads_begin rs).bind fun rows => ?_
  cases rows with
  | nil => exact Reads.throw _
  | cons row rows => exact Reads.pure row

theorem reads_countUnsigned (n : Nat) : Reads w (countUnsigned n) := by
  unfold countUnsigned
  split
  · exact Reads.pure n
  · exact Reads.throw _

theorem Reads.mapM {f : γ → Act β} (hf : ∀ c, Reads w (f c)) (l : List γ) :
    Reads w (l.mapM f) := by
  induction l with
  | nil =>
    rw [List.mapM_nil]
    exact Reads.pure []
  | cons c l ih =>
    rw [List.mapM_cons]
    exact (hf c).bind fun b => ih.bind fun bs => Reads.pure (b :: bs)

/-- A chain of `<<` writes the values of its operands, in whichever order they are evaluated. -/
theorem emits_putChain (env : Env) (operands : List (Act Bytes))
    (h : ∀ x ∈ operands, Reads w x) :
    Emits w (putChain env operands) fun _ u =>
      ∃ vs, List.Forall₂ (fun x v => outcome x w = .ok v) operands vs ∧ u = vs.flatten := by
  unfold putChain
  split
  · have hall : ∀ l : List (Act Bytes), (∀ x ∈ l, Reads w x) →
        Emits w (l.mapM id) fun vs u =>
          u = [] ∧ List.Forall₂ (fun x v => outcome x w = .ok v) l vs := by
      intro l
      induction l with
      | nil =>
        intro _
        rw [List.mapM_nil]
        exact Emits.pure ⟨rfl, .nil⟩
      | cons x l ih =>
        intro hl
        rw [List.mapM_cons]
        refine (hl x (by simp)).then fun v hv =>
          (ih fun y hy => hl y (by simp [hy])).bind fun vs u hu => Emits.pure ?_
        exact ⟨by rw [hu.1, List.append_nil], .cons hv hu.2⟩
    refine (hall operands h).bind fun vs u hu => Emits.put ⟨vs, hu.2, ?_⟩
    rw [hu.1, List.nil_append]
  · induction operands with
    | nil => exact Emits.pure ⟨[], .nil, rfl⟩
    | cons x operands ih =>
      have hfirst : Emits w (x >>= Spinny.put) fun _ u => outcome x w = .ok u :=
        Reads.then (h x (by simp)) fun v hv => Emits.put hv
      refine hfirst.bind fun _ v hv => (ih fun y hy => h y (by simp [hy])).imp ?_
      rintro _ _ ⟨vs, hvs, rfl⟩
      exact ⟨v :: vs, .cons hv hvs, rfl⟩

/-- Numbered steps in turn, where each comes to something that its text shows. -/
theorem emits_forM_zipIdx {f : α → Nat → Proc World ε Unit} {R : α → β → Prop}
    {text : β → Nat → Bytes} {l : List α}
    (h : ∀ a ∈ l, ∀ k, Emits w (f a k) fun _ u => ∃ b, R a b ∧ u = text b k) (k : Nat) :
    Emits w ((l.zipIdx k).forM fun s => f s.1 s.2) fun _ u =>
      ∃ bs, List.Forall₂ R l bs ∧ u = (bs.zipIdx k).flatMap fun s => text s.1 s.2 := by
  induction l generalizing k with
  | nil => exact Emits.pure ⟨[], .nil, rfl⟩
  | cons a l ih =>
    rw [List.zipIdx_cons]
    refine (h a (by simp) k).bind ?_
    rintro _ _ ⟨b, hb, rfl⟩
    refine (ih (fun a ha => h a (by simp [ha])) (k + 1)).imp ?_
    rintro _ _ ⟨bs, hbs, rfl⟩
    exact ⟨b :: bs, .cons hb hbs, by rw [List.zipIdx_cons, List.flatMap_cons]⟩

/-- Elements written one after the other, where each comes to something that its text shows. -/
theorem emits_putEach {write : Bytes → α → Act Unit} {R : α → β → Prop} {text : Bytes → β → Bytes}
    {rows : List α} (used : Bool)
    (h : ∀ before, ∀ a ∈ rows, Emits w (write before a) fun _ u => ∃ b, R a b ∧ u = text before b) :
    Emits w (putEach write used rows) fun used' u =>
      used' = (used || !rows.isEmpty) ∧ ∃ bs, List.Forall₂ R rows bs ∧ u = eachText text used bs := by
  induction rows generalizing used with
  | nil => exact Emits.pure ⟨by simp, [], .nil, rfl⟩
  | cons a rows ih =>
    have hrest := ih true fun before a ha => h before a (by simp [ha])
    have hfirst : Emits w (do write (comma used) a; Pure.pure true) fun used' u =>
        used' = true ∧ ∃ b, R a b ∧ u = text (comma used) b :=
      (h (comma used) a (by simp)).bind fun _ u hu => Emits.pure ⟨rfl, by rwa [List.append_nil]⟩
    unfold putEach
    rw [List.foldlM_cons]
    refine hfirst.bind ?_
    rintro _ _ ⟨rfl, b, hb, rfl⟩
    refine hrest.imp ?_
    rintro _ _ ⟨rfl, bs, hbs, rfl⟩
    exact ⟨by simp, b :: bs, .cons hb hbs, rfl⟩

/-- Elements whose texts are known. -/
theorem emits_putEach_text {write : Bytes → α → Act Unit} {text : Bytes → α → Bytes}
    (h : ∀ before a, Emits w (write before a) fun _ u => u = text before a) (used : Bool)
    (rows : List α) :
    Emits w (putEach write used rows) fun used' u =>
      used' = (used || !rows.isEmpty) ∧ u = eachText text used rows := by
  have hrow : ∀ before, ∀ a ∈ rows,
      Emits w (write before a) fun _ u => ∃ b, a = b ∧ u = text before b := by
    intro before a _
    refine (h before a).imp ?_
    rintro _ _ rfl
    exact ⟨a, rfl, rfl⟩
  refine (emits_putEach used hrow).imp ?_
  rintro used' _ ⟨hused, bs, hbs, rfl⟩
  rw [List.forall₂_eq_eq_eq] at hbs
  exact ⟨hused, by rw [hbs]⟩

end

end Spinny
