import Spinny.Lib.Bytes
import Spinny.Lib.Proc

/-!
# `command::iterator` and `result_set`

The iterators of a result set share its reader, and so the one cursor of its statement. `rows` are
the rows of the statement while the tables it reads do not change, and `get` is `reader::get<T>`
on a row: the new object and `initialize_from_db`, which may raise.

* `Iterator`, `begin`, `increment`: an iterator with its object.
* `size`, `copyTo`: the loops of `result_set`.
* `Walks`: what a result set gives out from its first row on.
* `result_set_walks`: it does so after all calls on it, those on earlier iterators among them; its
  `size` is an `unsigned int`.
-/

namespace Sqlite.Iteration

open Proc

/-- The cursor of a statement: the rows ahead, `none` behind the end. -/
abbrev Cursor (ρ : Type) := Option (List ρ)

/-- What an iteration can raise. -/
inductive Failure (ε : Type) where
  /-- `database_error`: `sqlite3_step` behind the end is a misuse. -/
  | misuse
  /-- An exception of `initialize_from_db`. -/
  | initializeFromDb (e : ε)
  /-- `end()` is incremented. -/
  | nullReader
  /-- A loop that does not end. -/
  | hangs
  deriving DecidableEq

/-- A `command::iterator`. -/
inductive Iterator (τ : Type) where
  /-- `_r` points to the reader, and `obj` is the object of a row. -/
  | on (obj : τ)
  /-- `_r` is null: an iterator that equals `end()`, with the last object if there was one. -/
  | past (obj : Option τ)
  deriving DecidableEq

variable {ρ ε τ β : Type}

/-- Code that moves the cursor. -/
abbrev Reading (ρ ε α : Type) := Proc (Cursor ρ) (Failure ε) α

/-! ## The reader -/

/-- `reader::read`: the row that is read next, or none for `false`. -/
def read : Reading ρ ε (Option ρ) := do
  match ← get with
  | none => throw .misuse
  | some [] =>
    set (none : Cursor ρ)
    return none
  | some (r :: rs) =>
    set (some rs)
    return some r

/-- `reader::reset`. -/
def reset (rows : List ρ) : Reading ρ ε Unit := set (some rows)

/-- `reader::get<T>` on the row that was read. -/
def object (get : ρ → Except ε τ) (r : ρ) : Reading ρ ε τ :=
  match get r with
  | .ok obj => pure obj
  | .error e => throw (.initializeFromDb e)

/-! ## Iterators -/

/-- `command::begin<T>`. -/
def begin (get : ρ → Except ε τ) (rows : List ρ) : Reading ρ ε (Iterator τ) := do
  reset rows
  match ← read with
  | some r => return .on (← object get r)
  | none => return .past none

/-- `increment`. -/
def increment (get : ρ → Except ε τ) : Iterator τ → Reading ρ ε (Iterator τ)
  | .on obj => do
    match ← read with
    | none => return .past (some obj)
    | some r => return .on (← object get r)
  | .past _ => throw .nullReader

/-- `n` increments of an iterator. -/
def advance (get : ρ → Except ε τ) : Nat → Iterator τ → Reading ρ ε (Iterator τ)
  | 0, it => return it
  | n + 1, it => do advance get n (← increment get it)

/-- The rest of `for ( iterator i=begin(); i!=end(); ++i )` from an iterator on. -/
def loop (get : ρ → Except ε τ) (body : β → τ → β) : Nat → Iterator τ → β → Reading ρ ε β
  | _, .past _, b => return b
  | 0, .on _, _ => throw .hangs
  | fuel + 1, .on obj, b => do loop get body fuel (← increment get (.on obj)) (body b obj)

/-- The loop. -/
def forEach (get : ρ → Except ε τ) (rows : List ρ) (body : β → τ → β) (b : β) : Reading ρ ε β := do
  loop get body rows.length (← begin get rows) b

/-- `result_set::size`. -/
def size (get : ρ → Except ε τ) (rows : List ρ) : Reading ρ ε Nat :=
  forEach get rows (fun nrows _ => (nrows + 1) % 2 ^ 32) 0

/-- `*ii++=obj` for an `std::insert_iterator`: the container and the place in it. -/
def insertAt (ii : List τ × Nat) (obj : τ) : List τ × Nat := (ii.1.insertIdx ii.2 obj, ii.2 + 1)

/-- `result_set::copy_to`: the container behind it. -/
def copyTo (get : ρ → Except ε τ) (rows : List ρ) (cont : List τ) : Reading ρ ε (List τ) := do
  return (← forEach get rows insertAt (cont, 0)).1

/-! ## Calls on a result set -/

/-- A call on a result set, or the increment of the iterator that the `i`-th `begin` has given. -/
inductive Call (τ : Type) where
  | begin
  | increment (i : Nat)
  | size
  | copyTo (cont : List τ)

/-- A result set with the iterators that its caller holds. -/
structure Held (ρ τ : Type) where
  cursor : Cursor ρ
  iterators : List (Iterator τ)

/-- A result set whose statement is prepared. -/
def Held.start (rows : List ρ) : Held ρ τ := ⟨some rows, []⟩

/-- A call, whether it raises or not. -/
def Call.perform (get : ρ → Except ε τ) (rows : List ρ) (s : Held ρ τ) : Call τ → Held ρ τ
  | .begin =>
    let iterators := match outcome (Iteration.begin get rows) s.cursor with
      | .ok it => s.iterators ++ [it]
      | .error _ => s.iterators
    ⟨after (Iteration.begin get rows) s.cursor, iterators⟩
  | .increment i =>
    match s.iterators[i]? with
    | none => s
    | some it =>
      let iterators := match outcome (Iteration.increment get it) s.cursor with
        | .ok it => s.iterators.set i it
        | .error _ => s.iterators
      ⟨after (Iteration.increment get it) s.cursor, iterators⟩
  | .size => { s with cursor := after (Iteration.size get rows) s.cursor }
  | .copyTo cont => { s with cursor := after (Iteration.copyTo get rows cont) s.cursor }

/-- What a result set gives out whose rows have the objects `objs`. -/
structure Walks (get : ρ → Except ε τ) (rows : List ρ) (objs : List τ) (c : Cursor ρ) :
    Prop where
  /-- `begin`, and any number of increments before the end. -/
  reaches : ∀ k (h : k < objs.length),
    outcome (do advance get k (← begin get rows)) c = .ok (.on objs[k])
  /-- `begin`, and as many increments as there are rows. -/
  ends : ∃ last, outcome (do advance get objs.length (← begin get rows)) c = .ok (.past last)
  counts : outcome (size get rows) c = .ok (objs.length % 2 ^ 32)
  copies : ∀ cont, outcome (copyTo get rows cont) c = .ok (objs ++ cont)

/-! ## The loops -/

section

variable {get : ρ → Except ε τ} {r : ρ} {rs rows : List ρ} {a obj : τ} {objs : List τ}

theorem object_returns (h : get r = .ok obj) (c : Cursor ρ) : Returns (object get r) c obj c := by
  unfold object
  rw [h]
  exact Returns.pure obj c

theorem object_raises {e : ε} (h : get r = .error e) (c : Cursor ρ) :
    Raises (object get r) c (.initializeFromDb e) c := by
  unfold object
  rw [h]
  exact ⟨rfl, rfl⟩

theorem reset_returns (rows : List ρ) (c : Cursor ρ) :
    Returns (reset rows : Reading ρ ε Unit) c () (some rows) := ⟨rfl, rfl⟩

theorem read_returns (r : ρ) (rs : List ρ) :
    Returns (read : Reading ρ ε _) (some (r :: rs)) (some r) (some rs) := ⟨rfl, rfl⟩

theorem increment_returns (h : get r = .ok obj) :
    Returns (increment get (.on a)) (some (r :: rs)) (.on obj) (some rs) :=
  (read_returns r rs).bind ((object_returns h _).bind (Returns.pure _ _))

theorem increment_ends :
    Returns (increment get (.on a)) (some []) (.past (some a)) none := ⟨rfl, rfl⟩

/-- The rows ahead have objects of their own. -/
theorem objects_cons (h : (r :: rs).mapM get = .ok objs) :
    ∃ obj rest, objs = obj :: rest ∧ get r = .ok obj ∧ rs.mapM get = .ok rest := by
  rw [List.mapM_cons] at h
  cases hr : get r with
  | error e =>
    rw [hr] at h
    cases h
  | ok obj =>
    cases hrs : rs.mapM get with
    | error e =>
      rw [hr, hrs] at h
      cases h
    | ok rest =>
      rw [hr, hrs] at h
      exact ⟨obj, rest, (Except.ok.inj h).symm, rfl, rfl⟩

/-- `begin` starts over wherever the cursor is. -/
theorem begin_returns (h : get r = .ok obj) (c : Cursor ρ) :
    Returns (begin get (r :: rs)) c (.on obj) (some rs) :=
  (reset_returns _ c).bind
    ((read_returns r rs).bind ((object_returns h _).bind (Returns.pure _ _)))

theorem begin_ends (c : Cursor ρ) : Returns (begin get []) c (.past none) none := ⟨rfl, rfl⟩

/-- As many increments as there are rows ahead, or fewer. -/
theorem advance_returns (h : rs.mapM get = .ok objs) {k : Nat} (hk : k < (a :: objs).length) :
    ∃ c, Returns (advance get k (.on a)) (some rs) (.on (a :: objs)[k]) c := by
  induction k generalizing rs a objs with
  | zero => exact ⟨_, Returns.pure _ _⟩
  | succ k ih =>
    cases rs with
    | nil =>
      obtain rfl := Except.ok.inj h
      simp at hk
    | cons r rs =>
      obtain ⟨obj, rest, rfl, hr, hrs⟩ := objects_cons h
      obtain ⟨c, hc⟩ := ih (a := obj) hrs (by simpa using hk)
      exact ⟨c, (increment_returns hr).bind hc⟩

/-- One increment more than there are rows ahead. -/
theorem advance_ends (h : rs.mapM get = .ok objs) :
    ∃ last, Returns (advance get (objs.length + 1) (.on a)) (some rs) (.past last) none := by
  induction rs generalizing a objs with
  | nil =>
    obtain rfl := Except.ok.inj h
    exact ⟨some a, increment_ends.bind (Returns.pure _ _)⟩
  | cons r rs ih =>
    obtain ⟨obj, rest, rfl, hr, hrs⟩ := objects_cons h
    obtain ⟨last, hlast⟩ := ih (a := obj) hrs
    exact ⟨last, (increment_returns hr).bind hlast⟩

/-- The loop runs over the objects of the rows ahead. -/
theorem loop_returns {body : β → τ → β} {b : β} (h : rs.mapM get = .ok objs) :
    Returns (loop get body (rs.length + 1) (.on a) b) (some rs) ((a :: objs).foldl body b) none := by
  induction rs generalizing a objs b with
  | nil =>
    obtain rfl := Except.ok.inj h
    exact increment_ends.bind (Returns.pure _ _)
  | cons r rs ih =>
    obtain ⟨obj, rest, rfl, hr, hrs⟩ := objects_cons h
    exact (increment_returns hr).bind (ih hrs)

theorem forEach_returns (h : rows.mapM get = .ok objs) (body : β → τ → β) (b : β) (c : Cursor ρ) :
    Returns (forEach get rows body b) c (objs.foldl body b) none := by
  cases rows with
  | nil =>
    obtain rfl := Except.ok.inj h
    exact (begin_ends c).bind (Returns.pure _ _)
  | cons r rs =>
    obtain ⟨obj, rest, rfl, hr, hrs⟩ := objects_cons h
    exact (begin_returns hr c).bind (loop_returns hrs)

theorem foldl_count (objs : List τ) (n : Nat) :
    objs.foldl (fun nrows _ => (nrows + 1) % 2 ^ 32) (n % 2 ^ 32) = (n + objs.length) % 2 ^ 32 := by
  induction objs generalizing n with
  | nil => rfl
  | cons obj rest ih =>
    have hmod : (n % 2 ^ 32 + 1) % 2 ^ 32 = (n + 1) % 2 ^ 32 := by omega
    rw [List.foldl_cons, hmod, ih, List.length_cons]
    congr 1
    omega

theorem insertIdx_behind (done cont : List τ) (obj : τ) :
    (done ++ cont).insertIdx done.length obj = done ++ obj :: cont := by
  induction done with
  | nil => rfl
  | cons d done ih => simpa using ih

/-- Each object is inserted behind those before it. -/
theorem foldl_insertAt (objs done cont : List τ) :
    objs.foldl insertAt (done ++ cont, done.length) =
      (done ++ objs ++ cont, done.length + objs.length) := by
  induction objs generalizing done with
  | nil => simp
  | cons obj rest ih =>
    have hinsert : insertAt (done ++ cont, done.length) obj =
        (done ++ [obj] ++ cont, (done ++ [obj]).length) := by
      simp [insertAt, insertIdx_behind]
    rw [List.foldl_cons, hinsert, ih]
    simp
    omega

/-- A row whose object is not made ends the loop. -/
theorem loop_raises {body : β → τ → β} {b : β} {e : ε} (h : rs.mapM get = .error e) :
    ∃ c, Raises (loop get body (rs.length + 1) (.on a) b) (some rs) (.initializeFromDb e) c := by
  induction rs generalizing a b with
  | nil => cases h
  | cons r rs ih =>
    rw [List.mapM_cons] at h
    cases hr : get r with
    | error e' =>
      rw [hr] at h
      obtain rfl := Except.error.inj h
      exact ⟨_, ((read_returns r rs).raises ((object_raises hr _).bind _)).bind _⟩
    | ok obj =>
      rw [hr] at h
      cases hrs : rs.mapM get with
      | ok rest =>
        rw [hrs] at h
        cases h
      | error e' =>
        rw [hrs] at h
        obtain rfl := Except.error.inj h
        obtain ⟨c, hc⟩ := ih (a := obj) (b := body b a) hrs
        exact ⟨c, (increment_returns hr).raises hc⟩

theorem forEach_raises {e : ε} (h : rows.mapM get = .error e) (body : β → τ → β) (b : β)
    (c : Cursor ρ) : outcome (forEach get rows body b) c = .error (.initializeFromDb e) := by
  cases rows with
  | nil => cases h
  | cons r rs =>
    rw [List.mapM_cons] at h
    cases hr : get r with
    | error e' =>
      rw [hr] at h
      obtain rfl := Except.error.inj h
      have hbegin : Raises (begin get (r :: rs)) c (.initializeFromDb e') (some rs) :=
        (reset_returns _ c).raises ((read_returns r rs).raises ((object_raises hr _).bind _))
      exact (hbegin.bind _).outcome
    | ok obj =>
      rw [hr] at h
      cases hrs : rs.mapM get with
      | ok rest =>
        rw [hrs] at h
        cases h
      | error e' =>
        rw [hrs] at h
        obtain rfl := Except.error.inj h
        have hloop : ∃ c', Raises (loop get body (rs.length + 1) (.on obj) b) (some rs)
            (.initializeFromDb e') c' := loop_raises hrs
        obtain ⟨c', hc'⟩ := hloop
        exact ((begin_returns hr c).raises hc').outcome

theorem size_eq (h : rows.mapM get = .ok objs) (c : Cursor ρ) :
    outcome (size get rows) c = .ok (objs.length % 2 ^ 32) := by
  have hcount := foldl_count objs 0
  rw [Nat.zero_mod, Nat.zero_add] at hcount
  rw [size, (forEach_returns h _ _ c).outcome, hcount]

theorem copyTo_eq (h : rows.mapM get = .ok objs) (cont : List τ) (c : Cursor ρ) :
    outcome (copyTo get rows cont) c = .ok (objs ++ cont) := by
  have hinsert := foldl_insertAt objs [] cont
  rw [List.nil_append, List.nil_append, List.length_nil] at hinsert
  have hloop := forEach_returns h insertAt (cont, 0) c
  rw [hinsert] at hloop
  have hcopy : Returns (copyTo get rows cont) c (objs ++ cont) none :=
    hloop.bind (Returns.pure _ _)
  exact hcopy.outcome

/-- Wherever the cursor is. -/
theorem walks (h : rows.mapM get = .ok objs) (c : Cursor ρ) : Walks get rows objs c := by
  refine ⟨fun k hk => ?_, ?_, size_eq h c, fun cont => copyTo_eq h cont c⟩
  · cases rows with
    | nil =>
      obtain rfl := Except.ok.inj h
      cases hk
    | cons r rs =>
      obtain ⟨obj, rest, rfl, hr, hrs⟩ := objects_cons h
      obtain ⟨c', hc'⟩ := advance_returns (a := obj) hrs hk
      exact ((begin_returns hr c).bind hc').outcome
  · cases rows with
    | nil =>
      obtain rfl := Except.ok.inj h
      exact ⟨none, ((begin_ends c).bind (Returns.pure _ _)).outcome⟩
    | cons r rs =>
      obtain ⟨obj, rest, rfl, hr, hrs⟩ := objects_cons h
      obtain ⟨last, hlast⟩ := advance_ends (a := obj) hrs
      exact ⟨last, ((begin_returns hr c).bind hlast).outcome⟩

end

/-! ## After any calls -/

/-- After any calls on a result set, `begin` starts at its first row and goes through all of them,
`size` counts them modulo `2 ^ 32` and `copy_to` puts their objects in front; where a row has no
object, its exception is raised. -/
theorem result_set_walks (get : ρ → Except ε τ) (rows : List ρ) (calls : List (Call τ)) :
    let c := (calls.foldl (Call.perform get rows) (Held.start rows)).cursor
    (∀ objs, rows.mapM get = .ok objs → Walks get rows objs c) ∧
      ∀ e, rows.mapM get = .error e →
        outcome (size get rows) c = .error (.initializeFromDb e) ∧
          ∀ cont, outcome (copyTo get rows cont) c = .error (.initializeFromDb e) := by
  intro c
  refine ⟨fun objs h => walks h c, fun e h => ⟨forEach_raises h _ _ c, fun cont => ?_⟩⟩
  unfold copyTo
  rw [outcome_bind_error (forEach_raises h insertAt (cont, 0) c)]

/-- Two rows, after a `size` and an iteration that is left behind. -/
theorem result_set_walks_two :
    let get : Nat → Except Unit Nat := fun r => if r = 0 then .error () else .ok (r * 10)
    Walks get [1, 2] [10, 20]
        ([Call.size, .begin].foldl (Call.perform get [1, 2]) (Held.start [1, 2])).cursor ∧
      outcome (size get [1, 0])
        ([Call.begin].foldl (Call.perform get [1, 0]) (Held.start [1, 0])).cursor =
          .error (.initializeFromDb ()) := by
  intro get
  exact ⟨(result_set_walks get [1, 2] [.size, .begin]).1 [10, 20] rfl,
    ((result_set_walks get [1, 0] [.begin]).2 () rfl).1⟩

/-- A result set of `2 ^ 32` rows has the size 0. -/
theorem size_wraps :
    outcome (size (fun r : Unit => (.ok r : Except Empty Unit)) (List.replicate (2 ^ 32) ()))
        (@Held.start Unit Unit (List.replicate (2 ^ 32) ())).cursor = .ok 0 ∧
      (List.replicate (2 ^ 32) ()).length = 2 ^ 32 := by
  have hget : ∀ l : List Unit, l.mapM (fun r => (.ok r : Except Empty Unit)) = .ok l := by
    intro l
    induction l with
    | nil => rfl
    | cons r rs ih =>
      rw [List.mapM_cons, ih]
      rfl
  refine ⟨?_, List.length_replicate⟩
  rw [size_eq (hget _), List.length_replicate, Nat.mod_self]

end Sqlite.Iteration
