import Spinny.Sqlite.Connection

/-!
# What is left in the buffer

Operations on a connection as data: the text a caller streams and the call it then makes.

* `Call.finish`: what a call does after it has streamed its own text; the calls fall into the
  three kinds of `Call.kind`.
* `finish_checked`, `finish_stored`, `finish_plain`: the buffer and the prepared texts after
  each kind.
* `crashes_iff`: the operations that kill the process, on a connection that is not open.
* `met_iff_clean`: one operation leaves an empty buffer exactly if it meets `Met`.
* `buffer_clean_iff`: the same along every sequence of operations, up to one that kills the
  process.
-/

namespace Sqlite

open Bytes Proc

variable {σ ρ : Type}

/-- The operations that use the streamed text. -/
inductive Call where
  | exec
  | loadStored
  | loadOne
  | loadMany (td : Description) (field value sortBy : Bytes) (limit : Int)
  | loadWhere (td : Description) (cond sortBy : Bytes)
  | loadAll (td : Description) (sortBy : Bytes)
  | loadOneWhere (td : Description) (field value : Bytes)
  | load (td : Description) (value : Int)
  | count (td : Description)
  | save (td : Description) (obj : Saved)
  | command

/-- A call and the text streamed for it before. -/
structure Op where
  text : Bytes
  call : Call

/-- The call on a connection, without its result. -/
def Call.perform (E : Engine σ ρ) : Call → Con σ Unit
  | exec => do let _ ← Sqlite.exec E
  | loadStored => do let _ ← Sqlite.loadStored E
  | loadOne => do let _ ← Sqlite.loadOne E
  | loadMany td field value sortBy limit => do
    let _ ← Sqlite.loadMany E td field value sortBy limit
  | loadWhere td cond sortBy => do let _ ← Sqlite.loadWhere E td cond sortBy
  | loadAll td sortBy => do let _ ← Sqlite.loadAll E td sortBy
  | loadOneWhere td field value => do let _ ← Sqlite.loadOneWhere E td field value
  | load td value => do let _ ← Sqlite.load E td value
  | count td => do let _ ← Sqlite.count E td
  | save td obj => Sqlite.save E td obj
  | command => do let _ ← Sqlite.command E

/-- An operation: the caller streams its text and makes the call. -/
def Op.perform (E : Engine σ ρ) (op : Op) : Con σ Unit := do
  stream op.text
  op.call.perform E

/-! ## The text of an operation -/

/-- `select .. from` of a `load_*`. -/
def selectText (td : Description) : Bytes :=
  lit "select " ++ td.insertFields ++ (lit ",rowid from " ++ td.tableName)

/-- ` order by` of a `load_*`. -/
def orderText (sortBy : Bytes) : Bytes := if sortBy ≠ [] then lit " order by " ++ sortBy else []

/-- The text of `load_many`. -/
def loadManyText (td : Description) (field value sortBy : Bytes) (limit : Int) : Bytes :=
  selectText td ++ (if field ≠ [] then lit " where " ++ field ++ lit "=" ++ value else []) ++
    orderText sortBy ++ (if limit ≠ 0 then lit " limit " ++ showInt limit else [])

/-- The text of `save`. -/
def saveText (td : Description) (obj : Saved) : Bytes :=
  if obj.dbId = 0 then
    (lit "insert into " ++ td.tableName ++ lit "(") ++ td.insertFields ++ lit ") values (" ++
      obj.tableInsertValues ++ lit ")"
  else
    (lit "update " ++ td.tableName ++ lit " set ") ++ obj.tableUpdateValues ++
      (lit " where rowid=" ++ showInt obj.dbId)

/-- What the call streams itself. -/
def Call.text : Call → Bytes
  | exec | loadStored | loadOne | command => []
  | loadMany td field value sortBy limit => loadManyText td field value sortBy limit
  | loadWhere td cond sortBy => selectText td ++ lit " where " ++ cond ++ orderText sortBy
  | loadAll td sortBy => selectText td ++ orderText sortBy
  | loadOneWhere td field value => loadManyText td field value [] 1
  | load td value => loadManyText td (lit "rowid") (showInt value) [] 1
  | count td => lit "select count(*) from " ++ td.tableName
  | save td obj => saveText td obj

/-- The SQL text streamed for an operation. -/
def Op.sql (op : Op) : Bytes := op.text ++ op.call.text

/-- What a call does once its text is streamed. -/
def Call.finish (E : Engine σ ρ) : Call → Con σ Unit
  | exec | count _ | save _ _ => do let _ ← Sqlite.exec E
  | loadStored | loadMany .. | loadWhere .. | loadAll .. => do let _ ← Sqlite.loadStored E
  | loadOne | loadOneWhere .. | load .. => do let _ ← Sqlite.loadOne E
  | command => do let _ ← Sqlite.command E

/-- How a call treats the buffer. -/
inductive Kind where
  /-- Through `exec`, which validates the connection first. -/
  | checked
  /-- Through `command( *this, _cmd.curval() )` and `clear_cmd`. -/
  | stored
  /-- Through `command( *this )`. -/
  | plain
  deriving DecidableEq

/-- The kind of a call. -/
def Call.kind : Call → Kind
  | exec | count _ | save _ _ => .checked
  | loadStored | loadMany .. | loadWhere .. | loadAll .. | loadOne | loadOneWhere .. | load .. =>
    .stored
  | command => .plain

@[simp] theorem outcome_stream (t : Bytes) (c : Connection σ) : outcome (stream t) c = .ok () :=
  rfl

@[simp] theorem after_stream (t : Bytes) (c : Connection σ) :
    after (stream t) c = { c with buffer := c.buffer ++ t } := rfl

@[simp] theorem after_stream_bind {α : Type} (t : Bytes) (f : Unit → Con σ α) (c : Connection σ) :
    after (stream t >>= f) c = after (f ()) { c with buffer := c.buffer ++ t } := by
  rw [after_bind_ok (outcome_stream t c), after_stream]

@[simp] theorem outcome_stream_bind {α : Type} (t : Bytes) (f : Unit → Con σ α)
    (c : Connection σ) :
    outcome (stream t >>= f) c = outcome (f ()) { c with buffer := c.buffer ++ t } := by
  rw [outcome_bind_ok (outcome_stream t c), after_stream]

theorem bind_pure_unit_after {α : Type} (x : Con σ α) (c : Connection σ) :
    after (x >>= fun _ => pure ()) c = after x c := by
  rw [after_bind]
  split <;> simp

theorem loadOne_eq (E : Engine σ ρ) : loadOne E = loadStored E >>= firstOf E := by
  simp only [loadOne, loadStored, bind_assoc, pure_bind]

/-- `load_many` streams its text and loads it. -/
theorem after_loadMany_bind {α : Type} (E : Engine σ ρ) (td : Description)
    (field value sortBy : Bytes) (limit : Int) (f : Command → Con σ α) (c : Connection σ) :
    after (loadMany E td field value sortBy limit >>= f) c =
      after (loadStored E >>= f)
        { c with buffer := c.buffer ++ loadManyText td field value sortBy limit } := by
  simp only [loadMany, loadManyText, selectText, orderText, bind_assoc, after_stream_bind]
  split <;> split <;> split <;> simp [List.append_assoc]

theorem outcome_loadMany_bind {α : Type} (E : Engine σ ρ) (td : Description)
    (field value sortBy : Bytes) (limit : Int) (f : Command → Con σ α) (c : Connection σ) :
    outcome (loadMany E td field value sortBy limit >>= f) c =
      outcome (loadStored E >>= f)
        { c with buffer := c.buffer ++ loadManyText td field value sortBy limit } := by
  simp only [loadMany, loadManyText, selectText, orderText, bind_assoc, outcome_stream_bind]
  split <;> split <;> split <;> simp [List.append_assoc]

/-- **What an operation does**: stream the whole text, then finish. -/
theorem after_perform (E : Engine σ ρ) (op : Op) (c : Connection σ) :
    after (op.perform E) c =
      after (op.call.finish E) { c with buffer := c.buffer ++ op.sql } := by
  obtain ⟨t, call⟩ := op
  simp only [Op.perform, Op.sql, after_stream_bind]
  cases call with
  | exec => simp [Call.perform, Call.finish, Call.text]
  | loadStored => simp [Call.perform, Call.finish, Call.text]
  | loadOne => simp [Call.perform, Call.finish, Call.text]
  | command => simp [Call.perform, Call.finish, Call.text]
  | loadMany td field value sortBy limit =>
    simp only [Call.perform, Call.finish, Call.text, after_loadMany_bind, List.append_assoc]
  | loadOneWhere td field value =>
    simp only [Call.perform, Call.finish, Call.text, loadOneWhere, loadOne_eq, bind_assoc,
      after_loadMany_bind, List.append_assoc]
  | load td value =>
    simp only [Call.perform, Call.finish, Call.text, load, loadOneWhere, loadOne_eq, bind_assoc,
      after_loadMany_bind, List.append_assoc]
  | loadWhere td cond sortBy =>
    simp only [Call.perform, Call.finish, Call.text, loadWhere, selectText, orderText, bind_assoc,
      after_stream_bind]
    split <;> simp [List.append_assoc]
  | loadAll td sortBy =>
    simp only [Call.perform, Call.finish, Call.text, loadAll, selectText, orderText, bind_assoc,
      after_stream_bind]
    split <;> simp [List.append_assoc]
  | count td =>
    simp [Call.perform, Call.finish, Call.text, count, List.append_assoc]
  | save td obj =>
    simp only [Call.perform, Call.finish, Call.text, save, saveText]
    split <;> simp [List.append_assoc]

/-! ## The buffer after each kind of call -/

/-- SQLite accepts what the buffer holds. -/
def Connection.accepts (E : Engine σ ρ) (c : Connection σ) : Bool :=
  match c.db with
  | some d => E.prepare d c.buffer
  | none => false

theorem outcome_sqlite3Prepare (E : Engine σ ρ) {c : Connection σ} (hd : c.db.isSome = true) :
    outcome (sqlite3Prepare E c.buffer) c = .ok (c.accepts E) := by
  rcases c with ⟨b, _ | d, ts⟩
  · cases hd
  · rfl

theorem after_sqlite3Prepare (E : Engine σ ρ) (t : Bytes) (c : Connection σ) :
    after (sqlite3Prepare E t) c = { c with prepared := t :: c.prepared } := by
  rcases c with ⟨b, _ | d, ts⟩ <;> rfl

/-- Neither the buffer nor the trace of prepared texts changes. -/
def SameText (c c' : Connection σ) : Prop := c'.buffer = c.buffer ∧ c'.prepared = c.prepared

instance : Std.Refl (@SameText σ) := ⟨fun _ => ⟨rfl, rfl⟩⟩

instance : IsTrans (Connection σ) SameText :=
  ⟨fun _ _ _ h h' => ⟨h'.1.trans h.1, h'.2.trans h.2⟩⟩

theorem read_keeps (E : Engine σ ρ) (cmd : Command) : Keeps SameText (cmd.read E) := by
  rintro ⟨b, _ | d, ts⟩
  · exact ⟨rfl, rfl⟩
  · simp only [Command.read]
    rw [after_bind_ok (outcome_get _), after_get]
    simp only
    rw [after_bind_ok (outcome_modify _ _), after_modify]
    cases (E.run d cmd.text).2 <;> exact ⟨rfl, rfl⟩

theorem firstOf_keeps (E : Engine σ ρ) (cmd : Command) : Keeps SameText (firstOf E cmd) := by
  refine (read_keeps E cmd).bind fun rows => ?_
  cases rows with
  | nil => exact Keeps.throw _
  | cons row _ => exact Keeps.pure _

theorem outcome_command (E : Engine σ ρ) {c : Connection σ} (hd : c.db.isSome = true) :
    outcome (command E) c = if c.accepts E then .ok ⟨c.buffer⟩ else .error .database := by
  simp only [command]
  rw [outcome_bind_ok (outcome_get c), after_get, outcome_bind_ok (outcome_sqlite3Prepare E hd)]
  split <;> rfl

theorem after_command (E : Engine σ ρ) {c : Connection σ} (hd : c.db.isSome = true) :
    after (command E) c = { c with buffer := [], prepared := c.buffer :: c.prepared } := by
  simp only [command]
  rw [after_bind_ok (outcome_get c), after_get, after_bind_ok (outcome_sqlite3Prepare E hd),
    after_sqlite3Prepare]
  split <;> rfl

/-- `command` empties the buffer whether SQLite accepts its text or not. -/
theorem finish_plain (E : Engine σ ρ) {call : Call} (hk : call.kind = .plain)
    {c : Connection σ} (hd : c.db.isSome = true) :
    (after (call.finish E) c).buffer = [] ∧
      (after (call.finish E) c).prepared = c.buffer :: c.prepared := by
  cases call <;> cases hk
  rw [Call.finish, bind_pure_unit_after, after_command E hd]
  exact ⟨rfl, rfl⟩

theorem after_exec (E : Engine σ ρ) {c : Connection σ} (h : c.db.isSome = true) :
    (after (exec E) c).buffer = [] ∧ (after (exec E) c).prepared = c.buffer :: c.prepared := by
  have hv : outcome validateDb c = .ok () := by
    simp only [validateDb]
    rw [outcome_bind_ok (outcome_get c), if_pos h, outcome_pure]
  have hs : after validateDb c = c := by
    simp only [validateDb]
    rw [after_bind_ok (outcome_get c), if_pos h, after_pure, after_get]
  have hc := after_command E h
  rw [exec, after_bind_ok hv, hs]
  by_cases ha : c.accepts E = true
  · have ho : outcome (command E) c = .ok ⟨c.buffer⟩ := by rw [outcome_command E h, if_pos ha]
    rw [after_bind_ok ho, hc]
    have hk : Keeps SameText (do return (← Command.read E ⟨c.buffer⟩).head?) :=
      (read_keeps E ⟨c.buffer⟩).bind fun _ => Keeps.pure _
    exact hk _
  · have ho : outcome (command E) c = .error .database := by rw [outcome_command E h, if_neg ha]
    rw [after_bind_error ho, hc]
    exact ⟨rfl, rfl⟩

/-- `exec` on a connection that is not open raises before it looks at the buffer. -/
theorem after_exec_of_closed (E : Engine σ ρ) {c : Connection σ} (h : c.db.isSome = false) :
    after (exec E) c = c := by
  rcases c with ⟨b, _ | d, ts⟩
  · rfl
  · cases h

theorem finish_checked (E : Engine σ ρ) {call : Call} (hk : call.kind = .checked)
    (c : Connection σ) :
    ((after (call.finish E) c).buffer = if c.db.isSome then [] else c.buffer) ∧
      (after (call.finish E) c).prepared =
        if c.db.isSome then c.buffer :: c.prepared else c.prepared := by
  have hf : after (call.finish E) c = after (exec E) c := by
    cases call <;> cases hk <;> exact bind_pure_unit_after _ c
  rw [hf]
  cases h : c.db.isSome with
  | true => simpa using after_exec E h
  | false => simp [after_exec_of_closed E h]

theorem after_loadStored (E : Engine σ ρ) {c : Connection σ} (hd : c.db.isSome = true) :
    after (loadStored E) c =
      { c with
        buffer := if c.accepts E then [] else c.buffer, prepared := c.buffer :: c.prepared } := by
  simp only [loadStored, commandText]
  rw [after_bind_ok (outcome_get c), after_get, bind_assoc,
    after_bind_ok (outcome_sqlite3Prepare E hd), after_sqlite3Prepare]
  split <;> rfl

theorem outcome_loadStored (E : Engine σ ρ) {c : Connection σ} (hd : c.db.isSome = true) :
    outcome (loadStored E) c = if c.accepts E then .ok ⟨c.buffer⟩ else .error .database := by
  simp only [loadStored, commandText]
  rw [outcome_bind_ok (outcome_get c), after_get, bind_assoc,
    outcome_bind_ok (outcome_sqlite3Prepare E hd)]
  split <;> rfl

/-- The object that `load_one` returns, or `not_found`. -/
def oneOf (rows : List ρ) : Except Error ρ :=
  match rows with
  | row :: _ => .ok row
  | [] => .error .notFound

/-- `load_one( field, value )` on an open connection whose statements can be stepped: it raises
`database_error` if SQLite refuses its text, and else finds a row or not. -/
theorem outcome_loadOneWhere (E : Engine σ ρ) (td : Description) (field value : Bytes)
    {c : Connection σ} {d : σ} (hd : c.db = some d) (hrun : ∀ d t, (E.run d t).2.isSome = true) :
    outcome (loadOneWhere E td field value) c =
      if E.prepare d (c.buffer ++ loadManyText td field value [] 1) then
        oneOf ((E.run d (c.buffer ++ loadManyText td field value [] 1)).2.getD [])
      else .error .database := by
  rw [loadOneWhere, outcome_loadMany_bind]
  set c' : Connection σ := { c with buffer := c.buffer ++ loadManyText td field value [] 1 } with hc'
  have hb : c'.buffer = c.buffer ++ loadManyText td field value [] 1 := rfl
  have hacc : c'.accepts E = E.prepare d c'.buffer := by
    simp [hc', Connection.accepts, hd]
  have hopen : c'.db.isSome = true := by simp [hc', hd]
  rw [← hb, ← hacc]
  cases ha : c'.accepts E with
  | false =>
    have ho : outcome (loadStored E) c' = .error .database := by
      rw [outcome_loadStored E hopen, ha, if_neg (by simp)]
    rw [outcome_bind_error ho, if_neg (by simp)]
  | true =>
    have ho : outcome (loadStored E) c' = .ok ⟨c'.buffer⟩ := by
      rw [outcome_loadStored E hopen, ha, if_pos rfl]
    have hdb : (after (loadStored E) c').db = some d := by
      rw [after_loadStored E hopen]
      exact hd
    obtain ⟨rows, hrows⟩ := Option.isSome_iff_exists.mp (hrun d c'.buffer)
    have hread : outcome (Command.read E ⟨c'.buffer⟩) (after (loadStored E) c') = .ok rows := by
      rw [Command.read, outcome_bind_ok (outcome_get _), after_get, hdb]
      simp only
      rw [outcome_bind_ok (outcome_modify _ _), hrows]
      rfl
    rw [outcome_bind_ok ho, firstOf, outcome_bind_ok hread, if_pos rfl, hrows]
    cases rows <;> rfl

/-- A `load_*` empties the buffer only if SQLite accepts its text. -/
theorem finish_stored (E : Engine σ ρ) {call : Call} (hk : call.kind = .stored)
    {c : Connection σ} (hd : c.db.isSome = true) :
    ((after (call.finish E) c).buffer = if c.accepts E then [] else c.buffer) ∧
      (after (call.finish E) c).prepared = c.buffer :: c.prepared := by
  have hl := after_loadStored E hd
  have key : SameText (after (loadStored E) c) (after (call.finish E) c) := by
    cases call <;> cases hk
    case loadStored | loadMany | loadWhere | loadAll =>
      rw [Call.finish, bind_pure_unit_after]
      exact ⟨rfl, rfl⟩
    all_goals
      rw [Call.finish, bind_pure_unit_after, loadOne_eq, after_bind]
      split
      · exact firstOf_keeps E _ _
      · exact ⟨rfl, rfl⟩
  rw [key.1, key.2, hl]
  exact ⟨rfl, rfl⟩

/-! ## Operations on a connection that is not open -/

/-- The operation kills the process. -/
def Crashes (E : Engine σ ρ) (c : Connection σ) (op : Op) : Prop :=
  outcome (op.perform E) c = .error .crash

instance (E : Engine σ ρ) (c : Connection σ) (op : Op) : Decidable (Crashes E c op) :=
  match h : outcome (op.perform E) c with
  | .error .crash => .isTrue h
  | .error .notOpen => .isFalse (by simp [Crashes, h])
  | .error .database => .isFalse (by simp [Crashes, h])
  | .error .notFound => .isFalse (by simp [Crashes, h])
  | .ok _ => .isFalse (by simp [Crashes, h])

theorem outcome_perform (E : Engine σ ρ) (op : Op) (c : Connection σ) :
    outcome (op.perform E) c =
      outcome (op.call.finish E) { c with buffer := c.buffer ++ op.sql } := by
  obtain ⟨t, call⟩ := op
  simp only [Op.perform, Op.sql, outcome_stream_bind]
  cases call with
  | exec => simp [Call.perform, Call.finish, Call.text]
  | loadStored => simp [Call.perform, Call.finish, Call.text]
  | loadOne => simp [Call.perform, Call.finish, Call.text]
  | command => simp [Call.perform, Call.finish, Call.text]
  | loadMany td field value sortBy limit =>
    simp only [Call.perform, Call.finish, Call.text, outcome_loadMany_bind, List.append_assoc]
  | loadOneWhere td field value =>
    simp only [Call.perform, Call.finish, Call.text, loadOneWhere, loadOne_eq, bind_assoc,
      outcome_loadMany_bind, List.append_assoc]
  | load td value =>
    simp only [Call.perform, Call.finish, Call.text, load, loadOneWhere, loadOne_eq, bind_assoc,
      outcome_loadMany_bind, List.append_assoc]
  | loadWhere td cond sortBy =>
    simp only [Call.perform, Call.finish, Call.text, loadWhere, selectText, orderText, bind_assoc,
      outcome_stream_bind]
    split <;> simp [List.append_assoc]
  | loadAll td sortBy =>
    simp only [Call.perform, Call.finish, Call.text, loadAll, selectText, orderText, bind_assoc,
      outcome_stream_bind]
    split <;> simp [List.append_assoc]
  | count td =>
    simp [Call.perform, Call.finish, Call.text, count, List.append_assoc]
  | save td obj =>
    simp only [Call.perform, Call.finish, Call.text, save, saveText]
    split <;> simp [List.append_assoc]

/-- On an open connection the statement itself comes to rows or to an exception. -/
theorem read_never (E : Engine σ ρ) (cmd : Command) : Never (· = .crash) (cmd.read E) := by
  refine Never.get.bind fun c => ?_
  cases c.db with
  | none => exact Never.throw (by simp)
  | some d =>
    refine (Never.change _).bind fun _ => ?_
    cases (E.run d cmd.text).2 with
    | none => exact Never.throw (by simp)
    | some rows => exact Never.pure _

theorem firstOf_never (E : Engine σ ρ) (cmd : Command) : Never (· = .crash) (firstOf E cmd) := by
  refine (read_never E cmd).bind fun rows => ?_
  cases rows with
  | nil => exact Never.throw (by simp)
  | cons row _ => exact Never.pure _

theorem bind_ne_crash {α β : Type} {x : Con σ α} {f : α → Con σ β} {c : Connection σ}
    (hx : outcome x c ≠ .error .crash) (hf : ∀ a, Never (· = .crash) (f a)) :
    outcome (x >>= f) c ≠ .error .crash := by
  intro h
  cases ho : outcome x c with
  | ok a =>
    rw [outcome_bind_ok ho] at h
    exact hf a _ _ h rfl
  | error e =>
    rw [outcome_bind_error ho] at h
    obtain rfl := Except.error.inj h
    exact hx ho

theorem command_ne_crash (E : Engine σ ρ) {c : Connection σ} (hd : c.db.isSome = true) :
    outcome (command E) c ≠ .error .crash := by
  rw [outcome_command E hd]
  split <;> simp

theorem loadStored_ne_crash (E : Engine σ ρ) {c : Connection σ} (hd : c.db.isSome = true) :
    outcome (loadStored E) c ≠ .error .crash := by
  rw [outcome_loadStored E hd]
  split <;> simp

theorem exec_ne_crash (E : Engine σ ρ) {c : Connection σ} (hd : c.db.isSome = true) :
    outcome (exec E) c ≠ .error .crash := by
  rcases c with ⟨b, _ | d, ts⟩
  · cases hd
  · refine bind_ne_crash (x := command E) (command_ne_crash E hd) fun cmd => ?_
    exact (read_never E cmd).bind fun _ => Never.pure _

/-- On an open connection no operation kills the process. -/
theorem finish_ne_crash (E : Engine σ ρ) (call : Call) {c : Connection σ}
    (hd : c.db.isSome = true) : outcome (call.finish E) c ≠ .error .crash := by
  cases call with
  | exec | count | save => exact bind_ne_crash (exec_ne_crash E hd) fun _ => Never.pure _
  | command => exact bind_ne_crash (command_ne_crash E hd) fun _ => Never.pure _
  | loadStored | loadMany | loadWhere | loadAll =>
    exact bind_ne_crash (loadStored_ne_crash E hd) fun _ => Never.pure _
  | loadOne | loadOneWhere | load =>
    refine bind_ne_crash ?_ fun _ => Never.pure _
    rw [loadOne_eq]
    exact bind_ne_crash (loadStored_ne_crash E hd) (firstOf_never E)

/-- **Which operations kill the process**: those that reach `sqlite3_prepare` on a connection
that is not open. -/
theorem crashes_iff (E : Engine σ ρ) (c : Connection σ) (op : Op) :
    Crashes E c op ↔ c.db.isSome = false ∧ op.call.kind ≠ .checked := by
  rw [Crashes, outcome_perform]
  cases hd : c.db.isSome with
  | true => simp [finish_ne_crash E op.call (c := { c with buffer := c.buffer ++ op.sql }) hd]
  | false =>
    obtain ⟨b, _ | d, ts⟩ := c
    · obtain ⟨t, call⟩ := op
      cases call <;> simp [Call.kind] <;> first
        | rfl
        | exact fun h => nomatch h
    · cases hd

/-! ## Sequences of operations -/

/-- What keeps an operation from leaving text behind: on an open connection a `load_*` has a text
that SQLite accepts, and the operations that go through `exec` have an open connection. (An empty
text leaves nothing.) -/
def Met (E : Engine σ ρ) (c : Connection σ) (op : Op) : Prop :=
  c.buffer ++ op.sql = [] ∨
    match op.call.kind with
    | .checked => c.db.isSome = true
    | .stored => ∀ d, c.db = some d → E.prepare d (c.buffer ++ op.sql) = true
    | .plain => True

/-- If the operation returns or throws, it leaves an empty buffer, and has given SQLite no text
but its own. -/
def Clean (E : Engine σ ρ) (c : Connection σ) (op : Op) : Prop :=
  ¬Crashes E c op → (after (op.perform E) c).buffer = [] ∧
    ∃ texts, (after (op.perform E) c).prepared = texts ++ c.prepared ∧ ∀ t ∈ texts, t = op.sql

/-- A connection on which nothing has been streamed yet. -/
def Connection.fresh (db : Option σ) : Connection σ := ⟨[], db, []⟩

/-- The operations on a connection, one after the other; it stops where the process is killed. -/
def session (E : Engine σ ρ) : Machine (Connection σ) Op Unit :=
  ⟨fun c op => (after (op.perform E) c, if Crashes E c op then some () else none)⟩

/-- One operation on a connection with an empty buffer. -/
theorem met_iff_clean (E : Engine σ ρ) {c : Connection σ} (hc : c.buffer = []) (op : Op) :
    Met E c op ↔ Clean E c op := by
  unfold Met Clean
  rw [crashes_iff, after_perform, hc, List.nil_append]
  set c' : Connection σ := { c with buffer := op.sql } with hc'
  have hb : c'.buffer = op.sql := rfl
  cases hd : c.db.isSome with
  | false =>
    have hnone : c.db = none := by simpa using hd
    cases hk : op.call.kind with
    | plain => simp
    | stored => simp [hnone]
    | checked =>
      obtain ⟨h₁, h₂⟩ := finish_checked E hk c'
      have hd' : c'.db.isSome = false := hd
      rw [h₁, h₂, hd', hb]
      simp only [Bool.false_eq_true, or_false, ne_eq, not_true_eq_false, and_false,
        not_false_eq_true, if_false, forall_const]
      exact ⟨fun h => ⟨h, [], rfl, by simp⟩, fun h => h.1⟩
  | true =>
    have hopen : c'.db.isSome = true := hd
    have hown : ∃ texts, op.sql :: c.prepared = texts ++ c.prepared ∧ ∀ t ∈ texts, t = op.sql :=
      ⟨[op.sql], rfl, by simp⟩
    simp only [Bool.true_eq_false, false_and, not_false_eq_true, forall_const]
    cases hk : op.call.kind with
    | plain =>
      obtain ⟨h₁, h₂⟩ := finish_plain E hk hopen
      rw [h₁, h₂, hb]
      exact iff_of_true (.inr trivial) ⟨rfl, hown⟩
    | checked =>
      obtain ⟨h₁, h₂⟩ := finish_checked E hk c'
      rw [h₁, h₂, hb, hopen]
      exact iff_of_true (.inr trivial) ⟨rfl, hown⟩
    | stored =>
      obtain ⟨h₁, h₂⟩ := finish_stored E hk hopen
      obtain ⟨d, hdb⟩ := Option.isSome_iff_exists.mp hd
      have hacc : c'.accepts E = E.prepare d op.sql := by simp [Connection.accepts, hc', hdb]
      rw [h₁, h₂, hb, hacc]
      simp only [hdb, Option.some.injEq, forall_eq']
      by_cases ha : E.prepare d op.sql = true
      · rw [if_pos ha]
        exact iff_of_true (.inr ha) ⟨rfl, hown⟩
      · rw [if_neg ha]
        exact ⟨fun h => ⟨h.resolve_right ha, hown⟩, fun h => .inl h.1⟩

/-- **The buffer along a sequence of operations**: every operation that returns or throws leaves
an empty buffer and has prepared its own text only, if and only if every one meets `Met`. -/
theorem buffer_clean_iff (E : Engine σ ρ) (db : Option σ) (ops : List Op) :
    (session E).Along (Met E) (Connection.fresh db) ops ↔
      (session E).Along (Clean E) (Connection.fresh db) ops := by
  have key : ∀ c : Connection σ, c.buffer = [] →
      ((session E).Along (Met E) c ops ↔ (session E).Along (Clean E) c ops) := by
    intro c hc
    induction ops generalizing c with
    | nil => exact Iff.rfl
    | cons op ops ih =>
      by_cases hcrash : Crashes E c op
      · have hst : (session E).step c op = (after (op.perform E) c, some ()) := by
          simp [session, hcrash]
        rw [Machine.along_cons_stop hst, Machine.along_cons_stop hst, met_iff_clean E hc]
      · have hst : (session E).step c op = (after (op.perform E) c, none) := by
          simp [session, hcrash]
        rw [Machine.along_cons_go hst, Machine.along_cons_go hst, met_iff_clean E hc]
        exact and_congr_right fun h => ih _ (h hcrash).1
  exact key _ rfl

/-- An engine that refuses a text with an open quote, as the tokenizer of SQLite does. -/
def quoting : Engine Unit Bytes where
  prepare _ t := t.count 39 % 2 == 0
  run d _ := (d, some [])

/-- The sort order a client asked for is refused; `count` then prepares both texts as one. -/
def refusedList : List Op :=
  [⟨lit "select  name,rowid from playlists order by ' asc", .loadStored⟩, ⟨[], .count ⟨lit "users", []⟩⟩]

/-- The buffer is not always empty: a refused `load_stored` leaves its text to the next
operation. -/
theorem not_always_clean : ¬ ∀ (E : Engine Unit Bytes) (db : Option Unit) (ops : List Op),
    (session E).Along (Clean E) (Connection.fresh db) ops := by
  intro h
  have hopen : ∀ op, ¬Crashes quoting (Connection.fresh (some ())) op := by
    intro op hcrash
    cases ((crashes_iff quoting _ op).mp hcrash).1
  have h₁ := ((h quoting (some ()) refusedList).head (hopen _)).1
  revert h₁
  decide

end Sqlite
