import Mathlib

/-!
# The connections of the server

`server.cpp`, `connection_manager.cpp` and `connection.cpp`: the functions that asio calls when an
operation completes, with the set of the manager, the sockets and the outstanding operations as
the state. What the parser comes to on a read is left open.

* `step`: one completion is delivered, or `server::handle_stop` runs.
* `Stage`: how far a connection is; every connection is in one of them in every state reached.
* `reach_orderly`: one operation, one reply and no read after it, and no connection in the set of
  the manager without an operation on an open socket.
-/

namespace Ews

/-- `asio::error` as far as the handlers tell it apart. -/
inductive Ending where
  | success
  /-- `operation_aborted`. -/
  | aborted
  /-- Any other error. -/
  | failed
  deriving DecidableEq

/-- An asynchronous operation. -/
inductive Op where
  | accept
  | read
  | write
  deriving DecidableEq

/-- A `connection`. -/
structure Connection where
  socketOpen : Bool
  socketDetached : Bool
  /-- The reads and writes started on the socket, the latest first. -/
  started : List Op

/-- A new connection: its socket is not open. -/
def Connection.fresh : Connection := ⟨false, false, []⟩

/-- The server, its connections by number, and the operations that asio has yet to complete. -/
structure Server where
  acceptorOpen : Bool
  newConnection : Nat
  /-- `connection_manager::connections_`. -/
  connections : Finset Nat
  conn : Nat → Connection
  pending : List (Op × Nat)

/-- A completion that asio delivers, or the call posted by `server::stop`. -/
inductive Event where
  | accepted (e : Ending)
  /-- With what `parse` comes to if the read succeeded; `none` is `boost::indeterminate`. -/
  | hasRead (c : Nat) (e : Ending) (parsed : Option Bool)
  | wrote (c : Nat) (e : Ending)
  | stop
  deriving DecidableEq

namespace Server

/-! ## The operations -/

/-- A change of one connection. -/
def modifyConn (s : Server) (c : Nat) (f : Connection → Connection) : Server :=
  { s with conn := Function.update s.conn c (f (s.conn c)) }

/-- `async_read_some` or `async_write` on the socket of a connection. -/
def start (s : Server) (op : Op) (c : Nat) : Server :=
  { s.modifyConn c fun k => { k with started := op :: k.started } with
    pending := (op, c) :: s.pending }

/-- `acceptor_.async_accept` into the socket of `new_connection_`. -/
def asyncAccept (s : Server) : Server :=
  { s with pending := (.accept, s.newConnection) :: s.pending }

/-- `connection::stop`. -/
def stopConnection (s : Server) (c : Nat) : Server :=
  if (s.conn c).socketDetached then s
  else s.modifyConn c fun k => { k with socketOpen := false }

/-- `connection_manager::start`. -/
def managerStart (s : Server) (c : Nat) : Server :=
  { s with connections := insert c s.connections }.start .read c

/-- `connection_manager::remove`. -/
def managerRemove (s : Server) (c : Nat) : Server :=
  { s with connections := s.connections.erase c }

/-- `connection_manager::stop`. -/
def managerStop (s : Server) (c : Nat) : Server := (s.managerRemove c).stopConnection c

/-- `connection_manager::stop_all`. -/
def managerStopAll (s : Server) : Server where
  acceptorOpen := s.acceptorOpen
  newConnection := s.newConnection
  connections := ∅
  conn c := if c ∈ s.connections then (s.stopConnection c).conn c else s.conn c
  pending := s.pending

/-! ## The handlers -/

/-- `connection::handle_read`. -/
def handleRead (s : Server) (c : Nat) (e : Ending) (parsed : Option Bool) : Server :=
  match e with
  | .success =>
    match parsed with
    | some true => if (s.conn c).socketDetached then s else s.start .write c
    | some false => s.start .write c
    | none => s.start .read c
  | .aborted => s
  | .failed => s.managerStop c

/-- `connection::handle_write`. -/
def handleWrite (s : Server) (c : Nat) (e : Ending) : Server :=
  if e ≠ .aborted then s.managerStop c else s

/-- `server::handle_accept`. -/
def handleAccept (s : Server) (e : Ending) : Server :=
  if e = .success then
    { s.managerStart s.newConnection with newConnection := s.newConnection + 1 }.asyncAccept
  else s

/-- `server::handle_stop`. -/
def handleStop (s : Server) : Server := { s with acceptorOpen := false }.managerStopAll

/-- The server as its constructor leaves it. -/
def fresh : Server :=
  asyncAccept ⟨true, 0, ∅, fun _ => .fresh, []⟩

/-- An outstanding operation completes. -/
def complete (s : Server) (op : Op) (c : Nat) : Server :=
  { s with pending := s.pending.erase (op, c) }

/-- One event; `none` where asio cannot deliver it. An accepted connection has an open socket. -/
def step (s : Server) : Event → Option Server
  | .accepted e =>
    if (Op.accept, s.newConnection) ∈ s.pending ∧ (e = .aborted → s.acceptorOpen = false) then
      let s := s.complete .accept s.newConnection
      let s := if e = .success then
        s.modifyConn s.newConnection fun k => { k with socketOpen := true } else s
      some (s.handleAccept e)
    else none
  | .hasRead c e parsed =>
    if (Op.read, c) ∈ s.pending ∧ (e = .aborted → (s.conn c).socketOpen = false) then
      some ((s.complete .read c).handleRead c e parsed)
    else none
  | .wrote c e =>
    if (Op.write, c) ∈ s.pending ∧ (e = .aborted → (s.conn c).socketOpen = false) then
      some ((s.complete .write c).handleWrite c e)
    else none
  | .stop => some s.handleStop

/-- The states that a run reaches. -/
inductive Reach : Server → Prop where
  | fresh : Reach fresh
  | step {s s' : Server} (ev : Event) : Reach s → s.step ev = some s' → Reach s'

/-- The operations outstanding on a connection. -/
def outstanding (s : Server) (c : Nat) : List Op :=
  (s.pending.filter fun p => p.2 == c).map Prod.fst

@[simp] theorem mem_outstanding {s : Server} {op : Op} {c : Nat} :
    op ∈ s.outstanding c ↔ (op, c) ∈ s.pending := by
  simp [outstanding]

/-! ## What the operations change -/

section

variable (s : Server) (op : Op) (c : Nat)

@[simp] theorem start_connections : (s.start op c).connections = s.connections := rfl

@[simp] theorem start_newConnection : (s.start op c).newConnection = s.newConnection := rfl

@[simp] theorem complete_conn : (s.complete op c).conn = s.conn := rfl

@[simp] theorem complete_connections : (s.complete op c).connections = s.connections := rfl

@[simp] theorem complete_newConnection :
    (s.complete op c).newConnection = s.newConnection := rfl

theorem start_conn_self :
    (s.start op c).conn c = { s.conn c with started := op :: (s.conn c).started } := by
  simp [start, modifyConn]

theorem start_conn_ne {d : Nat} (h : d ≠ c) : (s.start op c).conn d = s.conn d := by
  simp [start, modifyConn, h]

theorem outstanding_start_self : (s.start op c).outstanding c = op :: s.outstanding c := by
  simp [start, modifyConn, outstanding]

theorem outstanding_start_ne {d : Nat} (h : d ≠ c) :
    (s.start op c).outstanding d = s.outstanding d := by
  simp [start, modifyConn, outstanding, Ne.symm h]

theorem outstanding_complete_ne {d : Nat} (h : d ≠ c) :
    (s.complete op c).outstanding d = s.outstanding d := by
  have key : ∀ l : List (Op × Nat),
      ((l.erase (op, c)).filter fun p => p.2 == d) = l.filter fun p => p.2 == d := by
    intro l
    induction l with
    | nil => rfl
    | cons p l ih =>
      by_cases hp : p = (op, c)
      · subst hp
        simp [Ne.symm h]
      · rw [List.erase_cons_tail (by simpa using hp), List.filter_cons, List.filter_cons, ih]
  simp only [outstanding, complete, key]

/-- A connection whose only operation completes has none left. -/
theorem outstanding_complete_self (h : s.outstanding c = [op]) :
    (s.complete op c).outstanding c = [] := by
  have key : ∀ l : List (Op × Nat), (l.filter fun p => p.2 == c) = [(op, c)] →
      ((l.erase (op, c)).filter fun p => p.2 == c) = [] := by
    intro l
    induction l with
    | nil => simp
    | cons p l ih =>
      intro hl
      by_cases hp : p = (op, c)
      · subst hp
        simpa using hl
      · have hne : ¬ (p.2 == c) = true := by
          intro hc
          rw [List.filter_cons_of_pos (by simpa using hc)] at hl
          exact hp (List.cons.inj hl).1
        rw [List.filter_cons_of_neg (by simpa using hne)] at hl
        rw [List.erase_cons_tail (by simpa using hp), List.filter_cons_of_neg (by simpa using hne)]
        exact ih hl
  have hl : (s.pending.filter fun p => p.2 == c) = [(op, c)] := by
    obtain ⟨p, hp, hop⟩ := List.map_eq_singleton_iff.mp h
    have hpc : p.2 = c := by
      have : p ∈ s.pending.filter fun p => p.2 == c := by simp [hp]
      simpa using (List.mem_filter.mp this).2
    rw [hp, ← hop, ← hpc]
  simp only [outstanding, complete, key _ hl, List.map_nil]

end

/-! ## How far a connection is -/

/-- How far the connection `c` is, with `next` the number of `new_connection_`, by the operations
outstanding on it, its fields and whether it is in the set. -/
inductive Stage (next c : Nat) (ops : List Op) (k : Connection) (managed : Prop) : Prop where
  | new (hc : next ≤ c) (hops : ops = [] ∨ c = next ∧ ops = [.accept]) (hk : k.started = [])
      (hm : ¬ managed)
  | reading (hc : c < next) (hops : ops = [.read]) (hk : .write ∉ k.started)
      (hm : managed → k.socketOpen = true)
  | writing (hc : c < next) (hops : ops = [.write])
      (hk : ∃ reads, k.started = .write :: reads ∧ .write ∉ reads)
      (hm : managed → k.socketOpen = true)
  | done (hc : c < next) (hops : ops = []) (hk : .write ∉ k.started.tail) (hm : ¬ managed)

/-- The stage of a connection of the server. -/
def StageOf (s : Server) (c : Nat) : Prop :=
  Stage s.newConnection c (s.outstanding c) (s.conn c) (c ∈ s.connections)

/-- Every connection is in a stage, and no socket is detached. -/
structure Staged (s : Server) : Prop where
  stage : ∀ c, s.StageOf c
  attached : ∀ c, (s.conn c).socketDetached = false

/-- An operation outstanding on a connection is the only one. -/
theorem StageOf.outstanding_eq {s : Server} {op : Op} {c : Nat} (h : s.StageOf c)
    (hp : (op, c) ∈ s.pending) : s.outstanding c = [op] := by
  rw [← mem_outstanding] at hp
  rcases h with ⟨-, ho | ⟨-, ho⟩, -, -⟩ | ⟨-, ho, -, -⟩ | ⟨-, ho, -, -⟩ | ⟨-, ho, -, -⟩
  all_goals simp_all

section

variable {s : Server} {op : Op} {c d : Nat}

theorem StageOf.start_ne (hd : d ≠ c) (h : s.StageOf d) : (s.start op c).StageOf d := by
  unfold StageOf
  rw [outstanding_start_ne _ _ _ hd, start_conn_ne _ _ _ hd]
  exact h

theorem StageOf.complete_ne (hd : d ≠ c) (h : s.StageOf d) : (s.complete op c).StageOf d := by
  unfold StageOf
  rw [outstanding_complete_ne _ _ _ hd]
  exact h

theorem managerStop_conn_self (h : (s.conn c).socketDetached = false) :
    (s.managerStop c).conn c = { s.conn c with socketOpen := false } := by
  simp [managerStop, stopConnection, managerRemove, modifyConn, h]

theorem managerStop_conn_ne (hd : d ≠ c) : (s.managerStop c).conn d = s.conn d := by
  unfold managerStop stopConnection
  split
  · rfl
  · simp [managerRemove, modifyConn, hd]

theorem managerStop_connections : (s.managerStop c).connections = s.connections.erase c := by
  unfold managerStop stopConnection
  split <;> rfl

theorem managerStop_newConnection : (s.managerStop c).newConnection = s.newConnection := by
  unfold managerStop stopConnection
  split <;> rfl

theorem managerStop_pending : (s.managerStop c).pending = s.pending := by
  unfold managerStop stopConnection
  split <;> rfl

theorem outstanding_managerStop : (s.managerStop c).outstanding d = s.outstanding d := by
  unfold outstanding
  rw [managerStop_pending]

theorem StageOf.managerStop_ne (hd : d ≠ c) (h : s.StageOf d) :
    (s.managerStop c).StageOf d := by
  unfold StageOf at h ⊢
  rw [outstanding_managerStop, managerStop_conn_ne hd, managerStop_newConnection,
    managerStop_connections, Finset.mem_erase, and_iff_right hd]
  exact h

end

/-- A connection none of whose operations is outstanding, all others being in a stage. -/
structure Resting (s : Server) (c : Nat) : Prop where
  others : ∀ d, d ≠ c → s.StageOf d
  attached : ∀ d, (s.conn d).socketDetached = false
  known : c < s.newConnection
  idle : s.outstanding c = []
  socketOpen : c ∈ s.connections → (s.conn c).socketOpen = true

namespace Resting

variable {s : Server} {c : Nat}

/-- Starting an operation on the connection. -/
theorem start (h : s.Resting c) (op : Op) (hc : (s.start op c).StageOf c) :
    (s.start op c).Staged where
  stage d := by
    by_cases hd : d = c
    · exact hd ▸ hc
    · exact (h.others d hd).start_ne hd
  attached d := by
    by_cases hd : d = c
    · rw [hd, start_conn_self]
      exact h.attached c
    · rw [start_conn_ne _ _ _ hd]
      exact h.attached d

theorem startRead (h : s.Resting c) (hk : .write ∉ (s.conn c).started) :
    (s.start .read c).Staged := by
  refine h.start .read (.reading h.known ?_ ?_ ?_)
  · rw [outstanding_start_self, h.idle]
  · rw [start_conn_self]
    simpa using hk
  · rw [start_conn_self]
    exact h.socketOpen

theorem startWrite (h : s.Resting c) (hk : .write ∉ (s.conn c).started) :
    (s.start .write c).Staged := by
  refine h.start .write (.writing h.known ?_ ⟨_, ?_, hk⟩ ?_)
  · rw [outstanding_start_self, h.idle]
  · rw [start_conn_self]
  · rw [start_conn_self]
    exact h.socketOpen

/-- A connection outside the set rests for good. -/
theorem done (h : s.Resting c) (hk : .write ∉ (s.conn c).started.tail) (hm : c ∉ s.connections) :
    s.Staged where
  stage d := by
    by_cases hd : d = c
    · exact hd ▸ .done h.known h.idle hk hm
    · exact h.others d hd
  attached := h.attached

theorem managerStop (h : s.Resting c) (hk : .write ∉ (s.conn c).started.tail) :
    (s.managerStop c).Staged where
  stage d := by
    by_cases hd : d = c
    · subst hd
      refine .done ?_ ?_ ?_ ?_
      · rw [managerStop_newConnection]
        exact h.known
      · rw [outstanding_managerStop, h.idle]
      · rw [managerStop_conn_self (h.attached d)]
        exact hk
      · simp [managerStop_connections]
    · exact (h.others d hd).managerStop_ne hd
  attached d := by
    by_cases hd : d = c
    · subst hd
      rw [managerStop_conn_self (h.attached d)]
      exact h.attached d
    · rw [managerStop_conn_ne hd]
      exact h.attached d

end Resting

/-- A read or write that completes leaves its connection resting. -/
theorem Staged.resting {s : Server} {op : Op} {c : Nat} (h : s.Staged) (hop : op ≠ .accept)
    (hp : (op, c) ∈ s.pending) : (s.complete op c).Resting c := by
  have ho := (h.stage c).outstanding_eq hp
  refine ⟨fun d hd => (h.stage d).complete_ne hd, h.attached, ?_, ?_, ?_⟩
  · rcases h.stage c with ⟨-, ho' | ⟨-, ho'⟩, -, -⟩ | ⟨hc, -⟩ | ⟨hc, -⟩ | ⟨hc, -⟩
    · simp [ho] at ho'
    · rw [ho] at ho'
      exact absurd (List.cons.inj ho').1 hop
    all_goals exact hc
  · exact outstanding_complete_self _ _ _ ho
  · intro hm
    rcases h.stage c with ⟨-, -, -, hm'⟩ | ⟨-, -, -, hopen⟩ | ⟨-, -, -, hopen⟩ | ⟨-, -, -, hm'⟩
    · exact absurd hm hm'
    · exact hopen hm
    · exact hopen hm
    · exact absurd hm hm'

/-- What was started on a connection that reads. -/
theorem Staged.of_reading {s : Server} {c : Nat} (h : s.Staged) (hp : (Op.read, c) ∈ s.pending) :
    .write ∉ (s.conn c).started := by
  have ho := (h.stage c).outstanding_eq hp
  rcases h.stage c with ⟨-, -, hk, -⟩ | ⟨-, -, hk, -⟩ | ⟨-, ho', -, -⟩ | ⟨-, ho', -, -⟩
  · simp [hk]
  · exact hk
  all_goals simp [ho] at ho'

/-- What was started on a connection that writes. -/
theorem Staged.of_writing {s : Server} {c : Nat} (h : s.Staged)
    (hp : (Op.write, c) ∈ s.pending) : .write ∉ (s.conn c).started.tail := by
  have ho := (h.stage c).outstanding_eq hp
  rcases h.stage c with ⟨-, -, hk, -⟩ | ⟨-, ho', -, -⟩ | ⟨-, -, ⟨reads, hk, hr⟩, -⟩ | ⟨-, -, hk, -⟩
  · simp [hk]
  · simp [ho] at ho'
  · simpa [hk] using hr
  · exact hk

theorem Staged.handleRead {s : Server} {c : Nat} {e : Ending} (h : s.Staged)
    (hp : (Op.read, c) ∈ s.pending) (he : e = .aborted → (s.conn c).socketOpen = false)
    (parsed : Option Bool) : ((s.complete .read c).handleRead c e parsed).Staged := by
  have hrest := h.resting (by decide) hp
  have hk := h.of_reading hp
  unfold Server.handleRead
  cases e with
  | success =>
    match parsed with
    | some true =>
      simp only [complete_conn, h.attached c, Bool.false_eq_true, if_false]
      exact hrest.startWrite hk
    | some false => exact hrest.startWrite hk
    | none => exact hrest.startRead hk
  | aborted =>
    -- the socket was closed, so the connection is no longer in the set
    refine hrest.done (fun hw => hk (List.mem_of_mem_tail hw)) fun hm => ?_
    have hopen := hrest.socketOpen hm
    rw [complete_conn, he rfl] at hopen
    cases hopen
  | failed => exact hrest.managerStop fun hw => hk (List.mem_of_mem_tail hw)

theorem Staged.handleWrite {s : Server} {c : Nat} {e : Ending} (h : s.Staged)
    (hp : (Op.write, c) ∈ s.pending) (he : e = .aborted → (s.conn c).socketOpen = false) :
    ((s.complete .write c).handleWrite c e).Staged := by
  have hrest := h.resting (by decide) hp
  have hk := h.of_writing hp
  unfold Server.handleWrite
  split
  · exact hrest.managerStop hk
  · rename_i hne
    push Not at hne
    refine hrest.done hk fun hm => ?_
    have hopen := hrest.socketOpen hm
    rw [complete_conn, he hne] at hopen
    cases hopen

/-- A connection that is not the one to be accepted keeps its stage when the next one is made. -/
theorem StageOf.next {next d : Nat} {ops : List Op} {k : Connection} {managed : Prop}
    (h : Stage next d ops k managed) (hd : d ≠ next) (hops : d = next + 1 → ops = [.accept]) :
    Stage (next + 1) d ops k managed := by
  rcases h with ⟨hc, ho, hk, hm⟩ | ⟨hc, ho, hk, hm⟩ | ⟨hc, ho, hk, hm⟩ | ⟨hc, ho, hk, hm⟩
  · refine .new (by omega) ?_ hk hm
    by_cases hn : d = next + 1
    · exact .inr ⟨hn, hops hn⟩
    · exact ho.imp_right fun hd' => absurd hd'.1 hd
  · exact .reading (by omega) ho hk hm
  · exact .writing (by omega) ho hk hm
  · exact .done (by omega) ho hk hm

/-- The connection to be accepted has not been used. -/
theorem Staged.unused {s : Server} {c : Nat} (h : s.Staged) (hc : s.newConnection ≤ c) :
    (s.conn c).started = [] ∧ c ∉ s.connections ∧
      (c ≠ s.newConnection → s.outstanding c = []) := by
  rcases h.stage c with ⟨-, ho, hk, hm⟩ | ⟨hc', -⟩ | ⟨hc', -⟩ | ⟨hc', -⟩
  · exact ⟨hk, hm, fun hne => ho.resolve_right fun ho => hne ho.1⟩
  all_goals omega

/-- The server after a connection was accepted. -/
def accepted (s : Server) : Server :=
  ((s.complete .accept s.newConnection).modifyConn s.newConnection
    fun k => { k with socketOpen := true }).handleAccept .success

section

variable {s : Server} {d : Nat}

theorem accepted_newConnection : s.accepted.newConnection = s.newConnection + 1 := rfl

theorem accepted_connections : s.accepted.connections = insert s.newConnection s.connections := rfl

theorem accepted_conn_self : s.accepted.conn s.newConnection =
    { s.conn s.newConnection with
      socketOpen := true, started := .read :: (s.conn s.newConnection).started } := by
  simp [accepted, handleAccept, managerStart, asyncAccept, start, modifyConn, complete]

theorem accepted_conn_ne (hd : d ≠ s.newConnection) : s.accepted.conn d = s.conn d := by
  simp [accepted, handleAccept, managerStart, asyncAccept, start, modifyConn, complete, hd]

theorem accepted_pending : s.accepted.pending =
    (.accept, s.newConnection + 1) :: (.read, s.newConnection) ::
      (s.complete .accept s.newConnection).pending := rfl

theorem accepted_outstanding (hd : d ≠ s.newConnection) (hd' : d ≠ s.newConnection + 1) :
    s.accepted.outstanding d = s.outstanding d := by
  rw [← outstanding_complete_ne s .accept s.newConnection hd]
  simp [outstanding, accepted_pending, Ne.symm hd, Ne.symm hd']

end

theorem Staged.accepted {s : Server} (h : s.Staged)
    (hp : (Op.accept, s.newConnection) ∈ s.pending) : s.accepted.Staged where
  stage d := by
    obtain ⟨hk, hm, -⟩ := h.unused (Nat.le_refl s.newConnection)
    unfold StageOf
    rw [accepted_newConnection, accepted_connections]
    by_cases hd : d = s.newConnection
    · subst hd
      refine .reading (Nat.lt_succ_self _) ?_ ?_ ?_
      · have := outstanding_complete_self s _ _ ((h.stage _).outstanding_eq hp)
        simpa [outstanding, accepted_pending] using this
      · simp [accepted_conn_self, hk]
      · simp [accepted_conn_self]
    · rw [accepted_conn_ne hd, Finset.mem_insert, or_iff_right hd]
      by_cases hd' : d = s.newConnection + 1
      · obtain ⟨hk', hm', ho'⟩ := h.unused (c := d) (by omega)
        refine .new (by omega) (.inr ⟨hd', ?_⟩) hk' hm'
        have ho := outstanding_complete_ne s .accept s.newConnection hd
        rw [ho' hd] at ho
        subst hd'
        simpa [outstanding, accepted_pending] using ho
      · rw [accepted_outstanding hd hd']
        exact StageOf.next (h.stage d) hd fun hn => absurd hn hd'
  attached d := by
    by_cases hd : d = s.newConnection
    · subst hd
      rw [accepted_conn_self]
      exact h.attached _
    · rw [accepted_conn_ne hd]
      exact h.attached d

/-- A failed accept is not repeated. -/
theorem Staged.notAccepted {s : Server} (h : s.Staged)
    (hp : (Op.accept, s.newConnection) ∈ s.pending) :
    (s.complete .accept s.newConnection).Staged where
  stage d := by
    by_cases hd : d = s.newConnection
    · subst hd
      obtain ⟨hk, hm, -⟩ := h.unused (Nat.le_refl s.newConnection)
      exact .new (Nat.le_refl _)
        (.inl (outstanding_complete_self s _ _ ((h.stage _).outstanding_eq hp))) hk hm
    · exact (h.stage d).complete_ne hd
  attached := h.attached

theorem handleStop_conn (s : Server) (c : Nat) :
    (s.handleStop.conn c).started = (s.conn c).started ∧
      (s.handleStop.conn c).socketDetached = (s.conn c).socketDetached := by
  simp only [handleStop, managerStopAll, stopConnection]
  split
  · split
    · exact ⟨rfl, rfl⟩
    · simp [modifyConn]
  · exact ⟨rfl, rfl⟩

theorem Staged.handleStop {s : Server} (h : s.Staged) : s.handleStop.Staged where
  stage c := by
    have hm : c ∉ s.handleStop.connections := Finset.notMem_empty c
    rcases h.stage c with ⟨hc, ho, hk, -⟩ | ⟨hc, ho, hk, -⟩ | ⟨hc, ho, hk, -⟩ | ⟨hc, ho, hk, -⟩
    all_goals rw [← (handleStop_conn s c).1] at hk
    · exact .new hc ho hk hm
    · exact .reading hc ho hk fun hm' => absurd hm' hm
    · exact .writing hc ho hk fun hm' => absurd hm' hm
    · exact .done hc ho hk hm
  attached c := (handleStop_conn s c).2.trans (h.attached c)

/-! ## Steps and runs -/

/-- What a step is. -/
theorem step_cases {s s' : Server} {ev : Event} (h : s.step ev = some s') :
    (∃ e, ev = .accepted e ∧ (Op.accept, s.newConnection) ∈ s.pending ∧
      s' = if e = .success then s.accepted else s.complete .accept s.newConnection) ∨
    (∃ c e parsed, ev = .hasRead c e parsed ∧ (Op.read, c) ∈ s.pending ∧
      (e = .aborted → (s.conn c).socketOpen = false) ∧
      s' = (s.complete .read c).handleRead c e parsed) ∨
    (∃ c e, ev = .wrote c e ∧ (Op.write, c) ∈ s.pending ∧
      (e = .aborted → (s.conn c).socketOpen = false) ∧
      s' = (s.complete .write c).handleWrite c e) ∨
    (ev = .stop ∧ s' = s.handleStop) := by
  cases ev with
  | accepted e =>
    simp only [step, Option.ite_none_right_eq_some, Option.some.injEq] at h
    obtain ⟨⟨hp, -⟩, rfl⟩ := h
    refine .inl ⟨e, rfl, hp, ?_⟩
    split
    · rename_i he
      rw [he]
      rfl
    · rename_i he
      simp [handleAccept, he]
  | hasRead c e parsed =>
    simp only [step, Option.ite_none_right_eq_some, Option.some.injEq] at h
    obtain ⟨⟨hp, he⟩, rfl⟩ := h
    exact .inr (.inl ⟨c, e, parsed, rfl, hp, he, rfl⟩)
  | wrote c e =>
    simp only [step, Option.ite_none_right_eq_some, Option.some.injEq] at h
    obtain ⟨⟨hp, he⟩, rfl⟩ := h
    exact .inr (.inr (.inl ⟨c, e, rfl, hp, he, rfl⟩))
  | stop => exact .inr (.inr (.inr ⟨rfl, (Option.some.inj h).symm⟩))

theorem Staged.step {s s' : Server} {ev : Event} (h : s.Staged) (hs : s.step ev = some s') :
    s'.Staged := by
  obtain ⟨e, -, hp, rfl⟩ | ⟨c, e, parsed, -, hp, he, rfl⟩ | ⟨c, e, -, hp, he, rfl⟩ | ⟨-, rfl⟩ :=
    step_cases hs
  · split
    · exact h.accepted hp
    · exact h.notAccepted hp
  · exact h.handleRead hp he parsed
  · exact h.handleWrite hp he
  · exact h.handleStop

theorem staged_fresh : fresh.Staged where
  stage c := by
    refine .new (Nat.zero_le c) ?_ rfl (Finset.notMem_empty c)
    by_cases hc : c = 0
    · subst hc
      exact .inr ⟨rfl, rfl⟩
    · refine .inl ?_
      simp [outstanding, fresh, asyncAccept, Ne.symm hc]
  attached _ := rfl

theorem Reach.staged {s : Server} (h : Reach s) : s.Staged := by
  induction h with
  | fresh => exact staged_fresh
  | step ev _ hs ih => exact ih.step hs

/-- Nothing is started on a socket after a write. -/
theorem Staged.replied {s : Server} (h : s.Staged) (c : Nat) :
    .write ∉ (s.conn c).started.tail := by
  rcases h.stage c with ⟨-, -, hk, -⟩ | ⟨-, -, hk, -⟩ | ⟨-, -, ⟨_, hk, hr⟩, -⟩ | ⟨-, -, hk, -⟩
  · simp [hk]
  · exact fun hw => hk (List.mem_of_mem_tail hw)
  · simpa [hk] using hr
  · exact hk

/-- What the life of the connections comes to. -/
structure Orderly (s : Server) : Prop where
  oneOperation : ∀ c, (s.outstanding c).length ≤ 1
  oneReply : ∀ c, (s.conn c).started.count .write ≤ 1
  /-- A write is the last operation started on a socket. -/
  replyLast : ∀ c later reads, (s.conn c).started = later ++ .write :: reads → later = []
  /-- So a connection leaves the set when its last operation completes. -/
  managed : ∀ c ∈ s.connections, (s.conn c).socketOpen = true ∧ s.outstanding c ≠ []

/-- In every state that any order of completions reaches, a connection has at most one operation
outstanding, is replied to at most once and read no more after that, and is in the set of the
manager only with an operation outstanding on an open socket. -/
theorem reach_orderly {s : Server} (h : Reach s) : s.Orderly where
  oneOperation c := by
    rcases h.staged.stage c with ⟨-, ho | ⟨-, ho⟩, -⟩ | ⟨-, ho, -⟩ | ⟨-, ho, -⟩ | ⟨-, ho, -⟩
    all_goals simp [ho]
  oneReply c := by
    have hk := h.staged.replied c
    cases hst : (s.conn c).started with
    | nil => simp
    | cons op ops =>
      rw [hst, List.tail_cons] at hk
      have := List.count_eq_zero.mpr hk
      rw [List.count_cons]
      split <;> omega
  replyLast c later reads hst := by
    have hk := h.staged.replied c
    cases later with
    | nil => rfl
    | cons op ops => simp [hst] at hk
  managed c hc := by
    rcases h.staged.stage c with ⟨-, -, -, hm⟩ | ⟨-, ho, -, hm⟩ | ⟨-, ho, -, hm⟩ | ⟨-, -, -, hm⟩
    · exact absurd hc hm
    · exact ⟨hm hc, by simp [ho]⟩
    · exact ⟨hm hc, by simp [ho]⟩
    · exact absurd hc hm

/-- A connection that is accepted, read from in two parts and replied to. -/
theorem served_orderly :
    ∃ s, [.accepted .success, .hasRead 0 .success none, .hasRead 0 .success (some true)].foldlM
      step fresh = some s ∧ 0 ∈ s.connections ∧ s.Orderly :=
  ⟨_, rfl, by decide, reach_orderly (.step (.hasRead 0 .success (some true))
    (.step (.hasRead 0 .success none) (.step (.accepted .success) .fresh rfl) rfl) rfl)⟩

end Server

end Ews
