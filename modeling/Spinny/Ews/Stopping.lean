import Spinny.Ews.Lifecycle

/-!
# Stopping the server

`server::handle_stop` closes the acceptor and the sockets of the set and empties the set. What had
completed before is still delivered after it.

* `stopped_idle_iff`: when nothing is started after `handle_stop`, and how long `run` goes on.
-/

namespace Ews

/-- The events that start a read: a connection is accepted, or a read comes to a part of a
request. -/
def Event.startsRead : Event → Bool
  | .accepted .success => true
  | .hasRead _ .success none => true
  | _ => false

/-- The deliveries that an operation can still lead to where no read is started. -/
def Op.weight : Op → Nat
  | .read => 2
  | _ => 1

namespace Server

/-- The set is empty, and no read was started that was not in `s₀`. -/
structure Idle (s₀ s : Server) : Prop where
  connections : s.connections = ∅
  reads : ∀ c, (s.conn c).started.count .read = (s₀.conn c).started.count .read

theorem managerStop_started (s : Server) (c d : Nat) :
    ((s.managerStop c).conn d).started = (s.conn d).started := by
  unfold managerStop stopConnection
  split
  · rfl
  · by_cases hd : d = c
    · subst hd
      simp [managerRemove, modifyConn]
    · simp [managerRemove, modifyConn, hd]

theorem Idle.managerStop {s₀ s : Server} (h : s₀.Idle s) (c : Nat) : s₀.Idle (s.managerStop c) where
  connections := by rw [managerStop_connections, h.connections, Finset.erase_empty]
  reads d := by rw [managerStop_started, h.reads]

theorem Idle.startWrite {s₀ s : Server} (h : s₀.Idle s) (c : Nat) : s₀.Idle (s.start .write c) where
  connections := h.connections
  reads d := by
    by_cases hd : d = c
    · subst hd
      rw [start_conn_self, ← h.reads]
      simp
    · rw [start_conn_ne _ _ _ hd, h.reads]

theorem Idle.complete {s₀ s : Server} (h : s₀.Idle s) (op : Op) (c : Nat) :
    s₀.Idle (s.complete op c) := ⟨h.connections, h.reads⟩

/-- An event that starts no read leaves the server idle. -/
theorem Idle.step {s₀ s s' : Server} {ev : Event} (h : s₀.Idle s) (hs : s.step ev = some s')
    (hev : ev.startsRead = false) : s₀.Idle s' := by
  obtain ⟨e, rfl, -, rfl⟩ | ⟨c, e, parsed, rfl, -, -, rfl⟩ | ⟨c, e, rfl, -, -, rfl⟩ | ⟨-, rfl⟩ :=
    step_cases hs
  · have he : e ≠ .success := by
      rintro rfl
      cases hev
    rw [if_neg he]
    exact h.complete _ _
  · have hc := h.complete .read c
    unfold handleRead
    cases e with
    | success =>
      match parsed with
      | some true =>
        dsimp only
        split
        · exact hc
        · exact hc.startWrite c
      | some false => exact hc.startWrite c
      | none => cases hev
    | aborted => exact hc
    | failed => exact hc.managerStop c
  · have hc := h.complete .write c
    unfold handleWrite
    split
    · exact hc.managerStop c
    · exact hc
  · refine ⟨rfl, fun c => ?_⟩
    rw [(handleStop_conn s c).1, h.reads]

/-- An event that starts a read does not. -/
theorem Idle.not_step {s₀ s s' : Server} {ev : Event} (h : s₀.Idle s) (hs : s.step ev = some s')
    (hev : ev.startsRead = true) : ¬ s₀.Idle s' := by
  obtain ⟨e, rfl, -, rfl⟩ | ⟨c, e, parsed, rfl, -, -, rfl⟩ | ⟨c, e, rfl, -, -, rfl⟩ | ⟨rfl, -⟩ :=
    step_cases hs
  · have he : e = .success := by
      cases e
      · rfl
      all_goals cases hev
    rw [if_pos he]
    intro hi
    have hc := hi.connections
    rw [accepted_connections] at hc
    exact Finset.insert_ne_empty _ _ hc
  · intro hi
    cases e with
    | success =>
      cases parsed with
      | none =>
        have hc := hi.reads c
        change ((((s.complete .read c).start .read c).conn c).started.count .read) = _ at hc
        rw [start_conn_self, complete_conn, ← h.reads c] at hc
        simp at hc
      | some b => cases hev
    | aborted => cases hev
    | failed => cases hev
  · cases hev
  · cases hev

theorem idle_handleStop (s : Server) : s.handleStop.Idle s.handleStop := ⟨rfl, fun _ => rfl⟩

/-- A run of events. -/
def run (s : Server) (events : List Event) : Option Server := events.foldlM step s

theorem run_append (s : Server) (events later : List Event) :
    s.run (events ++ later) = (s.run events).bind fun s => s.run later := List.foldlM_append

/-- The deliveries that the outstanding operations can still lead to. -/
def load (s : Server) : Nat := (s.pending.map fun p => p.1.weight).sum

theorem load_le (s : Server) : s.load ≤ 2 * s.pending.length := by
  unfold load
  induction s.pending with
  | nil => simp
  | cons p l ih =>
    have : p.1.weight ≤ 2 := by
      cases p.1 <;> decide
    simp only [List.map_cons, List.sum_cons, List.length_cons]
    omega

theorem load_complete {s : Server} {op : Op} {c : Nat} (h : (op, c) ∈ s.pending) :
    (s.complete op c).load + op.weight = s.load := by
  have hp := (List.perm_cons_erase h).map fun p => p.1.weight
  have hs := hp.sum_eq
  simp only [List.map_cons, List.sum_cons] at hs
  simp only [load, complete]
  omega

theorem load_managerStop (s : Server) (c : Nat) : (s.managerStop c).load = s.load := by
  unfold load
  rw [managerStop_pending]

/-- A completion that starts no read uses up some of the load. -/
theorem load_step {s s' : Server} {ev : Event} (hs : s.step ev = some s')
    (hev : ev.startsRead = false) (hstop : ev ≠ .stop) : s'.load + 1 ≤ s.load := by
  obtain ⟨e, rfl, hp, rfl⟩ | ⟨c, e, parsed, rfl, hp, -, rfl⟩ | ⟨c, e, rfl, hp, -, rfl⟩ | ⟨rfl, -⟩ :=
    step_cases hs
  · have he : e ≠ .success := by
      rintro rfl
      cases hev
    rw [if_neg he]
    have hl := load_complete hp
    simp only [Op.weight] at hl
    omega
  · have hl := load_complete hp
    have hw : ((s.complete .read c).start .write c).load = (s.complete .read c).load + 1 := by
      simp [load, start, modifyConn, Op.weight]
      omega
    have hm := load_managerStop (s.complete .read c) c
    simp only [Op.weight] at hl
    unfold handleRead
    cases e with
    | success =>
      rcases parsed with _ | accepts
      · cases hev
      cases accepts with
      | true =>
        dsimp only
        split <;> omega
      | false =>
        dsimp only
        omega
    | aborted =>
      dsimp only
      omega
    | failed =>
      dsimp only
      omega
  · have hl := load_complete hp
    have hm := load_managerStop (s.complete .write c) c
    simp only [Op.weight] at hl
    unfold handleWrite
    split <;> omega
  · exact absurd rfl hstop

/-- Along a run that starts no read the server stays idle, and every completion counts against the
load. -/
theorem Idle.run {s₀ s s' : Server} {events : List Event} (h : s₀.Idle s)
    (hs : s.run events = some s') (hev : ∀ ev ∈ events, ev.startsRead = false) :
    s₀.Idle s' ∧ s'.load + events.countP (· ≠ .stop) ≤ s.load := by
  induction events generalizing s with
  | nil =>
    obtain rfl : s = s' := Option.some.inj hs
    exact ⟨h, by simp⟩
  | cons ev events ih =>
    obtain ⟨s₁, hs₁, hs⟩ := Option.bind_eq_some_iff.mp hs
    have hev₁ := hev ev (by simp)
    obtain ⟨hi, hl⟩ := ih (h.step hs₁ hev₁) hs fun e he => hev e (by simp [he])
    refine ⟨hi, ?_⟩
    by_cases hstop : ev = .stop
    · subst hstop
      have : s₁.load = s.load := by
        rw [← Option.some.inj hs₁]
        rfl
      rw [List.countP_cons_of_neg (by simp)]
      omega
    · have := load_step hs₁ hev₁ hstop
      rw [List.countP_cons_of_pos (by simpa using hstop)]
      omega

/-- After `handle_stop` the set stays empty and no read is started if and only if no accept and no
read of a part of a request that had completed before is delivered after it; then asio has at most
two completions to deliver for each operation outstanding, and `run` ends. -/
theorem stopped_idle_iff {s s' : Server} {events : List Event}
    (hs : s.handleStop.run events = some s') :
    ((∀ done later s₁, events = done ++ later → s.handleStop.run done = some s₁ →
        s.handleStop.Idle s₁) ↔ ∀ ev ∈ events, ev.startsRead = false) ∧
      ((∀ ev ∈ events, ev.startsRead = false) →
        events.countP (· ≠ .stop) ≤ 2 * s.pending.length) := by
  refine ⟨⟨fun hidle ev hev => ?_, ?_⟩, fun hev => ?_⟩
  · obtain ⟨done, later, rfl⟩ := List.append_of_mem hev
    rw [run_append] at hs
    obtain ⟨s₁, hs₁, hs⟩ := Option.bind_eq_some_iff.mp hs
    obtain ⟨s₂, hs₂, -⟩ := Option.bind_eq_some_iff.mp hs
    have h₁ := hidle done (ev :: later) s₁ rfl hs₁
    have h₂ := hidle (done ++ [ev]) later s₂ (by simp) (by
      rw [run_append, hs₁]
      simp [run, hs₂])
    by_contra hne
    exact h₁.not_step hs₂ (by simpa using hne) h₂
  · rintro hev done later s₁ rfl hs₁
    exact ((idle_handleStop s).run hs₁ fun ev he => hev ev (by simp [he])).1
  · have := ((idle_handleStop s).run hs hev).2
    have hle := load_le s
    have : s.handleStop.load = s.load := rfl
    omega

/-- A connection that waits for a request when the server is stopped. -/
theorem waiting_idle : ∃ s,
    fresh.accepted.handleStop.run [.hasRead 0 .aborted none, .accepted .aborted] = some s ∧
      fresh.accepted.handleStop.Idle s := by
  have hs : ∃ s,
      fresh.accepted.handleStop.run [.hasRead 0 .aborted none, .accepted .aborted] = some s :=
    ⟨_, rfl⟩
  obtain ⟨s, hs⟩ := hs
  exact ⟨s, hs, (stopped_idle_iff hs).1.mpr (by decide) _ [] s (List.append_nil _).symm hs⟩

/-- An accept that had completed when `handle_stop` ran: the connection enters the set and is read
from. -/
theorem stopped_accepts : ∃ s,
    fresh.handleStop.run [.accepted .success] = some s ∧ s.connections = {0} ∧
      (s.conn 0).started = [.read] ∧ ¬ fresh.handleStop.Idle s :=
  ⟨_, rfl, by decide, by decide, fun h => absurd h.connections (by decide)⟩

end Server

end Ews
