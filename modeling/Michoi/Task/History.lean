/-
  What a run does to the call and to the event log, written down step by step.

  A `Note` is a read of the session id by `execute`, an operation of the call machine, or
  an event pushed to the log. `noted_step` says what each step of a handler writes down
  and what it leaves the handler to push, so that the modules on the order of the log and
  on the sessions it names argue about notes and never about steps.

  `machine_run`: the Agent's machine is the one of `state.rs` run on the operations noted,
  whatever the handlers were. So every law of a run of the machine holds of the Agent.
  `log_keeps`: the log holds the last events pushed, numbered in the order of the pushes.
-/
import Michoi.Task.Frame

namespace Michoi

open Lib

inductive Note where
  | sessionRead (thread : Nat)
  /-- An operation that returned `Ok`, with the machine it found. -/
  | moved (thread : Nat) (op : Op) (before : CallMachine)
  /-- An event, with the handler that pushed it unless another task did. -/
  | pushed (thread : Option Nat) (event : Event)
  deriving DecidableEq, Repr

/-- What a subscriber may know of a call. -/
def CallMachine.view (m : CallMachine) : CallPhase × Owner := (m.state.phase, m.state.owner)

namespace Note

/-- The handler that ran an operation. -/
def mover : Note → Option Nat
  | moved thread _ _ => some thread
  | _ => none

def op : Note → Option Op
  | moved _ op _ => some op
  | _ => none

def event : Note → Option Event
  | pushed _ event => some event
  | _ => none

/-- The operation changed the call's phase or owner: the handler, and what it is now. -/
def changed : Note → Option (Nat × (CallPhase × Owner))
  | moved thread op before =>
      if (op.step before).2.view = before.view then none
      else some (thread, (op.step before).2.view)
  | _ => none

/-- The event tells a new phase and owner: the handler, and what it tells. -/
def told : Note → Option (Nat × (CallPhase × Owner))
  | pushed (some thread) event => event.kind.view.map fun view => (thread, view)
  | _ => none

end Note

/-- The event by which the log grew. -/
def pushedBy (thread : Option Nat) (log log' : EventLog) : List Note :=
  if log'.nextSeq = log.nextSeq then [] else (log'.events.getLast?.map (.pushed thread)).toList

theorem pushedBy_self (thread : Option Nat) (log : EventLog) : pushedBy thread log log = [] :=
  if_pos rfl

theorem pushedBy_push (thread : Option Nat) (log : EventLog) (atMs : Nat) (kind : EventKind) :
    pushedBy thread log (log.push atMs kind) = [.pushed thread ⟨log.nextSeq, atMs, kind⟩] := by
  unfold pushedBy
  rw [EventLog.push_nextSeq, if_neg (by omega)]
  unfold EventLog.push
  simp

namespace Task

/-- The next step reads the session id. -/
def readsSession : Task → Bool
  | command _ _ (.readSession _) => true
  | _ => false

/-- The machine operation the next step runs, if it gets that far and is accepted. -/
def operation (env : Env) (c : Call) : Task → Option Op
  | command action _ (.transition peers _) =>
      if peers.endpoints.isSome ∧ c.admits env action then some (action.op env) else none
  | wire pc => pc.operation c
  | _ => none

/-- The phase and owner that the event the handler has still to push will tell. -/
def untold : Task → Option (CallPhase × Owner)
  | command _ _ (.send _ event _) => event.view
  | command _ _ (.notify _ event) => event.view
  | command _ _ (.publish event) => event.view
  | wire pc => pc.pending.bind EventKind.view
  | _ => none

/-- The next step pushes an event that tells a phase and owner. -/
def tells : Task → Bool
  | command _ _ (.publish event) => event.view.isSome
  | wire (.publish event) => event.view.isSome
  | _ => false

/-- The handler is past its region of the call. -/
def past : Task → Bool
  | command _ _ (.send _ _ _) => true
  | command _ _ (.notify _ _) => true
  | command _ _ (.publish _) => true
  | command _ _ (.store _) => true
  | command _ _ (.done _) => true
  | wire (.callEnd _ _) => true
  | wire (.publish _) => true
  | wire .done => true
  | _ => false

/-- The notes of a step from `a` to `a'`. -/
def notes {W : Type} (i : Nat) (env : Env) (a a' : Agent W) (t : Task) : List Note :=
  (if t.readsSession then [.sessionRead i] else []) ++
    ((t.operation env a.call).map fun op => .moved i op a.call.machine).toList ++
      pushedBy (some i) a.events a'.events

end Task

/-- The notes of a move. -/
def callNotes {W : Type} (p : AgentPool W) (m : AgentMove) (q : AgentPool W) : List Note :=
  match m with
  | .start _ => []
  | .step i env => (p.threads[i]?).elim [] (Task.notes i env p.shared q.shared)
  | .outside _ => pushedBy none p.shared.events q.shared.events

/-- All interleavings, with what they write down. -/
def noted (W : Type) [Wire W] : System (AgentPool W × List Note) AgentMove :=
  (agentProgram W).system.withHistory callNotes

/-! ## One step -/

section

variable {W : Type} {i : Nat} {env : Env} {a a' : Agent W} {t t' : Task}

variable [Wire W]

/-- The step does not lose the event of a change it made: what it has to build and to send
    for it is built and sent. -/
def Task.delivers (env : Env) (a : Agent W) : Task → Prop
  | command action _ (.transition peers _) =>
      action ≠ .unlock → a.call.admits env action →
        ∀ e ∈ peers.endpoints, (sessionControl action.opcode e).toBool = true
  | command _ _ (.send peers event packet) =>
      event.view ≠ none → (Wire.sendAsPad a.wire env.send packet peers).1 = .ok ()
  | _ => True

instance (env : Env) (a : Agent W) : ∀ t : Task, Decidable (t.delivers env a)
  | .command action _ (.transition peers _) =>
      inferInstanceAs (Decidable (action ≠ .unlock → a.call.admits env action →
        ∀ e ∈ peers.endpoints, (sessionControl action.opcode e).toBool = true))
  | .command _ _ (.send peers event packet) =>
      inferInstanceAs (Decidable (event.view ≠ none →
        (Wire.sendAsPad a.wire env.send packet peers).1 = .ok ()))
  | .command _ _ .lookup | .command _ _ .readPeers | .command _ _ (.readSession _)
  | .command _ _ (.notify _ _) | .command _ _ (.publish _) | .command _ _ (.store _)
  | .command _ _ (.done _) | .elevator _ _ _ | .wire _ => isTrue trivial

/-- What a step of a handler writes down, and what it leaves the handler to tell. -/
inductive NotedStep (i : Nat) (env : Env) (a a' : Agent W) (t t' : Task) : List Note → Prop where
  | quiet (hcall : a'.call = a.call) (hlog : a'.events = a.events)
      (hu : t.delivers env a → t'.untold = t.untold) (hu' : t.untold = none → t'.untold = none) :
      NotedStep i env a a' t t' []
  | read (hcall : a'.call = a.call) (hlog : a'.events = a.events) (hu : t.untold = none)
      (hu' : t'.untold = none) : NotedStep i env a a' t t' [.sessionRead i]
  | moved {op} (hop : t.operation env a.call = some op)
      (hm : a'.call.machine = (op.step a.call.machine).2)
      (hn : ∀ s, op = .startCall s → s = a.call.nextSession ∧ a'.call.nextSession = s + 1)
      (hn' : op.isStart = false → a'.call.nextSession = a.call.nextSession)
      (hlog : a'.events = a.events) (hu : t.untold = none)
      (hu' : t.delivers env a → a.call.machine.Consistent →
        t'.untold = (Note.moved i op a.call.machine).changed.map Prod.snd) :
      NotedStep i env a a' t t' [.moved i op a.call.machine]
  | pushed {kind} (hcall : a'.call = a.call)
      (hlog : a'.events = a.events.push env.eventMs kind) (hu : t.untold = kind.view)
      (hu' : t'.untold = none) (htell : kind.view ≠ none → t.tells = true) :
      NotedStep i env a a' t t' [.pushed (some i) ⟨a.events.nextSeq, env.eventMs, kind⟩]

theorem noted_quiet (hread : t.readsSession = false) (hop : t.operation env a.call = none)
    (hcall : a'.call = a.call) (hlog : a'.events = a.events)
    (hu : t.delivers env a → t'.untold = t.untold) (hu' : t.untold = none → t'.untold = none) :
    NotedStep i env a a' t t' (t.notes i env a a') := by
  unfold Task.notes
  rw [hread, hop, hlog, pushedBy_self]
  exact .quiet hcall hlog hu hu'

theorem noted_moved {op : Op} (hread : t.readsSession = false)
    (hop : t.operation env a.call = some op)
    (hm : a'.call.machine = (op.step a.call.machine).2)
    (hn : ∀ s, op = .startCall s → s = a.call.nextSession ∧ a'.call.nextSession = s + 1)
    (hn' : op.isStart = false → a'.call.nextSession = a.call.nextSession)
    (hlog : a'.events = a.events) (hu : t.untold = none)
    (hu' : t.delivers env a → a.call.machine.Consistent →
      t'.untold = (Note.moved i op a.call.machine).changed.map Prod.snd) :
    NotedStep i env a a' t t' (t.notes i env a a') := by
  unfold Task.notes
  rw [hread, hop, hlog, pushedBy_self]
  exact .moved hop hm hn hn' hlog hu hu'

theorem noted_pushed {kind : EventKind} (hread : t.readsSession = false)
    (hop : t.operation env a.call = none) (hcall : a'.call = a.call)
    (hlog : a'.events = a.events.push env.eventMs kind) (hu : t.untold = kind.view)
    (hu' : t'.untold = none) (htell : kind.view ≠ none → t.tells = true) :
    NotedStep i env a a' t t' (t.notes i env a a') := by
  unfold Task.notes
  rw [hread, hop, hlog, pushedBy_push]
  exact .pushed hcall hlog hu hu' htell

/-! ### What the operations change -/

namespace Note

theorem changed_of_ne {thread : Nat} {op : Op} {m : CallMachine}
    (h : (op.step m).2.view ≠ m.view) :
    (moved thread op m).changed = some (thread, (op.step m).2.view) := if_neg h

theorem changed_of_eq {thread : Nat} {op : Op} {m : CallMachine}
    (h : (op.step m).2.view = m.view) : (moved thread op m).changed = none := if_pos h

theorem changed_startCall (thread s : Nat) {m : CallMachine} (h : m.state.phase = .idle) :
    (moved thread (.startCall s) m).changed = some (thread, (.ringing, .none)) :=
  changed_of_ne fun he => by
    have hp := congrArg Prod.fst he
    rw [show m.view.1 = .idle from h] at hp
    cases hp

theorem changed_padAnswer (thread : Nat) {m : CallMachine} (h : m.accepts .padAnswer) :
    (moved thread .padAnswer m).changed = some (thread, (.connected, .pad)) := by
  have hview : (Op.padAnswer.step m).2.view = (.connected, .pad) := by
    rw [CallMachine.padAnswer_of_accepts m h]
    rfl
  rw [changed_of_ne, hview]
  rw [hview]
  intro he
  have hp := congrArg Prod.fst he
  rw [show m.view.1 = .ringing from ((CallMachine.accepts_padAnswer m).mp h).1] at hp
  cases hp

theorem changed_hangup (thread : Nat) {m : CallMachine} (h : m.state.phase ≠ .idle) :
    (moved thread .hangup m).changed = some (thread, (.idle, .none)) :=
  changed_of_ne fun he => h (congrArg Prod.fst he).symm

/-- Hanging up where no call is active changes nothing that shows. -/
theorem changed_hangup_idle (thread : Nat) {m : CallMachine} (hm : m.Consistent)
    (h : m.state.phase = .idle) : (moved thread .hangup m).changed = none := by
  refine changed_of_eq ?_
  have ho : m.state.owner = .none := hm.mpr (by rw [h]; decide)
  unfold CallMachine.view
  rw [h, ho]
  rfl

/-- A command changes what its event tells. -/
theorem changed_command (thread : Nat) {c : Call} {env : Env} {action : CallAction}
    (h : c.admits env action) (session : String) :
    (moved thread (action.op env) c.machine).changed =
      (action.event session).view.map fun view => (thread, view) := by
  cases action with
  | claim =>
      have hview : ((CallAction.claim.op env).step c.machine).2.view = (.connected, .remote) := by
        rw [show ((CallAction.claim.op env).step c.machine).2 = _ from Call.after_claim h]
        rfl
      rw [changed_of_ne, hview]
      · rfl
      · rw [hview]
        intro he
        have hp := congrArg Prod.fst he
        rw [show c.machine.view.1 = .ringing from (Call.admits_claim.mp h).1] at hp
        cases hp
  | unlock =>
      refine changed_of_eq ?_
      rw [show ((CallAction.unlock.op env).step c.machine).2 = _ from Call.after_unlock h]
      rfl
  | hangup => exact changed_hangup thread h

end Note

/-! ### The steps of each handler -/

@[simp] theorem notify_call (a : Agent W) (env : Env) (action : CallAction) (peers : Peers) :
    (a.notify env action peers).call = a.call := by
  cases action <;> rfl

@[simp] theorem notify_events (a : Agent W) (env : Env) (action : CallAction) (peers : Peers) :
    (a.notify env action peers).events = a.events := by
  cases action <;> rfl

theorem op_not_start (env : Env) (action : CallAction) : (action.op env).isStart = false := by
  cases action <;> rfl

omit [Wire W] in
theorem operation_of_admits {action : CallAction} {peers : Peers} {e : Endpoints} {c : Call}
    (he : peers.endpoints = some e) (hadm : c.admits env action) (commandId session : String) :
    (Task.command action commandId (.transition peers session)).operation env c =
      some (action.op env) :=
  if_pos ⟨by rw [he]; rfl, hadm⟩

theorem noted_step_command {action : CallAction} {commandId : String} {pc pc' : CommandPc}
    (h : CommandStep env a action commandId pc a' pc') :
    NotedStep i env a a' (.command action commandId pc) (.command action commandId pc')
      ((Task.command action commandId pc).notes i env a a') := by
  have hstart : ∀ s, action.op env = .startCall s →
      s = a.call.nextSession ∧ (a.call.after env action).nextSession = s + 1 := by
    intro s hs
    have := op_not_start env action
    rw [hs] at this
    cases this
  cases h with
  | replay | miss | readPeers | store | sent =>
      exact noted_quiet rfl rfl rfl rfl (fun _ => rfl) id
  | readSession =>
      rw [show (Task.command action commandId _).notes i env a a = [.sessionRead i] ++ [] ++ _
        from rfl, pushedBy_self]
      exact .read rfl rfl rfl rfl
  | refuse hno =>
      refine noted_quiet rfl (if_neg fun h => ?_) rfl rfl (fun _ => rfl) id
      obtain ⟨e, he⟩ := Option.isSome_iff_exists.mp h.1
      exact hno e he h.2
  | unpacked he hadm hp =>
      refine noted_moved rfl (operation_of_admits he hadm ..) rfl hstart (fun _ => rfl) rfl rfl
        fun hdel _ => ?_
      -- Only an unlock may fail to be built without losing the event of a change.
      by_cases hu : action = .unlock
      · subst hu
        rw [Note.changed_command i hadm ""]
        rfl
      · have := hdel hu hadm _ he
        rw [hp] at this
        cases this
  | @built peers session e packet he hadm hp =>
      refine noted_moved rfl (operation_of_admits he hadm ..) rfl hstart (fun _ => rfl) rfl rfl
        fun _ _ => ?_
      rw [Note.changed_command i hadm session, Option.map_map]
      exact Option.map_id'.symm
  | @unsent peers event packet hfail =>
      refine noted_quiet rfl rfl rfl rfl (fun hdel => ?_) fun _ => rfl
      exact Decidable.by_contra fun hne => hfail (hdel (Ne.symm hne))
  | notify =>
      exact noted_quiet rfl rfl (notify_call ..) (notify_events ..) (fun _ => rfl) id
  | publish =>
      exact noted_pushed rfl rfl rfl rfl rfl rfl Option.isSome_iff_ne_none.mpr

omit [Wire W] in
theorem WirePc.untold_eq_none {pc : WirePc} (h : ∀ k ∈ pc.pending, k.view = none) :
    (Task.wire pc).untold = none :=
  Option.bind_eq_none_iff.mpr fun k hk => h k hk

theorem noted_step_wire {pc pc' : WirePc} (h : WireStep env a pc a' pc') :
    NotedStep i env a a' (.wire pc) (.wire pc') ((Task.wire pc).notes i env a a') := by
  cases h with
  | quiet hpc hop hpc' hq =>
      have hu : (Task.wire pc).untold = none := WirePc.untold_eq_none (by rw [hpc]; nofun)
      have hu' := WirePc.untold_eq_none hpc'
      rcases hq.events with hlog | ⟨event, hview, hlog⟩
      · exact noted_quiet rfl hop hq.call hlog (fun _ => hu'.trans hu.symm) fun _ => hu'
      · exact noted_pushed rfl hop hq.call hlog (hu.trans hview.symm) hu' fun h => absurd hview h
  | start hidle =>
      have hs : (a.call.started env).2 =
          ⟨a.call.machine.startCall a.call.nextSession, some env.sinceMs,
            a.call.nextSession + 1⟩ := by
        unfold Call.started
        rw [if_neg (not_not_intro hidle)]
      refine noted_moved rfl (if_pos hidle) ?_ (fun s he => ?_) nofun rfl rfl fun _ _ => ?_
      · rw [Agent.withCall_call, hs]
        rfl
      · cases he
        exact ⟨rfl, by rw [Agent.withCall_call, hs]⟩
      · rw [Note.changed_startCall i _ hidle]
        rfl
  | answer hacc =>
      have hs : (a.call.padAnswered env).2.machine = (Op.padAnswer.step a.call.machine).2 ∧
          (a.call.padAnswered env).2.nextSession = a.call.nextSession := by
        unfold Call.padAnswered
        dsimp only [Op.step]
        split
        · next heq => rw [heq]; exact ⟨rfl, rfl⟩
        · next heq => rw [heq]; exact ⟨rfl, rfl⟩
      refine noted_moved rfl (if_pos hacc) hs.1 nofun (fun _ => hs.2) rfl rfl fun _ _ => ?_
      rw [Note.changed_padAnswer i hacc]
      rfl
  | hangup hactive =>
      refine noted_moved rfl rfl rfl nofun (fun _ => rfl) rfl rfl fun _ _ => ?_
      rw [Note.changed_hangup i hactive]
      rfl
  | hangupIdle hidle =>
      refine noted_moved rfl rfl rfl nofun (fun _ => rfl) rfl rfl fun _ hm => ?_
      rw [Note.changed_hangup_idle i hm hidle]
      rfl
  | callEnd =>
      exact noted_quiet rfl rfl rfl rfl (fun _ => rfl) id
  | publish =>
      exact noted_pushed rfl rfl rfl rfl rfl rfl Option.isSome_iff_ne_none.mpr

theorem noted_step_elevator {commandId : String} {room : Option String} {pc pc' : ElevatorPc}
    (h : ElevatorStep env a commandId room pc a' pc') :
    NotedStep i env a a' (.elevator commandId room pc) (.elevator commandId room pc')
      ((Task.elevator commandId room pc).notes i env a a') := by
  cases h with
  | publish =>
      exact noted_pushed rfl rfl rfl rfl rfl rfl fun h => absurd rfl h
  | replay | miss | readRoom | panic | noDoor | located | register | fired | unfired | acked
  | timedOut | store =>
      exact noted_quiet rfl rfl rfl rfl (fun _ => rfl) id

/-- **What a step writes down.** -/
theorem noted_step (h : t.step env a = some (a', t')) :
    NotedStep i env a a' t t' (t.notes i env a a') := by
  cases t with
  | command action commandId pc =>
      obtain ⟨pc', rfl, hs⟩ := step_command h
      exact noted_step_command hs
  | elevator commandId room pc =>
      obtain ⟨pc', rfl, hs⟩ := step_elevator h
      exact noted_step_elevator hs
  | wire pc =>
      obtain ⟨pc', rfl, hs⟩ := step_wire h
      exact noted_step_wire hs

/-- Past its region of the call, a handler runs no operation, and stays past it. -/
theorem past_step (h : t.step env a = some (a', t')) (hp : t.past = true) :
    t.operation env a.call = none ∧ t'.past = true := by
  cases t with
  | command action commandId pc =>
      obtain ⟨pc', rfl, hs⟩ := step_command h
      cases hs with
      | replay | miss | readPeers | readSession | refuse | unpacked | built => cases hp
      | sent | unsent | notify | publish | store => exact ⟨rfl, rfl⟩
  | elevator => cases hp
  | wire pc =>
      obtain ⟨r, hs, he⟩ := Option.map_eq_some_iff.mp h
      obtain ⟨rfl, rfl⟩ := Prod.mk.inj he
      cases pc with
      | callEnd | publish => cases hs; exact ⟨rfl, rfl⟩
      | done => cases hs
      | _ => cases hp

/-- Running an operation takes a handler past its region of the call. -/
theorem past_of_operation {op : Op} (h : t.step env a = some (a', t'))
    (hop : t.operation env a.call = some op) : t'.past = true := by
  cases t with
  | command action commandId pc =>
      obtain ⟨pc', rfl, hs⟩ := step_command h
      cases hs with
      | unpacked | built => rfl
      | _ => first | rfl | cases hop
  | elevator => cases hop
  | wire pc =>
      obtain ⟨pc', rfl, hs⟩ := step_wire h
      cases hs with
      | quiet _ hnone =>
          rw [show (Task.wire pc).operation env a.call = none from hnone] at hop
          cases hop
      | start | answer | hangup | hangupIdle | callEnd | publish => rfl

/-- What a step of another task writes down. -/
theorem noted_outside (a : Agent W) (b : Background) :
    ((b.act a).events = a.events ∧ pushedBy none a.events (b.act a).events = []) ∨
      ∃ atMs kind, EventKind.view kind = none ∧ (b.act a).events = a.events.push atMs kind ∧
        pushedBy none a.events (b.act a).events =
          [.pushed none ⟨a.events.nextSeq, atMs, kind⟩] := by
  cases b with
  | publish env event =>
      exact Or.inr ⟨env.eventMs, event.1, event.2, rfl, pushedBy_push none a.events _ _⟩
  | noteSender | setRoomIpIfUnset | learnAddress | pinMac | setMonitor | setCallSession
  | sendAsPad => exact Or.inl ⟨rfl, pushedBy_self none a.events⟩

/-- **Everything a move does, with what it writes down.** -/
theorem noted_cases {p q : AgentPool W} {notes notes' : List Note} {m : AgentMove}
    (h : (noted W).next (p, notes) m = some (q, notes')) :
    (∃ t, m = .start t ∧ t.fresh = true ∧ q = ⟨p.shared, p.threads ++ [t]⟩ ∧ notes' = notes) ∨
      (∃ i env t a' t' new, m = .step i env ∧ p.threads[i]? = some t ∧
        t.step env p.shared = some (a', t') ∧ NotedStep i env p.shared a' t t' new ∧
          new = t.notes i env p.shared a' ∧ q = ⟨a', p.threads.set i t'⟩ ∧
            notes' = notes ++ new) ∨
      (∃ b new, m = .outside b ∧ q = ⟨b.act p.shared, p.threads⟩ ∧ notes' = notes ++ new ∧
        new = pushedBy none p.shared.events (b.act p.shared).events) := by
  obtain ⟨hnext, hnotes⟩ := System.next_withHistory.mp h
  dsimp only at hnext hnotes
  rcases Program.next_cases hnext with
    ⟨t, rfl, hstart, rfl⟩ | ⟨i, env, t, a', t', rfl, ht, hstep, rfl⟩ | ⟨b, rfl, rfl⟩
  · exact Or.inl ⟨t, rfl, Task.fresh_of_mayStart hstart, rfl, hnotes.trans (List.append_nil _)⟩
  · refine Or.inr (Or.inl ⟨i, env, t, a', t', _, rfl, ht, hstep, noted_step hstep, rfl, rfl, ?_⟩)
    rw [hnotes]
    unfold callNotes
    dsimp only
    rw [ht]
    rfl
  · exact Or.inr (Or.inr ⟨b, _, rfl, rfl, hnotes, rfl⟩)

end

/-! ## Whole runs -/

section

variable {W : Type} [Wire W] {a : Agent W} {moves : List AgentMove} {q : AgentPool W}
  {notes : List Note}

/-- The operations of the machine, in the order they happened. -/
def operations (notes : List Note) : List Op := notes.filterMap Note.op

/-- **The Agent runs the call machine.** In every run, whatever its handlers are, the
    machine is where the operations noted lead it. -/
theorem machine_run (hrun : (noted W).run (idlePool a, []) moves = some (q, notes)) :
    q.shared.call.machine = a.call.machine.run (operations notes) := by
  refine System.run_induction (P := fun s : AgentPool W × List Note =>
    s.1.shared.call.machine = a.call.machine.run (operations s.2)) ?_ rfl hrun
  rintro ⟨p, ns⟩ m ⟨p', ns'⟩ h hn
  dsimp only at h ⊢
  rcases noted_cases hn with
    ⟨t, -, -, rfl, rfl⟩ | ⟨i, env, t, a', t', new, -, -, -, hs, -, rfl, rfl⟩ |
      ⟨b, new, -, rfl, rfl, rfl⟩
  · exact h
  · unfold operations at h ⊢
    rw [List.filterMap_append, CallMachine.run_append, ← h]
    cases hs with
    | quiet hcall | read hcall | pushed hcall => exact congrArg Call.machine hcall
    | moved _ hm => exact hm
  · unfold operations at h ⊢
    rw [List.filterMap_append, CallMachine.run_append, ← h, act_call]
    rcases noted_outside p.shared b with ⟨-, hnew⟩ | ⟨_, _, -, -, hnew⟩ <;> rw [hnew] <;> rfl

/-- Each handler runs at most one operation of the machine. -/
structure MovedOnce (p : AgentPool W) (notes : List Note) : Prop where
  past : ∀ i ∈ notes.filterMap Note.mover, ∃ t, p.threads[i]? = some t ∧ t.past = true
  once : (notes.filterMap Note.mover).Nodup

omit [Wire W] in
/-- A move that runs no operation. -/
theorem MovedOnce.append {p q : AgentPool W} {new : List Note} (h : MovedOnce p notes)
    (hnew : new.filterMap Note.mover = [])
    (hpast : ∀ (i : Nat) (t : Task), p.threads[i]? = some t → t.past = true →
      ∃ u, q.threads[i]? = some u ∧ u.past = true) : MovedOnce q (notes ++ new) := by
  constructor
  · rw [List.filterMap_append, hnew, List.append_nil]
    intro i hi
    obtain ⟨t, ht, hp⟩ := h.past i hi
    exact hpast i t ht hp
  · rw [List.filterMap_append, hnew, List.append_nil]
    exact h.once

theorem movedOnce_step {p : AgentPool W} {i : Nat} {env : Env} {a' : Agent W} {t t' : Task}
    {new : List Note} (h : MovedOnce p notes) (ht : p.threads[i]? = some t)
    (hstep : t.step env p.shared = some (a', t')) (hs : NotedStep i env p.shared a' t t' new) :
    MovedOnce ⟨a', p.threads.set i t'⟩ (notes ++ new) := by
  have hpast : ∀ (j : Nat) (u : Task), p.threads[j]? = some u → u.past = true →
      ∃ v, (p.threads.set i t')[j]? = some v ∧ v.past = true := by
    intro j u hu hup
    by_cases hji : j = i
    · subst hji
      rw [ht] at hu
      cases hu
      exact ⟨t', getElem?_set_self ht, (past_step hstep hup).2⟩
    · exact ⟨u, (getElem?_set_other hji).trans hu, hup⟩
  cases hs with
  | quiet | read | pushed => exact h.append rfl hpast
  | moved hop =>
      have hnew : i ∉ notes.filterMap Note.mover := by
        intro hi
        obtain ⟨u, hu, hup⟩ := h.past i hi
        rw [ht] at hu
        cases hu
        rw [(past_step hstep hup).1] at hop
        cases hop
      constructor
      · rw [List.filterMap_append]
        intro j hj
        rcases List.mem_append.mp hj with hj | hj
        · obtain ⟨u, hu, hup⟩ := h.past j hj
          exact hpast j u hu hup
        · obtain rfl := List.mem_singleton.mp hj
          exact ⟨t', getElem?_set_self ht, past_of_operation hstep hop⟩
      · rw [List.filterMap_append]
        refine List.nodup_append.mpr ⟨h.once, List.nodup_singleton _, ?_⟩
        rintro j hj _ hi rfl
        exact hnew (List.mem_singleton.mp hi ▸ hj)

theorem MovedOnce.next {p p' : AgentPool W} {notes' : List Note} {m : AgentMove}
    (h : MovedOnce p notes) (hn : (noted W).next (p, notes) m = some (p', notes')) :
    MovedOnce p' notes' := by
  rcases noted_cases hn with
    ⟨t, -, -, rfl, rfl⟩ | ⟨i, env, t, a', t', new, -, ht, hstep, hs, -, rfl, rfl⟩ |
      ⟨b, new, -, rfl, rfl, rfl⟩
  · exact List.append_nil notes' ▸
      h.append rfl fun i t ht hp => ⟨t, getElem?_append_of_some ht, hp⟩
  · exact movedOnce_step h ht hstep hs
  · refine h.append ?_ fun i t ht hp => ⟨t, ht, hp⟩
    rcases noted_outside p.shared b with ⟨-, hnew⟩ | ⟨_, _, -, -, hnew⟩ <;> rw [hnew] <;> rfl

omit [Wire W] in
theorem MovedOnce.init (a : Agent W) : MovedOnce (idlePool a) [] := ⟨by simp, by simp⟩

/-- The events pushed, in the order of the pushes. -/
def pushes (notes : List Note) : List Event := notes.filterMap Note.event

/-- The log is what is left of the events pushed to it. -/
structure Keeps (log : EventLog) (pushed : List Event) : Prop where
  capacity : log.capacity = 256
  held : log.events = lastN 256 pushed
  next : log.nextSeq = pushed.length + 1
  numbered : pushed.map Event.seq = List.range' 1 pushed.length

namespace Keeps

variable {log : EventLog} {pushed : List Event}

theorem new : Keeps (.new 256) [] where
  capacity := rfl
  held := rfl
  next := rfl
  numbered := rfl

theorem push (h : Keeps log pushed) (atMs : Nat) (kind : EventKind) :
    Keeps (log.push atMs kind) (pushed ++ [⟨log.nextSeq, atMs, kind⟩]) where
  capacity := h.capacity
  held := by
    have hlen := length_lastN 256 pushed
    unfold EventLog.push
    dsimp only
    rw [h.capacity, h.held]
    split
    · next hfull => rw [lastN_append_of_le (by decide) (by omega)]
    · next hroom => rw [lastN_append_of_lt (by omega)]
  next := by
    rw [EventLog.push_nextSeq, h.next, List.length_append]
    rfl
  numbered := by
    rw [List.map_append, h.numbered, h.next, List.length_append, List.length_singleton,
      List.range'_concat]
    simp [Nat.add_comm]

end Keeps

/-- **The log keeps the last events pushed**, numbered one by one in the order in which
    they were pushed. -/
theorem log_keeps (hnew : a.events = .new 256)
    (hrun : (noted W).run (idlePool a, []) moves = some (q, notes)) :
    Keeps q.shared.events (pushes notes) := by
  refine System.run_induction (P := fun s : AgentPool W × List Note =>
    Keeps s.1.shared.events (pushes s.2)) ?_ ?_ hrun
  · rintro ⟨p, ns⟩ m ⟨p', ns'⟩ h hn
    dsimp only at h ⊢
    unfold pushes at h ⊢
    rcases noted_cases hn with
      ⟨t, -, -, rfl, rfl⟩ | ⟨i, env, t, a', t', new, -, -, -, hs, -, rfl, rfl⟩ |
        ⟨b, new, -, rfl, rfl, rfl⟩
    · exact h
    · rw [List.filterMap_append]
      cases hs with
      | quiet _ hlog | read _ hlog =>
          rw [show (Pool.mk a' (p.threads.set i t')).shared.events = _ from hlog]
          exact (List.append_nil _).symm ▸ h
      | moved _ _ _ _ hlog =>
          rw [show (Pool.mk a' (p.threads.set i t')).shared.events = _ from hlog]
          exact (List.append_nil _).symm ▸ h
      | pushed _ hlog =>
          rw [show (Pool.mk a' (p.threads.set i t')).shared.events = _ from hlog]
          exact h.push _ _
    · rw [List.filterMap_append]
      rcases noted_outside p.shared b with ⟨hlog, hnew⟩ | ⟨atMs, kind, -, hlog, hnew⟩
      · rw [hnew, show (Pool.mk (b.act p.shared) p.threads).shared.events = _ from hlog]
        exact (List.append_nil _).symm ▸ h
      · rw [hnew, show (Pool.mk (b.act p.shared) p.threads).shared.events = _ from hlog]
        exact h.push atMs kind
  · rw [show (idlePool a).shared.events = .new 256 from hnew]
    exact .new

end

end Michoi
