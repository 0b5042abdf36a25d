/-
  What a command does, said once for the three implementations of `AgentControl`: the Agent,
  the replay Agent and the software door station.

  A `Desk` is what a command reads and what it leaves for the next one. `Desk.command` is
  the rule: an id from the cache is answered from the cache, any other goes to the machine,
  and what the machine admits is published. The replay Agent and the door station follow it
  always (`ReplayAgent.execute_eq`, `DoorStation.command_eq`), the Agent where its packet can
  be built and sent (`Agent.execute_eq`).
-/
import Michoi.Agent.Reject
import Michoi.DoorStation
import Michoi.ReplayAgent

namespace Michoi

/-- The machine's part of a command: why it refuses, or the machine afterwards. -/
def CallAction.act (action : CallAction) (m : CallMachine) (now : Nat) :
    Except CallError CallMachine :=
  match action with
  | .claim =>
      match m.remoteAnswer with
      | (.ok (), m') => .ok m'
      | (.error error, _) => .error (.from error)
  | .unlock =>
      match m.unlock now with
      | (.ok (), m') => .ok m'
      | (.error error, _) => .error (.from error)
  | .hangup => if m.state.phase = .idle then .error .noCall else .ok m.hangup

structure Desk where
  machine : CallMachine
  commands : CommandCache

/-- What a command client is told, what the event stream is told, and the desk that the
    next command finds. -/
structure Handled where
  result : CommandResult
  pushed : Option EventKind
  desk : Desk

namespace Desk

def session (d : Desk) : String := toString d.machine.state.sessionId

/-- A command that is not in the cache. -/
def fresh (d : Desk) (now : Nat) (action : CallAction) (commandId : String) : Handled :=
  match action.act d.machine now with
  | .ok machine =>
      let result := CommandResult.accepted commandId
      ⟨result, some (action.event d.session), ⟨machine, d.commands.store result⟩⟩
  | .error error =>
      let result := CommandResult.rejected commandId error
      ⟨result, none, { d with commands := d.commands.store result }⟩

/-- The rule. -/
def command (d : Desk) (now : Nat) (action : CallAction) (commandId : String) : Handled :=
  match d.commands.get commandId with
  | some replayed => ⟨replayed, none, d⟩
  | none => d.fresh now action commandId

end Desk

/-- The log gained the event, or nothing. -/
def Pushes (log log' : EventLog) : Option EventKind → Prop
  | some kind => ∃ atMs, log' = log.push atMs kind
  | none => log' = log

/-- One log cannot have gained two kinds. -/
theorem Pushes.unique {log log' : EventLog} {pushed pushed' : Option EventKind}
    (h : Pushes log log' pushed) (h' : Pushes log log' pushed') : pushed = pushed' := by
  have hgrown : ∀ atMs kind, log.push atMs kind ≠ log := by
    intro atMs kind heq
    have hseq : log.nextSeq + 1 = log.nextSeq := congrArg EventLog.nextSeq heq
    omega
  cases pushed with
  | none =>
      cases pushed' with
      | none => rfl
      | some kind =>
          obtain ⟨atMs, hlog⟩ := h'
          exact absurd (hlog.symm.trans h) (hgrown atMs kind)
  | some kind =>
      obtain ⟨atMs, hlog⟩ := h
      cases pushed' with
      | none => exact absurd (hlog.symm.trans h') (hgrown atMs kind)
      | some kind' =>
          obtain ⟨atMs', hlog'⟩ := h'
          have hevents := congrArg (fun l => l.events.getLast?) (hlog.symm.trans hlog')
          simp only [EventLog.push, List.getLast?_append, List.getLast?_singleton,
            Option.some_or, Option.some.injEq, Event.mk.injEq, true_and] at hevents
          rw [hevents.2]

/-! ## The machine's part -/

/-- A method of the machine goes through, or fails and changes nothing. -/
theorem CallMachine.step_cases (m : CallMachine) (o : Op) :
    (∃ m', o.step m = (.ok (), m')) ∨ ∃ error, o.step m = (.error error, m) := by
  have hkeep := step_of_not_accepts m o
  unfold accepts at hkeep
  generalize o.step m = r at hkeep ⊢
  obtain ⟨result, m'⟩ := r
  cases result with
  | ok => exact .inl ⟨m', rfl⟩
  | error error => exact .inr ⟨error, by rw [show m' = m from hkeep nofun]⟩

/-- An action that is a method of the machine goes as the method goes. -/
theorem CallAction.method_cases {action : CallAction} {o : Op} {m : CallMachine} {now : Nat}
    (h : action.act m now = match o.step m with
      | (.ok (), m') => .ok m'
      | (.error error, _) => .error (.from error)) :
    (∃ m', o.step m = (.ok (), m') ∧ action.act m now = .ok m') ∨
    ∃ error, o.step m = (.error error, m) ∧ action.act m now = .error (.from error) := by
  rcases m.step_cases o with ⟨m', hstep⟩ | ⟨error, hstep⟩
  · exact .inl ⟨m', hstep, by rw [h, hstep]⟩
  · exact .inr ⟨error, hstep, by rw [h, hstep]⟩

theorem CallAction.claim_cases (m : CallMachine) (now : Nat) :
    (∃ m', m.remoteAnswer = (.ok (), m') ∧ claim.act m now = .ok m') ∨
    ∃ error, m.remoteAnswer = (.error error, m) ∧ claim.act m now = .error (.from error) :=
  method_cases (o := .remoteAnswer) rfl

theorem CallAction.unlock_cases (m : CallMachine) (now : Nat) :
    (∃ m', m.unlock now = (.ok (), m') ∧ unlock.act m now = .ok m') ∨
    ∃ error, m.unlock now = (.error error, m) ∧ unlock.act m now = .error (.from error) :=
  method_cases (o := .unlock now) rfl

theorem CallAction.act_hangup (m : CallMachine) (now : Nat) :
    hangup.act m now = if m.state.phase = .idle then .error .noCall else .ok m.hangup := rfl

/-- `since_ms` after an admitted command. -/
def CallAction.since (action : CallAction) (sinceMs : Option Nat) (env : Env) : Option Nat :=
  match action with
  | .unlock => sinceMs
  | .claim | .hangup => some env.sinceMs

theorem Call.command_eq (c : Call) (env : Env) (action : CallAction) (session : String)
    (e : Endpoints) : c.command env action session e =
      match action.act c.machine env.instant with
      | .ok machine =>
          (packed action session e, { c with machine, sinceMs := action.since c.sinceMs env })
      | .error error => (.error error, c) := by
  unfold command
  cases action with
  | claim =>
      rcases CallAction.claim_cases c.machine env.instant with
        ⟨m', hanswer, hact⟩ | ⟨error, hanswer, hact⟩
      · simp only [hanswer, hact, CallAction.since]
      · simp only [hanswer, hact]
  | unlock =>
      rcases CallAction.unlock_cases c.machine env.instant with
        ⟨m', hunlock, hact⟩ | ⟨error, hunlock, hact⟩
      · simp only [hunlock, hact, CallAction.since]
      · simp only [hunlock, hact]
  | hangup =>
      rw [CallAction.act_hangup]
      by_cases hidle : c.machine.state.phase = .idle
      · simp only [hidle, if_pos]
      · simp only [hidle, if_neg, not_false_eq_true, CallAction.since]

theorem ReplayCall.command_eq (c : ReplayCall) (env : Env) (action : CallAction)
    (session : String) : c.command env action session =
      match action.act c.machine env.instant with
      | .ok machine =>
          (.ok (some (action.event session)), ⟨machine, action.since c.sinceMs env⟩)
      | .error error => (.error error, c) := by
  unfold command
  cases action with
  | claim =>
      rcases CallAction.claim_cases c.machine env.instant with
        ⟨m', hanswer, hact⟩ | ⟨error, hanswer, hact⟩
      · simp only [hanswer, hact, CallAction.since, CallAction.event]
      · simp only [hanswer, hact]
  | unlock =>
      rcases CallAction.unlock_cases c.machine env.instant with
        ⟨m', hunlock, hact⟩ | ⟨error, hunlock, hact⟩
      · simp only [hunlock, hact, CallAction.since, CallAction.event]
      · simp only [hunlock, hact]
  | hangup =>
      rw [CallAction.act_hangup]
      by_cases hidle : c.machine.state.phase = .idle
      · simp only [hidle, if_pos]
      · simp only [hidle, if_neg, not_false_eq_true, CallAction.since, CallAction.event]

/-- The callback an action has, with its name. -/
def CallAction.hook (callbacks : Callbacks) : CallAction → String × Option String
  | claim => ("answer", callbacks.onAnswer)
  | unlock => ("unlock", callbacks.onUnlock)
  | hangup => ("hangup", callbacks.onHangup)

theorem StationCall.command_eq (c : StationCall) (env : Env) (callbacks : Callbacks)
    (action : CallAction) (session : String) : c.command env callbacks action session =
      match action.act c.machine env.instant with
      | .ok machine =>
          (.ok (some ⟨action.event session, (action.hook callbacks).1, (action.hook callbacks).2⟩),
            ⟨machine, action.since c.sinceMs env⟩)
      | .error error => (.error error, c) := by
  unfold command
  cases action with
  | claim =>
      rcases CallAction.claim_cases c.machine env.instant with
        ⟨m', hanswer, hact⟩ | ⟨error, hanswer, hact⟩
      · simp only [hanswer, hact, CallAction.since, CallAction.event, CallAction.hook]
      · simp only [hanswer, hact]
  | unlock =>
      rcases CallAction.unlock_cases c.machine env.instant with
        ⟨m', hunlock, hact⟩ | ⟨error, hunlock, hact⟩
      · simp only [hunlock, hact, CallAction.since, CallAction.event, CallAction.hook]
      · simp only [hunlock, hact]
  | hangup =>
      rw [CallAction.act_hangup]
      by_cases hidle : c.machine.state.phase = .idle
      · simp only [hidle, if_pos]
      · simp only [hidle, if_neg, not_false_eq_true, CallAction.since, CallAction.event,
          CallAction.hook]

/-! ## The implementations and the rule -/

/-- What an implementation did with a command is what the rule says. -/
structure Follows (h : Handled) (result : CommandResult) (log log' : EventLog) (desk : Desk) :
    Prop where
  result : result = h.result
  pushed : Pushes log log' h.pushed
  desk : desk = h.desk

def ReplayAgent.desk (a : ReplayAgent) : Desk := ⟨a.call.machine, a.commands⟩

def DoorStation.desk (d : DoorStation) : Desk := ⟨d.call.machine, d.commands⟩

def Agent.desk {W : Type} (a : Agent W) : Desk := ⟨a.call.machine, a.commands⟩

/-- The captured stations have short ids, so the replay Agent's packet can be built. -/
theorem captured_encodes (opcode : UInt32) :
    (sessionControl opcode .captured).toBool = true := rfl

theorem ReplayAgent.follows (a : ReplayAgent) (env : Env) (action : CallAction)
    (commandId : String) : Follows (a.desk.command env.instant action commandId)
      (a.execute env action commandId).1 a.events (a.execute env action commandId).2.events
      (a.execute env action commandId).2.desk := by
  unfold execute Desk.command
  dsimp only [desk]
  cases a.commands.get commandId with
  | some replayed => exact ⟨rfl, rfl, rfl⟩
  | none =>
      unfold outcome Desk.fresh
      simp only [captured_encodes, ReplayCall.command_eq]
      cases action.act a.call.machine env.instant with
      | ok machine => exact ⟨rfl, ⟨env.eventMs, rfl⟩, rfl⟩
      | error error => exact ⟨rfl, rfl, rfl⟩

@[simp] theorem DoorStation.runCallback_events (d : DoorStation) (event : String)
    (callback : Option String) : (d.runCallback event callback).events = d.events := by
  cases callback <;> rfl

@[simp] theorem DoorStation.runCallback_desk (d : DoorStation) (event : String)
    (callback : Option String) : (d.runCallback event callback).desk = d.desk := by
  cases callback <;> rfl

theorem DoorStation.announce_events (d : DoorStation) (env : Env) (notice : Notice) :
    (d.announce env (some notice)).events = d.events.push env.eventMs notice.event := by
  unfold announce
  dsimp only
  split <;> exact runCallback_events ..

theorem DoorStation.announce_desk (d : DoorStation) (env : Env) (notice : Notice) :
    (d.announce env (some notice)).desk = d.desk := by
  unfold announce
  dsimp only
  split <;> exact runCallback_desk ..

theorem DoorStation.follows (d : DoorStation) (env : Env) (action : CallAction)
    (commandId : String) : Follows (d.desk.command env.instant action commandId)
      (d.command env action commandId).1 d.events (d.command env action commandId).2.events
      (d.command env action commandId).2.desk := by
  unfold command Desk.command
  dsimp only [desk]
  cases d.commands.get commandId with
  | some replayed => exact ⟨rfl, rfl, rfl⟩
  | none =>
      unfold Desk.fresh
      simp only [StationCall.command_eq]
      cases action.act d.call.machine env.instant with
      | ok machine =>
          have hdesk := announce_desk
            { d with call := ⟨machine, action.since d.call.sinceMs env⟩ } env
            ⟨action.event d.sessionString, (action.hook d.callbacks).1, (action.hook d.callbacks).2⟩
          refine ⟨rfl, ⟨env.eventMs, announce_events ..⟩, ?_⟩
          rw [Desk.mk.injEq]
          exact ⟨congrArg Desk.machine hdesk, congrArg (fun k => Desk.commands k |>.store _) hdesk⟩
      | error error => exact ⟨rfl, rfl, rfl⟩

/-! ## The Agent -/

section

variable {W : Type} {a : Agent W} {env : Env} {action : CallAction} {e : Endpoints}

/-- The machine lets the action through exactly when it has a next machine for it. -/
theorem act_of_admits (h : a.call.admits env action) :
    action.act a.call.machine env.instant = .ok (a.call.after env action).machine := by
  cases action with
  | claim =>
      have hok : a.call.machine.remoteAnswer.1 = .ok () := h
      rcases CallAction.claim_cases a.call.machine env.instant with
        ⟨m', hanswer, hact⟩ | ⟨error, hanswer, -⟩
      · rw [hact]
        unfold Call.after
        dsimp only [CallAction.op, Op.step]
        rw [hanswer]
      · rw [hanswer] at hok
        cases hok
  | unlock =>
      have hok : (a.call.machine.unlock env.instant).1 = .ok () := h
      rcases CallAction.unlock_cases a.call.machine env.instant with
        ⟨m', hunlock, hact⟩ | ⟨error, hunlock, -⟩
      · rw [hact]
        unfold Call.after
        dsimp only [CallAction.op, Op.step]
        rw [hunlock]
      · rw [hunlock] at hok
        cases hok
  | hangup => exact if_neg h

theorem act_of_not_admits (h : ¬ a.call.admits env action) :
    ∃ error, action.act a.call.machine env.instant = .error error := by
  cases action with
  | claim =>
      rcases CallAction.claim_cases a.call.machine env.instant with
        ⟨m', hanswer, -⟩ | ⟨error, -, hact⟩
      · exact absurd (congrArg Prod.fst hanswer) h
      · exact ⟨_, hact⟩
  | unlock =>
      rcases CallAction.unlock_cases a.call.machine env.instant with
        ⟨m', hunlock, -⟩ | ⟨error, -, hact⟩
      · exact absurd (congrArg Prod.fst hunlock) h
      · exact ⟨_, hact⟩
  | hangup => exact ⟨.noCall, if_pos (Decidable.not_not.mp h)⟩

/-- The id is in the cache or the machine refuses: the packet does not come into it. -/
def Agent.Refuses (a : Agent W) (env : Env) (action : CallAction) (commandId : String) : Prop :=
  a.commands.get commandId ≠ none ∨ ¬ a.call.admits env action

instance (a : Agent W) (env : Env) (action : CallAction) (commandId : String) :
    Decidable (a.Refuses env action commandId) :=
  inferInstanceAs (Decidable (_ ∨ _))

variable [Wire W]

@[simp] theorem Agent.notify_desk (peers : Peers) : (a.notify env action peers).desk = a.desk := by
  cases action <;> rfl

@[simp] theorem Agent.notify_events (peers : Peers) :
    (a.notify env action peers).events = a.events := by
  cases action <;> rfl

theorem Agent.deliver_eq_of_sent {commandId : String} {peers : Peers} {event : EventKind}
    {packet : Bytes} (h : (Wire.sendAsPad a.wire env.send packet peers).1 = .ok ()) :
    a.deliver env action commandId peers event packet =
      (.accepted commandId,
        ((a.withWire (Wire.sendAsPad a.wire env.send packet peers).2).notify env action
          peers).publish env event) := by
  unfold deliver sendAsPad
  dsimp only
  generalize Wire.sendAsPad a.wire env.send packet peers = r at h ⊢
  obtain ⟨result, wire⟩ := r
  obtain rfl : result = .ok () := h
  rfl

/-- Whatever is answered without a packet is answered by the rule. -/
theorem Agent.follows_of_refuses {commandId : String} (hdoor : a.peers.endpoints = some e)
    (h : a.Refuses env action commandId) :
    Follows (a.desk.command env.instant action commandId) (a.execute env action commandId).1
      a.events (a.execute env action commandId).2.events
      (a.execute env action commandId).2.desk := by
  unfold Desk.command
  dsimp only [desk]
  cases hget : a.commands.get commandId with
  | some replayed =>
      unfold execute
      rw [hget]
      exact ⟨rfl, rfl, rfl⟩
  | none =>
      have hrefused : ¬ a.call.admits env action := h.resolve_left (not_not.mpr hget)
      obtain ⟨error, hact⟩ := act_of_not_admits hrefused
      rw [execute_of_get_none hget]
      unfold run build Desk.fresh
      simp only [hdoor, Call.command_eq, hact]
      exact ⟨rfl, rfl, rfl⟩

/-- So is a command whose packet can be built and is sent. -/
theorem Agent.follows_of_packed {commandId : String} {packet : Bytes}
    (hdoor : a.peers.endpoints = some e) (hpacket : sessionControl action.opcode e = .ok packet)
    (hsent : (Wire.sendAsPad a.wire env.send packet a.peers).1 = .ok ()) :
    Follows (a.desk.command env.instant action commandId) (a.execute env action commandId).1
      a.events (a.execute env action commandId).2.events
      (a.execute env action commandId).2.desk := by
  by_cases hrefuses : a.Refuses env action commandId
  · exact follows_of_refuses hdoor hrefuses
  · have hget : a.commands.get commandId = none :=
      Decidable.not_not.mp fun hcached => hrefuses (.inl hcached)
    have hadm : a.call.admits env action :=
      Decidable.not_not.mp fun hrefused => hrefuses (.inr hrefused)
    rw [execute_of_get_none hget, run_of_packed hdoor hadm hpacket,
      deliver_eq_of_sent (a := a.withCall (a.call.after env action)) hsent]
    unfold Desk.command Desk.fresh
    dsimp only [desk]
    rw [hget, act_of_admits hadm]
    let sent := (a.withCall (a.call.after env action)).withWire
      (Wire.sendAsPad a.wire env.send packet a.peers).2
    have hevents : (sent.notify env action a.peers).events = a.events := notify_events a.peers
    have hdesk : (sent.notify env action a.peers).desk =
        ⟨(a.call.after env action).machine, a.commands⟩ := notify_desk a.peers
    refine ⟨rfl, ⟨env.eventMs, congrArg (fun l => EventLog.push l _ _) hevents⟩, ?_⟩
    rw [Desk.mk.injEq]
    exact ⟨congrArg Desk.machine hdesk,
      congrArg (fun k => CommandCache.store (Desk.commands k) _) hdesk⟩

/-- A packet that cannot be built is where the Agent leaves the rule: the rule accepts. -/
theorem Agent.leaves_rule {commandId : String} {error : ProtocolError}
    (hdoor : a.peers.endpoints = some e) (hpacket : sessionControl action.opcode e = .error error)
    (h : ¬ a.Refuses env action commandId) :
    (a.execute env action commandId).1 = .rejected commandId .agentOffline ∧
      (a.desk.command env.instant action commandId).result = .accepted commandId := by
  have hget : a.commands.get commandId = none :=
    Decidable.not_not.mp fun hcached => h (.inl hcached)
  have hadm : a.call.admits env action := Decidable.not_not.mp fun hrefused => h (.inr hrefused)
  constructor
  · rw [execute_of_get_none hget, run_of_not_packed hdoor hadm hpacket]
  · unfold Desk.command Desk.fresh
    dsimp only [desk]
    rw [hget, act_of_admits hadm]

end

end Michoi
