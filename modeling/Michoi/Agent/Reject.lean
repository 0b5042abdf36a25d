/-
  What a rejected command leaves behind.

  `execute` changes the machine before it builds and sends the packet. A command the
  machine rejects changes nothing, but one that the machine admits and that then cannot
  be built or sent is reported as rejected with its transition already made
  (`claim_rejected_after_answering`). `rejected_changes_nothing_iff` says exactly when the
  report is true: read strictly, where the Agent afterwards is the Agent before with the
  report in its cache, and read for the call and the events alone. It also says what is
  left behind where the report is false.
-/
import Michoi.Agent.Command
import Michoi.Wire.Tap
import Michoi.Wire.Udp

namespace Michoi

/-- The fields of the call that a rejected command is to leave alone. -/
structure SameCall (c c' : Call) : Prop where
  phase : c'.machine.state.phase = c.machine.state.phase
  owner : c'.machine.state.owner = c.machine.state.owner
  sessionId : c'.machine.state.sessionId = c.machine.state.sessionId
  lastUnlock : c'.machine.lastUnlock = c.machine.lastUnlock
  unlocks : c'.machine.state.unlocks = c.machine.state.unlocks
  sinceMs : c'.sinceMs = c.sinceMs

theorem SameCall.refl (c : Call) : SameCall c c := ⟨rfl, rfl, rfl, rfl, rfl, rfl⟩

/-- An admitted command always shows in the call. -/
theorem Call.not_sameCall_after {c : Call} {env : Env} {action : CallAction}
    (h : c.admits env action) : ¬ SameCall c (c.after env action) := by
  intro hs
  cases action with
  | claim =>
      have hp := hs.phase
      rw [after_claim h, (admits_claim.mp h).1] at hp
      cases hp
  | unlock =>
      have hu := hs.unlocks
      rw [after_unlock h] at hu
      dsimp only at hu
      omega
  | hangup => exact h hs.phase.symm

namespace Agent

variable {W : Type} [Wire W] {a : Agent W} {env : Env} {action : CallAction}

theorem execute_of_get_none {commandId : String} (h : a.commands.get commandId = none) :
    a.execute env action commandId =
      ((a.run env action commandId).1,
        (a.run env action commandId).2.store (a.run env action commandId).1) := by
  unfold execute
  rw [h]

theorem run_of_no_door (h : a.peers.endpoints = none) (commandId : String) :
    a.run env action commandId = (.rejected commandId .noCall, a) := by
  unfold run
  rw [build_of_no_door h]

theorem run_of_not_admits (h : ¬ a.call.admits env action) (commandId : String) :
    ∃ error, a.run env action commandId = (.rejected commandId error, a) := by
  obtain ⟨error, hb⟩ : ∃ error, a.build env action a.peers a.sessionString = (.error error, a) :=
    build_of_not_admits h
  refine ⟨error, ?_⟩
  unfold run
  rw [hb]

theorem run_of_not_packed {e : Endpoints} {error : ProtocolError}
    (he : a.peers.endpoints = some e) (h : a.call.admits env action)
    (hp : sessionControl action.opcode e = .error error) (commandId : String) :
    a.run env action commandId =
      (.rejected commandId .agentOffline, a.withCall (a.call.after env action)) := by
  unfold run
  rw [build_of_not_packed he h hp]

theorem run_of_packed {e : Endpoints} {packet : Bytes}
    (he : a.peers.endpoints = some e) (h : a.call.admits env action)
    (hp : sessionControl action.opcode e = .ok packet) (commandId : String) :
    a.run env action commandId =
      (a.withCall (a.call.after env action)).deliver env action commandId a.peers
        (action.event a.sessionString) packet := by
  unfold run
  rw [build_of_packed he h hp]

theorem deliver_of_sent {commandId : String} {peers : Peers} {event : EventKind}
    {packet : Bytes} (h : (Wire.sendAsPad a.wire env.send packet peers).1 = .ok ()) :
    (a.deliver env action commandId peers event packet).1.ok = true := by
  unfold deliver sendAsPad
  dsimp only
  rw [h]
  rfl

theorem deliver_of_not_sent {commandId : String} {peers : Peers} {event : EventKind}
    {packet : Bytes} (h : (Wire.sendAsPad a.wire env.send packet peers).1 ≠ .ok ()) :
    a.deliver env action commandId peers event packet =
      (.rejected commandId .agentOffline,
        a.withWire (Wire.sendAsPad a.wire env.send packet peers).2) := by
  unfold deliver sendAsPad
  dsimp only
  split
  · next heq => exact absurd (congrArg Prod.fst heq) h
  · next heq =>
      obtain ⟨-, rfl⟩ := Prod.mk.inj heq
      rfl

end Agent

variable {W : Type} [Wire W]

/-- The report of a rejected command is true: the Agent is as it was before, wire and all,
    but for its cache, which gained the report. -/
def RejectionHonest (a : Agent W) (env : Env) (action : CallAction) (commandId : String) : Prop :=
  (a.execute env action commandId).1.ok = false →
    (a.execute env action commandId).2 = a.store (a.execute env action commandId).1

/-- The report of a rejected command is true of the call and the events, whatever became of
    the wire. -/
def RejectionKeepsCall (a : Agent W) (env : Env) (action : CallAction) (commandId : String) :
    Prop :=
  (a.execute env action commandId).1.ok = false →
    SameCall a.call (a.execute env action commandId).2.call ∧
      (a.execute env action commandId).2.events = a.events

/-- A command that the machine lets through can be built and sent, if a door is known. -/
def Deliverable (a : Agent W) (env : Env) (action : CallAction) : Prop :=
  ∀ e, a.peers.endpoints = some e → a.call.admits env action →
    ∃ packet, sessionControl action.opcode e = .ok packet ∧
      (Wire.sendAsPad a.wire env.send packet a.peers).1 = .ok ()

/-- The command was rejected with its transition made: the call is the one after it, no
    event was pushed, and the wire saw at most the one send that failed. -/
def RejectedHalfDone (a : Agent W) (env : Env) (action : CallAction) (commandId : String) :
    Prop :=
  ∃ wire, a.execute env action commandId = (.rejected commandId .agentOffline,
      ((a.withCall (a.call.after env action)).withWire wire).store
        (.rejected commandId .agentOffline)) ∧
    (wire = a.wire ∨ ∃ e packet, a.peers.endpoints = some e ∧
      sessionControl action.opcode e = .ok packet ∧
      wire = (Wire.sendAsPad a.wire env.send packet a.peers).2)

variable {a : Agent W} {env : Env} {action : CallAction} {commandId : String}

theorem RejectionHonest.keepsCall (h : RejectionHonest a env action commandId) :
    RejectionKeepsCall a env action commandId := by
  intro hrejected
  rw [h hrejected]
  exact ⟨.refl _, rfl⟩

/-- A deliverable command that is rejected never got to its transition. -/
theorem rejectionHonest_of_deliverable (hnew : a.commands.get commandId = none)
    (hgood : Deliverable a env action) : RejectionHonest a env action commandId := by
  unfold RejectionHonest
  rw [Agent.execute_of_get_none hnew]
  intro hrejected
  by_cases hadm : a.call.admits env action
  · cases he : a.peers.endpoints with
    | none => rw [Agent.run_of_no_door he]
    | some e =>
        obtain ⟨packet, hp, hsent⟩ := hgood e he hadm
        rw [Agent.run_of_packed he hadm hp] at hrejected
        have hok : ((a.withCall (a.call.after env action)).deliver env action commandId a.peers
            (action.event a.sessionString) packet).1.ok = true :=
          Agent.deliver_of_sent hsent
        exact absurd hrejected (by rw [hok]; decide)
  · obtain ⟨error, hrun⟩ := Agent.run_of_not_admits hadm commandId
    rw [hrun]

/-- A command that is admitted and not deliverable fails at the packing or at the send. -/
theorem rejectedHalfDone_of_not_deliverable (hnew : a.commands.get commandId = none)
    (hbad : ¬ Deliverable a env action) : RejectedHalfDone a env action commandId := by
  unfold Deliverable at hbad
  push Not at hbad
  obtain ⟨e, he, hadm, hfail⟩ := hbad
  unfold RejectedHalfDone
  rw [Agent.execute_of_get_none hnew]
  cases hp : sessionControl action.opcode e with
  | error error =>
      rw [Agent.run_of_not_packed he hadm hp]
      exact ⟨a.wire, rfl, .inl rfl⟩
  | ok packet =>
      rw [Agent.run_of_packed he hadm hp, Agent.deliver_of_not_sent
        (a := a.withCall (a.call.after env action)) (hfail packet hp)]
      exact ⟨_, rfl, .inr ⟨e, packet, he, hp, rfl⟩⟩

theorem admits_of_not_deliverable (hbad : ¬ Deliverable a env action) :
    a.call.admits env action := by
  unfold Deliverable at hbad
  push Not at hbad
  obtain ⟨-, -, hadm, -⟩ := hbad
  exact hadm

/-- Half done is not honest: the transition shows in the call. -/
theorem RejectedHalfDone.not_keepsCall (h : RejectedHalfDone a env action commandId)
    (hadm : a.call.admits env action) : ¬ RejectionKeepsCall a env action commandId := by
  intro hkeeps
  obtain ⟨wire, hrun, -⟩ := h
  unfold RejectionKeepsCall at hkeeps
  rw [hrun] at hkeeps
  exact Call.not_sameCall_after hadm (hkeeps rfl).1

/-- **When a rejected command changes nothing.** For a command that is not in the cache:
    exactly when no door is known, or the machine does not let the action through, or the packet
    can be built and the wire takes it. Otherwise its transition stays. -/
theorem rejected_changes_nothing_iff (a : Agent W) (env : Env) (action : CallAction)
    (commandId : String) (hnew : a.commands.get commandId = none) :
    (RejectionHonest a env action commandId ↔ Deliverable a env action) ∧
    (RejectionKeepsCall a env action commandId ↔ Deliverable a env action) ∧
    (¬ Deliverable a env action → RejectedHalfDone a env action commandId) := by
  have hgood : Deliverable a env action → RejectionHonest a env action commandId :=
    rejectionHonest_of_deliverable hnew
  have hkeeps : RejectionKeepsCall a env action commandId → Deliverable a env action := by
    intro hk
    by_contra hbad
    exact (rejectedHalfDone_of_not_deliverable hnew hbad).not_keepsCall
      (admits_of_not_deliverable hbad) hk
  exact ⟨⟨fun h => hkeeps h.keepsCall, hgood⟩, ⟨hkeeps, fun h => (hgood h).keepsCall⟩,
    rejectedHalfDone_of_not_deliverable hnew⟩

/-- The door's MAC and the Pad's are known, the door rings and the Pad answers: a claim is
    refused, and all that is left of it is its report. -/
theorem rejected_changes_nothing_pad_answered :
    ∃ w, TapWire.opened "lan1" "lan2" = some w ∧
      let e := Endpoints.captured
      let fresh := Agent.new w ⟨e.room, none, none, none, 10000⟩ 5000 false (.new 0 0) none
      let seen := (((fresh.pinMac .door ⟨#v[2, 0, 0, 0, 0, 1]⟩).2).pinMac .pad
        ⟨#v[2, 0, 0, 0, 0, 2]⟩).2
      let ringing := seen.onWire { } .door ((sessionRequest e).toOption.getD [])
      let answered := ringing.onWire { } .pad ((sessionControl opAnswer e).toOption.getD [])
      answered.peers.endpoints = some e ∧ answered.call.machine.state.owner = .pad ∧
        (answered.execute { } .claim "c1").1 = .rejected "c1" .notRinging ∧
        RejectionHonest answered { } .claim "c1" := by
  refine ⟨_, rfl, by decide +kernel, by decide +kernel, by decide +kernel, ?_⟩
  exact (rejected_changes_nothing_iff _ _ _ _ (by decide +kernel)).1.mpr
    fun _ _ hadm => absurd hadm (by decide +kernel)

theorem not_rejectionKeepsCall (hrejected : (a.execute env action commandId).1.ok = false)
    (hphase : (a.execute env action commandId).2.call.machine.state.phase ≠
      a.call.machine.state.phase) : ¬ RejectionKeepsCall a env action commandId :=
  fun h => hphase (h hrejected).1.phase

/-- In tap mode, before the Pad's MAC is known: the door rings, a claim answers the call
    and is then rejected because nothing can be injected. -/
theorem claim_rejected_after_answering :
    ∃ w, TapWire.opened "lan1" "lan2" = some w ∧
      let e := Endpoints.captured
      let fresh := Agent.new w ⟨e.room, none, none, none, 10000⟩ 5000 false (.new 0 0) none
      let seen := (fresh.pinMac .door ⟨#v[2, 0, 0, 0, 0, 1]⟩).2
      let ringing := seen.onWire { } .door ((sessionRequest e).toOption.getD [])
      let claimed := ringing.execute { } .claim "c1"
      ringing.commands.get "c1" = none ∧ ringing.call.machine.state.phase = .ringing ∧
        claimed.1 = .rejected "c1" .agentOffline ∧
        claimed.2.call.machine.state.phase = .connected ∧
        claimed.2.call.machine.state.owner = .remote ∧
        ¬ RejectionKeepsCall ringing { } .claim "c1" ∧
        ¬ RejectionHonest ringing { } .claim "c1" := by
  refine ⟨_, rfl, by decide +kernel, by decide +kernel, by decide +kernel, by decide +kernel,
    by decide +kernel, ?_, fun honest => ?_⟩
  · exact not_rejectionKeepsCall (by decide +kernel) (by decide +kernel)
  · exact not_rejectionKeepsCall (by decide +kernel) (by decide +kernel) honest.keepsCall

end Michoi
