/-
  Everything one step of a handler can do, said once.

  `CommandStep`, `ElevatorStep` and `WireStep` have one constructor for each way a step of
  `execute`, `call_elevator_now` and `on_wire` can go, with what the step checked and what
  it changed. The invariants of the modules after this one are proved by cases on them,
  and never unfold a step.
-/
import Michoi.Agent.Command
import Michoi.Task
import Michoi.Wire.Tap

namespace Michoi

open Lib

variable {W : Type} [Wire W] {env : Env} {a a' : Agent W}

/-! ## Commands -/

/-- What a step of `execute` can do. -/
inductive CommandStep (env : Env) (a : Agent W) (action : CallAction) (commandId : String) :
    CommandPc → Agent W → CommandPc → Prop where
  | replay {replayed} (h : a.commands.get commandId = some replayed) :
      CommandStep env a action commandId .lookup a (.done replayed)
  | miss (h : a.commands.get commandId = none) :
      CommandStep env a action commandId .lookup a .readPeers
  | readPeers : CommandStep env a action commandId .readPeers a (.readSession a.peers)
  | readSession {peers} :
      CommandStep env a action commandId (.readSession peers) a
        (.transition peers a.sessionString)
  | refuse {peers session error}
      (h : ∀ e, peers.endpoints = some e → ¬ a.call.admits env action) :
      CommandStep env a action commandId (.transition peers session) a
        (.store (.rejected commandId error))
  | unpacked {peers session e error} (he : peers.endpoints = some e)
      (h : a.call.admits env action) (hp : sessionControl action.opcode e = .error error) :
      CommandStep env a action commandId (.transition peers session)
        (a.withCall (a.call.after env action)) (.store (.rejected commandId .agentOffline))
  | built {peers session e packet} (he : peers.endpoints = some e)
      (h : a.call.admits env action) (hp : sessionControl action.opcode e = .ok packet) :
      CommandStep env a action commandId (.transition peers session)
        (a.withCall (a.call.after env action)) (.send peers (action.event session) packet)
  | sent {peers event packet} (h : (Wire.sendAsPad a.wire env.send packet peers).1 = .ok ()) :
      CommandStep env a action commandId (.send peers event packet)
        (a.withWire (Wire.sendAsPad a.wire env.send packet peers).2) (.notify peers event)
  | unsent {peers event packet}
      (h : (Wire.sendAsPad a.wire env.send packet peers).1 ≠ .ok ()) :
      CommandStep env a action commandId (.send peers event packet)
        (a.withWire (Wire.sendAsPad a.wire env.send packet peers).2)
        (.store (.rejected commandId .agentOffline))
  | notify {peers event} :
      CommandStep env a action commandId (.notify peers event) (a.notify env action peers)
        (.publish event)
  | publish {event} :
      CommandStep env a action commandId (.publish event) (a.publish env event)
        (.store (.accepted commandId))
  | store {result} :
      CommandStep env a action commandId (.store result) (a.store result) (.done result)

theorem commandStep_transition {action : CallAction} {commandId session : String}
    {peers : Peers} {pc' : CommandPc}
    (h : commandStep env a action commandId (.transition peers session) = some (a', pc')) :
    CommandStep env a action commandId (.transition peers session) a' pc' := by
  unfold commandStep at h
  dsimp only at h
  by_cases hadm : a.call.admits env action
  · cases he : peers.endpoints with
    | none =>
        rw [Agent.build_of_no_door he] at h
        cases h
        exact .refuse fun e h => by rw [he] at h; cases h
    | some e =>
        cases hp : sessionControl action.opcode e with
        | error error =>
            rw [Agent.build_of_not_packed he hadm hp] at h
            cases h
            exact .unpacked he hadm hp
        | ok packet =>
            rw [Agent.build_of_packed he hadm hp] at h
            cases h
            exact .built he hadm hp
  · obtain ⟨error, hb⟩ : ∃ error, a.build env action peers session = (.error error, a) :=
      Agent.build_of_not_admits hadm
    rw [hb] at h
    cases h
    exact .refuse fun _ _ => hadm

theorem commandStep_send {action : CallAction} {commandId : String} {peers : Peers}
    {event : EventKind} {packet : Bytes} {pc' : CommandPc}
    (h : commandStep env a action commandId (.send peers event packet) = some (a', pc')) :
    CommandStep env a action commandId (.send peers event packet) a' pc' := by
  unfold commandStep Agent.sendAsPad at h
  dsimp only at h
  split at h
  · next heq =>
      obtain ⟨hok, rfl⟩ := Prod.mk.inj heq
      cases h
      exact .sent hok
  · next heq =>
      obtain ⟨hfail, rfl⟩ := Prod.mk.inj heq
      cases h
      exact .unsent (by rw [hfail]; nofun)

theorem commandStep_cases {action : CallAction} {commandId : String} {pc pc' : CommandPc}
    (h : commandStep env a action commandId pc = some (a', pc')) :
    CommandStep env a action commandId pc a' pc' := by
  cases pc with
  | lookup =>
      unfold commandStep at h
      dsimp only at h
      split at h
      · next hget => cases h; exact .replay hget
      · next hget => cases h; exact .miss hget
  | transition => exact commandStep_transition h
  | send => exact commandStep_send h
  | readPeers => cases h; exact .readPeers
  | readSession => cases h; exact .readSession
  | notify => cases h; exact .notify
  | publish => cases h; exact .publish
  | store => cases h; exact .store
  | done => cases h

/-! ## Elevator calls -/

/-- What a step of `call_elevator_now` can do. -/
inductive ElevatorStep (env : Env) (a : Agent W) (commandId : String) (room : Option String) :
    ElevatorPc → Agent W → ElevatorPc → Prop where
  | replay {replayed} (h : a.commands.get commandId = some replayed) :
      ElevatorStep env a commandId room .lookup a (.done replayed)
  | miss (h : a.commands.get commandId = none) :
      ElevatorStep env a commandId room .lookup a .readRoom
  | readRoom {roomId} (h : elevatorRoom a.peers.room.id room = some roomId) :
      ElevatorStep env a commandId room .readRoom a (.locate roomId)
  | panic (h : elevatorRoom a.peers.room.id room = none) :
      ElevatorStep env a commandId room .readRoom a .panicked
  | noDoor {roomId} :
      ElevatorStep env a commandId room (.locate roomId) a (.store (.rejected commandId .noCall))
  | located {roomId ip} (h : elevatorDoorIp env a = some ip) :
      ElevatorStep env a commandId room (.locate roomId) a (.register roomId ip)
  | register {roomId ip} :
      ElevatorStep env a commandId room (.register roomId ip)
        { a with
          elevatorAcks := a.elevatorAcks ++ [a.nextWaiter]
          nextWaiter := a.nextWaiter + 1 } (.fire roomId ip a.nextWaiter)
  | fired {roomId ip waiter} (h : sendElevator env roomId = true) :
      ElevatorStep env a commandId room (.fire roomId ip waiter) a (.await roomId waiter)
  | unfired {roomId ip waiter} :
      ElevatorStep env a commandId room (.fire roomId ip waiter) a
        (.store (.rejected commandId .agentOffline))
  | acked {roomId waiter} (h : waiter ∈ a.elevatorAcked) :
      ElevatorStep env a commandId room (.await roomId waiter) a (.publish roomId)
  | timedOut {roomId waiter} :
      ElevatorStep env a commandId room (.await roomId waiter) a
        (.store (.rejected commandId .agentOffline))
  | publish {roomId} :
      ElevatorStep env a commandId room (.publish roomId)
        (a.publish env (.elevatorCalled roomId)) (.store (.accepted commandId))
  | store {result} :
      ElevatorStep env a commandId room (.store result) (a.store result) (.done result)

omit [Wire W] in
theorem elevatorStep_cases {commandId : String} {room : Option String} {pc pc' : ElevatorPc}
    (h : elevatorStep env a commandId room pc = some (a', pc')) :
    ElevatorStep env a commandId room pc a' pc' := by
  cases pc with
  | register => cases h; exact .register
  | publish => cases h; exact .publish
  | store => cases h; exact .store
  | done => cases h
  | panicked => cases h
  | lookup =>
      unfold elevatorStep at h
      dsimp only at h
      split at h
      · next hget => cases h; exact .replay hget
      · next hget => cases h; exact .miss hget
  | readRoom =>
      unfold elevatorStep at h
      dsimp only at h
      split at h
      · next hroom => cases h; exact .readRoom hroom
      · next hroom => cases h; exact .panic hroom
  | locate roomId =>
      unfold elevatorStep at h
      dsimp only at h
      split at h
      · cases h; exact .noDoor
      · next hip => cases h; exact .located hip
  | fire roomId ip waiter =>
      unfold elevatorStep at h
      dsimp only at h
      split at h
      · next hsent => cases h; exact .fired hsent
      · cases h; exact .unfired
  | await roomId waiter =>
      unfold elevatorStep at h
      dsimp only at h
      split at h
      · next hacked => cases h; exact .acked hacked
      · split at h
        · cases h; exact .timedOut
        · cases h

/-! ## Messages from the wire -/

namespace WirePc

/-- The event a handler of the wire has still to push. -/
def pending : WirePc → Option EventKind
  | callEnd _ event => some event
  | publish event => some event
  | _ => none

/-- The machine operation a handler of the wire runs in its region of the call. -/
def operation (c : Call) : WirePc → Option Op
  | ringStart _ =>
      if c.machine.state.phase = .idle then some (.startCall c.nextSession) else none
  | padAnswer => if c.machine.accepts .padAnswer then some .padAnswer else none
  | hangup _ => some .hangup
  | _ => none

end WirePc

/-- A step that leaves the call, the cache and the call events alone, and uses the wire
    for a handshake reply at most. -/
structure QuietStep (env : Env) (a a' : Agent W) : Prop where
  call : a'.call = a.call
  commands : a'.commands = a.commands
  events : a'.events = a.events ∨
    ∃ event, EventKind.view event = none ∧ a'.events = a.events.push env.eventMs event
  wire : a'.wire = a.wire ∨
    ∃ payload peers, a'.wire = (Wire.handshakeReply a.wire env.reply payload peers).2

theorem QuietStep.refl (a : Agent W) : QuietStep env a a :=
  ⟨rfl, rfl, Or.inl rfl, Or.inl rfl⟩

/-- What a step of `on_wire` can do. -/
inductive WireStep (env : Env) (a : Agent W) : WirePc → Agent W → WirePc → Prop where
  | quiet {pc pc' a'} (hpc : pc.pending = none) (hop : pc.operation a.call = none)
      (hpc' : ∀ k ∈ pc'.pending, k.view = none) (h : QuietStep env a a') :
      WireStep env a pc a' pc'
  | start {e} (h : a.call.machine.state.phase = .idle) :
      WireStep env a (.ringStart e) (a.withCall (a.call.started env).2)
        (.publish (.callStarted (toString a.call.nextSession) e.door.id e.room.id))
  | answer (h : a.call.machine.accepts .padAnswer) :
      WireStep env a .padAnswer (a.withCall (a.call.padAnswered env).2)
        (.publish (.padAnswered (toString a.call.machine.state.sessionId)))
  | hangup {peers} (h : a.call.machine.state.phase ≠ .idle) :
      WireStep env a (.hangup peers) (a.withCall (a.call.wireHungUp env).2)
        (.callEnd peers
          (.callEnded (toString a.call.machine.state.sessionId) "wire_hangup"))
  | hangupIdle {peers} (h : a.call.machine.state.phase = .idle) :
      WireStep env a (.hangup peers) (a.withCall (a.call.wireHungUp env).2) .done
  | callEnd {peers event} :
      WireStep env a (.callEnd peers event) (a.onCallEnd peers) (.publish event)
  | publish {event} : WireStep env a (.publish event) (a.publish env event) .done

theorem wireStep_ringStart {e : Endpoints} {pc' : WirePc}
    (h : wireStep env a (.ringStart e) = some (a', pc')) :
    WireStep env a (.ringStart e) a' pc' := by
  have hs : a.call.machine.state.phase = .idle → WireStep env a (.ringStart e)
      (a.withCall (a.call.started env).2)
      (.publish (.callStarted (toString a.call.nextSession) e.door.id e.room.id)) := .start
  unfold wireStep at h
  unfold Call.started at h hs
  dsimp only at h
  by_cases hp : a.call.machine.state.phase = .idle
  · rw [if_neg (not_not_intro hp)] at h hs
    cases h
    exact hs hp
  · rw [if_pos hp] at h
    cases h
    exact .quiet rfl (if_neg hp) nofun (.refl a)

theorem wireStep_padAnswer {pc' : WirePc} (h : wireStep env a .padAnswer = some (a', pc')) :
    WireStep env a .padAnswer a' pc' := by
  by_cases hok : a.call.machine.accepts .padAnswer
  · have hs : WireStep env a .padAnswer (a.withCall (a.call.padAnswered env).2)
        (.publish (.padAnswered (toString a.call.machine.state.sessionId))) := .answer hok
    have hok' : (a.call.machine.padAnswer).1 = .ok () := hok
    unfold wireStep at h
    unfold Call.padAnswered at h hs
    dsimp only at h hs
    split at hs
    · next heq => rw [heq] at h; cases h; exact hs
    · next heq => rw [heq] at hok'; cases hok'
  · have hm : (a.call.machine.padAnswer).2 = a.call.machine :=
      CallMachine.step_of_not_accepts a.call.machine .padAnswer hok
    unfold wireStep at h
    unfold Call.padAnswered at h
    cases hr : a.call.machine.padAnswer with
    | mk result machine =>
        rw [hr] at h hm
        cases result with
        | ok => exact absurd (congrArg Prod.fst hr) hok
        | error error =>
            cases h
            refine .quiet rfl (if_neg hok) nofun ⟨?_, rfl, Or.inl rfl, Or.inl rfl⟩
            rw [show machine = a.call.machine from hm]
            rfl

theorem wireStep_hangup {peers : Peers} {pc' : WirePc}
    (h : wireStep env a (.hangup peers) = some (a', pc')) :
    WireStep env a (.hangup peers) a' pc' := by
  unfold wireStep at h
  unfold Call.wireHungUp at h
  dsimp only at h
  by_cases hp : a.call.machine.state.phase = .idle
  · rw [show (a.call.machine.state.phase != .idle) = false by simp [hp]] at h
    cases h
    exact .hangupIdle hp
  · rw [show (a.call.machine.state.phase != .idle) = true by simp [hp]] at h
    cases h
    exact .hangup hp

/-- A message never goes on to push a call event without passing a region of the call. -/
theorem WirePc.media_pending (message : Message) : (WirePc.media message).pending = none := by
  unfold media
  split <;> rfl

theorem WirePc.route_pending (monitoring : Bool) (side : Side) (message : Message) :
    (WirePc.route monitoring side message).pending = none := by
  unfold route
  split
  · split
    · exact media_pending message
    · split <;> rfl
  · rfl

theorem WirePc.routeCall_pending (calling : Bool) (side : Side) (message : Message) :
    (WirePc.routeCall calling side message).pending = none := by
  unfold routeCall
  split
  · split
    · rfl
    · split
      · exact media_pending message
      · split <;> rfl
  · split
    · rfl
    · split
      · rfl
      · split <;> rfl

theorem WirePc.session_pending (side : Side) (message : Message) (e : Endpoints)
    (peers : Peers) : (WirePc.session side message e peers).pending = none := by
  unfold session
  split
  · split <;> rfl
  · split
    · rfl
    · split
      · rfl
      · split
        · rfl
        · split
          · exact media_pending message
          · rfl

/-- A quiet step to a place with nothing to push. -/
theorem WireStep.quiet_of {pc pc' : WirePc} (hpc : pc.pending = none)
    (hop : pc.operation a.call = none) (hpc' : pc'.pending = none) (h : QuietStep env a a') :
    WireStep env a pc a' pc' :=
  .quiet hpc hop (by rw [hpc']; nofun) h

theorem wireStep_cases {pc pc' : WirePc} (h : wireStep env a pc = some (a', pc')) :
    WireStep env a pc a' pc' := by
  cases pc with
  | ringStart => exact wireStep_ringStart h
  | padAnswer => exact wireStep_padAnswer h
  | hangup => exact wireStep_hangup h
  | callEnd => cases h; exact .callEnd
  | publish => cases h; exact .publish
  | done => cases h
  | received side raw =>
      unfold wireStep at h
      dsimp only at h
      split at h
      · cases h
        exact .quiet_of rfl rfl rfl (.refl a)
      · next message _ =>
          split at h
          · cases h
            exact .quiet_of rfl rfl (by split <;> rfl) (.refl a)
          · cases h
            exact .quiet_of rfl rfl (WirePc.route_pending _ side message) (.refl a)
  | bootstrap =>
      unfold wireStep at h
      dsimp only at h
      split at h
      · cases h
        exact .quiet_of rfl rfl rfl (.refl a)
      · cases h
        exact .quiet_of rfl rfl rfl (.refl a)
  | bootstrapReply reply peers =>
      cases h
      exact .quiet_of rfl rfl rfl ⟨rfl, rfl, Or.inl rfl, Or.inr ⟨reply, peers, rfl⟩⟩
  | ringReply reply peers e =>
      cases h
      exact .quiet_of rfl rfl rfl ⟨rfl, rfl, Or.inl rfl, Or.inr ⟨reply, peers, rfl⟩⟩
  | feed media =>
      cases h
      refine .quiet_of rfl rfl rfl ?_
      unfold Agent.feed
      split
      · exact ⟨rfl, rfl, Or.inl rfl, Or.inl rfl⟩
      · split <;> exact ⟨rfl, rfl, Or.inl rfl, Or.inl rfl⟩
  | stopMonitor =>
      cases h
      refine .quiet_of rfl rfl rfl ?_
      unfold Agent.stopMonitorNow
      split <;> exact ⟨rfl, rfl, Or.inl rfl, Or.inl rfl⟩
  | outboundCheck side message =>
      cases h
      exact .quiet_of rfl rfl (WirePc.routeCall_pending _ side message) (.refl a)
  | outboundAnswered =>
      cases h
      refine .quiet_of rfl rfl rfl ?_
      unfold Agent.outboundAnswered
      split
      · exact .refl a
      · split
        · exact .refl a
        · exact ⟨rfl, rfl, Or.inr ⟨_, rfl, rfl⟩, Or.inl rfl⟩
  | outboundHangup =>
      unfold wireStep Agent.takeCallSession at h
      dsimp only at h
      cases hs : a.callSession with
      | none =>
          rw [hs] at h
          cases h
          exact .quiet_of rfl rfl rfl (.refl a)
      | some handle =>
          rw [hs] at h
          cases h
          refine .quiet rfl rfl ?_ ⟨rfl, rfl, Or.inl rfl, Or.inl rfl⟩
          rintro k ⟨⟩
          rfl
  | wakeElevator =>
      cases h
      exact .quiet_of rfl rfl rfl ⟨rfl, rfl, Or.inl rfl, Or.inl rfl⟩
  | accept side message e =>
      unfold wireStep Agent.acceptEndpoints at h
      dsimp only at h
      split at h
      · next heq =>
          obtain ⟨-, rfl⟩ := Prod.mk.inj heq
          cases h
          exact .quiet_of rfl rfl rfl ⟨rfl, rfl, Or.inl rfl, Or.inl rfl⟩
      · next peers _ heq =>
          obtain ⟨-, rfl⟩ := Prod.mk.inj heq
          cases h
          exact .quiet_of rfl rfl (WirePc.session_pending side message e peers)
            ⟨rfl, rfl, Or.inl rfl, Or.inl rfl⟩
  | padUnlock =>
      unfold wireStep at h
      dsimp only at h
      split at h
      · cases h
        refine .quiet rfl rfl ?_ (.refl a)
        rintro k ⟨⟩
        rfl
      · cases h
        exact .quiet_of rfl rfl rfl (.refl a)

/-! ## Steps of a handler of either kind -/

section

variable {t t' : Task}

theorem step_command {action : CallAction} {commandId : String} {pc : CommandPc}
    (h : (Task.command action commandId pc).step env a = some (a', t')) :
    ∃ pc', t' = .command action commandId pc' ∧ CommandStep env a action commandId pc a' pc' := by
  obtain ⟨⟨b, pc'⟩, hs, he⟩ := Option.map_eq_some_iff.mp h
  obtain ⟨rfl, rfl⟩ := Prod.mk.inj he
  exact ⟨pc', rfl, commandStep_cases hs⟩

theorem step_elevator {commandId : String} {room : Option String} {pc : ElevatorPc}
    (h : (Task.elevator commandId room pc).step env a = some (a', t')) :
    ∃ pc', t' = .elevator commandId room pc' ∧ ElevatorStep env a commandId room pc a' pc' := by
  obtain ⟨⟨b, pc'⟩, hs, he⟩ := Option.map_eq_some_iff.mp h
  obtain ⟨rfl, rfl⟩ := Prod.mk.inj he
  exact ⟨pc', rfl, elevatorStep_cases hs⟩

theorem step_wire {pc : WirePc} (h : (Task.wire pc).step env a = some (a', t')) :
    ∃ pc', t' = .wire pc' ∧ WireStep env a pc a' pc' := by
  obtain ⟨⟨b, pc'⟩, hs, he⟩ := Option.map_eq_some_iff.mp h
  obtain ⟨rfl, rfl⟩ := Prod.mk.inj he
  exact ⟨pc', rfl, wireStep_cases hs⟩

end

theorem Task.fresh_of_mayStart {tasks : List Task} {t : Task} (h : Task.mayStart tasks t = true) :
    t.fresh = true :=
  (Bool.and_eq_true_iff.mp h).1

/-- The other tasks never touch the call. -/
theorem act_call (a : Agent W) (b : Background) : (b.act a).call = a.call := by
  cases b <;> rfl

/-! ## A household to run on -/

/-- A freshly opened wire. -/
def tapWire : TapWire where
  padInterface := "lan1"
  doorInterface := "lan2"
  seq := 1
  table := none
  out := []
  pad_configured := by decide
  door_configured := by decide

example : TapWire.opened "lan1" "lan2" = some tapWire := rfl

/-- A `tap` mode Agent that knows both stations. -/
def tapAgent : Agent TapWire :=
  .new tapWire
    ⟨Endpoints.captured.room, some Endpoints.captured.door, some ⟨#v[2, 0, 0, 0, 0, 1]⟩,
      some ⟨#v[2, 0, 0, 0, 0, 2]⟩, 10000⟩ 5000 false (.new 0 0) none

/-- The door's message with an opcode, on its way to `on_wire`. -/
def fromDoor (opcode : UInt32) : Task :=
  .wire (.received .door ((sessionControl opcode .captured).toOption.getD []))

/-- The moves of a handler that is called and then runs `n` steps alone. -/
def callAlone (i : Nat) (t : Task) (n : Nat) : List AgentMove :=
  .start t :: List.replicate n (.step i { })

/-- The ring of the two stations that `tapAgent` knows. -/
def capturedRing : Bytes := (sessionControl opRequest .captured).toOption.getD []

end Michoi
