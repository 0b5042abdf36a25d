/-
  What one handler does to the event log and to the call's phase and owner: nothing, or it
  pushes one event that tells what it did (`Told`). That holds of every message of the wire
  and of every background step, and of a command unless it changes the call and its packet
  cannot be built or sent (`execute_told`).
-/
import Michoi.Agent.Isolation
import Michoi.Agent.Reject
import Michoi.Picture

namespace Michoi

open Lib

variable {W : Type}

/-- The log and the view changed together. -/
inductive Told (a a' : Agent W) : Prop where
  | quiet (hevents : a'.events = a.events)
      (hview : a'.call.machine.view = a.call.machine.view)
  | pushed (atMs : Nat) (kind : EventKind) (hevents : a'.events = a.events.push atMs kind)
      (hview : a'.call.machine.view = kind.view.getD a.call.machine.view)

namespace Told

theorem refl (a : Agent W) : Told a a := .quiet rfl rfl

/-- Only the log and the call matter. -/
theorem congr {a b a' b' : Agent W} (h : Told a a') (hevents : b.events = a.events)
    (hcall : b.call = a.call) (hevents' : b'.events = a'.events) (hcall' : b'.call = a'.call) :
    Told b b' := by
  cases h with
  | quiet he hv => exact .quiet (by rw [hevents', hevents, he]) (by rw [hcall', hcall, hv])
  | pushed atMs kind he hv =>
      exact .pushed atMs kind (by rw [hevents', hevents, he]) (by rw [hcall', hcall, hv])

theorem consistent_of_view {m m' : CallMachine} (hm : m.Consistent) (h : m'.view = m.view) :
    m'.Consistent := by
  have hphase : m'.state.phase = m.state.phase := congrArg Prod.fst h
  have howner : m'.state.owner = m.state.owner := congrArg Prod.snd h
  unfold CallMachine.Consistent at hm ⊢
  rw [hphase, howner]
  exact hm

/-- What an event tells has an owner exactly when it is connected. -/
theorem consistent_of_event {m m' : CallMachine} {kind : EventKind} (hm : m.Consistent)
    (h : m'.view = kind.view.getD m.view) : m'.Consistent := by
  have hset : ∀ phase owner, m'.view = (phase, owner) → (owner = .none ↔ phase ≠ .connected) →
      m'.Consistent := by
    intro phase owner hview hiff
    obtain rfl : m'.state.phase = phase := congrArg Prod.fst hview
    obtain rfl : m'.state.owner = owner := congrArg Prod.snd hview
    exact hiff
  cases kind with
  | callStarted => exact hset _ _ h (by decide)
  | padAnswered => exact hset _ _ h (by decide)
  | remoteAnswered => exact hset _ _ h (by decide)
  | callEnded => exact hset _ _ h (by decide)
  | unlocked | monitorStarted | monitorStopped | elevatorCalled | dialing | callConnected
  | callHungUp => exact consistent_of_view hm h

theorem consistent {a a' : Agent W} (h : Told a a') (hm : a.call.machine.Consistent) :
    a'.call.machine.Consistent := by
  cases h with
  | quiet hevents hview => exact consistent_of_view hm hview
  | pushed atMs kind hevents hview => exact consistent_of_event hm hview

/-- An event that tells nothing of the call. -/
theorem publish (a : Agent W) (env : Env) {kind : EventKind} (hkind : kind.view = none) :
    Told a (a.publish env kind) :=
  .pushed env.eventMs kind rfl (by rw [hkind]; rfl)

end Told

section

variable {a : Agent W} {env : Env}

/-! ## Messages of the wire -/

theorem feed_told (media : MediaFragment) : Told a (a.feed env media) := by
  refine .quiet ?_ (congrArg (fun c => c.machine.view) (feed_call a env media))
  unfold Agent.feed
  split
  · rfl
  · split <;> rfl

theorem stopMonitorNow_told : Told a a.stopMonitorNow := by
  unfold Agent.stopMonitorNow
  split
  · exact .refl a
  · exact .quiet rfl rfl

theorem hangupCallNow_told (reason : String) : Told a (a.hangupCallNow env reason) := by
  unfold Agent.hangupCallNow Agent.takeCallSession
  cases a.callSession with
  | none => exact .refl a
  | some handle => exact .pushed env.eventMs _ rfl rfl

theorem outboundAnswered_told : Told a (a.outboundAnswered env) := by
  unfold Agent.outboundAnswered
  split
  · exact .refl a
  · split
    · exact .refl a
    · exact .pushed env.eventMs _ rfl rfl

theorem onMonitorMessage_told (m : Message) : Told a (a.onMonitorMessage env m) := by
  unfold Agent.onMonitorMessage
  split
  · split
    · exact feed_told _
    · exact .refl a
  · split
    · exact stopMonitorNow_told
    · exact .refl a

theorem onOutboundMessage_told (m : Message) : Told a (a.onOutboundMessage env m) := by
  unfold Agent.onOutboundMessage
  split
  · exact outboundAnswered_told
  · split
    · split
      · exact feed_told _
      · exact .refl a
    · split
      · exact hangupCallNow_told _
      · exact .refl a

theorem onCallStarted_told (e : Endpoints) : Told a (a.onCallStarted env e) := by
  by_cases hphase : a.call.machine.state.phase = .idle
  · rw [onCallStarted_of_idle hphase]
    exact .pushed env.eventMs _ rfl rfl
  · rw [onCallStarted_of_busy hphase]
    exact .refl a

theorem onPadAnswer_told : Told a (a.onPadAnswer env) := by
  unfold Agent.onPadAnswer Call.padAnswered
  by_cases hok : a.call.machine.accepts .padAnswer
  · have hanswer : a.call.machine.padAnswer.1 = .ok () := hok
    have hmachine : a.call.machine.padAnswer.2 = _ :=
      CallMachine.padAnswer_of_accepts a.call.machine hok
    generalize a.call.machine.padAnswer = r at hanswer hmachine ⊢
    obtain ⟨result, machine⟩ := r
    obtain rfl : result = .ok () := hanswer
    obtain rfl : machine = _ := hmachine
    exact .pushed env.eventMs _ rfl rfl
  · have hanswer : a.call.machine.padAnswer.1 ≠ .ok () := hok
    have hmachine : a.call.machine.padAnswer.2 = a.call.machine :=
      CallMachine.step_of_not_accepts a.call.machine .padAnswer hok
    generalize a.call.machine.padAnswer = r at hanswer hmachine ⊢
    obtain ⟨result, machine⟩ := r
    obtain rfl : machine = a.call.machine := hmachine
    cases result with
    | error error => exact .quiet rfl rfl
    | ok u => exact absurd rfl hanswer

theorem onPadUnlock_told : Told a (a.onPadUnlock env) := by
  unfold Agent.onPadUnlock
  split
  · exact .pushed env.eventMs _ rfl rfl
  · exact .refl a

variable [Wire W]

/-- Hanging up where no call is active leaves phase and owner as they were. -/
theorem onWireHangup_told (hm : a.call.machine.Consistent) (peers : Peers) :
    Told a (a.onWireHangup env peers) := by
  unfold Agent.onWireHangup Call.wireHungUp
  by_cases hphase : a.call.machine.state.phase = .idle
  · have howner : a.call.machine.state.owner = .none := hm.mpr (by rw [hphase]; decide)
    rw [hphase]
    refine .quiet rfl ?_
    show (CallPhase.idle, Owner.none) = (a.call.machine.state.phase, a.call.machine.state.owner)
    rw [hphase, howner]
  · have hactive : (a.call.machine.state.phase != .idle) = true := bne_iff_ne.mpr hphase
    rw [hactive]
    exact .pushed env.eventMs _ rfl rfl

theorem onBootstrap_told (side : Side) : Told a (a.onBootstrap env side) := by
  unfold Agent.onBootstrap
  split
  · exact .refl a
  · split
    · exact .quiet rfl rfl
    · exact .refl a

theorem onSession_told (hm : a.call.machine.Consistent) {side : Side} {m : Message}
    {e : Endpoints} {peers : Peers} {a' : Agent W} (h : OnSession a env side m e peers a') :
    Told a a' := by
  cases h with
  | ring hop hs =>
      have hcall := ringReplied_call a env e peers
      have hevents : (ringReplied a env e peers).events = a.events := by
        unfold ringReplied
        split <;> rfl
      exact (onCallStarted_told e).congr hevents.symm hcall.symm rfl rfl
  | padAnswer hop hs => exact onPadAnswer_told
  | padUnlock hop hs => exact onPadUnlock_told
  | hangup hop => exact onWireHangup_told hm peers
  | media hop hs hf => exact feed_told _
  | ignored hop hring => exact .refl a

/-- Every message of the wire. -/
theorem onWire_told (hm : a.call.machine.Consistent) (side : Side) (raw : Bytes) :
    Told a (a.onWire env side raw) := by
  have hcases := a.onWire_cases env side raw
  generalize a.onWire env side raw = a' at hcases ⊢
  cases hcases with
  | dropped => exact .refl a
  | bootstrap => exact onBootstrap_told side
  | monitored => exact onMonitorMessage_told _
  | outbound => exact onOutboundMessage_told _
  | elevator => exact .quiet rfl rfl
  | refused => exact .quiet rfl rfl
  | @accepted m e =>
      exact (onSession_told (a := a.withPeers (a.peers.withStations e)) hm
        (onSession_cases _ env side m e _)).congr rfl rfl rfl rfl

theorem background_told (b : Background) : Told a (b.act a) := by
  cases b with
  | publish env event => exact .publish a env event.2
  | noteSender | setRoomIpIfUnset | learnAddress | pinMac | setMonitor | setCallSession
  | sendAsPad => exact .quiet rfl rfl

/-! ## Commands -/

/-- The command's packet is sent where it can be built. -/
def SendSucceeds (a : Agent W) (env : Env) (action : CallAction) : Prop :=
  ∀ e ∈ a.peers.endpoints, ∀ packet ∈ (sessionControl action.opcode e).toOption,
    (Wire.sendAsPad a.wire env.send packet a.peers).1 = .ok ()

instance (a : Agent W) (env : Env) (action : CallAction) : Decidable (SendSucceeds a env action) :=
  inferInstanceAs (Decidable (∀ e ∈ a.peers.endpoints, _))

omit [Wire W] in
/-- A claim or hangup that will change the call can build its packet. -/
def CanTell (a : Agent W) (env : Env) (action : CallAction) (commandId : String) : Prop :=
  a.commands.get commandId = none → action ≠ .unlock → a.call.admits env action →
    ∀ e ∈ a.peers.endpoints, (sessionControl action.opcode e).toBool = true

omit [Wire W] in
instance (a : Agent W) (env : Env) (action : CallAction) (commandId : String) :
    Decidable (CanTell a env action commandId) :=
  inferInstanceAs (Decidable (_ → _))

omit [Wire W] in
/-- What a command leaves of phase and owner is what its event tells. -/
theorem view_after {c : Call} {action : CallAction} (h : c.admits env action)
    (session : String) :
    (c.after env action).machine.view = (action.event session).view.getD c.machine.view := by
  cases action with
  | claim =>
      unfold CallMachine.view
      rw [Call.after_claim h]
      rfl
  | unlock =>
      unfold CallMachine.view
      rw [Call.after_unlock h]
      rfl
  | hangup => rfl

/-- A command whose packet is built and sent pushes its event. -/
theorem deliver_told {action : CallAction} (h : a.call.admits env action) {packet : Bytes}
    (hsent : (Wire.sendAsPad a.wire env.send packet a.peers).1 = .ok ()) (commandId : String) :
    Told a ((a.withCall (a.call.after env action)).deliver env action commandId a.peers
      (action.event a.sessionString) packet).2 := by
  have hview := view_after h a.sessionString
  unfold Agent.deliver Agent.sendAsPad
  dsimp only
  rw [Agent.withCall_wire, hsent]
  cases action with
  | claim => exact .pushed env.eventMs _ rfl hview
  | unlock => exact .pushed env.eventMs _ rfl hview
  | hangup => exact .pushed env.eventMs _ rfl hview

theorem run_told {action : CallAction} {commandId : String}
    (hnew : a.commands.get commandId = none) (hsend : SendSucceeds a env action)
    (htell : CanTell a env action commandId) : Told a (a.run env action commandId).2 := by
  by_cases hadm : a.call.admits env action
  · cases he : a.peers.endpoints with
    | none =>
        rw [Agent.run_of_no_door he]
        exact .refl a
    | some e =>
        cases hp : sessionControl action.opcode e with
        | ok packet =>
            rw [Agent.run_of_packed he hadm hp]
            exact deliver_told hadm (hsend e he packet (by rw [hp]; rfl)) commandId
        | error error =>
            rw [Agent.run_of_not_packed he hadm hp]
            -- Only an unlock gets here, and it changes neither phase nor owner.
            have hunlock : action = .unlock := by
              by_contra hne
              have hbuilt := htell hnew hne hadm e he
              rw [hp] at hbuilt
              cases hbuilt
            subst hunlock
            exact .quiet rfl (view_after hadm "")
  · obtain ⟨error, hrun⟩ := Agent.run_of_not_admits hadm commandId
    rw [hrun]
    exact .refl a

theorem execute_told {action : CallAction} {commandId : String}
    (hsend : SendSucceeds a env action) (htell : CanTell a env action commandId) :
    Told a (a.execute env action commandId).2 := by
  cases hget : a.commands.get commandId with
  | some r =>
      unfold Agent.execute
      rw [hget]
      exact .refl a
  | none =>
      rw [Agent.execute_of_get_none hget]
      exact (run_told hget hsend htell).congr rfl rfl rfl rfl

end

end Michoi
