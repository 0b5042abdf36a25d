/-
  The call path listens to the household's own session messages only.

  With no monitor and no outbound call of its own, the Agent lets a datagram change the
  call machine, the event log or the media only if it is a session message whose endpoint
  block `accept_endpoints` accepted (`call_path_isolated`): then both stations of the block
  are the pinned ones. The rest of `on_wire` is shown to leave all three alone.
-/
import Michoi.Agent.OnWire
import Michoi.Task.Frame

namespace Michoi

variable {W : Type}

/-- The media as the clients see it, and the frame that is being put together. -/
structure SameMedia (a a' : Agent W) : Prop where
  latest : a'.latest = a.latest
  history : a'.history = a.history
  jpeg : a'.jpeg = a.jpeg

/-- Nothing has happened that a backend could see. -/
structure Unseen (a a' : Agent W) : Prop where
  machine : a'.call.machine = a.call.machine
  events : a'.events = a.events
  media : SameMedia a a'

theorem SameMedia.refl (a : Agent W) : SameMedia a a := ⟨rfl, rfl, rfl⟩

theorem Unseen.refl (a : Agent W) : Unseen a a := ⟨rfl, rfl, .refl a⟩

variable [Wire W] {a a' : Agent W} {env : Env} {side : Side} {m : Message} {e : Endpoints}
  {peers : Peers}

theorem ringReplied_unseen (a : Agent W) (env : Env) (e : Endpoints) (peers : Peers) :
    Unseen a (ringReplied a env e peers) := by
  unfold ringReplied
  split
  · exact ⟨rfl, rfl, ⟨rfl, rfl, rfl⟩⟩
  · exact .refl a

theorem onBootstrap_unseen (a : Agent W) (env : Env) (side : Side) :
    Unseen a (a.onBootstrap env side) := by
  unfold Agent.onBootstrap
  split
  · exact .refl a
  · split
    · exact ⟨rfl, rfl, ⟨rfl, rfl, rfl⟩⟩
    · exact .refl a

theorem ringReplied_call (a : Agent W) (env : Env) (e : Endpoints) (peers : Peers) :
    (ringReplied a env e peers).call = a.call := by
  unfold ringReplied
  split <;> rfl

omit [Wire W] in
/-- A ring starts the next session of an idle call. -/
theorem onCallStarted_of_idle (h : a.call.machine.state.phase = .idle) :
    a.onCallStarted env e = (a.withCall {
      machine := a.call.machine.startCall a.call.nextSession
      sinceMs := some env.sinceMs
      nextSession := a.call.nextSession + 1 }).publish env
        (.callStarted (toString a.call.nextSession) e.door.id e.room.id) := by
  unfold Agent.onCallStarted Call.started
  rw [if_neg (not_not_intro h)]

omit [Wire W] in
/-- A call that is on is left alone. -/
theorem onCallStarted_of_busy (h : a.call.machine.state.phase ≠ .idle) :
    a.onCallStarted env e = a := by
  unfold Agent.onCallStarted Call.started
  rw [if_pos h]
  rfl

omit [Wire W] in
theorem onPadAnswer_media (a : Agent W) (env : Env) : SameMedia a (a.onPadAnswer env) := by
  unfold Agent.onPadAnswer
  split <;> exact ⟨rfl, rfl, rfl⟩

omit [Wire W] in
theorem onPadAnswer_machine (a : Agent W) (env : Env) :
    (a.onPadAnswer env).call.machine = a.call.machine.padAnswer.2 := by
  unfold Agent.onPadAnswer Call.padAnswered
  cases a.call.machine.padAnswer with
  | mk result machine => cases result <;> rfl

omit [Wire W] in
theorem onPadUnlock_call (a : Agent W) (env : Env) : (a.onPadUnlock env).call = a.call := by
  unfold Agent.onPadUnlock
  split <;> rfl

omit [Wire W] in
theorem onPadUnlock_media (a : Agent W) (env : Env) : SameMedia a (a.onPadUnlock env) := by
  unfold Agent.onPadUnlock
  split <;> exact ⟨rfl, rfl, rfl⟩

theorem onWireHangup_machine (a : Agent W) (env : Env) (peers : Peers) :
    (a.onWireHangup env peers).call.machine = a.call.machine.hangup := by
  unfold Agent.onWireHangup Call.wireHungUp
  cases a.call.machine.state.phase != .idle <;> rfl

theorem onWireHangup_media (a : Agent W) (env : Env) (peers : Peers) :
    SameMedia a (a.onWireHangup env peers) := by
  unfold Agent.onWireHangup
  split <;> exact ⟨rfl, rfl, rfl⟩

omit [Wire W] in
theorem feed_call (a : Agent W) (env : Env) (f : MediaFragment) :
    (a.feed env f).call = a.call := by
  unfold Agent.feed
  split
  · rfl
  · split <;> rfl

/-! ## An accepted message by its side -/

/-- Only the door's ring makes an idle call ring. -/
theorem onSession_ringing (hs : OnSession a env side m e peers a')
    (h : a'.call.machine.state.phase = .ringing) (hne : a.call.machine.state.phase ≠ .ringing) :
    side = .door := by
  cases hs with
  | ring _ hs => exact hs
  | padAnswer =>
      rw [onPadAnswer_machine] at h
      unfold CallMachine.padAnswer at h
      rw [if_pos hne] at h
      exact absurd h hne
  | padUnlock =>
      rw [onPadUnlock_call] at h
      exact absurd h hne
  | hangup =>
      rw [onWireHangup_machine] at h
      cases h
  | media =>
      rw [feed_call] at h
      exact absurd h hne
  | ignored => exact absurd h hne

/-- Only the Pad's answer gives the call to the Pad. -/
theorem onSession_owner_pad (hs : OnSession a env side m e peers a')
    (h : a'.call.machine.state.owner = .pad) (hne : a.call.machine.state.owner ≠ .pad) :
    side = .pad := by
  cases hs with
  | ring =>
      have hmachine := (ringReplied_unseen a env e peers).machine
      by_cases hidle : (ringReplied a env e peers).call.machine.state.phase = .idle
      · rw [onCallStarted_of_idle hidle] at h
        cases h
      · rw [onCallStarted_of_busy hidle, hmachine] at h
        exact absurd h hne
  | padAnswer _ hs | padUnlock _ hs => exact hs
  | hangup =>
      rw [onWireHangup_machine] at h
      cases h
  | media =>
      rw [feed_call] at h
      exact absurd h hne
  | ignored => exact absurd h hne

/-- Only the door's media is fed. -/
theorem onSession_media (hs : OnSession a env side m e peers a') (h : ¬ SameMedia a a') :
    side = .door := by
  cases hs with
  | ring _ hs | media _ hs => exact hs
  | padAnswer => exact absurd (onPadAnswer_media a env) h
  | padUnlock => exact absurd (onPadUnlock_media a env) h
  | hangup => exact absurd (onWireHangup_media a env peers) h
  | ignored => exact absurd (.refl a) h

/-! ## Any datagram -/

/-- With no session of the Agent's own, what a backend sees is left alone but for a session
    message that is accepted. -/
theorem onWire_unseen_or_accepted (env : Env) (side : Side) (raw : Bytes)
    (hm : a.monitor = none) (hc : a.callSession = none) :
    Unseen a (a.onWire env side raw) ∨ ∃ m e, Message.parse raw = .ok m ∧
      m.family = familySession ∧ m.endpoints = some e ∧ a.peers.Accepts e ∧
        a.onWire env side raw = a.onAccepted env side m e := by
  have hw := a.onWire_cases env side raw
  generalize a.onWire env side raw = a' at hw ⊢
  cases hw with
  | dropped => exact .inl (.refl a)
  | bootstrap => exact .inl (onBootstrap_unseen a env side)
  | monitored _ _ h => rw [hm] at h; cases h
  | outbound _ _ _ h => rw [hc] at h; cases h
  | elevator => exact .inl ⟨rfl, rfl, ⟨rfl, rfl, rfl⟩⟩
  | refused => exact .inl ⟨rfl, rfl, ⟨rfl, rfl, rfl⟩⟩
  | accepted hp hf he ha => exact .inr ⟨_, _, hp, hf, he, ha, rfl⟩

/-- **Call-path isolation.** With no monitor and no outbound call, from whichever side and
    whatever its bytes: a datagram that changes the call machine, pushes an event or feeds
    media is a session message whose block names this device, and afterwards both stations
    of the block are the pinned ones. It starts a ringing call, or feeds media, only from the
    door, and gives the call to the Pad only from the Pad. -/
theorem call_path_isolated (a : Agent W) (env : Env) (side : Side) (raw : Bytes)
    (hm : a.monitor = none) (hc : a.callSession = none) :
    let a' := a.onWire env side raw
    (¬ Unseen a a' → ∃ m e, Message.parse raw = .ok m ∧ m.family = familySession ∧
      m.endpoints = some e ∧ e.room.id = a.deviceId ∧ a'.peers.room = e.room ∧
        a'.peers.door = some e.door) ∧
      (a.call.machine.state.phase ≠ .ringing → a'.call.machine.state.phase = .ringing →
        side = .door) ∧
      (¬ SameMedia a a' → side = .door) ∧
      (a.call.machine.state.owner ≠ .pad → a'.call.machine.state.owner = .pad →
        side = .pad) := by
  rcases onWire_unseen_or_accepted env side raw hm hc with
    hun | ⟨m, e, hp, hf, he, ha, hw⟩
  · refine ⟨fun h => absurd hun h, fun hne h => ?_, fun h => absurd hun.media h, fun hne h => ?_⟩
    · exact absurd (hun.machine ▸ h) hne
    · exact absurd (hun.machine ▸ h) hne
  · dsimp only
    rw [hw]
    have hpeers : (a.onAccepted env side m e).peers = a.peers.withStations e :=
      Agent.onSession_peers _ env side m e _
    refine ⟨fun _ => ⟨m, e, hp, hf, he, ha.room.id, ?_, ?_⟩, fun hne h => ?_, fun h => ?_,
      fun hne h => ?_⟩
    · rw [hpeers]; rfl
    · rw [hpeers]; rfl
    · exact onSession_ringing (onSession_cases ..) h hne
    · exact onSession_media (onSession_cases ..) fun hs => h ⟨hs.latest, hs.history, hs.jpeg⟩
    · exact onSession_owner_pad (onSession_cases ..) h hne

/-- A ring at a household that knows both stations starts a call, so its door is the pinned
    one. -/
theorem ring_comes_from_the_door : ∃ m e,
    Message.parse ((sessionControl opRequest .captured).toOption.getD []) = .ok m ∧
      m.endpoints = some e ∧ tapAgent.peers.door = some e.door := by
  have hisolated := call_path_isolated tapAgent { } .door
    ((sessionControl opRequest .captured).toOption.getD []) rfl rfl
  obtain ⟨m, e, hp, -, he, -, -, hdoor⟩ :=
    hisolated.1 fun h => absurd h.machine (by decide +kernel)
  exact ⟨m, e, hp, he, hdoor⟩

end Michoi
