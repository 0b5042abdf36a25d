/-
  Everything `on_wire` can do with a datagram, said once.

  `OnWire` has one constructor for each way through the early returns of `on_wire`, with
  what it found on that way, and `OnSession` one for each message of an accepted session;
  the modules on messages are proved by cases on them (`onWire_cases`, `onSession_cases`).
  `onWire_of_session` is the other direction for a session message that comes through to
  the identity check.
-/
import Michoi.Agent.Identity

namespace Michoi

variable {W : Type}

namespace Agent

/-- `Agent::device_id`, the room station id. -/
def deviceId (a : Agent W) : String := a.peers.room.id

/-- The Agent after it learned something about the stations. -/
@[simps]
def withPeers (a : Agent W) (peers : Peers) : Agent W := { a with peers }

variable [Wire W]

/-- An accepted session message. -/
def onAccepted (a : Agent W) (env : Env) (side : Side) (message : Message) (e : Endpoints) :
    Agent W :=
  (a.withPeers (a.peers.withStations e)).onSession env side message e (a.peers.withStations e)

end Agent

theorem Message.isSessionLike_of_family {m : Message} (hf : m.family = familySession) :
    m.isSessionLike = true := by
  unfold isSessionLike
  rw [hf]
  rfl

section

variable [Wire W]

inductive OnWire (a : Agent W) (env : Env) (side : Side) (raw : Bytes) : Agent W → Prop where
  /-- Not a PENGUIN0 message, or one that is nobody's. -/
  | dropped : OnWire a env side raw a
  | bootstrap : OnWire a env side raw (a.onBootstrap env side)
  | monitored {m} (hp : Message.parse raw = .ok m) (hs : m.isSessionLike = true)
      (hm : a.monitor.isSome = true) : OnWire a env side raw (a.onMonitorMessage env m)
  | outbound {m} (hp : Message.parse raw = .ok m) (hs : m.isSessionLike = true)
      (hm : a.monitor = none) (hc : a.callSession.isSome = true) :
      OnWire a env side raw (a.onOutboundMessage env m)
  | elevator : OnWire a env side raw a.wakeElevator
  | refused {m e} (hp : Message.parse raw = .ok m) (hf : m.family = familySession)
      (he : m.endpoints = some e) (ha : ¬ a.peers.Accepts e) (hm : a.monitor = none)
      (hc : a.callSession = none) :
      OnWire a env side raw (a.withPeers (a.peers.acceptEndpoints e).2)
  | accepted {m e} (hp : Message.parse raw = .ok m) (hf : m.family = familySession)
      (he : m.endpoints = some e) (ha : a.peers.Accepts e) (hm : a.monitor = none)
      (hc : a.callSession = none) : OnWire a env side raw (a.onAccepted env side m e)

namespace Agent

theorem onCallMessage_of_endpoints (a : Agent W) (env : Env) (side : Side) {m : Message}
    {e : Endpoints} (hf : m.family = familySession) (he : m.endpoints = some e) :
    a.onCallMessage env side m =
      if a.peers.Accepts e then a.onAccepted env side m e
      else a.withPeers (a.peers.acceptEndpoints e).2 := by
  unfold onCallMessage acceptEndpoints
  rw [if_neg fun h => absurd (hf.symm.trans h.1) (by decide), if_neg (not_not_intro hf), he]
  dsimp only
  by_cases ha : a.peers.Accepts e
  · rw [if_pos ha, Peers.acceptEndpoints_of_accepts ha]
    rfl
  · rw [if_neg ha, Peers.acceptEndpoints_of_not_accepts ha]
    rfl

theorem onCallMessage_cases (a : Agent W) (env : Env) (side : Side) {raw : Bytes} {m : Message}
    (hp : Message.parse raw = .ok m)
    (hfree : m.isSessionLike = true → a.monitor = none ∧ a.callSession = none) :
    OnWire a env side raw (a.onCallMessage env side m) := by
  by_cases hf : m.family = familySession
  · obtain ⟨hm, hc⟩ := hfree (Message.isSessionLike_of_family hf)
    cases he : m.endpoints with
    | none =>
        unfold onCallMessage
        rw [if_neg fun h => absurd (hf.symm.trans h.1) (by decide), if_neg (not_not_intro hf), he]
        exact .dropped
    | some e =>
        rw [onCallMessage_of_endpoints a env side hf he]
        split
        · next ha => exact .accepted hp hf he ha hm hc
        · next ha => exact .refused hp hf he ha hm hc
  · unfold onCallMessage
    rw [if_pos hf]
    split
    · exact .elevator
    · exact .dropped

/-- **Everything a datagram can do.** -/
theorem onWire_cases (a : Agent W) (env : Env) (side : Side) (raw : Bytes) :
    OnWire a env side raw (a.onWire env side raw) := by
  unfold onWire
  split
  · exact .dropped
  · next m hp =>
      split
      · exact .bootstrap
      · split
        · next hm =>
            obtain ⟨hm, hs⟩ := Bool.and_eq_true_iff.mp hm
            exact .monitored hp hs hm
        · next hm =>
            have hnone : m.isSessionLike = true → a.monitor = none := by
              intro hs
              rw [hs, Bool.and_true] at hm
              exact Option.not_isSome_iff_eq_none.mp hm
            split
            · next hc =>
                obtain ⟨hc, hs⟩ := Bool.and_eq_true_iff.mp hc
                exact .outbound hp hs (hnone hs) hc
            · next hc =>
                refine onCallMessage_cases a env side hp fun hs => ⟨hnone hs, ?_⟩
                rw [hs, Bool.and_true] at hc
                exact Option.not_isSome_iff_eq_none.mp hc

/-- The early returns of `on_wire` on a message of the session families. -/
theorem onWire_of_sessionLike (a : Agent W) (env : Env) (side : Side) {raw : Bytes}
    {m : Message} (hp : Message.parse raw = .ok m) (hs : m.isSessionLike = true) :
    a.onWire env side raw =
      if a.monitor.isSome then a.onMonitorMessage env m
      else if a.callSession.isSome then a.onOutboundMessage env m
      else a.onCallMessage env side m := by
  have hboot : ¬ (m.family = familyBootstrap ∧ m.opcode = opRequest) := by
    rintro ⟨hf, -⟩
    unfold Message.isSessionLike at hs
    rw [hf] at hs
    exact absurd hs (by decide)
  unfold onWire
  rw [hp]
  dsimp only
  rw [if_neg hboot, hs, Bool.and_true, Bool.and_true]

end Agent

theorem Message.isSessionLike_of_endpoints {m : Message} {e : Endpoints}
    (he : m.endpoints = some e) : m.isSessionLike = true := by
  unfold endpoints at he
  split at he
  · next h => exact (Bool.and_eq_true_iff.mp h).1
  · cases he

namespace Agent

/-- A session message with no session of the Agent's own in its way. -/
theorem onWire_of_session (a : Agent W) (env : Env) (side : Side) {raw : Bytes} {m : Message}
    {e : Endpoints} (hm : a.monitor = none) (hc : a.callSession = none)
    (hp : Message.parse raw = .ok m) (hf : m.family = familySession)
    (he : m.endpoints = some e) :
    a.onWire env side raw =
      if a.peers.Accepts e then a.onAccepted env side m e
      else a.withPeers (a.peers.acceptEndpoints e).2 := by
  rw [onWire_of_sessionLike a env side hp (Message.isSessionLike_of_family hf), hm, hc]
  exact onCallMessage_of_endpoints a env side hf he

end Agent

/-! ## An accepted session message -/

/-- The capability reply to a ring, if it can be built. -/
def ringReplied (a : Agent W) (env : Env) (e : Endpoints) (peers : Peers) : Agent W :=
  match sessionReply e with
  | .ok reply => a.handshakeReply env reply peers
  | .error _ => a

inductive OnSession (a : Agent W) (env : Env) (side : Side) (m : Message) (e : Endpoints)
    (peers : Peers) : Agent W → Prop where
  | ring (hop : m.opcode = opRequest) (hs : side = .door) :
      OnSession a env side m e peers ((ringReplied a env e peers).onCallStarted env e)
  | padAnswer (hop : m.opcode = opAnswer) (hs : side = .pad) :
      OnSession a env side m e peers (a.onPadAnswer env)
  | padUnlock (hop : m.opcode = opUnlock) (hs : side = .pad) :
      OnSession a env side m e peers (a.onPadUnlock env)
  | hangup (hop : m.opcode = opHangup) : OnSession a env side m e peers (a.onWireHangup env peers)
  | media {f} (hop : m.opcode = opMedia) (hs : side = .door) (hf : m.media = some f) :
      OnSession a env side m e peers (a.feed env f)
  | ignored (hop : m.opcode ≠ opHangup) (hring : ¬ (m.opcode = opRequest ∧ side = .door)) :
      OnSession a env side m e peers a

theorem onSession_cases (a : Agent W) (env : Env) (side : Side) (m : Message) (e : Endpoints)
    (peers : Peers) : OnSession a env side m e peers (a.onSession env side m e peers) := by
  unfold Agent.onSession
  split
  · next h =>
      have hring : OnSession a env side m e peers
          ((ringReplied a env e peers).onCallStarted env e) := .ring h.1 h.2
      unfold ringReplied at hring
      split
      · next hr => rw [hr] at hring; exact hring
      · next hr => rw [hr] at hring; exact hring
  · next hring =>
      split
      · next h => exact .padAnswer h.1 h.2
      · split
        · next h => exact .padUnlock h.1 h.2
        · split
          · next h => exact .hangup h
          · next hop =>
              split
              · next h =>
                  split
                  · next f hf => exact .media h.1 h.2 hf
                  · exact .ignored hop hring
              · exact .ignored hop hring

end

end Michoi
