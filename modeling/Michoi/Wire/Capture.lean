/-
  The capture loop of `tap` mode (`TapWire::run`), and what a refused message pins.

  A session message that names our room is attributed to a side by the addresses it carries
  itself, and the frame's MAC is pinned for that side before `on_wire` checks the block. So a
  message that is refused there may have pinned a MAC, besides the Pad's address that
  `accept_endpoints` may pin. `refused_message_pins_nothing_iff` says when it has not.
-/
import Michoi.Agent.Datagram
import Michoi.Ethernet.Parse
import Michoi.Protocol.Checked
import Michoi.Wire.Tap

namespace Michoi

open Lib Lib.Checked

/-- A frame the socket received, and what each `on_wire` call reads. -/
structure Frame where
  bytes : Bytes
  env : Nat → Env

/-- The side a session message is attributed to. -/
def attributed (sourceIp : Ipv4Addr) (e : Endpoints) : Option Side :=
  if sourceIp = e.room.ip then some .pad
  else if sourceIp = e.door.ip then some .door
  else none

namespace Agent

variable {W : Type}

/-- An address seen in the discovery exchange, and the MAC that goes with it. -/
def observe (a : Agent W) (side : Side) (udp : EthernetUdp) : Agent W :=
  match a.learnAddress side udp.sourceIp with
  | (true, a) => (a.pinMac side udp.sourceMac).2
  | (false, a) => a

/-- The discovery branch. -/
def onDiscovery (a : Agent W) (deviceId : String) (udp : EthernetUdp) : Checked (Agent W) := do
  if (← discoveryRequestRoom udp.payload) = some deviceId then return a.observe .door udp
  if (← discoveryReplyRoom udp.payload) = some deviceId then return a.observe .pad udp
  return a

variable [Wire W]

/-- The branch for a session message. -/
def onSessionFrame (a : Agent W) (env : Env) (deviceId : String) (udp : EthernetUdp)
    (message : Message) (raw : Bytes) : Agent W :=
  match message.endpoints with
  | none => a
  | some e =>
      if e.room.id ≠ deviceId then a
      else
        match attributed udp.sourceIp e with
        | none => a
        | some side =>
            match a.pinMac side udp.sourceMac with
            | (false, a) => a
            | (true, a) => a.onWire env side raw

/-- One message of a captured frame. -/
def onCaptured (a : Agent W) (env : Env) (deviceId : String) (udp : EthernetUdp) (raw : Bytes) :
    Agent W :=
  match Message.parse raw with
  | .error _ => a
  | .ok message =>
      if message.family = familyMonitor ∨ message.family = familyElevator then
        a.onWire env .door raw
      else if message.family = familySession then a.onSessionFrame env deviceId udp message raw
      else a

/-- The messages of one frame. -/
def onCapturedAll (env : Nat → Env) (deviceId : String) (udp : EthernetUdp) :
    Nat → Agent W → List Bytes → Agent W
  | _, a, [] => a
  | n, a, raw :: rest =>
      onCapturedAll env deviceId udp (n + 1) (a.onCaptured (env n) deviceId udp raw) rest

/-- One round of `TapWire::run`. The loop read the device id when it started. -/
def capture (a : Agent W) (discoveryPort : UInt16) (deviceId : String) (frame : Frame) :
    Checked (Agent W) := do
  let .ok udp ← EthernetUdp.parse frame.bytes | return a
  let control := a.peers.controlPort
  if udp.destinationPort = discoveryPort ∨ udp.sourcePort = discoveryPort then
    a.onDiscovery deviceId udp
  else if udp.sourcePort ≠ control ∧ udp.destinationPort ≠ control then return a
  else do
    let raws ← splitCoalescedChecked udp.payload
    return onCapturedAll frame.env deviceId udp 0 a raws

/-! ## Which messages are accepted, and which teach nothing -/

/-- The message is attributed to a side, comes from its MAC, and comes through to the identity
    check, which accepts its block. -/
def AcceptsCaptured (a : Agent W) (deviceId : String) (udp : EthernetUdp) (raw : Bytes) : Prop :=
  ∃ e ∈ sessionBlock raw, e.room.id = deviceId ∧ ∃ side ∈ attributed udp.sourceIp e,
    (a.peers.pinMac side udp.sourceMac).1 = true ∧ a.ownSessions = 0 ∧ a.peers.Accepts e

/-- The MAC of the side it is attributed to is known, and it does not come through to the
    identity check or tells no address of our room that was not known. -/
def TeachesNothing (a : Agent W) (deviceId : String) (udp : EthernetUdp) (raw : Bytes) : Prop :=
  ∀ e ∈ sessionBlock raw, e.room.id = deviceId → ∀ side ∈ attributed udp.sourceIp e,
    (a.peers.mac side).isSome = true ∧
      (a.peers.mac side = some udp.sourceMac → a.ownSessions = 0 → ¬ a.peers.TeachesRoom e.room)

instance (a : Agent W) (deviceId : String) (udp : EthernetUdp) (raw : Bytes) :
    Decidable (a.AcceptsCaptured deviceId udp raw) :=
  inferInstanceAs (Decidable (∃ e ∈ sessionBlock raw, _))

instance (a : Agent W) (deviceId : String) (udp : EthernetUdp) (raw : Bytes) :
    Decidable (a.TeachesNothing deviceId udp raw) :=
  inferInstanceAs (Decidable (∀ e ∈ sessionBlock raw, _))

end Agent

variable {W : Type} [Wire W]

/-- The frame is one that the loop hands on message by message. -/
structure Frame.HandedOn (frame : Frame) (a : Agent W) (discoveryPort : UInt16)
    (udp : EthernetUdp) : Prop where
  parsed : EthernetUdp.parse frame.bytes = .ok (.ok udp)
  discovery : udp.destinationPort ≠ discoveryPort ∧ udp.sourcePort ≠ discoveryPort
  control : udp.sourcePort = a.peers.controlPort ∨ udp.destinationPort = a.peers.controlPort

theorem capture_of_handedOn {frame : Frame} {a : Agent W} {discoveryPort : UInt16}
    {udp : EthernetUdp} (h : frame.HandedOn a discoveryPort udp) (deviceId : String) :
    a.capture discoveryPort deviceId frame =
      .ok (Agent.onCapturedAll frame.env deviceId udp 0 a (splitCoalesced udp.payload)) := by
  have hdiscovery : ¬ (udp.destinationPort = discoveryPort ∨ udp.sourcePort = discoveryPort) :=
    not_or.mpr h.discovery
  have hcontrol : ¬ (udp.sourcePort ≠ a.peers.controlPort ∧
      udp.destinationPort ≠ a.peers.controlPort) := by
    rintro ⟨hs, hd⟩
    exact h.control.elim hs hd
  unfold Agent.capture
  rw [h.parsed, ok_bind]
  dsimp only
  rw [if_neg hdiscovery, if_neg hcontrol, splitCoalescedChecked_eq, ok_bind]
  rfl

/-! ## One message -/

section

variable {a : Agent W} {env : Env} {deviceId : String} {udp : EthernetUdp} {raw : Bytes}

/-- A message without a session block does not come to the identity check. -/
theorem onCaptured_of_no_block (hb : sessionBlock raw = none) :
    (a.onCaptured env deviceId udp raw).peers = a.peers := by
  have hnone : ∀ e, sessionBlock raw ≠ some e := fun e he => by rw [hb] at he; cases he
  unfold Agent.onCaptured
  split
  · rfl
  · next m hp =>
      split
      · refine onWire_unlearned env .door (fun e he => absurd he (hnone e)) ?_
        rintro ⟨-, e, he, -⟩
        exact hnone e he
      · split
        · next hf =>
            unfold Agent.onSessionFrame
            split
            · rfl
            · next e he => exact absurd (sessionBlock_eq_some.mpr ⟨m, hp, hf, he⟩) (hnone e)
        · rfl

/-- What the session branch does with a block. -/
theorem onCaptured_of_block {e : Endpoints} (hb : sessionBlock raw = some e) :
    a.onCaptured env deviceId udp raw =
      if e.room.id ≠ deviceId then a
      else
        match attributed udp.sourceIp e with
        | none => a
        | some side =>
            match a.pinMac side udp.sourceMac with
            | (false, a) => a
            | (true, a) => a.onWire env side raw := by
  obtain ⟨m, hp, hf, he⟩ := sessionBlock_eq_some.mp hb
  have hother : ¬ (m.family = familyMonitor ∨ m.family = familyElevator) := by
    rw [hf]
    decide
  unfold Agent.onCaptured
  rw [hp]
  dsimp only
  rw [if_neg hother, if_pos hf]
  unfold Agent.onSessionFrame
  rw [he]

/-- While a monitor or an outbound call takes the session messages, none of them comes to the
    identity check. -/
theorem onWire_peers_of_own {e : Endpoints} (side : Side) (hb : sessionBlock raw = some e)
    (hown : a.ownSessions ≠ 0) : (a.onWire env side raw).peers = a.peers := by
  obtain ⟨m, hp, hf, he⟩ := sessionBlock_eq_some.mp hb
  rw [a.onWire_of_sessionLike env side hp (Message.isSessionLike_of_endpoints he)]
  split
  · exact Agent.onMonitorMessage_peers a env m
  · next hm =>
      split
      · exact Agent.onOutboundMessage_peers a env m
      · next hc =>
          exact absurd (ownSessions_eq_zero.mpr ⟨Option.not_isSome_iff_eq_none.mp hm,
            Option.not_isSome_iff_eq_none.mp hc⟩) hown

/-- A message from the pinned MAC that is not accepted: it teaches our address, or nothing. -/
theorem onWire_of_refused {e : Endpoints} (side : Side) (hb : sessionBlock raw = some e)
    (hno : ¬ (a.ownSessions = 0 ∧ a.peers.Accepts e)) :
    (a.onWire env side raw).peers = a.peers ↔
      (a.ownSessions = 0 → ¬ a.peers.TeachesRoom e.room) := by
  by_cases hown : a.ownSessions = 0
  · have hrefuses : a.peers.Refuses raw := by
      intro e' he' ha
      obtain rfl := Option.some.inj (hb.symm.trans he')
      exact hno ⟨hown, ha⟩
    constructor
    · intro hsame _ hteach
      exact (onWire_learned hrefuses hown ⟨e, hb, hteach⟩).ne hsame
    · intro hnot
      refine onWire_unlearned env side hrefuses ?_
      rintro ⟨-, e', he', hteach⟩
      obtain rfl := Option.some.inj (hb.symm.trans he')
      exact hnot hown hteach
  · exact iff_of_true (onWire_peers_of_own side hb hown) fun h => absurd h hown

omit [Wire W] in
theorem pinMac_of_unknown {side : Side} (hmac : a.peers.mac side = none) (mac : MacAddress) :
    a.pinMac side mac = (true, a.withPeers (a.peers.withMac mac side)) := by
  unfold Agent.pinMac Peers.pinMac
  rw [hmac]
  rfl

omit [Wire W] in
theorem pinMac_of_pinned {side : Side} {pinned : MacAddress}
    (hmac : a.peers.mac side = some pinned) (mac : MacAddress) :
    a.pinMac side mac = (pinned == mac, a) := by
  unfold Agent.pinMac Peers.pinMac
  rw [hmac]

omit [Wire W] in
@[simp] theorem withMac_mac (p : Peers) (mac : MacAddress) (side : Side) :
    (p.withMac mac side).mac side = some mac := by
  cases side <;> rfl

/-- A MAC that was pinned stays, whatever `on_wire` makes of the message. -/
theorem onWire_withMac_ne {side : Side} {mac : MacAddress} (hmac : a.peers.mac side = none) :
    ((a.withPeers (a.peers.withMac mac side)).onWire env side raw).peers ≠ a.peers := by
  intro hsame
  have hkept := (onWire_kept (a.withPeers (a.peers.withMac mac side)) env side raw).mac side
  rw [hsame, hmac, Agent.withPeers_peers, withMac_mac] at hkept
  cases hkept rfl

/-- The peers after a message that is not accepted, once it is attributed to a side. -/
theorem onAttributed_peers_iff {e : Endpoints} (side : Side) (hb : sessionBlock raw = some e)
    (hno : ¬ ((a.peers.pinMac side udp.sourceMac).1 = true ∧ a.ownSessions = 0 ∧
      a.peers.Accepts e)) :
    (match a.pinMac side udp.sourceMac with
      | (false, a) => a
      | (true, a) => a.onWire env side raw).peers = a.peers ↔
      (a.peers.mac side).isSome = true ∧
        (a.peers.mac side = some udp.sourceMac → a.ownSessions = 0 →
          ¬ a.peers.TeachesRoom e.room) := by
  cases hmac : a.peers.mac side with
  | none =>
      rw [pinMac_of_unknown hmac]
      exact iff_of_false (onWire_withMac_ne hmac) fun h => absurd h.1 Bool.noConfusion
  | some pinned =>
      rw [pinMac_of_pinned hmac]
      by_cases heq : pinned = udp.sourceMac
      · subst heq
        have hrefused : ¬ (a.ownSessions = 0 ∧ a.peers.Accepts e) := by
          intro h
          refine hno ⟨?_, h⟩
          unfold Peers.pinMac
          rw [hmac]
          exact beq_self_eq_true _
        rw [beq_self_eq_true]
        refine (onWire_of_refused side hb hrefused).trans ?_
        exact ⟨fun h => ⟨rfl, fun _ => h⟩, fun h => h.2 rfl⟩
      · rw [beq_false_of_ne heq]
        refine iff_of_true rfl ⟨rfl, fun h => ?_⟩
        exact absurd (Option.some.inj h) heq

/-- The peers after a message that is not accepted. -/
theorem onCaptured_peers_iff (hno : ¬ a.AcceptsCaptured deviceId udp raw) :
    (a.onCaptured env deviceId udp raw).peers = a.peers ↔ a.TeachesNothing deviceId udp raw := by
  cases hb : sessionBlock raw with
  | none =>
      refine iff_of_true (onCaptured_of_no_block hb) fun e he => ?_
      rw [hb] at he
      cases he
  | some e =>
      have hblock : ∀ e' ∈ sessionBlock raw, e = e' := fun e' he' =>
        Option.some.inj (hb.symm.trans he')
      rw [onCaptured_of_block hb]
      by_cases hid : e.room.id = deviceId
      · rw [if_neg (not_not_intro hid)]
        cases hside : attributed udp.sourceIp e with
        | none =>
            refine iff_of_true rfl fun e' he' _ side hs => ?_
            obtain rfl := hblock e' he'
            rw [hside] at hs
            cases hs
        | some side =>
            refine (onAttributed_peers_iff side hb fun h => ?_).trans ⟨?_, ?_⟩
            · exact hno ⟨e, hb, hid, side, hside, h⟩
            · intro h e' he' _ side' hs
              obtain rfl := hblock e' he'
              obtain rfl := Option.some.inj (hside.symm.trans hs)
              exact h
            · exact fun h => h e hb hid side hside
      · rw [if_pos hid]
        refine iff_of_true rfl fun e' he' hid' => ?_
        obtain rfl := hblock e' he'
        exact absurd hid' hid

end

/-! ## Every message of every frame -/

theorem onCapturedAll_append (env : Nat → Env) (deviceId : String) (udp : EthernetUdp) (n : Nat)
    (a : Agent W) (before after : List Bytes) :
    Agent.onCapturedAll env deviceId udp n a (before ++ after) =
      Agent.onCapturedAll env deviceId udp (n + before.length)
        (Agent.onCapturedAll env deviceId udp n a before) after := by
  induction before generalizing n a with
  | nil => rfl
  | cons raw rest ih =>
      rw [List.length_cons, ← Nat.add_assoc, Nat.add_right_comm]
      exact ih (n + 1) _

/-- When a message of a captured frame that is not accepted pins nothing, so that `pin_mac`
    decides about every later frame as before it. -/
theorem refused_message_pins_nothing_iff {a : Agent W} {discoveryPort : UInt16} {frame : Frame}
    {udp : EthernetUdp} (hframe : frame.HandedOn a discoveryPort udp) (deviceId : String)
    {before after : List Bytes} {raw : Bytes}
    (hsplit : splitCoalesced udp.payload = before ++ raw :: after) :
    let b := Agent.onCapturedAll frame.env deviceId udp 0 a before
    let c := b.onCaptured (frame.env before.length) deviceId udp raw
    a.capture discoveryPort deviceId frame =
        .ok (Agent.onCapturedAll frame.env deviceId udp (before.length + 1) c after) ∧
      ((¬ b.AcceptsCaptured deviceId udp raw →
          c.peers = b.peers ∧
            ∀ side mac, (c.peers.pinMac side mac).1 = (b.peers.pinMac side mac).1) ↔
        b.AcceptsCaptured deviceId udp raw ∨ b.TeachesNothing deviceId udp raw) := by
  intro b c
  constructor
  · rw [capture_of_handedOn hframe, hsplit, onCapturedAll_append, Nat.zero_add]
    rfl
  · by_cases hacc : b.AcceptsCaptured deviceId udp raw
    · exact iff_of_true (fun hno => absurd hacc hno) (.inl hacc)
    · have hiff : c.peers = b.peers ↔ b.TeachesNothing deviceId udp raw :=
        onCaptured_peers_iff hacc
      constructor
      · exact fun h => .inr (hiff.mp (h hacc).1)
      · rintro (h | h) -
        · exact absurd h hacc
        · have hsame := hiff.mpr h
          exact ⟨hsame, fun side mac => by rw [hsame]⟩

/-! ## A forged frame -/

/-- A captured frame with a control message to port 10000. -/
def controlUdp (mac : MacAddress) (ip : Ipv4Addr) (opcode : UInt32) (e : Endpoints) :
    EthernetUdp where
  sourceMac := mac
  destinationMac := ⟨#[2, 0, 0, 0, 0, 2].toVector⟩
  sourceIp := ip
  destinationIp := e.room.ip
  sourcePort := 10000
  destinationPort := 10000
  payload := (sessionControl opcode e).toOption.getD []

/-- The bytes of that frame. -/
def controlFrame (udp : EthernetUdp) : Frame where
  bytes := (buildUdpIpv4 udp.sourceMac udp.destinationMac udp.sourceIp udp.destinationIp
    udp.sourcePort udp.destinationPort udp.payload 0).toOption.getD []
  env := fun _ => { }

/-- A stranger rings our room, names itself as the door, and gets the Pad's address wrong. -/
def forgedRing : EthernetUdp :=
  controlUdp ⟨#[2, 0, 0, 0, 0, 9].toVector⟩ ⟨192, 168, 124, 9⟩ opRequest
    ⟨⟨"M00000000009", ⟨192, 168, 124, 9⟩⟩, ⟨"S00000000000", ⟨9, 9, 9, 9⟩⟩⟩

/-- The door rings. -/
def doorRing : EthernetUdp :=
  controlUdp ⟨#[2, 0, 0, 0, 0, 1].toVector⟩ Endpoints.captured.door.ip opRequest .captured

/-- An Agent that knows both stations, but not the door's MAC. -/
def unpinnedAgent : Agent TapWire :=
  tapAgent.withPeers { tapAgent.peers with doorMac := none }

theorem forgedRing_handedOn (a : Agent TapWire) (h : a.peers.controlPort = 10000) :
    (controlFrame forgedRing).HandedOn a 10008 forgedRing where
  parsed := by decide +kernel
  discovery := by decide
  control := .inl h.symm

/-- With the door's MAC known, the forged ring pins nothing. -/
theorem forged_ring_pins_nothing :
    (tapAgent.onCaptured { } "S00000000000" forgedRing forgedRing.payload).peers =
      tapAgent.peers := by
  have hsplit : splitCoalesced forgedRing.payload = [] ++ forgedRing.payload :: [] := by
    decide +kernel
  have hiff := (refused_message_pins_nothing_iff (forgedRing_handedOn tapAgent rfl) "S00000000000"
    hsplit).2
  exact (hiff.mpr (.inr (by decide +kernel)) (by decide +kernel)).1

/-- Without it, the forged ring is not accepted and pins the stranger's MAC as the door's; the
    door's own ring, which would have been taken, is then dropped. -/
theorem forged_ring_pins_mac :
    ¬ unpinnedAgent.AcceptsCaptured "S00000000000" forgedRing forgedRing.payload ∧
      (unpinnedAgent.capture 10008 "S00000000000" (controlFrame forgedRing)).map
          (fun a => a.peers.doorMac) = .ok (some forgedRing.sourceMac) ∧
      (unpinnedAgent.capture 10008 "S00000000000" (controlFrame doorRing)).map
          (fun a => a.call.machine.state.phase) = .ok .ringing ∧
      ((unpinnedAgent.capture 10008 "S00000000000" (controlFrame forgedRing)).bind fun a =>
          a.capture 10008 "S00000000000" (controlFrame doorRing)).map
            (fun a => (a.peers.pinMac .door doorRing.sourceMac).1 ||
              a.call.machine.state.phase != .idle) = .ok false := by
  refine ⟨by decide +kernel, by decide +kernel, by decide +kernel, by decide +kernel⟩

end Michoi
