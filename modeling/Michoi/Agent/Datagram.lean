/-
  The receive loop of `pad` mode (`UdpWire::run`), and what a stranger's datagram teaches.

  `receive` is one round of the loop: the sender is noted as the peer, the addresses are
  learned from it, and each message in the datagram goes to `on_wire` as the door's. None of
  this asks whether the datagram is from the door, so a datagram without any session of this
  household can pin an address. `strangers_teach_nothing_iff` says when it does not.
-/
import Michoi.Agent.Listening
import Michoi.Protocol.Split
import Michoi.Wire.Udp

namespace Michoi

open Lib

/-- A datagram with what the loop finds out about it: `local_ip_toward` its sender, and what
    each `on_wire` call reads. -/
structure Datagram where
  sender : SocketAddr
  payload : Bytes
  localIp : Option Ipv4Addr
  env : Nat → Env

namespace Agent

variable {W : Type}

/-- The part of a round that learns the sender's address, and ours toward it. -/
def learnSender (a : Agent W) (d : Datagram) : Agent W :=
  match d.sender.ip with
  | .v4 doorIp =>
      let a := match d.localIp with
        | some ip => a.setRoomIpIfUnset ip
        | none => a
      (a.learnAddress .door doorIp).2
  | .v6 _ => a

variable [Wire W]

/-- The messages of one datagram, all attributed to the door. -/
def onMessages (env : Nat → Env) : Nat → Agent W → List Bytes → Agent W
  | _, a, [] => a
  | n, a, raw :: rest => onMessages env (n + 1) (a.onWire (env n) .door raw) rest

/-- One round of `UdpWire::run`. -/
def receive (a : Agent W) (d : Datagram) : Agent W :=
  onMessages d.env 0 ((a.withWire (Wire.noteSender a.wire d.sender)).learnSender d)
    (splitCoalesced d.payload)

/-- The loop over the datagrams it receives. -/
def receiveAll (a : Agent W) : List Datagram → Agent W
  | [] => a
  | d :: rest => (a.receive d).receiveAll rest

end Agent

/-! ## What a message does to the Agent's own sessions -/

variable {W : Type}

/-- How many messages of the session families the Agent's own sessions take for themselves
    when each is a hangup: one for a monitor and one for an outbound call. -/
def Agent.ownSessions (a : Agent W) : Nat :=
  (if a.monitor.isSome then 1 else 0) + if a.callSession.isSome then 1 else 0

/-- A hangup of either session family. -/
def isSessionHangup (raw : Bytes) : Bool :=
  match Message.parse raw with
  | .error _ => false
  | .ok m => m.isSessionLike && m.opcode == opHangup

theorem isSessionHangup_of_parse {raw : Bytes} {m : Message} (hp : Message.parse raw = .ok m) :
    isSessionHangup raw = (m.isSessionLike && m.opcode == opHangup) := by
  unfold isSessionHangup
  rw [hp]

/-- The endpoint block that `on_wire` would check. -/
def sessionBlock (raw : Bytes) : Option Endpoints :=
  match Message.parse raw with
  | .error _ => none
  | .ok m => if m.family = familySession then m.endpoints else none

theorem sessionBlock_eq_some {raw : Bytes} {e : Endpoints} :
    sessionBlock raw = some e ↔
      ∃ m, Message.parse raw = .ok m ∧ m.family = familySession ∧ m.endpoints = some e := by
  unfold sessionBlock
  cases hp : Message.parse raw with
  | error => exact iff_of_false nofun fun ⟨_, h, _⟩ => nomatch h
  | ok m =>
      dsimp only
      constructor
      · intro h
        split at h
        · next hf => exact ⟨m, rfl, hf, h⟩
        · cases h
      · rintro ⟨m', hm, hf, he⟩
        obtain rfl := Except.ok.inj hm
        rw [if_pos hf, he]

section

variable {a a' : Agent W} {env : Env} {side : Side} {raw : Bytes} {m : Message}

theorem ownSessions_eq_zero : a.ownSessions = 0 ↔ a.monitor = none ∧ a.callSession = none := by
  unfold Agent.ownSessions
  cases a.monitor <;> cases a.callSession <;> simp

/-- The slots of the Agent's own sessions are as before. -/
theorem ownSessions_congr (hm : a'.monitor = a.monitor) (hc : a'.callSession = a.callSession) :
    a'.ownSessions = a.ownSessions := by
  unfold Agent.ownSessions
  rw [hm, hc]

theorem feed_ownSessions (a : Agent W) (env : Env) (f : MediaFragment) :
    (a.feed env f).ownSessions = a.ownSessions := by
  unfold Agent.feed
  split
  · rfl
  · split <;> rfl

/-- The media branch takes no session. -/
theorem media_ownSessions (a : Agent W) (env : Env) (m : Message) :
    (match m.media with | some media => a.feed env media | none => a).ownSessions =
      a.ownSessions := by
  cases m.media with
  | none => rfl
  | some f => exact feed_ownSessions a env f

theorem onMonitorMessage_ownSessions (hm : a.monitor.isSome = true) :
    (a.onMonitorMessage env m).ownSessions =
      if m.opcode = opHangup then a.ownSessions - 1 else a.ownSessions := by
  obtain ⟨handle, hh⟩ := Option.isSome_iff_exists.mp hm
  unfold Agent.onMonitorMessage
  split
  · next hop =>
      rw [hop, if_neg (by decide)]
      exact media_ownSessions a env m
  · split
    · simp [Agent.stopMonitorNow, Agent.ownSessions, hh]
    · rfl

theorem onOutboundMessage_ownSessions (hm : a.monitor = none)
    (hc : a.callSession.isSome = true) : (a.onOutboundMessage env m).ownSessions =
      if m.opcode = opHangup then a.ownSessions - 1 else a.ownSessions := by
  obtain ⟨handle, hh⟩ := Option.isSome_iff_exists.mp hc
  unfold Agent.onOutboundMessage
  split
  · next hop =>
      rw [hop, if_neg (by decide)]
      unfold Agent.outboundAnswered
      rw [hh]
      dsimp only
      split
      · rfl
      · simp [Agent.ownSessions, Agent.publish, hh, hm]
  · split
    · next hop =>
        rw [hop, if_neg (by decide)]
        exact media_ownSessions a env m
    · split
      · simp [Agent.hangupCallNow, Agent.takeCallSession, Agent.ownSessions, Agent.publish, hh, hm]
      · rfl

variable [Wire W]

theorem onSession_ownSessions {e : Endpoints} {peers : Peers}
    (h : OnSession a env side m e peers a') : a'.ownSessions = a.ownSessions := by
  cases h with
  | ring =>
      unfold ringReplied Agent.onCallStarted
      split <;> split <;> rfl
  | padAnswer =>
      unfold Agent.onPadAnswer
      split <;> rfl
  | padUnlock =>
      unfold Agent.onPadUnlock
      split <;> rfl
  | hangup =>
      unfold Agent.onWireHangup
      split <;> rfl
  | media => exact feed_ownSessions ..
  | ignored => rfl

theorem onCallMessage_ownSessions (a : Agent W) (env : Env) (side : Side) (m : Message) :
    (a.onCallMessage env side m).ownSessions = a.ownSessions := by
  unfold Agent.onCallMessage
  split
  · rfl
  · split
    · rfl
    · split
      · rfl
      · next e _ =>
          unfold Agent.acceptEndpoints
          dsimp only
          split
          · next h =>
              rw [← (Prod.mk.inj h).2]
              rfl
          · next h =>
              rw [← (Prod.mk.inj h).2]
              exact (onSession_ownSessions (onSession_cases _ env side m e _)).trans rfl

/-- A session hangup ends one of the Agent's own sessions, and nothing else does. -/
theorem onWire_ownSessions (a : Agent W) (env : Env) (side : Side) (raw : Bytes) :
    (a.onWire env side raw).ownSessions =
      if isSessionHangup raw = true then a.ownSessions - 1 else a.ownSessions := by
  cases hp : Message.parse raw with
  | error =>
      unfold Agent.onWire isSessionHangup
      rw [hp]
      rfl
  | ok m =>
      rw [isSessionHangup_of_parse hp]
      by_cases hs : m.isSessionLike = true
      · rw [a.onWire_of_sessionLike env side hp hs, hs, Bool.true_and]
        simp only [beq_iff_eq]
        split
        · next hm => exact onMonitorMessage_ownSessions hm
        · next hm =>
            have hnone := Option.not_isSome_iff_eq_none.mp hm
            split
            · next hc => exact onOutboundMessage_ownSessions hnone hc
            · next hc =>
                have hzero : a.ownSessions = 0 :=
                  ownSessions_eq_zero.mpr ⟨hnone, Option.not_isSome_iff_eq_none.mp hc⟩
                rw [onCallMessage_ownSessions, hzero, ite_self]
      · rw [(Bool.not_eq_true _).mp hs, Bool.false_and, if_neg Bool.noConfusion]
        unfold Agent.onWire
        rw [hp]
        dsimp only
        split
        · unfold Agent.onBootstrap
          split
          · rfl
          · split <;> rfl
        · rw [(Bool.not_eq_true _).mp hs, Bool.and_false, Bool.and_false,
            if_neg Bool.noConfusion, if_neg Bool.noConfusion]
          exact onCallMessage_ownSessions ..

/-! ## What a stranger's message teaches -/

/-- The message's block names our room with an address that was not known. -/
def Peers.TaughtBy (p : Peers) (raw : Bytes) : Prop :=
  ∃ e, sessionBlock raw = some e ∧ p.TeachesRoom e.room

/-- No block of the message is accepted. -/
def Peers.Refuses (p : Peers) (raw : Bytes) : Prop :=
  ∀ e, sessionBlock raw = some e → ¬ p.Accepts e

/-- An address is known that was not. -/
def Peers.Learned (p q : Peers) : Prop :=
  ¬ p.room.ip.Specified ∧ q.room.ip.Specified ∨ ¬ p.doorIp.Specified ∧ q.doorIp.Specified

omit [Wire W] in
theorem Peers.Learned.ne {p q : Peers} (h : p.Learned q) : q ≠ p := by
  rintro rfl
  exact h.elim (fun h => h.1 h.2) fun h => h.1 h.2

omit [Wire W] in
/-- What was learned stays. -/
theorem Peers.Learned.kept {p q r : Peers} (h : p.Learned q) (hk : q.Kept r) : p.Learned r := by
  rcases h with ⟨hp, hq⟩ | ⟨hp, hq⟩
  · exact .inl ⟨hp, by rw [hk.roomIp hq]; exact hq⟩
  · exact .inr ⟨hp, by rw [hk.doorIp hq]; exact hq⟩

theorem onWire_kept (a : Agent W) (env : Env) (side : Side) (raw : Bytes) :
    a.peers.Kept (a.onWire env side raw).peers := by
  rcases a.onWire_peers env side raw with h | ⟨e, h⟩
  · rw [h]
    exact .refl _
  · rw [h]
    exact Peers.acceptEndpoints_kept ..

/-- A refused message that comes through to the identity check may teach our address. -/
theorem onWire_learned (h : a.peers.Refuses raw) (hown : a.ownSessions = 0)
    (ht : a.peers.TaughtBy raw) : a.peers.Learned (a.onWire env side raw).peers := by
  obtain ⟨e, hb, ht⟩ := ht
  obtain ⟨m, hp, hf, he⟩ := sessionBlock_eq_some.mp hb
  obtain ⟨hm, hc⟩ := ownSessions_eq_zero.mp hown
  rw [a.onWire_of_session env side hm hc hp hf he, if_neg (h e hb), Agent.withPeers_peers,
    Peers.acceptEndpoints_of_not_accepts (h e hb), if_pos ht]
  exact .inl ⟨ht.2.1, ht.2.2⟩

theorem onWire_unlearned (env : Env) (side : Side) (h : a.peers.Refuses raw)
    (ht : ¬ (a.ownSessions = 0 ∧ a.peers.TaughtBy raw)) :
    (a.onWire env side raw).peers = a.peers := by
  have hw := a.onWire_cases env side raw
  generalize a.onWire env side raw = a' at hw ⊢
  cases hw with
  | dropped | elevator => rfl
  | bootstrap => exact Agent.onBootstrap_peers ..
  | monitored => exact Agent.onMonitorMessage_peers ..
  | outbound => exact Agent.onOutboundMessage_peers ..
  | @refused m e hp hf he ha hm hc =>
      have hb : sessionBlock raw = some e := sessionBlock_eq_some.mpr ⟨m, hp, hf, he⟩
      have hno : ¬ a.peers.TeachesRoom e.room := fun hteach =>
        ht ⟨ownSessions_eq_zero.mpr ⟨hm, hc⟩, e, hb, hteach⟩
      rw [Agent.withPeers_peers, Peers.acceptEndpoints_of_not_accepts ha, if_neg hno]
  | @accepted m e hp hf he ha =>
      exact absurd ha (h e (sessionBlock_eq_some.mpr ⟨m, hp, hf, he⟩))

/-! ## A stranger's datagram -/

/-- One of the messages teaches our address: it comes through to the identity check when the
    hangups before it have ended the Agent's own sessions. -/
def Peers.TaughtByOne (p : Peers) : Nat → List Bytes → Prop
  | _, [] => False
  | own, raw :: rest =>
      own = 0 ∧ p.TaughtBy raw ∨
        p.TaughtByOne (if isSessionHangup raw = true then own - 1 else own) rest

/-- The Agent's own sessions after these messages. -/
def ownAfter (own : Nat) (raws : List Bytes) : Nat := own - raws.countP isSessionHangup

omit [Wire W] in
theorem ownAfter_cons (own : Nat) (raw : Bytes) (rest : List Bytes) :
    ownAfter own (raw :: rest) =
      ownAfter (if isSessionHangup raw = true then own - 1 else own) rest := by
  unfold ownAfter
  rw [List.countP_cons]
  split <;> omega

theorem onMessages_kept (env : Nat → Env) (n : Nat) (a : Agent W) (raws : List Bytes) :
    a.peers.Kept (Agent.onMessages env n a raws).peers := by
  induction raws generalizing n a with
  | nil => exact .refl _
  | cons raw rest ih => exact (onWire_kept a (env n) .door raw).trans (ih _ _)

/-- Messages that the identity check refuses: one of them teaches our address, or the peers
    are as before them. -/
theorem onMessages_learned_or_same (env : Nat → Env) (n : Nat) (a : Agent W) (raws : List Bytes)
    (h : ∀ raw ∈ raws, a.peers.Refuses raw) :
    (a.peers.TaughtByOne a.ownSessions raws →
        a.peers.Learned (Agent.onMessages env n a raws).peers) ∧
      (¬ a.peers.TaughtByOne a.ownSessions raws →
        (Agent.onMessages env n a raws).peers = a.peers ∧
          (Agent.onMessages env n a raws).ownSessions = ownAfter a.ownSessions raws) := by
  induction raws generalizing n a with
  | nil => exact ⟨False.elim, fun _ => ⟨rfl, rfl⟩⟩
  | cons raw rest ih =>
      have hraw := h raw List.mem_cons_self
      have hown := onWire_ownSessions a (env n) .door raw
      by_cases ht : a.ownSessions = 0 ∧ a.peers.TaughtBy raw
      · refine ⟨fun _ => ?_, fun hno => absurd (.inl ht) hno⟩
        exact (onWire_learned hraw ht.1 ht.2).kept (onMessages_kept env (n + 1) _ rest)
      · have hsame := onWire_unlearned (env n) .door hraw ht
        obtain ⟨hlearned, hkeep⟩ := ih (n + 1) (a.onWire (env n) .door raw) fun raw' hr => by
          rw [hsame]
          exact h raw' (List.mem_cons_of_mem _ hr)
        rw [hsame, hown] at hlearned hkeep
        refine ⟨fun hone => hlearned (hone.resolve_left ht), fun hno => ?_⟩
        obtain ⟨hp, ho⟩ := hkeep fun hone => hno (.inr hone)
        exact ⟨hp, ho.trans (ownAfter_cons ..).symm⟩

/-- The loop learns an address from the sender alone: ours toward it, or the door's. -/
def Peers.TaughtBySender (p : Peers) (d : Datagram) : Prop :=
  ∃ ip, d.sender.ip = .v4 ip ∧
    ((∃ ours, d.localIp = some ours ∧ ours.Specified ∧ ¬ p.room.ip.Specified) ∨
      ip.Specified ∧ ¬ p.doorIp.Specified)

omit [Wire W] in
theorem setRoomIpIfUnset_learned_or_same (p : Peers) (ip : Ipv4Addr) :
    (ip.Specified ∧ ¬ p.room.ip.Specified → p.Learned (p.setRoomIpIfUnset ip)) ∧
      (¬ (ip.Specified ∧ ¬ p.room.ip.Specified) → p.setRoomIpIfUnset ip = p) := by
  unfold Peers.setRoomIpIfUnset
  split
  · next h =>
      obtain ⟨hroom, hip⟩ := Bool.and_eq_true_iff.mp h
      have hip' : ip.Specified := (Bool.not_eq_true' _).mp hip
      exact ⟨fun _ => .inl ⟨Ipv4Addr.not_specified hroom, hip'⟩,
        fun hno => absurd ⟨hip', Ipv4Addr.not_specified hroom⟩ hno⟩
  · next h =>
      refine ⟨fun hyes => absurd ?_ h, fun _ => rfl⟩
      exact Bool.and_eq_true_iff.mpr
        ⟨(Bool.not_eq_false _).mp hyes.2, (Bool.not_eq_true' _).mpr hyes.1⟩

omit [Wire W] in
theorem learnDoorAddress_learned_or_same (p : Peers) {ip : Ipv4Addr} (hip : ip.Specified) :
    (¬ p.doorIp.Specified → p.Learned (p.learnAddress .door ip).2) ∧
      (p.doorIp.Specified → (p.learnAddress .door ip).2 = p) := by
  unfold Peers.learnAddress
  rw [if_neg (by rw [hip]; decide)]
  unfold Peers.learnDoorAddress Peers.doorIp
  dsimp only
  cases hd : p.door with
  | none => exact ⟨fun hno => .inr ⟨by unfold Peers.doorIp; rw [hd]; exact hno, hip⟩,
      fun h => (nomatch h)⟩
  | some door =>
      dsimp only
      split
      · next hun =>
          refine ⟨fun hno => .inr ⟨by unfold Peers.doorIp; rw [hd]; exact hno, hip⟩, fun h => ?_⟩
          exact absurd h (Ipv4Addr.not_specified hun)
      · next hun => exact ⟨fun hno => absurd ((Bool.not_eq_true _).mp hun) hno, fun _ => rfl⟩

omit [Wire W] in
theorem learnAddress_learned_or_same (p : Peers) (ip : Ipv4Addr) :
    (ip.Specified ∧ ¬ p.doorIp.Specified → p.Learned (p.learnAddress .door ip).2) ∧
      (¬ (ip.Specified ∧ ¬ p.doorIp.Specified) → (p.learnAddress .door ip).2 = p) := by
  by_cases hip : ip.Specified
  · obtain ⟨hlearned, hsame⟩ := learnDoorAddress_learned_or_same p hip
    exact ⟨fun h => hlearned h.2, fun h => hsame (not_not.mp fun hd => h ⟨hip, hd⟩)⟩
  · refine ⟨fun h => absurd h.1 hip, fun _ => ?_⟩
    unfold Peers.learnAddress
    rw [if_pos ((Bool.not_eq_false _).mp hip)]

omit [Wire W] in
theorem setRoomIpIfUnset_doorIp (p : Peers) (ip : Ipv4Addr) :
    (p.setRoomIpIfUnset ip).doorIp = p.doorIp := by
  unfold Peers.setRoomIpIfUnset
  split <;> rfl

omit [Wire W] in
/-- The sender teaches an address, or the peers are as before it. -/
theorem learnSender_learned_or_same (a : Agent W) (d : Datagram) :
    (a.peers.TaughtBySender d → a.peers.Learned (a.learnSender d).peers) ∧
      (¬ a.peers.TaughtBySender d → (a.learnSender d).peers = a.peers) := by
  unfold Agent.learnSender Peers.TaughtBySender
  cases hs : d.sender.ip with
  | v6 => exact ⟨fun ⟨_, h, _⟩ => (nomatch h), fun _ => rfl⟩
  | v4 doorIp =>
      cases hl : d.localIp with
      | none =>
          obtain ⟨hlearned, hsame⟩ := learnAddress_learned_or_same a.peers doorIp
          constructor
          · rintro ⟨ip, hip, ⟨ours, h, -⟩ | h⟩
            · cases h
            · cases hip
              exact hlearned h
          · exact fun hno => hsame fun h => hno ⟨doorIp, rfl, .inr h⟩
      | some ours =>
          obtain ⟨hroom, hroom'⟩ := setRoomIpIfUnset_learned_or_same a.peers ours
          obtain ⟨hdoor, hdoor'⟩ :=
            learnAddress_learned_or_same (a.peers.setRoomIpIfUnset ours) doorIp
          rw [setRoomIpIfUnset_doorIp] at hdoor hdoor'
          constructor
          · rintro ⟨ip, hip, ⟨ours', h, hours⟩ | h⟩
            · cases h
              exact (hroom hours).kept (Peers.learnAddress_kept ..)
            · cases hip
              by_cases hours : ours.Specified ∧ ¬ a.peers.room.ip.Specified
              · exact (hroom hours).kept (Peers.learnAddress_kept ..)
              · have hlearned := hdoor h
                rw [hroom' hours] at hlearned
                show a.peers.Learned ((a.peers.setRoomIpIfUnset ours).learnAddress .door doorIp).2
                rw [hroom' hours]
                exact hlearned
          · intro hno
            have hsame := hdoor' fun h => hno ⟨doorIp, rfl, .inr h⟩
            exact hsame.trans (hroom' fun h => hno ⟨doorIp, rfl, .inl ⟨ours, rfl, h⟩⟩)

omit [Wire W] in
theorem learnSender_ownSessions (a : Agent W) (d : Datagram) :
    (a.learnSender d).ownSessions = a.ownSessions := by
  unfold Agent.learnSender
  split
  · split <;> rfl
  · rfl

/-- The datagram teaches an address: by its sender, or by one of its messages. -/
def Peers.TaughtByDatagram (p : Peers) (own : Nat) (d : Datagram) : Prop :=
  p.TaughtBySender d ∨ p.TaughtByOne own (splitCoalesced d.payload)

/-- No message of the datagram is a session message that the identity check accepts. -/
def Peers.Stranger (p : Peers) (d : Datagram) : Prop :=
  ∀ raw ∈ splitCoalesced d.payload, p.Refuses raw

/-- A stranger's datagram teaches an address, or leaves the peers as they are. -/
theorem receive_learned_or_same (a : Agent W) (d : Datagram) (h : a.peers.Stranger d) :
    (a.peers.TaughtByDatagram a.ownSessions d → a.peers.Learned (a.receive d).peers) ∧
      (¬ a.peers.TaughtByDatagram a.ownSessions d →
        (a.receive d).peers = a.peers ∧
          (a.receive d).ownSessions = ownAfter a.ownSessions (splitCoalesced d.payload)) := by
  obtain ⟨hlearned, hsame⟩ :=
    learnSender_learned_or_same (a.withWire (Wire.noteSender a.wire d.sender)) d
  rw [Agent.withWire_peers] at hlearned hsame
  unfold Agent.receive Peers.TaughtByDatagram
  by_cases hs : a.peers.TaughtBySender d
  · exact ⟨fun _ => (hlearned hs).kept (onMessages_kept ..), fun hno => absurd (.inl hs) hno⟩
  · have hpeers := hsame hs
    have hown : ((a.withWire (Wire.noteSender a.wire d.sender)).learnSender d).ownSessions =
        a.ownSessions := learnSender_ownSessions ..
    have hmessages := onMessages_learned_or_same d.env 0
      ((a.withWire (Wire.noteSender a.wire d.sender)).learnSender d) (splitCoalesced d.payload)
      (by rw [hpeers]; exact h)
    rw [hpeers, hown] at hmessages
    exact ⟨fun ht => hmessages.1 (ht.resolve_left hs), fun hno => hmessages.2 fun h => hno (.inr h)⟩

/-! ## A run of the loop -/

/-- One of the datagrams teaches an address. -/
def Peers.TaughtByRun (p : Peers) : Nat → List Datagram → Prop
  | _, [] => False
  | own, d :: rest =>
      p.TaughtByDatagram own d ∨ p.TaughtByRun (ownAfter own (splitCoalesced d.payload)) rest

theorem receiveAll_kept (a : Agent W) (ds : List Datagram) :
    a.peers.Kept (a.receiveAll ds).peers := by
  induction ds generalizing a with
  | nil => exact .refl _
  | cons d rest ih =>
      refine Peers.Kept.trans ?_ (ih _)
      have hsender : a.peers.Kept
          ((a.withWire (Wire.noteSender a.wire d.sender)).learnSender d).peers := by
        unfold Agent.learnSender
        split
        · split
          · exact (Peers.setRoomIpIfUnset_kept ..).trans (Peers.learnAddress_kept ..)
          · exact Peers.learnAddress_kept ..
        · exact .refl _
      exact hsender.trans (onMessages_kept ..)

/-- **When strangers teach nothing.** Datagrams without any session message that the identity
    check accepts leave the peers as they are exactly when none of them teaches an address:
    its sender does where an address is not known, and a refused block where the Pad's is
    not known. While they teach nothing, the ring that would have been accepted before them
    still is. -/
theorem strangers_teach_nothing_iff (a : Agent UdpWire) (ds : List Datagram)
    (h : ∀ d ∈ ds, a.peers.Stranger d) :
    ((a.receiveAll ds).peers = a.peers ↔ ¬ a.peers.TaughtByRun a.ownSessions ds) ∧
      (¬ a.peers.TaughtByRun a.ownSessions ds →
        ∀ ring, a.peers.Accepts ring → (a.receiveAll ds).peers.Accepts ring) := by
  have hrun : (a.peers.TaughtByRun a.ownSessions ds →
        a.peers.Learned (a.receiveAll ds).peers) ∧
      (¬ a.peers.TaughtByRun a.ownSessions ds → (a.receiveAll ds).peers = a.peers) := by
    induction ds generalizing a with
    | nil => exact ⟨False.elim, fun _ => rfl⟩
    | cons d rest ih =>
        obtain ⟨hlearned, hsame⟩ := receive_learned_or_same a d (h d List.mem_cons_self)
        by_cases ht : a.peers.TaughtByDatagram a.ownSessions d
        · exact ⟨fun _ => (hlearned ht).kept (receiveAll_kept ..), fun hno => absurd (.inl ht) hno⟩
        · obtain ⟨hpeers, hown⟩ := hsame ht
          have hrest := ih (a.receive d) fun d' hd => by
            rw [hpeers]
            exact h d' (List.mem_cons_of_mem _ hd)
          rw [hpeers, hown] at hrest
          exact ⟨fun hyes => hrest.1 (hyes.resolve_left ht),
            fun hno => hrest.2 fun h => hno (.inr h)⟩
  refine ⟨⟨fun heq ht => (hrun.1 ht).ne heq, hrun.2⟩, fun hno ring hring => ?_⟩
  rw [hrun.2 hno]
  exact hring

end

/-- A `pad` mode Agent that has only its own id, before anything came in. -/
def padAgent : Agent UdpWire :=
  .new .bind ⟨⟨"S00000000000", .unspecified⟩, none, none, none, 10000⟩ 5000 false (.new 0 0) none

/-- The same Agent once it knows both stations. -/
def pinnedPadAgent : Agent UdpWire := padAgent.withPeers (padAgent.peers.withStations .captured)

/-- The neighbours' ring, seen from their door. -/
def neighbourRing : Datagram where
  sender := ⟨.v4 neighbours.door.ip, 10000⟩
  payload := neighbourControl opRequest
  localIp := some Endpoints.captured.room.ip
  env _ := { }

theorem neighbourRing_stranger {p : Peers} (h : ¬ p.Accepts neighbours) :
    p.Stranger neighbourRing := by
  have hsplit : splitCoalesced neighbourRing.payload = [neighbourControl opRequest] := by
    decide +kernel
  have hblock : sessionBlock (neighbourControl opRequest) = some neighbours := by decide +kernel
  intro raw hraw e he
  rw [hsplit] at hraw
  rw [List.mem_singleton.mp hraw, hblock] at he
  exact Option.some.inj he ▸ h

/-- Once both stations are known, the neighbours' ring teaches nothing. -/
theorem pinned_learns_nothing :
    (pinnedPadAgent.receiveAll [neighbourRing]).peers = pinnedPadAgent.peers := by
  refine ((strangers_teach_nothing_iff pinnedPadAgent [neighbourRing] fun d hd => ?_).1).mpr ?_
  · rw [List.mem_singleton.mp hd]
    exact neighbourRing_stranger (by decide)
  · have hsplit : splitCoalesced neighbourRing.payload = [neighbourControl opRequest] := by
      decide +kernel
    have hblock : sessionBlock (neighbourControl opRequest) = some neighbours := by decide +kernel
    rintro ((⟨ip, -, ⟨-, -, -, hroom⟩ | ⟨-, hdoor⟩⟩ | hone) | hrest)
    · exact hroom (by decide)
    · exact hdoor (by decide)
    · rw [hsplit] at hone
      rcases hone with ⟨-, e, he, hteach⟩ | hnil
      · exact hteach.2.1 (by decide)
      · exact hnil
    · exact hrest

/-- Before, it pins the neighbours' door, and our own door's first ring is refused. -/
theorem stranger_pins_the_door :
    padAgent.peers.Stranger neighbourRing ∧
      (padAgent.receiveAll [neighbourRing]).peers ≠ padAgent.peers ∧
        padAgent.peers.Accepts .captured ∧
          ¬ (padAgent.receiveAll [neighbourRing]).peers.Accepts .captured := by
  refine ⟨neighbourRing_stranger (by decide), ?_, by decide, ?_⟩
  · decide +kernel
  · decide +kernel

end Michoi
