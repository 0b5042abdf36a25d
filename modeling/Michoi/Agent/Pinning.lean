/-
  Trust on first use: what the Agent has learned about the two stations never changes.

  `Peers.Kept` compares what is known before and after. Every function that writes the
  peers respects it (`setRoomIpIfUnset_kept`, `learnAddress_kept`, `pinMac_kept`,
  `acceptEndpoints_kept`), `on_wire` writes them through `accept_endpoints` only
  (`onWire_peers`), and `identities_pinned` carries it over whole runs.
-/
import Michoi.Agent
import Michoi.Lib.Pinned
import Michoi.Lib.System

namespace Michoi

open Lib

/-- The address is a real one. -/
def Ipv4Addr.Specified (ip : Ipv4Addr) : Prop := ip.isUnspecified = false

theorem Ipv4Addr.not_specified {ip : Ipv4Addr} (h : ip.isUnspecified = true) :
    ¬ ip.Specified := by
  unfold Specified
  simp [h]

namespace Peers

/-- Everything known about the stations in `p` is the same in `q`, and the room station id
    is the same in any case. -/
structure Kept (p q : Peers) : Prop where
  roomId : q.room.id = p.room.id
  roomIp : Pinned Ipv4Addr.Specified p.room.ip q.room.ip
  doorIp : Pinned Ipv4Addr.Specified p.doorIp q.doorIp
  doorId : Pinned (· ≠ "") p.doorId q.doorId
  mac : ∀ side, Pinned (·.isSome) (p.mac side) (q.mac side)

namespace Kept

theorem refl (p : Peers) : p.Kept p :=
  ⟨rfl, .refl _, .refl _, .refl _, fun _ => .refl _⟩

theorem trans {p q r : Peers} (h : p.Kept q) (h' : q.Kept r) : p.Kept r :=
  ⟨h'.roomId.trans h.roomId, h.roomIp.trans h'.roomIp, h.doorIp.trans h'.doorIp,
    h.doorId.trans h'.doorId, fun side => (h.mac side).trans (h'.mac side)⟩

/-- Only the Pad's address differs, and it was not known. -/
theorem of_roomIp {p : Peers} (h : p.room.ip.isUnspecified = true) (ip : Ipv4Addr) :
    p.Kept { p with room := { p.room with ip } } :=
  ⟨rfl, .of_unknown (Ipv4Addr.not_specified h), .refl _, .refl _, fun side => by
    cases side <;> exact .refl _⟩

/-- Only the door differs. -/
theorem of_door {p : Peers} {door : Station}
    (hip : Pinned Ipv4Addr.Specified p.doorIp door.ip) (hid : Pinned (· ≠ "") p.doorId door.id) :
    p.Kept { p with door := some door } :=
  ⟨rfl, .refl _, hip, hid, fun side => by cases side <;> exact .refl _⟩

/-- Nothing of a door was known. -/
theorem of_no_door {p : Peers} (hdoor : p.door = none) (door : Station) :
    p.Kept { p with door := some door } := by
  refine .of_door (.of_unknown ?_) (.of_unknown ?_)
  · unfold Peers.doorIp
    rw [hdoor]
    exact Ipv4Addr.not_specified rfl
  · unfold Peers.doorId
    rw [hdoor]
    exact fun h => h rfl

end Kept

/-! ## One step -/

theorem setRoomIpIfUnset_kept (p : Peers) (ip : Ipv4Addr) : p.Kept (p.setRoomIpIfUnset ip) := by
  unfold setRoomIpIfUnset
  split
  · next h => exact .of_roomIp (Bool.and_eq_true_iff.mp h).1 ip
  · exact .refl p

theorem learnPadAddress_kept (p : Peers) (ip : Ipv4Addr) : p.Kept (p.learnPadAddress ip).2 := by
  unfold learnPadAddress
  split
  · next h => exact .of_roomIp h ip
  · exact .refl p

theorem learnDoorAddress_kept (p : Peers) (ip : Ipv4Addr) :
    p.Kept (p.learnDoorAddress ip).2 := by
  unfold learnDoorAddress
  split
  · next hdoor => exact .of_no_door hdoor _
  · next door hdoor =>
      split
      · next hun =>
          refine .of_door (.of_unknown ?_) (.of_eq ?_)
          · unfold doorIp
            rw [hdoor]
            exact Ipv4Addr.not_specified hun
          · unfold doorId
            rw [hdoor]
            rfl
      · exact .refl p

theorem learnAddress_kept (p : Peers) (side : Side) (ip : Ipv4Addr) :
    p.Kept (p.learnAddress side ip).2 := by
  unfold learnAddress
  split
  · exact .refl p
  · cases side with
    | pad => exact learnPadAddress_kept p ip
    | door => exact learnDoorAddress_kept p ip

theorem withMac_kept {p : Peers} {side : Side} (h : p.mac side = none) (mac : MacAddress) :
    p.Kept (p.withMac mac side) := by
  have hun : ¬ (p.mac side).isSome := by simp [h]
  cases side with
  | door =>
      exact ⟨rfl, .refl _, .refl _, .refl _, fun s => by
        cases s
        · exact .of_unknown hun
        · exact .refl _⟩
  | pad =>
      exact ⟨rfl, .refl _, .refl _, .refl _, fun s => by
        cases s
        · exact .refl _
        · exact .of_unknown hun⟩

theorem pinMac_kept (p : Peers) (side : Side) (mac : MacAddress) :
    p.Kept (p.pinMac side mac).2 := by
  unfold pinMac
  split
  · next h => exact withMac_kept h mac
  · exact .refl p

theorem acceptRoom_kept {p q : Peers} {room : Station} (h : p.acceptRoom room = some q) :
    p.Kept q := by
  unfold acceptRoom at h
  split at h
  · cases h
  · split at h
    · next hun =>
        split at h
        · exact Option.some.inj h ▸ .of_roomIp hun room.ip
        · exact Option.some.inj h ▸ .refl p
    · split at h
      · cases h
      · exact Option.some.inj h ▸ .refl p

/-- Each of the four branches that accept a door writes only what was not known. -/
theorem acceptDoor_kept {p : Peers} {door d : Station} (h : acceptDoor p.door door = some d) :
    p.Kept { p with door := some d } := by
  unfold acceptDoor at h
  split at h
  · next hdoor => exact .of_no_door hdoor d
  · next known hdoor =>
      have hip : p.doorIp = known.ip := by rw [doorIp, hdoor]; rfl
      have hid : p.doorId = known.id := by rw [doorId, hdoor]; rfl
      refine .of_door (hip ▸ ?_) (hid ▸ ?_)
      · split at h
        · exact Option.some.inj h ▸ .refl _
        · split at h
          · next hun =>
              exact .of_unknown (Ipv4Addr.not_specified (Bool.and_eq_true_iff.mp hun).2)
          · split at h
            · exact Option.some.inj h ▸ .refl _
            · cases h
      · split at h
        · next hempty =>
            refine .of_unknown fun hne => hne ?_
            exact of_decide_eq_true (Bool.and_eq_true_iff.mp hempty).1
        · split at h
          · exact Option.some.inj h ▸ .refl _
          · split at h
            · exact Option.some.inj h ▸ .refl _
            · cases h

theorem acceptEndpoints_kept (p : Peers) (e : Endpoints) : p.Kept (p.acceptEndpoints e).2 := by
  unfold acceptEndpoints
  split
  · exact .refl p
  · next q hq =>
      split
      · exact acceptRoom_kept hq
      · next d hd => exact (acceptRoom_kept hq).trans (acceptDoor_kept hd)

end Peers

/-! ## `on_wire` writes the peers through `accept_endpoints` -/

namespace Agent

variable {W : Type}

@[simp] theorem feed_peers (a : Agent W) (env : Env) (media : MediaFragment) :
    (a.feed env media).peers = a.peers := by
  unfold feed
  split
  · rfl
  · split <;> rfl

@[simp] theorem stopMonitorNow_peers (a : Agent W) : a.stopMonitorNow.peers = a.peers := by
  unfold stopMonitorNow
  split <;> rfl

@[simp] theorem hangupCallNow_peers (a : Agent W) (env : Env) (reason : String) :
    (a.hangupCallNow env reason).peers = a.peers := by
  unfold hangupCallNow takeCallSession
  cases a.callSession <;> rfl

@[simp] theorem outboundAnswered_peers (a : Agent W) (env : Env) :
    (a.outboundAnswered env).peers = a.peers := by
  unfold outboundAnswered
  split
  · rfl
  · split <;> rfl

@[simp] theorem onCallStarted_peers (a : Agent W) (env : Env) (e : Endpoints) :
    (a.onCallStarted env e).peers = a.peers := by
  unfold onCallStarted
  split <;> rfl

@[simp] theorem onPadAnswer_peers (a : Agent W) (env : Env) :
    (a.onPadAnswer env).peers = a.peers := by
  unfold onPadAnswer
  split <;> rfl

@[simp] theorem onPadUnlock_peers (a : Agent W) (env : Env) :
    (a.onPadUnlock env).peers = a.peers := by
  unfold onPadUnlock
  split <;> rfl

@[simp] theorem onMonitorMessage_peers (a : Agent W) (env : Env) (message : Message) :
    (a.onMonitorMessage env message).peers = a.peers := by
  unfold onMonitorMessage
  split
  · split <;> simp
  · split <;> simp

@[simp] theorem onOutboundMessage_peers (a : Agent W) (env : Env) (message : Message) :
    (a.onOutboundMessage env message).peers = a.peers := by
  unfold onOutboundMessage
  split
  · simp
  · split
    · split <;> simp
    · split <;> simp

variable [Wire W]

@[simp] theorem onWireHangup_peers (a : Agent W) (env : Env) (peers : Peers) :
    (a.onWireHangup env peers).peers = a.peers := by
  unfold onWireHangup
  split <;> rfl

@[simp] theorem onBootstrap_peers (a : Agent W) (env : Env) (side : Side) :
    (a.onBootstrap env side).peers = a.peers := by
  unfold onBootstrap
  split
  · rfl
  · split <;> rfl

@[simp] theorem onSession_peers (a : Agent W) (env : Env) (side : Side) (message : Message)
    (e : Endpoints) (peers : Peers) :
    (a.onSession env side message e peers).peers = a.peers := by
  unfold onSession
  split
  · split
    · exact onCallStarted_peers _ env e
    · exact onCallStarted_peers a env e
  · split
    · exact onPadAnswer_peers a env
    · split
      · exact onPadUnlock_peers a env
      · split
        · exact onWireHangup_peers a env peers
        · split
          · split <;> simp
          · rfl

theorem onCallMessage_peers (a : Agent W) (env : Env) (side : Side) (message : Message) :
    (a.onCallMessage env side message).peers = a.peers ∨
      ∃ e, (a.onCallMessage env side message).peers = (a.peers.acceptEndpoints e).2 := by
  unfold onCallMessage
  split
  · exact Or.inl rfl
  · split
    · exact Or.inl rfl
    · split
      · exact Or.inl rfl
      · next e _ =>
          refine Or.inr ⟨e, ?_⟩
          unfold acceptEndpoints
          split
          · next heq => exact congrArg (fun r => r.2.peers) heq.symm
          · next heq =>
              rw [onSession_peers]
              exact congrArg (fun r => r.2.peers) heq.symm

/-- `on_wire` leaves the peers alone or checks one endpoint block against them. -/
theorem onWire_peers (a : Agent W) (env : Env) (side : Side) (raw : Bytes) :
    (a.onWire env side raw).peers = a.peers ∨
      ∃ e, (a.onWire env side raw).peers = (a.peers.acceptEndpoints e).2 := by
  unfold onWire
  split
  · exact Or.inl rfl
  · split
    · exact Or.inl (onBootstrap_peers a env side)
    · split
      · exact Or.inl (onMonitorMessage_peers a env _)
      · split
        · exact Or.inl (onOutboundMessage_peers a env _)
        · exact onCallMessage_peers a env side _

end Agent

/-! ## Whole runs -/

/-- The calls that may teach the Agent something about the stations. -/
inductive IdentityOp where
  | setRoomIpIfUnset (ip : Ipv4Addr)
  | learnAddress (side : Side) (ip : Ipv4Addr)
  | pinMac (side : Side) (mac : MacAddress)
  | onWire (env : Env) (side : Side) (raw : Bytes)

variable {W : Type} [Wire W]

def IdentityOp.step (a : Agent W) : IdentityOp → Agent W
  | setRoomIpIfUnset ip => a.setRoomIpIfUnset ip
  | learnAddress side ip => (a.learnAddress side ip).2
  | pinMac side mac => (a.pinMac side mac).2
  | onWire env side raw => a.onWire env side raw

theorem IdentityOp.step_kept (a : Agent W) (op : IdentityOp) :
    a.peers.Kept (op.step a).peers := by
  cases op with
  | setRoomIpIfUnset ip => exact a.peers.setRoomIpIfUnset_kept ip
  | learnAddress side ip => exact a.peers.learnAddress_kept side ip
  | pinMac side mac => exact a.peers.pinMac_kept side mac
  | onWire env side raw =>
      rcases a.onWire_peers env side raw with h | ⟨e, h⟩
      · exact h ▸ .refl _
      · exact h ▸ a.peers.acceptEndpoints_kept e

/-- **Trust on first use never un-pins.** From any Agent and at any point of any run: the
    Pad's address, the door's address, the door's station id and each MAC keep the value
    they have once they are known, and the room station id never changes. -/
theorem identities_pinned (a : Agent W) (before after : List IdentityOp) :
    (before.foldl IdentityOp.step a).peers.Kept
        ((before ++ after).foldl IdentityOp.step a).peers ∧
      ((before ++ after).foldl IdentityOp.step a).peers.room.id = a.peers.room.id := by
  have hrun : ∀ (a : Agent W) (ops : List IdentityOp),
      a.peers.Kept (ops.foldl IdentityOp.step a).peers := fun a ops =>
    System.foldl_rel (r := fun a b : Agent W => a.peers.Kept b.peers)
      (fun a => .refl a.peers) (fun _ _ _ h h' => h.trans h') IdentityOp.step_kept a ops
  constructor
  · rw [List.foldl_append]
    exact hrun _ after
  · exact (hrun a (before ++ after)).roomId

end Michoi
