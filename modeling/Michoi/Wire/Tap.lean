/-
  The `tap` mode wire (`wire_tap.rs`, `firewall.rs`): Pad-originated frames are injected
  with a spoofed header, and while a remote backend holds the call an nftables table
  drops the control traffic between the door and the physical Pad.

  `nft` is taken to succeed. The table is then there from `on_remote_claim` until
  `on_call_end`.
-/
import Michoi.Ethernet
import Michoi.Wire

namespace Michoi

/-- One `udp dport` rule of the silence table. -/
structure DropRule where
  iifname : String
  saddr : Ipv4Addr
  dport : UInt16
  deriving DecidableEq, Repr

inductive FirewallError where
  | padInterface | doorInterface
  deriving DecidableEq, Repr

/-- `pad_silence_rules`: door to Pad, then Pad to door. -/
def padSilenceRules (pad door : String) (doorIp room : Ipv4Addr) (control : UInt16) :
    Except FirewallError (List DropRule) :=
  if pad = "CONFIGURE_ME" then .error .padInterface
  else if door = "CONFIGURE_ME" then .error .doorInterface
  else .ok [⟨door, doorIp, control⟩, ⟨pad, room, control⟩]

structure TapWire where
  padInterface : String
  doorInterface : String
  seq : UInt32
  /-- The nftables silence table, while it is installed. -/
  table : Option (List DropRule)
  /-- The frames the socket took whole, oldest first. -/
  out : List Bytes
  /-- `TapWire::open` refuses placeholder interfaces. -/
  pad_configured : padInterface ≠ "" ∧ padInterface ≠ "CONFIGURE_ME"
  door_configured : doorInterface ≠ "" ∧ doorInterface ≠ "CONFIGURE_ME"
  deriving DecidableEq, Repr

namespace TapWire

/-- `TapWire::open`: a table left over from an earlier run is cleared. -/
def opened (padInterface doorInterface : String) : Option TapWire :=
  if hp : padInterface ≠ "" ∧ padInterface ≠ "CONFIGURE_ME" then
    if hd : doorInterface ≠ "" ∧ doorInterface ≠ "CONFIGURE_ME" then
      some {
        padInterface, doorInterface, seq := 1, table := none, out := []
        pad_configured := hp, door_configured := hd }
    else none
  else none

/-- The physical Pad is cut off from the door. -/
def silenced (w : TapWire) : Bool := w.table.isSome

structure Addresses where
  padMac : MacAddress
  doorMac : MacAddress
  padIp : Ipv4Addr
  doorIp : Ipv4Addr
  deriving DecidableEq, Repr

/-- `TapWire::addresses`. -/
def addresses (p : Peers) : Except WireError Addresses :=
  match p.door with
  | none => .error .doorUnknown
  | some door =>
      if door.ip.isUnspecified then .error .doorIpUnknown
      else if p.room.ip.isUnspecified then .error .padIpUnknown
      else
        match p.doorMac, p.padMac with
        | none, _ => .error .doorMacUnknown
        | _, none => .error .padMacUnknown
        | some doorMac, some padMac =>
            .ok { padMac, doorMac, padIp := p.room.ip, doorIp := door.ip }

/-- `TapWire::inject`. The frame takes a number also when the socket refuses it. -/
def inject (w : TapWire) (outcome : Outcome) (srcMac dstMac : MacAddress)
    (srcIp dstIp : Ipv4Addr) (port : UInt16) (payload : Bytes) : WireResult × TapWire :=
  let identification := w.seq.toUInt16
  let w := { w with seq := w.seq + 1 }
  match buildUdpIpv4 srcMac dstMac srcIp dstIp port port payload identification with
  | .error _ => (.error .tooLarge, w)
  | .ok frame =>
      match outcome with
      | .failed => (.error .io, w)
      | .short => (.error .shortSend, w)
      | .sent => (.ok (), { w with out := w.out ++ [frame] })

/-- `TapWire::send_as_pad`. -/
def sendAsPad (w : TapWire) (outcome : Outcome) (payload : Bytes) (p : Peers) :
    WireResult × TapWire :=
  match addresses p with
  | .error error => (.error error, w)
  | .ok addrs =>
      w.inject outcome addrs.padMac addrs.doorMac addrs.padIp addrs.doorIp p.controlPort payload

/-- The table `on_remote_claim` installs. -/
def silence (w : TapWire) (p : Peers) (addrs : Addresses) : TapWire :=
  match padSilenceRules w.padInterface w.doorInterface addrs.doorIp addrs.padIp p.controlPort with
  | .ok rules => { w with table := some rules }
  | .error _ => w

/-- The door-to-Pad hangup that tells the physical Pad the call ended. -/
def reset (w : TapWire) (outcome : Outcome) (p : Peers) (addrs : Addresses) : TapWire :=
  match p.endpoints with
  | none => w
  | some e =>
      match sessionControl opHangup e with
      | .error _ => w
      | .ok reset =>
          (w.inject outcome addrs.doorMac addrs.padMac addrs.doorIp addrs.padIp p.controlPort
            reset).2

/-- `TapWire::on_remote_claim`. -/
def onRemoteClaim (w : TapWire) (outcome : Outcome) (p : Peers) : TapWire :=
  match addresses p with
  | .error _ => w
  | .ok addrs => (w.silence p addrs).reset outcome p addrs

/-- `TapWire::on_call_end`: flush the table. -/
def onCallEnd (w : TapWire) (_ : Peers) : TapWire := { w with table := none }

instance : Wire TapWire where
  handshakeReply w _ _ _ := (.ok (), w)
  sendAsPad := sendAsPad
  onRemoteClaim := onRemoteClaim
  onCallEnd := onCallEnd
  noteSender w _ := w

/-! ## The table under the wire calls -/

theorem inject_table (w : TapWire) (outcome : Outcome) (srcMac dstMac : MacAddress)
    (srcIp dstIp : Ipv4Addr) (port : UInt16) (payload : Bytes) :
    (w.inject outcome srcMac dstMac srcIp dstIp port payload).2.table = w.table := by
  unfold inject
  dsimp only
  split
  · rfl
  · cases outcome <;> rfl

/-- Sending never touches the table. -/
@[simp] theorem sendAsPad_table (w : TapWire) (outcome : Outcome) (payload : Bytes) (p : Peers) :
    (w.sendAsPad outcome payload p).2.table = w.table := by
  unfold sendAsPad
  split
  · rfl
  · exact inject_table ..

end TapWire

end Michoi
