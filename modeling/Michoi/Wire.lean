/-
  What differs between the Agent's two modes (`trait Wire`): how bytes reach the door and
  what happens to the physical Pad.

  A wire call takes the outcome of the socket operation it may perform, so a send may
  fail at any call.
-/
import Michoi.Peers

namespace Michoi

/-- What the operating system does with a datagram. -/
inductive Outcome where
  | sent | short | failed
  deriving DecidableEq, Repr

/-- Why a wire call failed. -/
inductive WireError where
  | doorUnknown | doorIpUnknown | padIpUnknown | doorMacUnknown | padMacUnknown
  | tooLarge | shortSend | io | noPeer
  deriving DecidableEq, Repr

abbrev WireResult := Except WireError Unit

/-- `trait Wire`. Each call returns the wire it leaves behind. -/
class Wire (W : Type) where
  /-- Pad-side handshake replies. -/
  handshakeReply : W → Outcome → Bytes → Peers → WireResult × W
  /-- A Pad-originated packet to the door. -/
  sendAsPad : W → Outcome → Bytes → Peers → WireResult × W
  /-- A remote backend won the ringing call. -/
  onRemoteClaim : W → Outcome → Peers → W
  /-- The call ended, from either side. -/
  onCallEnd : W → Peers → W
  /-- What the receive loop notes about a sender before it hands the datagram on. -/
  noteSender : W → SocketAddr → W

end Michoi
