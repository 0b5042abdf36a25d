/-
  The `pad` mode wire (`wire_udp.rs`): a plain UDP socket and the address the last
  datagram came from.
-/
import Michoi.Wire

namespace Michoi

structure UdpWire where
  peer : Option SocketAddr
  /-- The datagrams the socket took, oldest first. -/
  out : List (SocketAddr × Bytes)
  deriving DecidableEq, Repr

namespace UdpWire

/-- `UdpWire::bind`. -/
def bind : UdpWire where
  peer := none
  out := []

/-- `UdpWire::send`. The count of bytes sent is not looked at. -/
def send (w : UdpWire) (outcome : Outcome) (payload : Bytes) : WireResult × UdpWire :=
  match w.peer with
  | none => (.error .noPeer, w)
  | some peer =>
      match outcome with
      | .failed => (.error .io, w)
      | .sent | .short => (.ok (), { w with out := w.out ++ [(peer, payload)] })

instance : Wire UdpWire where
  handshakeReply w outcome payload _ := w.send outcome payload
  sendAsPad w outcome payload _ := w.send outcome payload
  onRemoteClaim w _ _ := w
  onCallEnd w _ := w
  noteSender w sender := { w with peer := some sender }

end UdpWire

end Michoi
