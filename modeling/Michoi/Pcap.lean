/-
  Reading a capture file (`pcap.rs`). `decode_udp` is looser than `EthernetUdp::parse`: the
  IP version is not looked at, and a datagram cut short is kept.

  Integers wrap, as in the release profile. The file can be read to its end.
-/
import Michoi.Ethernet.Parse

namespace Michoi

open Lib Lib.Checked

structure UdpRecord where
  frame : UInt32
  timestampMicros : UInt64
  sourceIp : Ipv4Addr
  destinationIp : Ipv4Addr
  sourcePort : UInt16
  destinationPort : UInt16
  payload : Bytes
  deriving DecidableEq, Repr

/-- `decode_udp`. The time stamp is filled in by the reader of the file. -/
def decodeUdp (frame : UInt32) (raw : Bytes) : Checked (Option UdpRecord) := do
  if raw.length < 14 then return none
  let etherType ← u16At raw 12
  let some (offset, etherType) ← skipVlan raw etherType | return none
  if etherType ≠ 0x0800 ∨ raw.length < offset + 20 then return none
  let ip ← dropTo raw offset
  let version ← index ip 0
  let ihl := (version &&& 0x0f).toNat * 4
  if ihl < 20 ∨ ip.length < ihl + 8 then return none
  let protocol ← index ip 9
  if protocol ≠ 17 then return none
  let udp ← dropTo ip ihl
  let udpLen := (← u16At udp 4).toNat
  if udpLen < 8 then return none
  let sourceIp ← ipv4At ip 12
  let destinationIp ← ipv4At ip 16
  let sourcePort ← u16At udp 0
  let destinationPort ← u16At udp 2
  let payload ← slice udp 8 (min udp.length udpLen)
  return some {
    frame, timestampMicros := 0, sourceIp, destinationIp, sourcePort, destinationPort, payload }

theorem decodeUdp_returns (frame : UInt32) (raw : Bytes) :
    Returns (decodeUdp frame raw) := by
  unfold decodeUdp
  split
  · exact .ok trivial
  next hlen =>
  refine (u16At_returns (by omega)).bind fun etherType _ => ?_
  refine (skipVlan_returns (by omega) etherType).bind fun behind _ => ?_
  split
  case h_2 => exact .ok trivial
  next offset etherType =>
  split
  · exact .ok trivial
  next hframe =>
  have hlong : offset + 20 ≤ raw.length := Nat.not_lt.mp fun h => hframe (.inr h)
  refine (Yields.dropTo (by omega)).bind fun ip hip => ?_
  have hip := hip.2
  refine (Yields.index (by omega)).bind fun version _ => ?_
  dsimp only
  split
  · exact .ok trivial
  next hihl =>
  refine (Yields.index (by omega)).bind fun protocol _ => ?_
  split
  · exact .ok trivial
  refine (Yields.dropTo (by omega)).bind fun udp hudp => ?_
  have hudp := hudp.2
  refine (u16At_returns (by omega)).bind fun udpLen _ => ?_
  split
  · exact .ok trivial
  next hlength =>
  refine (ipv4At_returns (by omega)).bind fun _ _ => ?_
  refine (ipv4At_returns (by omega)).bind fun _ _ => ?_
  refine (u16At_returns (by omega)).bind fun _ _ => ?_
  refine (u16At_returns (by omega)).bind fun _ _ => ?_
  refine (Yields.slice (by omega) (by omega)).bind fun _ _ => ?_
  exact .ok trivial

/-! ## The file -/

inductive PcapError where
  | format
  deriving DecidableEq, Repr

/-- `u32_at`, in the byte order of the file. -/
def pcapU32 (little : Bool) (raw : Bytes) (i : Nat) : UInt32 :=
  if little then
    u32OfLe (raw.getD i 0) (raw.getD (i + 1) 0) (raw.getD (i + 2) 0) (raw.getD (i + 3) 0)
  else u32OfLe (raw.getD (i + 3) 0) (raw.getD (i + 2) 0) (raw.getD (i + 1) 0) (raw.getD i 0)

/-- The byte order and the parts of a second that a magic stands for. -/
def pcapMagic (magic : Bytes) : Option (Bool × UInt64) :=
  if magic = [0xd4, 0xc3, 0xb2, 0xa1] then some (true, 1000000)
  else if magic = [0xa1, 0xb2, 0xc3, 0xd4] then some (false, 1000000)
  else if magic = [0x4d, 0x3c, 0xb2, 0xa1] then some (true, 1000000000)
  else if magic = [0xa1, 0xb2, 0x3c, 0x4d] then some (false, 1000000000)
  else none

/-- The variables of the loop in `read_udp`. -/
structure PcapReader where
  firstNs : Option UInt64
  frame : UInt32
  records : List UdpRecord
  deriving DecidableEq, Repr

/-- `nanos`. -/
def pcapNanos (little : Bool) (scale : UInt64) (header : Bytes) : UInt64 :=
  (pcapU32 little header 0).toUInt64 * 1000000000 +
    (pcapU32 little header 4).toUInt64 * (1000000000 / scale)

/-- What the loop does with a frame. -/
def PcapReader.read (s : PcapReader) (nanos : UInt64) (raw : Bytes) : Checked PcapReader := do
  let frame := s.frame + 1
  let base := s.firstNs.getD nanos
  let records := match ← decodeUdp frame raw with
    | some record => s.records ++ [{ record with timestampMicros := (nanos - base) / 1000 }]
    | none => s.records
  return ⟨some base, frame, records⟩

/-- The loop of `read_udp`. A frame has a header of 16 bytes, so the bytes bound the
    rounds. -/
def readFrames (little : Bool) (scale : UInt64) :
    Nat → PcapReader → Bytes → Checked (Except PcapError (List UdpRecord))
  | 0, s, _ => return .ok s.records
  | rounds + 1, s, file =>
      if file.length < 16 then return .ok s.records
      else
        let header := file.take 16
        let captured := (pcapU32 little header 8).toNat
        let rest := file.drop 16
        if rest.length < captured then return .error .format
        else do
          let s ← s.read (pcapNanos little scale header) (rest.take captured)
          readFrames little scale rounds s (rest.drop captured)

/-- `read_udp`. -/
def readUdp (file : Bytes) : Checked (Except PcapError (List UdpRecord)) :=
  if file.length < 24 then return .error .format
  else
    match pcapMagic (file.take 4) with
    | none => return .error .format
    | some (little, scale) =>
        readFrames little scale file.length ⟨none, 0, []⟩ (file.drop 24)

end Michoi
