/-
  Reading a captured Ethernet frame (`EthernetUdp::parse`), with every index, slice and
  conversion checked as Rust checks it.

  The loop over VLAN tags moves on by four bytes a round, so a frame has fewer tags than
  bytes (`skipVlan_returns`).
-/
import Michoi.Ethernet
import Michoi.Lib.Checked

namespace Michoi

open Lib Lib.Checked

/-- `u16::from_be_bytes`. -/
def u16OfBe (b₀ b₁ : UInt8) : UInt16 := u16OfLe b₁ b₀

/-- `u16::from_be_bytes([raw[i], raw[i + 1]])`. -/
def u16At (raw : Bytes) (i : Nat) : Checked UInt16 := do
  let b₀ ← index raw i
  let b₁ ← index raw (i + 1)
  return u16OfBe b₀ b₁

/-- `Ipv4Addr::new(raw[i], raw[i + 1], raw[i + 2], raw[i + 3])`. -/
def ipv4At (raw : Bytes) (i : Nat) : Checked Ipv4Addr := do
  let a ← index raw i
  let b ← index raw (i + 1)
  let c ← index raw (i + 2)
  let d ← index raw (i + 3)
  return ⟨a, b, c, d⟩

/-- `MacAddress(raw[i..j].try_into().unwrap())`. -/
def macAt (raw : Bytes) (i j : Nat) : Checked MacAddress := do
  let octets ← slice raw i j
  let octets ← toArray 6 octets
  return ⟨octets⟩

/-- One round of the loop over VLAN tags, which `EthernetUdp::parse` and `decode_udp` share:
    the offset behind the tag and the type there, `none` where the frame ends in the tag. -/
def vlanRound (raw : Bytes) :
    Nat × UInt16 → Checked (Nat × UInt16 ⊕ Option (Nat × UInt16))
  | (offset, etherType) =>
      if etherType = 0x8100 ∨ etherType = 0x88a8 then
        if raw.length < offset + 4 then return .inr none
        else do
          let etherType ← u16At raw (offset + 2)
          return .inl (offset + 4, etherType)
      else return .inr (some (offset, etherType))

/-- The loop over VLAN tags. -/
def skipVlan (raw : Bytes) (etherType : UInt16) : Checked (Option (Nat × UInt16)) :=
  loop (vlanRound raw) raw.length (14, etherType)

structure EthernetUdp where
  sourceMac : MacAddress
  destinationMac : MacAddress
  sourceIp : Ipv4Addr
  destinationIp : Ipv4Addr
  sourcePort : UInt16
  destinationPort : UInt16
  payload : Bytes
  deriving DecidableEq, Repr

/-- `EthernetUdp::parse`. -/
def EthernetUdp.parse (frame : Bytes) : Checked (Except EthernetError EthernetUdp) := do
  if frame.length < 14 then return .error .frame
  let etherType ← u16At frame 12
  let some (offset, etherType) ← skipVlan frame etherType | return .error .frame
  if etherType ≠ 0x0800 ∨ frame.length < offset + 28 then return .error .frame
  let ip ← dropTo frame offset
  let version ← index ip 0
  let protocol ← index ip 9
  if version >>> 4 ≠ 4 ∨ protocol ≠ 17 then return .error .frame
  let ihl := (version &&& 0x0f).toNat * 4
  if ihl < 20 ∨ ip.length < ihl + 8 then return .error .frame
  let udp ← dropTo ip ihl
  let udpLength := (← u16At udp 4).toNat
  if udpLength < 8 ∨ udp.length < udpLength then return .error .frame
  let destinationMac ← macAt frame 0 6
  let sourceMac ← macAt frame 6 12
  let sourceIp ← ipv4At ip 12
  let destinationIp ← ipv4At ip 16
  let sourcePort ← u16At udp 0
  let destinationPort ← u16At udp 2
  let payload ← slice udp 8 udpLength
  return .ok {
    sourceMac, destinationMac, sourceIp, destinationIp, sourcePort, destinationPort, payload }

/-! ## Nothing panics -/

theorem u16At_returns {raw : Bytes} {i : Nat} (h : i + 1 < raw.length) :
    Returns (u16At raw i) := by
  refine (Yields.index (by omega)).bind fun _ _ => ?_
  refine (Yields.index h).bind fun _ _ => ?_
  exact .ok trivial

theorem ipv4At_returns {raw : Bytes} {i : Nat} (h : i + 3 < raw.length) :
    Returns (ipv4At raw i) := by
  refine (Yields.index (by omega)).bind fun _ _ => ?_
  refine (Yields.index (by omega)).bind fun _ _ => ?_
  refine (Yields.index (by omega)).bind fun _ _ => ?_
  refine (Yields.index h).bind fun _ _ => ?_
  exact .ok trivial

theorem macAt_returns {raw : Bytes} {i j : Nat} (hj : j = i + 6) (h : j ≤ raw.length) :
    Returns (macAt raw i j) := by
  refine (Yields.slice (by omega) h).bind fun octets hoctets => ?_
  refine (Yields.toArray (by omega)).bind fun _ _ => ?_
  exact .ok trivial

/-- The loop ends, behind the tags and inside the frame. -/
theorem skipVlan_returns {raw : Bytes} (h : 14 ≤ raw.length) (etherType : UInt16) :
    Returns (skipVlan raw etherType) := by
  unfold skipVlan
  refine Yields.loop (fun s => s.1 ≤ raw.length) (fun s => raw.length - s.1) ?_
    h (by omega)
  intro s hs
  obtain ⟨offset, etherType⟩ := s
  unfold vlanRound
  dsimp only
  split
  · split
    · exact .ok trivial
    · next hlen =>
        refine (u16At_returns (by omega)).bind fun _ _ => .ok ⟨?_, ?_⟩
        · show offset + 4 ≤ raw.length
          omega
        · show raw.length - (offset + 4) < raw.length - offset
          omega
  · exact .ok trivial

theorem EthernetUdp.parse_returns (frame : Bytes) :
    Returns (EthernetUdp.parse frame) := by
  unfold EthernetUdp.parse
  split
  · exact .ok trivial
  next hlen =>
  refine (u16At_returns (by omega)).bind fun etherType _ => ?_
  refine (skipVlan_returns (by omega) etherType).bind fun behind _ => ?_
  split
  case h_2 => exact .ok trivial
  next offset etherType =>
  split
  · exact .ok trivial
  next hframe =>
  have hlong : offset + 28 ≤ frame.length := Nat.not_lt.mp fun h => hframe (.inr h)
  refine (Yields.dropTo (by omega)).bind fun ip hip => ?_
  have hip := hip.2
  refine (Yields.index (by omega)).bind fun version _ => ?_
  refine (Yields.index (by omega)).bind fun protocol _ => ?_
  split
  · exact .ok trivial
  dsimp only
  split
  · exact .ok trivial
  next hihl =>
  refine (Yields.dropTo (by omega)).bind fun udp hudp => ?_
  have hudp := hudp.2
  refine (u16At_returns (by omega)).bind fun udpLength _ => ?_
  split
  · exact .ok trivial
  next hlength =>
  refine (macAt_returns (by omega) (by omega)).bind fun _ _ => ?_
  refine (macAt_returns (by omega) (by omega)).bind fun _ _ => ?_
  refine (ipv4At_returns (by omega)).bind fun _ _ => ?_
  refine (ipv4At_returns (by omega)).bind fun _ _ => ?_
  refine (u16At_returns (by omega)).bind fun _ _ => ?_
  refine (u16At_returns (by omega)).bind fun _ _ => ?_
  refine (Yields.slice (by omega) (by omega)).bind fun _ _ => ?_
  exact .ok trivial

end Michoi
