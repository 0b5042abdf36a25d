/-
  Ethernet/IPv4/UDP frames as `tap` mode injects them (`ethernet.rs`).
-/
import Michoi.Bytes

namespace Michoi

inductive EthernetError where
  | mac | frame | tooLarge
  deriving DecidableEq, Repr

/-- `internet_checksum`, before the final complement: the ones'-complement sum of the
    big-endian words, an odd last byte counting as a high byte. -/
def checksumFold : Bytes → UInt32 → UInt32
  | [], sum => sum
  | [b], sum =>
      let sum := sum + (b.toUInt32 <<< 8)
      (sum &&& (0xffff : UInt32)) + (sum >>> 16)
  | b₀ :: b₁ :: rest, sum =>
      let sum := sum + ((b₀.toUInt32 <<< 8) ||| b₁.toUInt32)
      checksumFold rest ((sum &&& (0xffff : UInt32)) + (sum >>> 16))

/-- `internet_checksum`. -/
def internetChecksum (data : Bytes) : UInt16 := ~~~ (checksumFold data 0).toUInt16

/-- The IPv4 header of an injected frame with a given checksum field. -/
def ipv4Header (sourceIp destinationIp : Ipv4Addr) (ipLength identification checksum : UInt16) :
    Bytes :=
  [0x45, 0] ++ u16ToBe ipLength ++ u16ToBe identification ++ u16ToBe 0x4000 ++ [64, 17] ++
    u16ToBe checksum ++ sourceIp.octets ++ destinationIp.octets

/-- `build_udp_ipv4`. -/
def buildUdpIpv4 (sourceMac destinationMac : MacAddress) (sourceIp destinationIp : Ipv4Addr)
    (sourcePort destinationPort : UInt16) (payload : Bytes) (identification : UInt16) :
    Except EthernetError Bytes :=
  let udpLength := 8 + payload.length
  let ipLength := 20 + udpLength
  if 65535 < ipLength then .error .tooLarge
  else
    let header := ipv4Header sourceIp destinationIp (.ofNat ipLength) identification
    -- The checksum is taken over the header with its own field still zero.
    let checksum := internetChecksum (header 0)
    .ok (destinationMac.octets.toList ++ sourceMac.octets.toList ++ u16ToBe 0x0800 ++
      header checksum ++
      u16ToBe sourcePort ++ u16ToBe destinationPort ++ u16ToBe (.ofNat udpLength) ++ u16ToBe 0 ++
      payload)

end Michoi
