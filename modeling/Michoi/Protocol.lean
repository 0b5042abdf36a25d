/-
  The PENGUIN0 wire format (`protocol.rs`): stations, endpoint blocks, messages, and the
  packets the Agent builds.
-/
import Michoi.Bytes

namespace Michoi

/-- `MAGIC`, the eight bytes `PENGUIN0`. -/
def magic : Bytes := [0x50, 0x45, 0x4e, 0x47, 0x55, 0x49, 0x4e, 0x30]

def familyPage : UInt16 := 0x005d
def familyBootstrap : UInt16 := 0x0098
def familySession : UInt16 := 0x00b7
def familyMonitor : UInt16 := 0x00b8
def familyElevator : UInt16 := 0x0106

def opRequest : UInt32 := 0x01
def opReply : UInt32 := 0x03
def opAnswer : UInt32 := 0x05
def opUnlock : UInt32 := 0x06
def opMedia : UInt32 := 0x0a
def opKeepalive : UInt32 := 0x0c
def opCallSetup : UInt32 := 0x0d
def opHangup : UInt32 := 0x1e

def mediaJpeg : UInt16 := 1
def mediaAudio : UInt16 := 3

inductive ProtocolError where
  | short | badMagic | stationTooLong | badStation | badAudioLength
  deriving DecidableEq, Repr

/-! ## Stations and endpoint blocks -/

structure Station where
  id : String
  ip : Ipv4Addr
  deriving DecidableEq, Repr

namespace Station

/-- `Station::pack`: the id padded with zeros to 20 bytes, then the address. -/
def pack (s : Station) : Except ProtocolError Bytes :=
  if 20 < (asBytes s.id).length then .error .stationTooLong
  else .ok (resize (asBytes s.id) 20 ++ s.ip.octets)

/-- `Station::parse`. -/
def parse (raw : Bytes) : Except ProtocolError Station :=
  if raw.length < 24 then .error .badStation
  else .ok {
    id := fromUtf8Lossy ((raw.take 20).takeWhile (· ≠ 0))
    ip := ⟨raw.getD 20 0, raw.getD 21 0, raw.getD 22 0, raw.getD 23 0⟩ }

end Station

structure Endpoints where
  door : Station
  room : Station
  deriving DecidableEq, Repr

namespace Endpoints

/-- `Endpoints::captured`, the synthetic identities of the tests. -/
def captured : Endpoints where
  door := ⟨"M00000000000", ⟨192, 168, 124, 2⟩⟩
  room := ⟨"S00000000000", ⟨192, 168, 124, 61⟩⟩

/-- `Endpoints::pack`. -/
def pack (e : Endpoints) : Except ProtocolError Bytes := do
  let door ← e.door.pack
  let room ← e.room.pack
  return door ++ room

/-- `Endpoints::parse`. -/
def parse (raw : Bytes) : Except ProtocolError Endpoints :=
  if raw.length < 48 then .error .short
  else do
    let door ← Station.parse (raw.take 24)
    let room ← Station.parse ((raw.drop 24).take 24)
    return { door, room }

end Endpoints

/-! ## Messages -/

structure Message where
  family : UInt16
  opcode : UInt32
  declared : UInt32
  reserved : Bytes
  body : Bytes
  raw : Bytes
  deriving DecidableEq, Repr

structure MediaFragment where
  mediaType : UInt16
  sequence : UInt16
  fragmentCount : UInt16
  fragmentIndex : UInt16
  validLength : UInt16
  data : Bytes
  deriving DecidableEq, Repr

namespace Message

/-- `Message::parse`. -/
def parse (raw : Bytes) : Except ProtocolError Message :=
  if raw.length < 32 then .error .short
  else if raw.take 8 ≠ magic then .error .badMagic
  else .ok {
    family := u16OfLe (raw.getD 8 0) (raw.getD 9 0)
    opcode := u32OfLe (raw.getD 10 0) (raw.getD 11 0) (raw.getD 12 0) (raw.getD 13 0)
    declared := u32OfLe (raw.getD 14 0) (raw.getD 15 0) (raw.getD 16 0) (raw.getD 17 0)
    reserved := (raw.take 32).drop 18
    body := raw.drop 32
    raw := raw }

/-- `Message::is_session_like`. -/
def isSessionLike (m : Message) : Bool := m.family == familySession || m.family == familyMonitor

/-- `Message::endpoints`. -/
def endpoints (m : Message) : Option Endpoints :=
  if m.isSessionLike && 48 ≤ m.body.length then (Endpoints.parse (m.body.take 48)).toOption
  else none

/-- `Message::media`. -/
def media (m : Message) : Option MediaFragment :=
  if !m.isSessionLike || m.opcode != opMedia || m.body.length < 58 then none
  else
    let h := m.body.drop 48
    let validLength := u16OfLe (h.getD 8 0) (h.getD 9 0)
    let data := m.body.drop 58
    if data.length < validLength.toNat then none
    else some {
      mediaType := u16OfLe (h.getD 0 0) (h.getD 1 0)
      sequence := u16OfLe (h.getD 2 0) (h.getD 3 0)
      fragmentCount := u16OfLe (h.getD 4 0) (h.getD 5 0)
      fragmentIndex := u16OfLe (h.getD 6 0) (h.getD 7 0)
      validLength := validLength
      data := data.take validLength.toNat }

end Message

/-! ## Packets -/

/-- `packet`: the 32-byte header and the body. -/
def packet (family : UInt16) (opcode declared : UInt32) (body : Bytes) : Bytes :=
  magic ++ u16ToLe family ++ u32ToLe opcode ++ u32ToLe declared ++ List.replicate 14 0 ++ body

/-- A packet is read back as what it was built from. -/
theorem parse_packet (family : UInt16) (opcode declared : UInt32) (body : Bytes) :
    Message.parse (packet family opcode declared body) = .ok {
      family, opcode, declared
      reserved := List.replicate 14 0
      body := body
      raw := packet family opcode declared body } := by
  have hlen : ¬ (packet family opcode declared body).length < 32 := by
    simp [packet, magic, u16ToLe, u32ToLe]
  have hmagic : (packet family opcode declared body).take 8 = magic := by
    simp [packet, magic]
  unfold Message.parse
  rw [if_neg hlen, if_neg (not_not.mpr hmagic)]
  congr 2
  · exact u16OfLe_toLe family
  · exact u32OfLe_toLe opcode
  · exact u32OfLe_toLe declared

/-- `SESSION_REQUEST_CAPABILITY`, the descriptor after the endpoint block of a ring. -/
def sessionRequestCapability : Bytes := [
  0x56, 0x49, 0x44, 0x45, 0x4f, 0x41, 0x06, 0x00, 0x32, 0x00, 0x33, 0x00, 0x34, 0x00, 0x64, 0x00,
  0x6e, 0x00, 0x78, 0x00, 0x00, 0x00, 0x00, 0x00, 0x00, 0x00, 0x00, 0x00, 0x00, 0x00, 0x00, 0x00,
  0x00, 0x00, 0x00, 0x00, 0x00, 0x00, 0x00, 0x00, 0x00, 0x00, 0x00, 0x00, 0x00, 0x00, 0x00, 0x00,
  0x0a, 0x00, 0x0a, 0x00, 0x14, 0x00, 0x1e, 0x00, 0x28, 0x00, 0x32, 0x00, 0x33, 0x00, 0x34, 0x00,
  0x64, 0x00, 0x6e, 0x00, 0x78, 0x00, 0x00, 0x00, 0x00, 0x00, 0x00, 0x00, 0x00, 0x00, 0x00, 0x00,
  0x00, 0x00, 0x00, 0x00, 0x00, 0x00, 0x00, 0x00, 0x00, 0x00, 0x02, 0x00, 0x09, 0x00, 0x0a, 0x00,
  0x00, 0x00, 0x00, 0x00, 0x00, 0x00, 0x00, 0x00, 0x00, 0x00, 0x00, 0x00, 0x00, 0x00, 0x00, 0x00,
  0x00, 0x00, 0x00, 0x00, 0x00, 0x00, 0x00, 0x00, 0x00, 0x00, 0x00, 0x00, 0x00, 0x00, 0x00, 0x00,
  0x00, 0x00, 0x00, 0x00, 0x02, 0x00, 0x09, 0x00, 0x0a, 0x00, 0x00, 0x00, 0x00, 0x00, 0x00, 0x00,
  0x00, 0x00, 0x00, 0x00, 0x00, 0x00, 0x00, 0x00, 0x00, 0x00, 0x00, 0x00, 0x00, 0x00, 0x00, 0x00,
  0x00, 0x00, 0x00, 0x00, 0x00, 0x00, 0x00, 0x00, 0x00, 0x00, 0x00, 0x00, 0x00, 0x00]

/-- `session_request`: the ring. -/
def sessionRequest (e : Endpoints) : Except ProtocolError Bytes := do
  let body ← e.pack
  return packet familySession opRequest 254 (body ++ sessionRequestCapability)

/-- `session_control`. -/
def sessionControl (opcode : UInt32) (e : Endpoints) : Except ProtocolError Bytes := do
  let body ← e.pack
  return packet familySession opcode 80 body

/-- `session_reply`: the capability answer to a ring. -/
def sessionReply (e : Endpoints) : Except ProtocolError Bytes := do
  let body ← e.pack
  -- `VIDEOA\0\0`, then the four capability words.
  return packet familySession opReply 96 <| body ++
    [0x56, 0x49, 0x44, 0x45, 0x4f, 0x41, 0, 0] ++ [50, 9, 9, 255].flatMap u16ToLe

/-- `bootstrap_reply`. -/
def bootstrapReply (room : Station) : Except ProtocolError Bytes := do
  let station ← room.pack
  return packet familyBootstrap 2 898 ([1, 0] ++ station ++ List.replicate 840 0)

/-- `page_request`. -/
def pageRequest : Bytes := packet familyPage opRequest 36 [0x00, 0x1e, 0x00, 0x00]

/-- `bootstrap_request`. It declares 20 bytes and has 32. -/
def bootstrapRequest : Bytes := packet familyBootstrap opRequest 20 []

/-- `elevator_request`: the body carries the room's id, its address zeroed. -/
def elevatorRequest (roomId : String) : Except ProtocolError Bytes := do
  let room ← Station.pack { id := roomId, ip := .unspecified }
  return packet familyElevator opRequest 32 (resize room 42)

/-- `MONITOR_REQUEST_CAPABILITY`, the descriptor of a monitor request. -/
def monitorRequestCapability : Bytes := [
  0x56, 0x49, 0x44, 0x45, 0x4f, 0x41, 0x01, 0x00, 0x32, 0x00, 0x00, 0x00, 0x00, 0x00, 0x00, 0x00,
  0x00, 0x00, 0x00, 0x00, 0x00, 0x00, 0x00, 0x00, 0x00, 0x00, 0x00, 0x00, 0x00, 0x00, 0x00, 0x00,
  0x00, 0x00, 0x00, 0x00, 0x00, 0x00, 0x00, 0x00, 0x00, 0x00, 0x00, 0x00, 0x00, 0x00, 0x00, 0x00,
  0x01, 0x00, 0x09, 0x00, 0x00, 0x00, 0x00, 0x00, 0x00, 0x00, 0x00, 0x00, 0x00, 0x00, 0x00, 0x00,
  0x00, 0x00, 0x00, 0x00, 0x00, 0x00, 0x00, 0x00, 0x00, 0x00, 0x00, 0x00, 0x00, 0x00, 0x00, 0x00,
  0x00, 0x00, 0x00, 0x00, 0x00, 0x00, 0x00, 0x00, 0x00, 0x00, 0xff, 0x00]

/-- `monitor_request`: the block is us, then the camera. -/
def monitorRequest (us target : Station) : Except ProtocolError Bytes := do
  let us ← us.pack
  let target ← target.pack
  return packet familyMonitor opRequest 172 (us ++ target ++ monitorRequestCapability)

/-- `CALL_REQUEST_CAPABILITY`, the descriptor of an outbound call. -/
def callRequestCapability : Bytes := [
  0x56, 0x49, 0x44, 0x45, 0x4f, 0x41, 0x01, 0x00, 0x00, 0x00, 0x00, 0x00, 0x00, 0x00, 0x00, 0x00,
  0x00, 0x00, 0x00, 0x00, 0x00, 0x00, 0x00, 0x00, 0x00, 0x00, 0x00, 0x00, 0x00, 0x00, 0x00, 0x00,
  0x00, 0x00, 0x00, 0x00, 0x00, 0x00, 0x00, 0x00, 0x00, 0x00, 0x00, 0x00, 0x00, 0x00, 0x00, 0x00,
  0x01, 0x00, 0x32, 0x00, 0x00, 0x00, 0x00, 0x00, 0x00, 0x00, 0x00, 0x00, 0x00, 0x00, 0x00, 0x00,
  0x00, 0x00, 0x00, 0x00, 0x00, 0x00, 0x00, 0x00, 0x00, 0x00, 0x00, 0x00, 0x00, 0x00, 0x00, 0x00,
  0x00, 0x00, 0x00, 0x00, 0x00, 0x00, 0x00, 0x00, 0x00, 0x00, 0x01, 0x00, 0x09, 0x00, 0x00, 0x00,
  0x00, 0x00, 0x00, 0x00, 0x00, 0x00, 0x00, 0x00, 0x00, 0x00, 0x00, 0x00, 0x00, 0x00, 0x00, 0x00,
  0x00, 0x00, 0x00, 0x00, 0x00, 0x00, 0x00, 0x00, 0x00, 0x00, 0x00, 0x00, 0x00, 0x00, 0x00, 0x00,
  0x00, 0x00, 0x00, 0x00, 0x01, 0x00, 0x09, 0x00, 0x00, 0x00, 0x00, 0x00, 0x00, 0x00, 0x00, 0x00,
  0x00, 0x00, 0x00, 0x00, 0x00, 0x00, 0x00, 0x00, 0x00, 0x00, 0x00, 0x00, 0x00, 0x00, 0x00, 0x00,
  0x00, 0x00, 0x00, 0x00, 0x00, 0x00, 0x00, 0x00, 0x00, 0x00, 0x00, 0x00, 0x00, 0x00, 0x00, 0x00]

/-- `call_request`: the block is the caller, then the callee. -/
def callRequest (caller callee : Station) : Except ProtocolError Bytes := do
  let caller ← caller.pack
  let callee ← callee.pack
  return packet familySession opRequest 256 (caller ++ callee ++ callRequestCapability)

/-- `call_setup`: the invite before the request. -/
def callSetup (caller callee : Station) : Except ProtocolError Bytes := do
  let caller ← caller.pack
  let callee ← callee.pack
  return packet familySession opCallSetup 82 (caller ++ callee ++ [1, 0])

/-- `audio_packet`. -/
def audioPacket (sequence : UInt16) (pcm : Bytes) (e : Endpoints) :
    Except ProtocolError Bytes :=
  if pcm.length ≠ 512 then .error .badAudioLength
  else do
    let body ← e.pack
    return packet familySession opMedia 602 <|
      body ++ [mediaAudio, sequence, 1, 1, 512].flatMap u16ToLe ++ pcm

/-- `slice::chunks`: pieces of `n` bytes, the last one shorter. As many rounds as there are
    bytes are enough for any `n` but zero, where the source panics. -/
def chunksLoop (n : Nat) : Nat → Bytes → List Bytes
  | 0, _ => []
  | _ + 1, [] => []
  | rounds + 1, b :: rest =>
      (b :: rest).take n :: chunksLoop n rounds ((b :: rest).drop n)

def chunks (n : Nat) (bytes : Bytes) : List Bytes := chunksLoop n bytes.length bytes

/-- One packet of `jpeg_packets`: a slot of 1200 bytes, numbered from 1. -/
def jpegPacket (sequence fragmentCount index : UInt16) (block chunk : Bytes) : Bytes :=
  packet familySession opMedia 1290 <| resize
    (block ++ [mediaJpeg, sequence, fragmentCount, index, UInt16.ofNat chunk.length].flatMap
      u16ToLe ++ chunk) (block.length + 10 + 1200)

/-- `jpeg_packets`. The counts are cut to 16 bits, as the source casts them. -/
def jpegPackets (sequence : UInt16) (jpeg : Bytes) (e : Endpoints) :
    Except ProtocolError (List Bytes) := do
  let block ← e.pack
  let fragmentCount := UInt16.ofNat (max ((jpeg.length + 1199) / 1200) 1)
  return (chunks 1200 jpeg).mapIdx fun index chunk =>
    jpegPacket sequence fragmentCount (UInt16.ofNat index + 1) block chunk

end Michoi
