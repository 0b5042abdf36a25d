/-
  The two stations of the household as currently known, and how they are learned
  (`agent.rs`): fields start from the configuration, are filled by discovery, by received
  datagrams and by calls, and are then compared instead of written.

  Each function is the region of the source under the `peers` lock. The count of logged
  mismatches is left out.
-/
import Michoi.Protocol

namespace Michoi

/-- Which station a wire datagram came from. -/
inductive Side where
  | door | pad
  deriving DecidableEq, Repr

structure Peers where
  room : Station
  door : Option Station
  doorMac : Option MacAddress
  padMac : Option MacAddress
  controlPort : UInt16
  deriving DecidableEq, Repr

namespace Peers

/-- `Peers::endpoints`. -/
def endpoints (p : Peers) : Option Endpoints :=
  p.door.map fun door => { door, room := p.room }

/-- `Agent::set_room_ip_if_unset`. -/
def setRoomIpIfUnset (p : Peers) (ip : Ipv4Addr) : Peers :=
  if p.room.ip.isUnspecified && !ip.isUnspecified then { p with room := { p.room with ip } }
  else p

/-- The `Side::Pad` branch of `Agent::learn_address`. -/
def learnPadAddress (p : Peers) (ip : Ipv4Addr) : Bool × Peers :=
  if p.room.ip.isUnspecified then (true, { p with room := { p.room with ip } })
  else (p.room.ip == ip, p)

/-- The `Side::Door` branch of `Agent::learn_address`. -/
def learnDoorAddress (p : Peers) (ip : Ipv4Addr) : Bool × Peers :=
  match p.door with
  | none => (true, { p with door := some { id := "", ip } })
  | some door =>
      if door.ip.isUnspecified then (true, { p with door := some { door with ip } })
      else (door.ip == ip, p)

/-- `Agent::learn_address`: whether the address is accepted, and what is known after. -/
def learnAddress (p : Peers) (side : Side) (ip : Ipv4Addr) : Bool × Peers :=
  if ip.isUnspecified then (false, p)
  else
    match side with
    | .pad => p.learnPadAddress ip
    | .door => p.learnDoorAddress ip

/-- The MAC slot of a side. -/
def mac (p : Peers) : Side → Option MacAddress
  | .door => p.doorMac
  | .pad => p.padMac

def withMac (p : Peers) (mac : MacAddress) : Side → Peers
  | .door => { p with doorMac := some mac }
  | .pad => { p with padMac := some mac }

/-- `Agent::pin_mac`. -/
def pinMac (p : Peers) (side : Side) (mac : MacAddress) : Bool × Peers :=
  match p.mac side with
  | none => (true, p.withMac mac side)
  | some pinned => (pinned == mac, p)

/-- The Pad's half of `Agent::accept_endpoints`: `none` where the block is refused. -/
def acceptRoom (p : Peers) (room : Station) : Option Peers :=
  if room.id ≠ p.room.id then none
  else if p.room.ip.isUnspecified then
    if !room.ip.isUnspecified then some { p with room := { p.room with ip := room.ip } }
    else some p
  else if p.room.ip ≠ room.ip then none
  else some p

/-- The door's half of `Agent::accept_endpoints`: the station known afterwards, `none`
    where the block is refused. -/
def acceptDoor (known : Option Station) (door : Station) : Option Station :=
  match known with
  | none => some door
  | some d =>
      if d.id = "" && d.ip = door.ip then some { d with id := door.id }
      else if d.id = door.id && d.ip.isUnspecified then some { d with ip := door.ip }
      else if d.id = door.id && d.ip = door.ip then some d
      else none

/-- `Agent::accept_endpoints`: the snapshot when the block is accepted, and what is known
    afterwards. A block refused for its door may have taught the Pad's address. -/
def acceptEndpoints (p : Peers) (e : Endpoints) : Option Peers × Peers :=
  match p.acceptRoom e.room with
  | none => (none, p)
  | some p =>
      match acceptDoor p.door e.door with
      | none => (none, p)
      | some door =>
          let p := { p with door := some door }
          (some p, p)

/-- The door's address, unspecified while no door is known. -/
def doorIp (p : Peers) : Ipv4Addr := (p.door.map Station.ip).getD .unspecified

/-- The door's station id, empty while no door is known. -/
def doorId (p : Peers) : String := (p.door.map Station.id).getD ""

end Peers

end Michoi
