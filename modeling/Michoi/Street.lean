/-
  A door and a Pad on one street: the software door station (`run_emulator`) and the Agent
  in `pad` mode with all its handlers, and the datagrams between them.

  Each side sends into a list of datagrams in flight. The network delivers them in any order,
  and may lose them and deliver them twice. The receive loop of the Pad takes a datagram when
  it is done with the one before.
-/
import Michoi.Emulator
import Michoi.Household
import Michoi.Wire.Udp

namespace Michoi

open Lib

structure Street where
  door : Emulator
  pad : HousePool UdpWire
  /-- In flight to the Pad and to the door, oldest first. -/
  toPad : List Bytes
  toDoor : List Bytes

/-- What the network does with a datagram other than to deliver it. -/
inductive Fate where
  | lose | double
  deriving DecidableEq, Repr

def Fate.apply (fate : Fate) (i : Nat) (flight : List Bytes) : List Bytes :=
  match fate with
  | .lose => flight.eraseIdx i
  | .double => flight ++ (flight[i]?).toList

/-- One step of the door, of the Pad or one of its handlers, or of the network. -/
inductive StreetMove where
  | door (tick : EmulatorTick)
  | pad (m : HouseMove)
  /-- The Pad's receive loop takes a datagram. -/
  | arrive (i : Nat)
  /-- The door's receiver takes a datagram. -/
  | hear (i : Nat)
  | padward (fate : Fate) (i : Nat)
  | doorward (fate : Fate) (i : Nat)

def HouseTask.isDatagram : HouseTask → Bool
  | datagram .. => true
  | _ => false

/-- The move starts a datagram, which only the network does here. -/
def startsDatagram : HouseMove → Bool
  | .start t => t.isDatagram
  | _ => false

namespace Street

/-- What the Pad's socket took for an address since. -/
def newTo (addr : SocketAddr) (p q : HousePool UdpWire) : List Bytes :=
  (q.shared.agent.wire.out.drop p.shared.agent.wire.out.length).filterMap fun d =>
    if d.1 = addr then some d.2 else none

/-- One move, with the door at this address. -/
def next (addr : SocketAddr) (s : Street) : StreetMove → Option Street
  | .door tick =>
      (s.door.step tick).map fun r => { s with door := r.1, toPad := s.toPad ++ r.2 }
  | .pad m =>
      if startsDatagram m then none
      else
        ((houseProgram .pad UdpWire).system.next s.pad m).map fun pad =>
          { s with pad, toDoor := s.toDoor ++ newTo addr s.pad pad }
  | .arrive i =>
      (s.toPad[i]?).bind fun d =>
        ((houseProgram .pad UdpWire).system.next s.pad
          (.start (.datagram addr d .received))).map fun pad =>
            { s with pad, toPad := s.toPad.eraseIdx i }
  | .hear i =>
      (s.toDoor[i]?).map fun d => { s with door := s.door.hear d, toDoor := s.toDoor.eraseIdx i }
  | .padward fate i => some { s with toPad := fate.apply i s.toPad }
  | .doorward fate i => some { s with toDoor := fate.apply i s.toDoor }

/-- A door that is about to ring a Pad which has heard of nobody. -/
def start (e : Endpoints) (media : MediaSource) (a : Agent UdpWire) : Street where
  door := .start e media
  pad := idleHouse a
  toPad := []
  toDoor := []

end Street

/-- All interleavings. -/
def streetSystem (addr : SocketAddr) : System Street StreetMove where
  next := Street.next addr

/-- Everything a move can do. -/
inductive StreetStep (addr : SocketAddr) (s : Street) : StreetMove → Street → Prop where
  | door {tick d sent} (h : s.door.step tick = some (d, sent)) :
      StreetStep addr s (.door tick) { s with door := d, toPad := s.toPad ++ sent }
  | pad {m p} (hm : startsDatagram m = false)
      (h : (houseProgram .pad UdpWire).system.next s.pad m = some p) :
      StreetStep addr s (.pad m)
        { s with pad := p, toDoor := s.toDoor ++ Street.newTo addr s.pad p }
  | arrive {i d} (hd : s.toPad[i]? = some d)
      (h : (HouseTask.datagram addr d .received).mayStart .pad s.pad.threads = true) :
      StreetStep addr s (.arrive i)
        { s with
          pad := ⟨s.pad.shared, s.pad.threads ++ [.datagram addr d .received]⟩
          toPad := s.toPad.eraseIdx i }
  | hear {i d} (hd : s.toDoor[i]? = some d) :
      StreetStep addr s (.hear i)
        { s with door := s.door.hear d, toDoor := s.toDoor.eraseIdx i }
  | padward {fate i} :
      StreetStep addr s (.padward fate i) { s with toPad := fate.apply i s.toPad }
  | doorward {fate i} :
      StreetStep addr s (.doorward fate i) { s with toDoor := fate.apply i s.toDoor }

theorem street_cases {addr : SocketAddr} {s t : Street} {m : StreetMove}
    (h : (streetSystem addr).next s m = some t) : StreetStep addr s m t := by
  cases m with
  | door tick =>
      obtain ⟨r, hr, rfl⟩ := Option.map_eq_some_iff.mp h
      exact .door hr
  | pad m =>
      change (if startsDatagram m then none else _) = _ at h
      split at h
      · cases h
      · next hm =>
          obtain ⟨p, hp, rfl⟩ := Option.map_eq_some_iff.mp h
          exact .pad ((Bool.not_eq_true _).mp hm) hp
  | arrive i =>
      obtain ⟨d, hd, h⟩ := Option.bind_eq_some_iff.mp h
      obtain ⟨p, hp, rfl⟩ := Option.map_eq_some_iff.mp h
      change (if _ then some _ else none) = _ at hp
      split at hp
      · next hmay =>
          obtain rfl := Option.some.inj hp
          exact .arrive hd hmay
      · cases hp
  | hear i =>
      obtain ⟨d, hd, rfl⟩ := Option.map_eq_some_iff.mp h
      exact .hear hd
  | padward fate i =>
      obtain rfl := Option.some.inj h
      exact .padward
  | doorward fate i =>
      obtain rfl := Option.some.inj h
      exact .doorward

theorem Fate.mem_of_mem_apply {fate : Fate} {i : Nat} {flight : List Bytes} {d : Bytes}
    (h : d ∈ fate.apply i flight) : d ∈ flight := by
  cases fate with
  | lose => exact List.mem_of_mem_eraseIdx h
  | double =>
      rcases List.mem_append.mp h with h | h
      · exact h
      · exact List.mem_of_getElem? (Option.mem_toList.mp h)

end Michoi
