/-
  The shared discovery socket (`discovery.rs`).

  `DiscoveryService::run` receives on the one socket of port 10008, and any number of
  `resolve` calls wait for what it receives. They share the table of waiters. Here every
  part that runs under its lock, every await and every `send` on a oneshot channel is a step
  of its own, so that the runs of `discovery` are all the ways in which the calls, the
  datagrams and the timeouts can fall.
-/
import Mathlib.Logic.Function.Basic
import Michoi.Bytes.Utf8
import Michoi.Lib.System
import Michoi.Protocol.Checked

namespace Michoi

open Lib

/-! ## Datagrams -/

def discoveryPort : UInt16 := 10008

/-- What `discovery_request` and `discovery_reply` share: a tag, the id, and zeros. -/
def discoveryDatagram (tag : UInt8) (size : Nat) (roomId : String) : Option Bytes :=
  let id := asBytes roomId
  if id.length > 34 then none
  else some (tag :: id ++ List.replicate (size - (1 + id.length)) 0)

/-- `discovery_request`. -/
def discoveryRequest (roomId : String) : Option Bytes := discoveryDatagram 1 100 roomId

/-- `discovery_reply`. -/
def discoveryReply (roomId : String) : Option Bytes := discoveryDatagram 2 35 roomId

/-- The id that a datagram replies for. -/
def repliesFor (datagram : Bytes) : Option String :=
  match discoveryReplyRoom datagram with
  | .ok room => room
  | .error _ => none

/-- The id that a datagram asks for. -/
def asksFor (datagram : Bytes) : Option String :=
  match discoveryRequestRoom datagram with
  | .ok room => room
  | .error _ => none

/-- The id is read back up to the zeros. -/
theorem discoveryRoom_padded (tag : UInt8) {id : String} (hid : Char.ofNat 0 ∉ id.toList)
    (n : Nat) : discoveryRoom tag (tag :: asBytes id ++ List.replicate n 0) = .ok (some id) := by
  have hzero : (asBytes id).findIdx? (· == 0) = none := by
    rw [List.findIdx?_eq_none_iff]
    intro b hb
    exact beq_eq_false_iff_ne.mpr (ne_of_mem_of_not_mem hb (zero_not_mem_asBytes hid))
  have hend : ((asBytes id ++ List.replicate n 0).findIdx? (· == 0)).getD
      (asBytes id ++ List.replicate n 0).length = (asBytes id).length := by
    rw [List.findIdx?_append, hzero, List.findIdx?_replicate]
    split
    · simp
    · next hnot =>
        simp at hnot
        simp [hnot]
  unfold discoveryRoom
  rw [if_neg (by simp), List.cons_append, Checked.dropTo_of_le (by simp)]
  simp only [List.drop_succ_cons, List.drop_zero, ok_bind]
  rw [hend, Checked.slice_of_le (Nat.zero_le _) (by simp)]
  simp [fromUtf8Lossy_asBytes]

/-! ## The service -/

/-- What the receiver of a oneshot channel finds in it. -/
inductive Oneshot where
  | empty
  | value (ip : Ipv4Addr)
  | closed
  deriving DecidableEq, Repr

/-- Where a `resolve` call is. -/
inductive ResolvePc where
  /-- Its waiter is in the table. -/
  | request
  /-- In `send_to`. -/
  | send (request : Bytes)
  /-- In `timeout`. -/
  | wait
  /-- The wait brought nothing. -/
  | clear
  | done (result : Option Ipv4Addr)
  deriving DecidableEq, Repr

namespace ResolvePc

/-- The call may still receive an address. -/
def isOpen : ResolvePc → Bool
  | request | send _ | wait => true
  | clear | done _ => false

def isDone : ResolvePc → Bool
  | done _ => true
  | _ => false

end ResolvePc

/-- A `resolve` call, with its end of the channel. -/
structure ResolveCall where
  id : String
  pc : ResolvePc
  channel : Oneshot
  deriving DecidableEq, Repr

/-- The service and the calls of `resolve` so far; a waiter is the number of its call. -/
structure DiscoveryService where
  deviceId : Option String
  /-- `pending`. -/
  pending : String → List Nat
  calls : List ResolveCall
  /-- The waiters that `run` took out of the table and has not sent to yet. -/
  taken : List Nat
  /-- The address that it sends them. -/
  source : Ipv4Addr
  /-- The datagrams sent, with their destinations. -/
  sent : List (SocketAddr × Bytes)

inductive DiscoveryMove where
  /-- `resolve` puts its waiter into the table. -/
  | register (id : String)
  /-- It builds its request. -/
  | encode (i : Nat)
  /-- `send_to` returns. -/
  | send (i : Nat) (broadcast : Ipv4Addr) (ok : Bool)
  /-- The channel has a value, or its sender is gone. -/
  | wake (i : Nat)
  /-- The timeout is up while the channel is empty. -/
  | elapse (i : Nat)
  /-- The waiters of the id are dropped. -/
  | clear (i : Nat)
  /-- `run` receives a datagram. -/
  | receive (sender : SocketAddr) (datagram : Bytes)
  /-- `run` sends to the next waiter that it took. -/
  | deliver
  deriving DecidableEq, Repr

namespace DiscoveryService

/-- `DiscoveryService::bind`. -/
def bind (deviceId : Option String) : DiscoveryService where
  deviceId := deviceId
  pending _ := []
  calls := []
  taken := []
  source := .unspecified
  sent := []

/-- A call goes on. -/
def goTo (s : DiscoveryService) (i : Nat) (pc : ResolvePc) : DiscoveryService :=
  { s with calls := s.calls.modify i fun c => { c with pc } }

/-- The senders of these calls are dropped. -/
def closeAll (waiters : List Nat) (calls : List ResolveCall) : List ResolveCall :=
  calls.mapIdx fun j c => if j ∈ waiters then { c with channel := .closed } else c

/-- What `run` does with a datagram. -/
def received (s : DiscoveryService) (sender : SocketAddr) (datagram : Bytes) :
    DiscoveryService :=
  match repliesFor datagram with
  | some id =>
      match sender.ip with
      | .v4 ip =>
          { s with
            pending := Function.update s.pending id []
            taken := s.pending id
            source := ip }
      | .v6 _ => s
  | none =>
      match asksFor datagram, s.deviceId with
      | some id, some ours =>
          if id = ours then
            match discoveryReply ours with
            | some reply => { s with sent := s.sent ++ [(sender, reply)] }
            | none => s
          else s
      | _, _ => s

def next (s : DiscoveryService) : DiscoveryMove → Option DiscoveryService
  | .register id => some { s with
      pending := Function.update s.pending id (s.pending id ++ [s.calls.length])
      calls := s.calls ++ [⟨id, .request, .empty⟩] }
  | .encode i =>
      match s.calls[i]? with
      | some ⟨id, .request, _⟩ =>
          match discoveryRequest id with
          | some request => some (s.goTo i (.send request))
          | none => some (s.goTo i (.done none))
      | _ => none
  | .send i broadcast ok =>
      match s.calls[i]? with
      | some ⟨_, .send request, _⟩ =>
          if ok then
            some { s.goTo i .wait with
              sent := s.sent ++ [(⟨.v4 broadcast, discoveryPort⟩, request)] }
          else some (s.goTo i (.done none))
      | _ => none
  | .wake i =>
      match s.calls[i]? with
      | some ⟨_, .wait, .value ip⟩ => some (s.goTo i (.done (some ip)))
      | some ⟨_, .wait, .closed⟩ => some (s.goTo i .clear)
      | _ => none
  | .elapse i =>
      match s.calls[i]? with
      | some ⟨_, .wait, .empty⟩ => some (s.goTo i .clear)
      | _ => none
  | .clear i =>
      match s.calls[i]? with
      | some ⟨id, .clear, _⟩ => some (goTo { s with
          pending := Function.update s.pending id []
          calls := closeAll (s.pending id) s.calls } i (.done none))
      | _ => none
  | .receive sender datagram =>
      if s.taken = [] then some (s.received sender datagram) else none
  | .deliver =>
      match s.taken with
      | [] => none
      | j :: rest => some { s with
          taken := rest
          calls := s.calls.modify j fun c => { c with channel := .value s.source } }

end DiscoveryService

/-- The interleavings. -/
def discovery : System DiscoveryService DiscoveryMove where
  next := DiscoveryService.next

/-! ## What a step can do -/

/-- The ways in which a step can go. -/
inductive DiscoveryStep (s : DiscoveryService) : DiscoveryMove → DiscoveryService → Prop where
  | register (id : String) : DiscoveryStep s (.register id) { s with
      pending := Function.update s.pending id (s.pending id ++ [s.calls.length])
      calls := s.calls ++ [⟨id, .request, .empty⟩] }
  | encoded {i c request} (hc : s.calls[i]? = some c) (hpc : c.pc = .request)
      (hrequest : discoveryRequest c.id = some request) :
      DiscoveryStep s (.encode i) (s.goTo i (.send request))
  | tooLong {i c} (hc : s.calls[i]? = some c) (hpc : c.pc = .request)
      (hrequest : discoveryRequest c.id = none) :
      DiscoveryStep s (.encode i) (s.goTo i (.done none))
  | sent {i c request} (broadcast) (hc : s.calls[i]? = some c) (hpc : c.pc = .send request) :
      DiscoveryStep s (.send i broadcast true) { s.goTo i .wait with
        sent := s.sent ++ [(⟨.v4 broadcast, discoveryPort⟩, request)] }
  | unsent {i c request} (broadcast) (hc : s.calls[i]? = some c) (hpc : c.pc = .send request) :
      DiscoveryStep s (.send i broadcast false) (s.goTo i (.done none))
  | found {i c ip} (hc : s.calls[i]? = some c) (hpc : c.pc = .wait)
      (hchannel : c.channel = .value ip) :
      DiscoveryStep s (.wake i) (s.goTo i (.done (some ip)))
  | dropped {i c} (hc : s.calls[i]? = some c) (hpc : c.pc = .wait)
      (hchannel : c.channel = .closed) : DiscoveryStep s (.wake i) (s.goTo i .clear)
  | elapsed {i c} (hc : s.calls[i]? = some c) (hpc : c.pc = .wait)
      (hchannel : c.channel = .empty) : DiscoveryStep s (.elapse i) (s.goTo i .clear)
  | cleared {i c} (hc : s.calls[i]? = some c) (hpc : c.pc = .clear) :
      DiscoveryStep s (.clear i) (DiscoveryService.goTo { s with
        pending := Function.update s.pending c.id []
        calls := DiscoveryService.closeAll (s.pending c.id) s.calls } i (.done none))
  | reply {sender datagram id ip} (htaken : s.taken = []) (hid : repliesFor datagram = some id)
      (hip : sender.ip = .v4 ip) : DiscoveryStep s (.receive sender datagram) { s with
        pending := Function.update s.pending id []
        taken := s.pending id
        source := ip }
  | other {sender datagram} (sent) (hother : ∀ id, repliesFor datagram = some id →
      ∀ ip, sender.ip ≠ .v4 ip) : DiscoveryStep s (.receive sender datagram) { s with sent }
  | deliver {j rest} (htaken : s.taken = j :: rest) : DiscoveryStep s .deliver { s with
      taken := rest
      calls := s.calls.modify j fun c => { c with channel := .value s.source } }

theorem receivedStep {s : DiscoveryService} (htaken : s.taken = []) (sender : SocketAddr)
    (datagram : Bytes) :
    DiscoveryStep s (.receive sender datagram) (s.received sender datagram) := by
  unfold DiscoveryService.received
  cases hid : repliesFor datagram with
  | some id =>
      cases hip : sender.ip with
      | v4 ip => exact .reply htaken hid hip
      | v6 octets => exact .other s.sent fun _ _ ip h => nomatch hip.symm.trans h
  | none =>
      have hother : ∀ sent, DiscoveryStep s (.receive sender datagram) { s with sent } :=
        fun sent => .other sent fun _ h => nomatch hid.symm.trans h
      dsimp only
      split
      · split
        · split
          · exact hother _
          · exact hother s.sent
        · exact hother s.sent
      · exact hother s.sent

/-- Every step is one of them. -/
theorem discoveryNext_cases {s t : DiscoveryService} {a : DiscoveryMove}
    (h : discovery.next s a = some t) : DiscoveryStep s a t := by
  change s.next a = some t at h
  cases a with
  | register id =>
      obtain rfl := Option.some.inj h
      exact .register id
  | encode i =>
      simp only [DiscoveryService.next] at h
      split at h
      · next hc =>
          split at h
          · next hrequest =>
              obtain rfl := Option.some.inj h
              exact .encoded hc rfl hrequest
          · next hrequest =>
              obtain rfl := Option.some.inj h
              exact .tooLong hc rfl hrequest
      · cases h
  | send i broadcast ok =>
      simp only [DiscoveryService.next] at h
      split at h
      · next hc =>
          cases ok with
          | true =>
              obtain rfl := Option.some.inj h
              exact .sent broadcast hc rfl
          | false =>
              obtain rfl := Option.some.inj h
              exact .unsent broadcast hc rfl
      · cases h
  | wake i =>
      simp only [DiscoveryService.next] at h
      split at h
      · next hc =>
          obtain rfl := Option.some.inj h
          exact .found hc rfl rfl
      · next hc =>
          obtain rfl := Option.some.inj h
          exact .dropped hc rfl rfl
      · cases h
  | elapse i =>
      simp only [DiscoveryService.next] at h
      split at h
      · next hc =>
          obtain rfl := Option.some.inj h
          exact .elapsed hc rfl rfl
      · cases h
  | clear i =>
      simp only [DiscoveryService.next] at h
      split at h
      · next hc =>
          obtain rfl := Option.some.inj h
          exact .cleared hc rfl
      · cases h
  | receive sender datagram =>
      simp only [DiscoveryService.next] at h
      split at h
      · next htaken =>
          obtain rfl := Option.some.inj h
          exact receivedStep htaken sender datagram
      · cases h
  | deliver =>
      simp only [DiscoveryService.next] at h
      split at h
      · cases h
      · next htaken =>
          obtain rfl := Option.some.inj h
          exact .deliver htaken

/-- A call that has not returned can always go on. -/
theorem exists_move_of_running {s : DiscoveryService} {i : Nat} {c : ResolveCall}
    (hc : s.calls[i]? = some c) (h : c.pc.isDone = false) :
    ∃ a ∈ [.encode i, .send i .unspecified true, .wake i, .elapse i, .clear i],
      (discovery.next s a).isSome = true := by
  obtain ⟨id, pc, channel⟩ := c
  cases pc with
  | request =>
      refine ⟨.encode i, by simp, ?_⟩
      cases hrequest : discoveryRequest id <;>
        simp [discovery, DiscoveryService.next, hc, hrequest]
  | send request =>
      exact ⟨.send i .unspecified true, by simp, by simp [discovery, DiscoveryService.next, hc]⟩
  | wait =>
      cases channel with
      | empty => exact ⟨.elapse i, by simp, by simp [discovery, DiscoveryService.next, hc]⟩
      | value ip => exact ⟨.wake i, by simp, by simp [discovery, DiscoveryService.next, hc]⟩
      | closed => exact ⟨.wake i, by simp, by simp [discovery, DiscoveryService.next, hc]⟩
  | clear => exact ⟨.clear i, by simp, by simp [discovery, DiscoveryService.next, hc]⟩
  | done result => cases h

end Michoi
