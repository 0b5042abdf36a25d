/-
  Where the Pad's packets go in `pad` mode.

  `UdpWire` sends to whoever spoke last, whatever door is known: its receive loop does not
  look at what `learn_address` returns. So a stranger's datagram draws the keepalives, the
  commands and the microphone to the stranger (`stranger_draws_the_keepalive`).
  `pad_sends_to_the_door` is the condition under which it does not: once the door's address
  is known, datagrams come from there, and it becomes known as the address of whoever spoke
  last.

  The invariant is `PeerIsDoor`. It rests on the receive loop being one task: between its
  noting the sender and its learning the address nobody else notes a sender.
-/
import Michoi.Agent.Datagram
import Michoi.Household.Frame

namespace Michoi

open Lib

/-! ## What is noted -/

/-- The handler's next step calls `send_as_pad`. -/
def HouseTask.sendsAsPad : HouseTask → Bool
  | agent (.command _ _ (.send ..)) => true
  | talk _ (.send ..) => true
  | keepalive (.send ..) => true
  | _ => false

/-- What `send_as_pad` sent, where to, and the door's address as it was known then. -/
structure PadNote where
  door : Ipv4Addr
  dest : SocketAddr
  payload : Bytes
  deriving DecidableEq, Repr

/-- The notes of a move. -/
def padNotes (p : HousePool UdpWire) (m : HouseMove) (q : HousePool UdpWire) : List PadNote :=
  match m with
  | .step i _ => (p.threads[i]?).elim [] fun t =>
      if t.sendsAsPad then
        (q.shared.agent.wire.out.drop p.shared.agent.wire.out.length).map fun d =>
          ⟨p.shared.agent.peers.doorIp, d.1, d.2⟩
      else []
  | _ => []

/-- Once the door's address was known, `send_as_pad` sent there. -/
def ToTheDoor (notes : List PadNote) : Prop :=
  ∀ n ∈ notes, n.door.Specified → n.dest.ip = .v4 n.door

instance (notes : List PadNote) : Decidable (ToTheDoor notes) :=
  inferInstanceAs (Decidable (∀ _ ∈ _, _ → _))

/-- Where the handler is about to check an endpoint block. -/
def HouseTask.block (t : HouseTask) : Option Endpoints :=
  match t.wirePc with
  | some (.accept _ _ e) => some e
  | _ => none

/-- The datagram comes from the door that is known; the block that makes the door's address
    known names the address of whoever spoke last. -/
def HouseTask.FromTheDoor (h : Household UdpWire) : HouseTask → Prop
  | datagram sender _ .received =>
      h.agent.peers.doorIp.Specified → sender.ip = .v4 h.agent.peers.doorIp
  | t =>
      ¬ h.agent.peers.doorIp.Specified → ∀ e ∈ t.block, h.agent.peers.Accepts e →
        e.door.ip.Specified → ∀ peer ∈ h.agent.wire.peer, peer.ip = .v4 e.door.ip

instance (h : Household UdpWire) (t : HouseTask) : Decidable (t.FromTheDoor h) := by
  unfold HouseTask.FromTheDoor
  split <;> infer_instance

def FromTheDoor (p : HousePool UdpWire) : HouseMove → Prop
  | .step i _ => ∀ t ∈ p.threads[i]?, t.FromTheDoor p.shared
  | _ => True

instance (p : HousePool UdpWire) : ∀ m, Decidable (FromTheDoor p m)
  | .step _ _ => inferInstanceAs (Decidable (∀ _ ∈ _, _))
  | .start _ => inferInstanceAs (Decidable True)
  | .outside _ => inferInstanceAs (Decidable True)

/-! ## The peers -/

namespace Peers

theorem learnAddress_doorIp (p : Peers) (ip : Ipv4Addr) :
    (p.learnAddress .door ip).2.doorIp =
      if ip.Specified ∧ ¬ p.doorIp.Specified then ip else p.doorIp := by
  unfold learnAddress
  by_cases hip : ip.Specified
  · rw [if_neg (by rw [hip]; decide)]
    unfold learnDoorAddress doorIp
    dsimp only
    cases hd : p.door with
    | none => exact (if_pos ⟨hip, Ipv4Addr.not_specified rfl⟩).symm
    | some door =>
        dsimp only
        split
        · next hun => exact (if_pos ⟨hip, Ipv4Addr.not_specified hun⟩).symm
        · next hun => 
            rw [if_neg fun h => h.2 ((Bool.not_eq_true _).mp hun), hd]
  · rw [if_pos ((Bool.not_eq_false _).mp hip), if_neg fun h => hip h.1]

theorem acceptEndpoints_doorIp (p : Peers) (e : Endpoints) :
    (p.acceptEndpoints e).2.doorIp = if p.Accepts e then e.door.ip else p.doorIp := by
  by_cases h : p.Accepts e
  · rw [acceptEndpoints_of_accepts h, if_pos h]
    rfl
  · rw [acceptEndpoints_of_not_accepts h, if_neg h]
    dsimp only
    split <;> rfl

end Peers

theorem takeCallSession_peers {W : Type} (a : Agent W) :
    a.takeCallSession.2.peers = a.peers := by
  unfold Agent.takeCallSession
  split <;> rfl

theorem stopMonitorNow_wire {W : Type} (a : Agent W) : a.stopMonitorNow.wire = a.wire := by
  unfold Agent.stopMonitorNow
  split <;> rfl

theorem takeCallSession_wire {W : Type} (a : Agent W) : a.takeCallSession.2.wire = a.wire := by
  unfold Agent.takeCallSession
  split <;> rfl

theorem notify_peers {W : Type} [Wire W] (a : Agent W) (env : Env) (action : CallAction)
    (peers : Peers) : (a.notify env action peers).peers = a.peers := by
  unfold Agent.notify
  cases action <;> rfl

theorem wireStep_accept_peers {W : Type} [Wire W] {env : Env} {a a' : Agent W} {side : Side}
    {m : Message} {e : Endpoints} {pc' : WirePc}
    (hs : wireStep env a (.accept side m e) = some (a', pc')) :
    a'.peers = (a.peers.acceptEndpoints e).2 := by
  unfold wireStep Agent.acceptEndpoints at hs
  dsimp only at hs
  split at hs <;> next heq =>
    obtain ⟨-, rfl⟩ := Prod.mk.inj heq
    cases hs
    rfl

/-- `on_wire` writes the peers through `accept_endpoints` only. -/
theorem wireStep_peers {W : Type} [Wire W] {env : Env} {a a' : Agent W} {pc pc' : WirePc}
    (hs : wireStep env a pc = some (a', pc')) :
    a'.peers = a.peers ∨ ∃ side m e, pc = .accept side m e ∧
      a'.peers = (a.peers.acceptEndpoints e).2 := by
  cases pc with
  | accept side m e => exact .inr ⟨side, m, e, rfl, wireStep_accept_peers hs⟩
  | stopMonitor => cases hs; exact .inl (Agent.stopMonitorNow_peers a)
  | outboundAnswered => cases hs; exact .inl (Agent.outboundAnswered_peers a env)
  | feed media => cases hs; exact .inl (Agent.feed_peers a env media)
  | outboundHangup =>
      left
      unfold wireStep Agent.takeCallSession at hs
      dsimp only at hs
      cases hc : a.callSession <;> rw [hc] at hs <;> cases hs <;> rfl
  | received | outboundCheck | bootstrapReply | ringReply | wakeElevator | callEnd | publish =>
      left
      unfold wireStep at hs
      dsimp only at hs
      repeat' split at hs
      all_goals
        cases hs
        rfl
  | bootstrap | padUnlock | ringStart | padAnswer | hangup =>
      left
      unfold wireStep at hs
      dsimp only at hs
      split at hs <;> cases hs <;> rfl
  | done => cases hs

section

variable {env : HouseEnv} {h h' : Household UdpWire} {t t' : HouseTask}

/-- The door's address changes where a block is checked and where the receive loop learns the
    sender's. -/
theorem house_doorIp (hs : HouseStep env h t h' t') :
    h'.agent.peers.doorIp = h.agent.peers.doorIp ∨
      (∃ e ∈ t.block, h'.agent.peers.doorIp =
        if h.agent.peers.Accepts e then e.door.ip else h.agent.peers.doorIp) ∨
      ∃ sender payload ip, t = .datagram sender payload (.learnDoor ip) ∧
        h'.agent.peers.doorIp =
          if ip.Specified ∧ ¬ h.agent.peers.doorIp.Specified then ip
          else h.agent.peers.doorIp := by
  cases hs with
  | wire ht _ hw =>
      rcases wireStep_peers hw with hp | ⟨side, m, e, rfl, hp⟩
      · exact .inl (congrArg Peers.doorIp hp)
      · refine .inr (.inl ⟨e, ?_, ?_⟩)
        · unfold HouseTask.block
          rw [ht]
          rfl
        · exact (congrArg Peers.doorIp hp).trans (Peers.acceptEndpoints_doorIp ..)
  | command hc =>
      left
      cases hc with
      | notify => exact congrArg Peers.doorIp (notify_peers ..)
      | _ => rfl
  | elevator hc => left; cases hc <;> rfl
  | monitor hm =>
      left
      cases hm with
      | replace => exact congrArg Peers.doorIp (Agent.stopMonitorNow_peers _)
      | _ => rfl
  | stop => exact .inl (congrArg Peers.doorIp (Agent.stopMonitorNow_peers _))
  | dial hd => left; cases hd <;> rfl
  | hangup hh =>
      left
      cases hh with
      | take => exact congrArg Peers.doorIp (takeCallSession_peers _)
      | _ => rfl
  | talk ht => left; cases ht <;> rfl
  | video hv => left; cases hv <;> rfl
  | keepalive hk => left; cases hk <;> rfl
  | datagram hd =>
      cases hd with
      | learnRoom => exact .inl (setRoomIpIfUnset_doorIp ..)
      | learnDoor => exact .inr (.inr ⟨_, _, _, rfl, Peers.learnAddress_doorIp ..⟩)
      | _ => exact .inl rfl

/-! ## The wire -/

/-- The wire sent to whoever spoke last, if it sent. -/
structure UdpWire.Sends (w w' : UdpWire) : Prop where
  peer : w'.peer = w.peer
  out : ∀ d ∈ w'.out.drop w.out.length, w.peer = some d.1

theorem UdpWire.Sends.refl (w : UdpWire) : w.Sends w :=
  ⟨rfl, fun d hd => by rw [List.drop_length] at hd; cases hd⟩

theorem UdpWire.send_sends (w : UdpWire) (outcome : Outcome) (payload : Bytes) :
    w.Sends (w.send outcome payload).2 := by
  unfold UdpWire.send
  split
  · exact .refl w
  · next peer hpeer =>
      split
      · exact .refl w
      all_goals
        refine ⟨rfl, fun d hd => ?_⟩
        rw [List.drop_left, List.mem_singleton] at hd
        rw [hd, hpeer]

/-- Only the receive loop notes a sender. -/
theorem house_wire (hs : HouseStep env h t h' t') :
    h.agent.wire.Sends h'.agent.wire ∨ ∃ sender payload,
      t = .datagram sender payload .received ∧
        h'.agent.wire = { h.agent.wire with peer := some sender } := by
  have hrefl := UdpWire.Sends.refl h.agent.wire
  have hsend := fun outcome payload => UdpWire.send_sends h.agent.wire outcome payload
  cases hs with
  | wire _ _ hw =>
      left
      cases wireStep_cases hw with
      | quiet _ _ _ hq =>
          rcases hq.wire with hw | ⟨payload, peers, hw⟩
          · exact hw ▸ hrefl
          · exact hw ▸ hsend ..
      | _ => exact hrefl
  | command hc =>
      left
      cases hc with
      | sent | unsent => exact hsend ..
      | notify =>
          unfold Agent.notify
          split <;> exact hrefl
      | _ => exact hrefl
  | elevator hc => left; cases hc <;> exact hrefl
  | monitor hm =>
      left
      cases hm with
      | replace => exact stopMonitorNow_wire h.agent ▸ hrefl
      | _ => exact hrefl
  | stop => exact .inl (stopMonitorNow_wire h.agent ▸ hrefl)
  | dial hd => left; cases hd <;> exact hrefl
  | hangup hh =>
      left
      cases hh with
      | take => exact takeCallSession_wire h.agent ▸ hrefl
      | _ => exact hrefl
  | talk ht =>
      left
      cases ht with
      | send | sendFailed => exact hsend ..
      | _ => exact hrefl
  | video hv => left; cases hv <;> exact hrefl
  | keepalive hk =>
      left
      cases hk with
      | send => exact hsend ..
      | _ => exact hrefl
  | datagram hd =>
      cases hd with
      | received => exact .inr ⟨_, _, rfl, rfl⟩
      | _ => exact .inl hrefl

/-! ## The receive loop -/

theorem receiving_of_wirePc {pc : WirePc} (ht : t.wirePc = some pc) (hpc : pc ≠ .done) :
    t.receiving = true := by
  unfold HouseTask.wirePc at ht
  split at ht
  · next pc₀ =>
      cases pc₀ with
      | done => exact absurd (Option.some.inj ht).symm hpc
      | _ => rfl
  · rfl
  · cases ht

/-- A step never brings a task into the receive loop. -/
theorem receiving_of_step {W : Type} [Wire W] {h h' : Household W}
    (hs : HouseStep env h t h' t') (ht' : t'.receiving = true) : t.receiving = true := by
  cases hs with
  | wire ht _ hw => exact receiving_of_wirePc ht fun hpc => by rw [hpc] at hw; cases hw
  | datagram hd => cases hd <;> rfl
  | _ => cases ht'

/-- A task enters the receive loop when it is empty. -/
theorem not_receiving_of_mayStart {mode : AgentMode} {tasks : List HouseTask}
    (hmay : t.mayStart mode tasks = true) (ht : t.receiving = true) :
    ∀ u ∈ tasks, ¬ u.receiving = true := by
  intro u hu hru
  have hother := (Bool.and_eq_true_iff.mp hmay).2
  rw [ht] at hother
  have hnot := List.all_eq_true.mp hother u hu
  rw [hru] at hnot
  cases hnot

/-! ## A run -/

/-- The sender whose address the receive loop is about to learn. -/
def HouseTask.learning : HouseTask → Option Ipv4Addr
  | datagram _ _ (.learnRoom ip) => some ip
  | datagram _ _ (.learnDoor ip) => some ip
  | _ => none

theorem receiving_of_learning {ip : Ipv4Addr} (ht : t.learning = some ip) :
    t.receiving = true := by
  unfold HouseTask.learning at ht
  split at ht <;> first | rfl | cases ht

theorem learning_of_fresh (ht : t.fresh = true) : t.learning = none := by
  unfold HouseTask.fresh at ht
  split at ht <;> first | rfl | cases ht

/-- A task learns the address of the sender it has just noted. -/
theorem learning_of_step (hs : HouseStep env h t h' t') {ip : Ipv4Addr}
    (ht' : t'.learning = some ip) : t.learning = some ip ∨ ∃ sender payload,
      t = .datagram sender payload .received ∧ sender.ip = .v4 ip := by
  cases hs with
  | wire _ hpc =>
      unfold HouseTask.wirePc at hpc
      split at hpc
      · cases ht'
      · cases ht'
      · cases hpc
  | datagram hd =>
      cases hd with
      | received hpc =>
          rcases hpc with ⟨ip', hip, rfl⟩ | ⟨-, rfl⟩
          · cases ht'
            exact .inr ⟨_, _, rfl, hip⟩
          · cases ht'
      | learnRoom | noAddress => cases ht'; exact .inl rfl
      | _ => cases ht'
  | _ => cases ht'

/-- Once the door's address is known, whoever spoke last is there; and the receive loop
    learns the address of whoever spoke last. -/
structure PeerIsDoor (p : HousePool UdpWire) : Prop where
  one : AtMostOne (fun t => t.receiving = true) p.threads
  learning : ∀ t ∈ p.threads, ∀ ip, t.learning = some ip →
    ∃ peer, p.shared.agent.wire.peer = some peer ∧ peer.ip = .v4 ip
  peer : p.shared.agent.peers.doorIp.Specified → ∀ peer ∈ p.shared.agent.wire.peer,
    peer.ip = .v4 p.shared.agent.peers.doorIp

/-- Where a block is checked, the condition is the one on blocks. -/
theorem HouseTask.FromTheDoor.of_block {e : Endpoints} (hok : t.FromTheDoor h)
    (he : e ∈ t.block) (hno : ¬ h.agent.peers.doorIp.Specified) :
    h.agent.peers.Accepts e → e.door.ip.Specified →
      ∀ peer ∈ h.agent.wire.peer, peer.ip = .v4 e.door.ip := by
  unfold HouseTask.FromTheDoor at hok
  split at hok
  · cases he
  · exact hok hno e he

namespace PeerIsDoor

variable {p : HousePool UdpWire} {i : Nat}

theorem start (hp : PeerIsDoor p) (hmay : t.mayStart .pad p.threads = true) :
    PeerIsDoor ⟨p.shared, p.threads ++ [t]⟩ where
  one := hp.one.append (not_receiving_of_mayStart hmay)
  learning u hu ip hip := by
    rcases List.mem_append.mp hu with hu | hu
    · exact hp.learning u hu ip hip
    · obtain rfl := List.mem_singleton.mp hu
      rw [learning_of_fresh (HouseTask.fresh_of_mayStart hmay)] at hip
      cases hip
  peer := hp.peer

/-- The receive loop notes a sender: no other task is in the loop, so none learns. -/
theorem received {sender : SocketAddr} {payload : Bytes} {pc' : DatagramPc}
    (hp : PeerIsDoor p) (ht : p.threads[i]? = some (.datagram sender payload .received))
    (hs : DatagramStep env p.shared sender payload .received h' pc')
    (hok : (HouseTask.datagram sender payload .received).FromTheDoor p.shared) :
    PeerIsDoor ⟨h', p.threads.set i (.datagram sender payload pc')⟩ := by
  have hstep : HouseStep env p.shared (.datagram sender payload .received) h'
      (.datagram sender payload pc') := .datagram hs
  refine ⟨hp.one.set ht (receiving_of_step hstep), fun u hu ip hip => ?_,
    fun hspec peer hpeer => ?_⟩
  · obtain ⟨j, hj⟩ := List.mem_iff_getElem?.mp hu
    rcases getElem?_set_cases hj with ⟨rfl, rfl⟩ | ⟨hne, hj⟩
    · rcases learning_of_step hstep hip with hip | ⟨sender', payload', heq, hsender⟩
      · cases hip
      · cases heq
        cases hs
        exact ⟨sender, rfl, hsender⟩
    · exact absurd (hp.one j i u _ hj ht (receiving_of_learning hip) rfl) hne
  · cases hs
    obtain rfl := Option.some.inj hpeer
    exact hok hspec

/-- Any other step leaves the peer, and makes the door's address known as the peer's. -/
theorem other (hp : PeerIsDoor p) (ht : p.threads[i]? = some t)
    (hs : HouseStep env p.shared t h' t') (hok : t.FromTheDoor p.shared)
    (hno : ∀ sender payload, t ≠ .datagram sender payload .received) :
    PeerIsDoor ⟨h', p.threads.set i t'⟩ := by
  have hmem : t ∈ p.threads := List.mem_of_getElem? ht
  have hwire : h'.agent.wire.peer = p.shared.agent.wire.peer := by
    rcases house_wire hs with hw | ⟨sender, payload, heq, -⟩
    · exact hw.peer
    · exact absurd heq (hno sender payload)
  refine ⟨hp.one.set ht (receiving_of_step hs), fun u hu ip hip => ?_, fun hspec peer hpeer => ?_⟩
  · rw [hwire]
    rcases List.mem_or_eq_of_mem_set hu with hu | rfl
    · exact hp.learning u hu ip hip
    · rcases learning_of_step hs hip with hip | ⟨sender, payload, heq, -⟩
      · exact hp.learning t hmem ip hip
      · exact absurd heq (hno sender payload)
  · rw [hwire] at hpeer
    rcases house_doorIp hs with hdoor | ⟨e, he, hdoor⟩ | ⟨sender, payload, ip, rfl, hdoor⟩
    · rw [hdoor] at hspec ⊢
      exact hp.peer hspec peer hpeer
    · rw [hdoor] at hspec ⊢
      split
      · next haccept =>
          rw [if_pos haccept] at hspec
          by_cases hknown : p.shared.agent.peers.doorIp.Specified
          · rw [haccept.door.ip hknown]
            exact hp.peer hknown peer hpeer
          · exact hok.of_block he hknown haccept hspec peer hpeer
      · next hkeep =>
          rw [if_neg hkeep] at hspec
          exact hp.peer hspec peer hpeer
    · rw [hdoor] at hspec ⊢
      split
      · obtain ⟨noted, hnoted, hip⟩ := hp.learning _ hmem ip rfl
        obtain rfl : noted = peer := Option.some.inj (hnoted.symm.trans hpeer)
        exact hip
      · next hkeep =>
          rw [if_neg hkeep] at hspec
          exact hp.peer hspec peer hpeer

theorem step (hp : PeerIsDoor p) (ht : p.threads[i]? = some t)
    (hs : HouseStep env p.shared t h' t') (hok : t.FromTheDoor p.shared) :
    PeerIsDoor ⟨h', p.threads.set i t'⟩ := by
  by_cases hrec : ∃ sender payload, t = .datagram sender payload .received
  · obtain ⟨sender, payload, rfl⟩ := hrec
    cases hs with
    | wire hpc => cases hpc
    | datagram hd => exact hp.received ht hd hok
  · exact hp.other ht hs hok fun sender payload heq => hrec ⟨sender, payload, heq⟩

/-- What a step sends goes to the door. -/
theorem sends (hp : PeerIsDoor p) (hs : HouseStep env p.shared t h' t')
    (hspec : p.shared.agent.peers.doorIp.Specified) :
    ∀ d ∈ h'.agent.wire.out.drop p.shared.agent.wire.out.length,
      d.1.ip = .v4 p.shared.agent.peers.doorIp := by
  intro d hd
  rcases house_wire hs with hw | ⟨sender, payload, -, hw⟩
  · exact hp.peer hspec d.1 (hw.out d hd)
  · rw [hw, List.drop_length] at hd
    cases hd

theorem next {m : HouseMove} {q : HousePool UdpWire} (hp : PeerIsDoor p)
    (hok : FromTheDoor p m) (hq : (houseProgram .pad UdpWire).system.next p m = some q) :
    PeerIsDoor q ∧ ToTheDoor (padNotes p m q) := by
  rcases Program.next_cases hq with
    ⟨t, rfl, hmay, rfl⟩ | ⟨i, env, t, h', t', rfl, ht, hstep, rfl⟩ | ⟨l, rfl, rfl⟩
  · exact ⟨hp.start hmay, fun _ hn => nomatch hn⟩
  · have hs := houseStep_cases hstep
    refine ⟨hp.step ht hs (hok t ht), fun n hn hspec => ?_⟩
    unfold padNotes at hn
    dsimp only at hn
    rw [ht, Option.elim_some] at hn
    split at hn
    · obtain ⟨d, hd, rfl⟩ := List.mem_map.mp hn
      exact hp.sends hs hspec d hd
    · cases hn
  · exact ⟨hp, fun _ hn => nomatch hn⟩

end PeerIsDoor

end

/-- **Pad-originated packets go to the known door**, in every run in which, once its address
    is known, datagrams come from there, and no block makes another address known than that of
    whoever spoke last. -/
theorem pad_sends_to_the_door (peers : Peers) (cooldown : Nat) (policy : Bool)
    (history : MediaRing) (elevatorDoor : Option String) (moves : List HouseMove)
    (p : HousePool UdpWire) (notes : List PadNote)
    (hrun : ((houseProgram .pad UdpWire).system.withHistory padNotes).run
      (idleHouse (.new .bind peers cooldown policy history elevatorDoor), []) moves =
        some (p, notes))
    (hdoor : ((houseProgram .pad UdpWire).system.withHistory padNotes).Meets
      (fun s m => FromTheDoor s.1 m)
      (idleHouse (.new .bind peers cooldown policy history elevatorDoor), []) moves) :
    ToTheDoor notes := by
  have hinit : PeerIsDoor (idleHouse (.new .bind peers cooldown policy history elevatorDoor)) :=
    { one := .nil
      learning := fun _ ht => nomatch ht
      peer := fun _ _ hpeer => nomatch hpeer }
  have hnil : ToTheDoor [] := fun n hn => absurd hn List.not_mem_nil
  have hboth : PeerIsDoor p ∧ ToTheDoor notes := by
    refine System.run_induction_noted (P := fun p notes => PeerIsDoor p ∧ ToTheDoor notes)
      (fun p m q notes hP hok hq => ?_) ⟨hinit, hnil⟩ hdoor hrun
    obtain ⟨hp, hnew⟩ := hP.1.next hok hq
    exact ⟨hp, fun n hn => (List.mem_append.mp hn).elim (hP.2 n) (hnew n)⟩
  exact hboth.2

/-- The known door rings. -/
def doorRings : List HouseMove :=
  serve 0 (.datagram ⟨.v4 Endpoints.captured.door.ip, 10000⟩ capturedRing .received) 12

/-- The known door rings, and a keepalive goes out. -/
theorem keepalive_to_the_door : ∃ p notes,
    ((houseProgram .pad UdpWire).system.withHistory padNotes).run (idleHouse pinnedPadAgent, [])
        (doorRings ++ serve 1 (.keepalive .readPeers) 3) = some (p, notes) ∧
      notes ≠ [] ∧ ToTheDoor notes := by
  have hmeets : ((houseProgram .pad UdpWire).system.withHistory padNotes).Meets
      (fun s m => FromTheDoor s.1 m) (idleHouse pinnedPadAgent, [])
        (doorRings ++ serve 1 (.keepalive .readPeers) 3) := by
    decide +kernel
  have hend : (((houseProgram .pad UdpWire).system.withHistory padNotes).run
      (idleHouse pinnedPadAgent, []) (doorRings ++ serve 1 (.keepalive .readPeers) 3)).map
        (fun s => s.2.length) = some 1 := by
    decide +kernel
  obtain ⟨⟨p, notes⟩, hrun, hone⟩ := Option.map_eq_some_iff.mp hend
  refine ⟨p, notes, hrun, List.ne_nil_of_length_pos (by rw [hone]; decide), ?_⟩
  exact pad_sends_to_the_door pinnedPadAgent.peers 5000 false (.new 0 0) none _ p notes hrun hmeets

/-- The known door rings, a stranger sends an empty datagram, and the keepalive goes to the
    stranger. -/
theorem stranger_draws_the_keepalive : ∃ moves p notes,
    ((houseProgram .pad UdpWire).system.withHistory padNotes).run (idleHouse pinnedPadAgent, [])
        moves = some (p, notes) ∧ ¬ ToTheDoor notes := by
  have hend : (((houseProgram .pad UdpWire).system.withHistory padNotes).run
      (idleHouse pinnedPadAgent, [])
        (doorRings ++ serve 1 (.datagram ⟨.v4 neighbours.door.ip, 10000⟩ [] .received) 4 ++
          serve 2 (.keepalive .readPeers) 3)).map (fun s => decide (ToTheDoor s.2)) =
            some false := by
    decide +kernel
  obtain ⟨⟨p, notes⟩, hrun, hno⟩ := Option.map_eq_some_iff.mp hend
  exact ⟨_, p, notes, hrun, of_decide_eq_false hno⟩

end Michoi
