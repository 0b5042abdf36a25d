/-
  A door and a Pad agree on the call, on a street that delivers what the door sends in order.

  `Street.line` is the call of a street without its datagrams, and each move of the street is
  a step of that line or none (`street_refines`). So when nothing is under way the Agent has a
  call ringing where the door is calling, and connected where the door has heard the answer
  (`street_agrees`).
-/
import Michoi.Lib.Refinement
import Michoi.Street.Told

namespace Michoi

open Lib

/-! ## The household -/

/-- The household on a street. -/
structure PadOnStreet (addr : SocketAddr) (e : Endpoints) (p : HousePool UdpWire) : Prop where
  ledger : Ledger p
  agent : p.shared.agent.AtDoor e
  tasks : ∀ t ∈ p.threads, t.AtDoor addr e
  one : AtMostOne (fun t => t.receiving = true) p.threads
  peer : ∀ peer, p.shared.agent.wire.peer = some peer → peer = addr
  /-- Before its first datagram the Pad has no call, and nowhere to send to. -/
  unheard : p.shared.agent.wire.peer = none → p.shared.agent.phase = .idle ∧
    ∀ t ∈ p.threads, t.inHand = none ∧
      (t.words ≠ [] → ∃ sender payload, t = .datagram sender payload .received)

/-- Everything that a step hands to the socket is for the door. -/
theorem Street.newTo_eq {addr : SocketAddr} {env : HouseEnv} {p : HousePool UdpWire}
    {h' : Household UdpWire} {t t' : HouseTask} {said : List Bytes} (threads : List HouseTask)
    (hpeer : ∀ peer, p.shared.agent.wire.peer = some peer → peer = addr)
    (hs : HouseStep env p.shared t h' t') (hands : Hands p.shared t h' t' said) :
    newTo addr p ⟨h', threads⟩ = said := by
  have hsaid : (h'.agent.wire.out.drop p.shared.agent.wire.out.length).map Prod.snd = said := by
    have hpackets := hands.packets
    unfold Household.packets at hpackets
    rw [List.map_drop, hpackets, List.drop_left' (List.length_map _)]
  have hto : ∀ d ∈ h'.agent.wire.out.drop p.shared.agent.wire.out.length, d.1 = addr := by
    intro d hd
    rcases house_wire hs with hw | ⟨sender, payload, -, hw⟩
    · exact hpeer d.1 (hw.out d hd)
    · rw [hw, List.drop_length] at hd
      cases hd
  rw [← hsaid, ← List.filterMap_eq_map]
  exact List.filterMap_congr fun d hd => if_pos (hto d hd)

/-- A handler that takes a datagram in notes the sender. -/
theorem peer_of_received {env : HouseEnv} {h h' : Household UdpWire} {t' : HouseTask}
    {sender : SocketAddr} {payload : Bytes}
    (hs : (HouseTask.datagram sender payload .received).step env h = some (h', t')) :
    h'.agent.wire.peer = some sender := by
  obtain ⟨⟨q, pc'⟩, hr, heq⟩ := Option.map_eq_some_iff.mp hs
  obtain ⟨rfl, -⟩ := Prod.mk.inj heq
  unfold datagramStep at hr
  dsimp only at hr
  split at hr <;> cases hr <;> rfl

namespace PadOnStreet

variable {addr : SocketAddr} {e : Endpoints} {p : HousePool UdpWire}

theorem start {peers : Peers} (hpeers : peers.Accepts e) (cooldown : Nat) (policy : Bool)
    (windowUs maxBytes : Nat) (elevatorDoor : Option String) :
    PadOnStreet addr e (idleHouse
      (.new .bind peers cooldown policy (.new windowUs maxBytes) elevatorDoor)) where
  ledger := .start rfl
  agent := ⟨hpeers, rfl, rfl⟩
  tasks _ h := absurd h List.not_mem_nil
  one := .nil
  peer _ h := nomatch h
  unheard _ := ⟨rfl, fun _ h => absurd h List.not_mem_nil⟩

/-- A handler starts. -/
theorem append {t : HouseTask} (hp : PadOnStreet addr e p)
    (hmay : t.mayStart .pad p.threads = true) (ht : t.AtDoor addr e) (hhand : t.inHand = none)
    (hwords : t.words ≠ [] → ∃ sender payload, t = .datagram sender payload .received) :
    PadOnStreet addr e ⟨p.shared, p.threads ++ [t]⟩ where
  ledger := hp.ledger.next (Program.next_start (P := houseProgram .pad UdpWire) hmay)
  agent := hp.agent
  tasks u hu := by
    rcases List.mem_append.mp hu with hu | hu
    · exact hp.tasks u hu
    · exact List.mem_singleton.mp hu ▸ ht
  one := hp.one.append (not_receiving_of_mayStart hmay)
  peer := hp.peer
  unheard hnone := by
    obtain ⟨hidle, hall⟩ := hp.unheard hnone
    refine ⟨hidle, fun u hu => ?_⟩
    rcases List.mem_append.mp hu with hu | hu
    · exact hall u hu
    · rw [List.mem_singleton.mp hu]
      exact ⟨hhand, hwords⟩

/-- **A handler steps.** -/
theorem step (hp : PadOnStreet addr e p) (hip : addr.ip = .v4 e.door.ip)
    (hspec : e.door.ip.Specified) (he : e.Fits) {env : HouseEnv} (henv : env.Plain e) {i : Nat}
    {t t' : HouseTask} {h' : Household UdpWire} (ht : p.threads[i]? = some t)
    (hs : t.step env p.shared = some (h', t')) :
    PadOnStreet addr e ⟨h', p.threads.set i t'⟩ ∧
      Tells p.shared t h' t' (Street.newTo addr p ⟨h', p.threads.set i t'⟩) := by
  have hmem := List.mem_of_getElem? ht
  have hcases := houseStep_cases hs
  obtain ⟨said, hands⟩ := hands_of_step hcases (hp.ledger.speaks t hmem)
  have hpeer : t.inHand ≠ none → ∃ peer, p.shared.agent.wire.peer = some peer := fun hhand =>
    Option.ne_none_iff_exists'.mp fun hnone => hhand ((hp.unheard hnone).2 t hmem).1
  obtain ⟨hagent, htask, htells⟩ :=
    tells_of_step hip hspec he henv hp.agent (hp.tasks t hmem) hpeer hs hands
  rw [Street.newTo_eq _ hp.peer hcases hands]
  have hnext := Program.next_step (P := houseProgram .pad UdpWire) ht hs
  refine ⟨⟨hp.ledger.next hnext, hagent, fun u hu => ?_, hp.one.set ht (receiving_of_step hcases),
    fun peer hnoted => ?_, fun hnone => ?_⟩, htells⟩
  · rcases List.mem_or_eq_of_mem_set hu with hu | rfl
    · exact hp.tasks u hu
    · exact htask
  · rcases house_wire hcases with hw | ⟨sender, payload, rfl, hw⟩
    · exact hp.peer peer (hw.peer.symm.trans hnoted)
    · change h'.agent.wire.peer = some peer at hnoted
      rw [hw] at hnoted
      exact Option.some.inj hnoted ▸ (hp.tasks _ hmem).1
  · have hbefore : p.shared.agent.wire.peer = none := by
      rcases house_wire hcases with hw | ⟨sender, payload, -, hw⟩
      · exact hw.peer.symm.trans hnone
      · change h'.agent.wire.peer = none at hnone
        rw [hw] at hnone
        cases hnone
    obtain ⟨hidle, hall⟩ := hp.unheard hbefore
    obtain ⟨hhand, hwords⟩ := hall t hmem
    have hsilent : t.words = [] := by
      by_contra hne
      obtain ⟨sender, payload, rfl⟩ := hwords hne
      cases (peer_of_received hs).symm.trans hnone
    obtain ⟨hidle', hhand', hsilent'⟩ :
        h'.agent.phase = .idle ∧ t'.inHand = none ∧ t'.words = [] := by
      cases htells with
      | quiet hphase hw hh =>
          refine ⟨hphase.trans hidle, ?_, hw.trans hsilent⟩
          rw [hhand] at hh
          exact Option.toList_eq_nil_iff.mp (List.append_eq_nil_iff.mp hh.symm).2
      | take hw => rw [hsilent] at hw; cases hw
      | claim hphase => rw [hidle] at hphase; cases hphase
      | hangUp hphase => exact absurd hidle hphase
    refine ⟨hidle', fun u hu => ?_⟩
    rcases List.mem_or_eq_of_mem_set hu with hu | rfl
    · exact hall u hu
    · exact ⟨hhand', fun hne => absurd hsilent' hne⟩

end PadOnStreet

/-! ## The street -/

/-- The call of a street. -/
def Street.line (s : Street) : CallLine where
  stage := s.door.pc.stage
  inbox := s.pad.threads.flatMap HouseTask.words ++ s.toPad.filterMap wordOf
  outbox := (s.pad.threads.filterMap HouseTask.inHand : Multiset Word) + s.toDoor.filterMap wordOf
  phase := s.pad.shared.agent.phase
  answered := s.door.ear.obs.answered
  stop := s.door.ear.stop

/-- A request other than to view a camera or to call another station. -/
def HouseTask.plain : HouseTask → Bool
  | startMonitor .. => false
  | dial .. => false
  | _ => true

/-- The household has no session but its call with the door, what its handlers send goes out,
    and the network loses nothing and delivers in order what the door sends. -/
def StreetMove.Orderly (e : Endpoints) : StreetMove → Prop
  | pad (.start t) => t.plain = true
  | pad (.step _ env) => env.Plain e
  | arrive i => i = 0
  | padward .. => False
  | doorward fate _ => fate = .double
  | _ => True

/-- What holds of an orderly street. -/
structure OnStreet (addr : SocketAddr) (e : Endpoints) (s : Street) : Prop where
  endpoints : s.door.endpoints = e
  inOrder : s.door.InOrder
  rings : ∀ left request, s.door.pc = .ring left request → left ≤ 3
  said : ∀ raw ∈ s.toPad, FromDoor e raw
  replied : ∀ raw ∈ s.toDoor, raw ∈ s.pad.shared.packets
  pad : PadOnStreet addr e s.pad

theorem HouseTask.atDoor_of_mayStart {t : HouseTask} {tasks : List HouseTask} (addr : SocketAddr)
    (e : Endpoints) (hmay : t.mayStart .pad tasks = true) (hplain : t.plain = true)
    (hno : t.isDatagram = false) : t.AtDoor addr e := by
  have hfresh := fresh_of_mayStart hmay
  cases t with
  | agent t =>
      cases t with
      | command action commandId pc =>
          cases pc with
          | lookup => trivial
          | _ => cases hfresh
      | elevator => trivial
      | wire pc =>
          unfold mayStart at hmay
          rw [Bool.and_eq_true, Bool.and_eq_true] at hmay
          cases hmay.1.2
  | startMonitor | dial => cases hplain
  | datagram => cases hno
  | _ => trivial

section

variable {addr : SocketAddr} {e : Endpoints} {s t : Street} {m : StreetMove}

/-- The words in hand, when a handler steps. -/
theorem inHand_set {tasks : List HouseTask} {i : Nat} {u u' : HouseTask}
    (hu : tasks[i]? = some u) :
    (u.inHand.toList : Multiset Word) + (tasks.set i u').filterMap HouseTask.inHand =
      (u'.inHand.toList : Multiset Word) + tasks.filterMap HouseTask.inHand := by
  rw [Multiset.coe_add, Multiset.coe_add]
  exact Multiset.coe_eq_coe.mpr (filterMap_set_perm _ hu)

/-- What a handler tells is a step of the line. -/
theorem Street.line_of_tells {i : Nat} {u u' : HouseTask} {h' : Household UdpWire}
    {said : List Bytes} (hone : AtMostOne (fun t => t.receiving = true) s.pad.threads)
    (hu : s.pad.threads[i]? = some u) (htells : Tells s.pad.shared u h' u' said)
    (ht : t = { s with pad := ⟨h', s.pad.threads.set i u'⟩, toDoor := s.toDoor ++ said }) :
    t.line = s.line ∨ CallLine.Step s.line t.line := by
  have hout : (u.inHand.toList : Multiset Word) + t.line.outbox =
      u'.inHand.toList + said.filterMap wordOf + s.line.outbox := by
    have hset : (u.inHand.toList : Multiset Word) +
        (s.pad.threads.set i u').filterMap HouseTask.inHand = u'.inHand.toList + _ := inHand_set hu
    subst ht
    unfold line
    dsimp only
    rw [List.filterMap_append, ← Multiset.coe_add, ← add_assoc, hset]
    ac_rfl
  have hsame (hw : u'.words = u.words) : t.line.inbox = s.line.inbox := by
    subst ht
    exact congrArg (· ++ s.toPad.filterMap wordOf) (flatMap_set_same hu hw)
  have hphase : t.line.phase = h'.agent.phase := by rw [ht]; rfl
  have hdoor : t.line.stage = s.line.stage ∧ t.line.answered = s.line.answered ∧
      t.line.stop = s.line.stop := by
    rw [ht]
    exact ⟨rfl, rfl, rfl⟩
  obtain ⟨hstage, hanswered, hstop⟩ := hdoor
  cases htells with
  | quiet hp hw hh =>
      left
      rw [hh, ← Multiset.coe_add, add_comm (u'.inHand.toList : Multiset Word)] at hout
      exact CallLine.ext hstage (hsame hw) (add_left_cancel hout) (hphase.trans hp) hanswered hstop
  | @take w hw hp hh hh' hs =>
      right
      -- Only this handler is in the receive loop, so its words are the first to come.
      have hreceiving : u.receiving = true :=
        HouseTask.receiving_of_words fun hnil => by rw [hnil] at hw; cases hw
      have hother : ∀ (j : Nat) k, j ≠ i → s.pad.threads[j]? = some k → k.words = [] :=
        fun j k hj hk => HouseTask.words_of_not_receiving fun hk' =>
          hj (hone j i k u hk hu hk' hreceiving)
      have hbefore : s.line.inbox = w :: (u'.words ++ s.toPad.filterMap wordOf) := by
        change s.pad.threads.flatMap HouseTask.words ++ _ = _
        rw [flatMap_alone hu hother, hw]
        rfl
      have hafter : t.line.inbox = u'.words ++ s.toPad.filterMap wordOf := by
        subst ht
        refine congrArg (· ++ s.toPad.filterMap wordOf) (flatMap_alone (getElem?_set_self hu) ?_)
        exact fun j k hj hk => hother j k hj ((getElem?_set_other hj).symm.trans hk)
      rw [hh, hh', hs] at hout
      have hline : t.line = { s.line with
          inbox := u'.words ++ s.toPad.filterMap wordOf
          phase := CallLine.after s.line.phase w } :=
        CallLine.ext hstage hafter (by simpa using hout) (hphase.trans hp) hanswered hstop
      rw [hline]
      exact .take hbefore
  | claim hp hp' hw hh hh' hs =>
      right
      rw [hh, hh', hs] at hout
      have hline : t.line = { s.line with
          phase := .connected
          outbox := .answer ::ₘ s.line.outbox } :=
        CallLine.ext hstage (hsame hw) (by simpa using hout) (hphase.trans hp') hanswered hstop
      rw [hline]
      exact .claim hp
  | hangUp hp hp' hw hh hh' hs =>
      right
      rw [hh, hh', hs] at hout
      have hline : t.line = { s.line with phase := .idle, outbox := .bye ::ₘ s.line.outbox } :=
        CallLine.ext hstage (hsame hw) (by simpa using hout) (hphase.trans hp') hanswered hstop
      rw [hline]
      exact .hangUp hp

/-- The words that a datagram of the door brings. -/
theorem FromDoor.words {raw : Bytes} (h : FromDoor e raw) :
    (HouseTask.datagram addr raw .received).words = (wordOf raw).toList := by
  change (splitCoalesced raw).filterMap wordOf = _
  rw [h.split, List.filterMap_cons]
  cases wordOf raw <;> rfl

/-- The Pad's receive loop takes the oldest datagram. -/
theorem Street.line_of_arrive {raw : Bytes} {rest : List Bytes} (hraw : FromDoor e raw)
    (hflight : s.toPad = raw :: rest)
    (hmay : (HouseTask.datagram addr raw .received).mayStart .pad s.pad.threads = true) :
    ({ s with
        pad := ⟨s.pad.shared, s.pad.threads ++ [.datagram addr raw .received]⟩
        toPad := rest } : Street).line = s.line := by
  have hnone : s.pad.threads.flatMap HouseTask.words = [] := by
    rw [List.flatMap_eq_nil_iff]
    intro u hu
    exact HouseTask.words_of_not_receiving (not_receiving_of_mayStart hmay rfl u hu)
  unfold line
  dsimp only
  rw [List.flatMap_append, hnone, List.flatMap_singleton, hraw.words, hflight,
    List.filterMap_cons, List.filterMap_append]
  have hhand : [HouseTask.datagram addr raw .received].filterMap HouseTask.inHand = [] := rfl
  rw [hhand, List.append_nil]
  cases wordOf raw <;> rfl

/-- A request of the household. -/
theorem Street.line_of_start {u : HouseTask} (hwords : u.words = []) (hhand : u.inHand = none) :
    ({ s with pad := ⟨s.pad.shared, s.pad.threads ++ [u]⟩ } : Street).line = s.line := by
  unfold line
  dsimp only
  rw [List.flatMap_append, List.flatMap_singleton, hwords, List.append_nil, List.filterMap_append,
    List.filterMap_cons, hhand, List.filterMap_nil, List.append_nil]

/-- What the door tells is a step of the line. -/
theorem Street.line_of_door {d : Emulator} {sent : List Bytes} (hear : d.ear = s.door.ear)
    (h : DoorTells s.door.pc.stage d.pc.stage (sent.filterMap wordOf)) :
    ({ s with door := d, toPad := s.toPad ++ sent } : Street).line = s.line ∨
      CallLine.Step s.line ({ s with door := d, toPad := s.toPad ++ sent } : Street).line := by
  have hline : ({ s with door := d, toPad := s.toPad ++ sent } : Street).line = { s.line with
      stage := d.pc.stage
      inbox := s.line.inbox ++ sent.filterMap wordOf } := by
    unfold line
    dsimp only
    rw [hear, List.filterMap_append, List.append_assoc]
  rw [hline]
  generalize sent.filterMap wordOf = words at h
  generalize d.pc.stage = stage' at h
  generalize hbefore : s.door.pc.stage = stage at h
  cases h with
  | quiet =>
      left
      rw [← hbefore, List.append_nil]
      rfl
  | ring hstage =>
      subst hbefore
      exact .inr (.ring hstage)
  | leave => exact .inr (.leave hbefore)
  | fail =>
      right
      rw [List.append_nil]
      exact .fail

/-- What the door hears is a step of the line. -/
theorem Street.line_of_hear {raw : Bytes} {i : Nat} (hraw : s.toDoor[i]? = some raw)
    (hsplit : splitCoalesced raw = [raw])
    (ht : t = { s with door := s.door.hear raw, toDoor := s.toDoor.eraseIdx i }) :
    t.line = s.line ∨ CallLine.Step s.line t.line := by
  obtain ⟨hanswered, hstop⟩ := DoorEar.hear_word s.door.ear hsplit
  have hout : s.line.outbox = ((wordOf raw).toList : Multiset Word) + t.line.outbox := by
    obtain ⟨hi, rfl⟩ := List.getElem?_eq_some_iff.mp hraw
    have hperm := (List.getElem_cons_eraseIdx_perm hi).filterMap wordOf
    have hwords : (s.toDoor.filterMap wordOf : Multiset Word) =
        (wordOf s.toDoor[i]).toList + (s.toDoor.eraseIdx i).filterMap wordOf := by
      rw [Multiset.coe_add, ← Multiset.coe_eq_coe.mpr hperm, List.filterMap_cons]
      cases wordOf s.toDoor[i] <;> rfl
    rw [ht]
    unfold line
    dsimp only
    rw [hwords]
    ac_rfl
  by_cases hdone : s.door.pc = .done
  · have hline : t.line = { s.line with outbox := t.line.outbox } := by
      have hsame : s.door.hear raw = s.door := by
        unfold Emulator.hear
        rw [hdone]
      rw [ht, hsame]
      rfl
    cases hw : wordOf raw with
    | none =>
        rw [hw] at hout
        exact .inl (hline.trans (CallLine.ext rfl rfl (by rw [hout]; simp) rfl rfl rfl))
    | some w =>
        rw [hw] at hout
        have hleft : s.line.stage = .left := congrArg EmulatorPc.stage hdone
        rw [hline]
        exact .inr (.miss (by simpa using hout) hleft)
  · have hear : s.door.hear raw = { s.door with ear := s.door.ear.hear raw } := by
      unfold Emulator.hear
      split
      · next h => exact absurd h hdone
      · rfl
    have hline : t.line = { s.line with
        outbox := t.line.outbox
        answered := s.line.answered || wordOf raw == some .answer
        stop := s.line.stop || wordOf raw == some .bye } := by
      rw [ht, hear]
      exact CallLine.ext rfl rfl rfl rfl hanswered hstop
    cases hw : wordOf raw with
    | none =>
        rw [hw] at hout hline
        left
        rw [hline]
        exact CallLine.ext rfl rfl (by rw [hout]; simp) rfl (Bool.or_false _) (Bool.or_false _)
    | some w =>
        rw [hw] at hout hline
        right
        rw [hline]
        exact .hear (by simpa using hout)

/-- The network doubles what is on its way to the door. -/
theorem Street.line_of_double {i : Nat}
    (ht : t = { s with toDoor := Fate.double.apply i s.toDoor }) :
    t.line = s.line ∨ CallLine.Step s.line t.line := by
  have hout : t.line.outbox = (s.toDoor[i]?.bind wordOf).toList + s.line.outbox := by
    rw [ht]
    unfold line Fate.apply
    dsimp only
    have hwords : (s.toDoor[i]?).toList.filterMap wordOf = (s.toDoor[i]?.bind wordOf).toList := by
      cases s.toDoor[i]? with
      | none => rfl
      | some raw =>
          change [raw].filterMap wordOf = (wordOf raw).toList
          rw [List.filterMap_cons]
          cases wordOf raw <;> rfl
    rw [List.filterMap_append, hwords, ← Multiset.coe_add]
    ac_rfl
  have hline : t.line = { s.line with outbox := t.line.outbox } := by rw [ht]; rfl
  cases hw : s.toDoor[i]?.bind wordOf with
  | none =>
      rw [hw] at hout
      exact .inl (hline.trans (CallLine.ext rfl rfl (by rw [hout]; simp) rfl rfl rfl))
  | some w =>
      obtain ⟨raw, hraw, hword⟩ := Option.bind_eq_some_iff.mp hw
      rw [hw] at hout
      have hmem : w ∈ s.line.outbox := by
        refine Multiset.mem_add.mpr (.inr (Multiset.mem_coe.mpr ?_))
        exact List.mem_filterMap.mpr ⟨raw, List.mem_of_getElem? hraw, hword⟩
      rw [hline, show t.line.outbox = w ::ₘ s.line.outbox by simpa using hout]
      exact .inr (.double hmem)

/-! ## All moves -/

theorem Street.newTo_same (addr : SocketAddr) (p : HousePool UdpWire) (threads : List HouseTask) :
    newTo addr p ⟨p.shared, threads⟩ = [] := by
  unfold newTo
  rw [List.drop_length, List.filterMap_nil]

namespace OnStreet

theorem start {peers : Peers} (hpeers : peers.Accepts e) (media : MediaSource) (cooldown : Nat)
    (policy : Bool) (windowUs maxBytes : Nat) (elevatorDoor : Option String) :
    OnStreet addr e (.start e media
      (.new .bind peers cooldown policy (.new windowUs maxBytes) elevatorDoor)) where
  endpoints := rfl
  inOrder := .start e media
  rings _ _ h := nomatch h
  said := nofun
  replied := nofun
  pad := .start hpeers ..

theorem door {tick : EmulatorTick} {d : Emulator} {sent : List Bytes} (hs : OnStreet addr e s)
    (he : e.Fits) (hstep : s.door.step tick = some (d, sent)) :
    let t := { s with door := d, toPad := s.toPad ++ sent }
    OnStreet addr e t ∧ (t.line = s.line ∨ CallLine.Step s.line t.line) := by
  have hcases := emulatorStep_cases hstep
  have hfits : s.door.endpoints.Fits := hs.endpoints.symm ▸ he
  have hsame := hcases.later.endpoints.trans hs.endpoints
  refine ⟨⟨hsame, hcases.inOrder hs.inOrder, hcases.ring_le hs.rings, fun raw hraw => ?_,
    hs.replied, hs.pad⟩,
    Street.line_of_door hcases.ear (door_tells hcases hs.inOrder hfits hs.rings)⟩
  rcases List.mem_append.mp hraw with hraw | hraw
  · exact hs.said raw hraw
  · exact ⟨d, hsame, hcases.spoken_of_mem hs.inOrder hraw⟩

/-- A move of the household. -/
theorem house {m : HouseMove} {p : HousePool UdpWire} (hs : OnStreet addr e s)
    (hip : addr.ip = .v4 e.door.ip) (hspec : e.door.ip.Specified) (he : e.Fits)
    (hm : (StreetMove.pad m).Orderly e) (hno : startsDatagram m = false)
    (hp : (houseProgram .pad UdpWire).system.next s.pad m = some p) :
    let t := { s with pad := p, toDoor := s.toDoor ++ Street.newTo addr s.pad p }
    OnStreet addr e t ∧ (t.line = s.line ∨ CallLine.Step s.line t.line) := by
  have hprefix := hs.pad.ledger.packets_next hp
  have hreplied : ∀ raw ∈ s.toDoor ++ Street.newTo addr s.pad p, raw ∈ p.shared.packets := by
    intro raw hraw
    rcases List.mem_append.mp hraw with hraw | hraw
    · exact hprefix.subset (hs.replied raw hraw)
    · exact Street.mem_newTo hraw
  rcases Program.next_cases hp with
    ⟨u, rfl, hmay, rfl⟩ | ⟨i, env, u, h', u', rfl, hu, hstep, rfl⟩ | ⟨l, rfl, rfl⟩
  · obtain ⟨hwords, hhand⟩ := HouseTask.wordless_of_mayStart hmay fun sender payload pc h => by
      rw [h] at hno
      cases hno
    have hpad := hs.pad.append hmay (HouseTask.atDoor_of_mayStart addr e hmay hm hno) hhand
      fun hne => absurd hwords hne
    refine ⟨⟨hs.endpoints, hs.inOrder, hs.rings, hs.said, hreplied, hpad⟩, .inl ?_⟩
    rw [Street.newTo_same, List.append_nil]
    exact Street.line_of_start hwords hhand
  · obtain ⟨hpad, htells⟩ := hs.pad.step hip hspec he hm hu hstep
    exact ⟨⟨hs.endpoints, hs.inOrder, hs.rings, hs.said, hreplied, hpad⟩,
      Street.line_of_tells hs.pad.one hu htells rfl⟩
  · refine ⟨⟨hs.endpoints, hs.inOrder, hs.rings, hs.said, hreplied, hs.pad⟩, .inl ?_⟩
    have hsilent : Street.newTo addr s.pad
        ⟨(houseProgram .pad UdpWire).outside l s.pad.shared, s.pad.threads⟩ = [] :=
      Street.newTo_same addr s.pad s.pad.threads
    rw [hsilent, List.append_nil]
    rfl

/-- **One move of an orderly street.** -/
theorem next (hs : OnStreet addr e s) (hip : addr.ip = .v4 e.door.ip)
    (hspec : e.door.ip.Specified) (he : e.Fits) (hm : m.Orderly e)
    (ht : (streetSystem addr).next s m = some t) :
    OnStreet addr e t ∧ (t.line = s.line ∨ CallLine.Step s.line t.line) := by
  cases street_cases ht with
  | door hstep => exact hs.door he hstep
  | pad hno hp => exact hs.house hip hspec he hm hno hp
  | @arrive i raw hraw hmay =>
      obtain rfl : i = 0 := hm
      have hfrom := hs.said raw (List.mem_of_getElem? hraw)
      cases hflight : s.toPad with
      | nil =>
          rw [hflight] at hraw
          cases hraw
      | cons first rest =>
          rw [hflight] at hraw
          obtain rfl := Option.some.inj hraw
          have hpad := hs.pad.append hmay ⟨rfl, hfrom, trivial⟩ rfl fun _ => ⟨_, _, rfl⟩
          refine ⟨⟨hs.endpoints, hs.inOrder, hs.rings, fun raw' hraw' => hs.said raw' ?_,
            hs.replied, hpad⟩, .inl (Street.line_of_arrive hfrom hflight hmay)⟩
          rw [hflight]
          exact List.mem_cons_of_mem _ hraw'
  | @hear i raw hraw =>
      obtain ⟨sound, hsaid, -⟩ :=
        hs.pad.ledger.spoken raw (hs.replied raw (List.mem_of_getElem? hraw))
      refine ⟨⟨(s.door.later_hear raw).endpoints.trans hs.endpoints, hs.inOrder.hear raw, ?_,
        hs.said, fun raw' hraw' => hs.replied raw' (List.mem_of_mem_eraseIdx hraw'), hs.pad⟩,
        Street.line_of_hear hraw hsaid.split rfl⟩
      change ∀ left request, (s.door.hear raw).pc = _ → _
      unfold Emulator.hear
      split <;> exact hs.rings
  | padward => exact hm.elim
  | @doorward fate i =>
      obtain rfl : fate = .double := hm
      exact ⟨⟨hs.endpoints, hs.inOrder, hs.rings, hs.said,
        fun raw (hraw : raw ∈ Fate.double.apply i s.toDoor) =>
          hs.replied raw (Fate.mem_of_mem_apply hraw), hs.pad⟩, Street.line_of_double rfl⟩

end OnStreet

/-- **The call of an orderly street is a call line.** -/
theorem street_refines (hip : addr.ip = .v4 e.door.ip) (hspec : e.door.ip.Specified)
    (he : e.Fits) : (streetSystem addr).Refines (OnStreet addr e) (StreetMove.Orderly e)
      Street.line CallLine.Step where
  keeps _ _ _ hs hm ht := (hs.next hip hspec he hm ht).1
  step _ _ _ hs hm ht := (hs.next hip hspec he hm ht).2

end

/-- The handler has nothing of the call to take in or to send. -/
def HouseTask.spent : HouseTask → Bool
  | agent t => t.finished
  | datagram _ _ .done => true
  | datagram .. => false
  | _ => true

/-- No datagram is under way, and no message, command or elevator call is being handled. -/
structure Street.Quiet (s : Street) : Prop where
  toPad : s.toPad = []
  toDoor : s.toDoor = []
  spent : ∀ t ∈ s.pad.threads, t.spent = true

theorem HouseTask.silent_of_spent {t : HouseTask} (h : t.spent = true) :
    t.words = [] ∧ t.inHand = none := by
  cases t with
  | agent t =>
      cases t with
      | command action commandId pc =>
          cases pc with
          | send => cases h
          | _ => exact ⟨rfl, rfl⟩
      | _ => exact ⟨rfl, rfl⟩
  | datagram sender payload pc =>
      cases pc with
      | done => exact ⟨rfl, rfl⟩
      | _ => cases h
  | _ => exact ⟨rfl, rfl⟩

/-- **The two sides agree on the call when nothing is under way**: the Agent has no call before
    the first ring and after the door's goodbye, and while the door is calling and nobody has
    hung up its call rings until the door has heard the answer, and is connected from then on. -/
theorem street_agrees (addr : SocketAddr) (e : Endpoints) (hip : addr.ip = .v4 e.door.ip)
    (hspec : e.door.ip.Specified) (he : e.Fits) (media : MediaSource) (peers : Peers)
    (hpeers : peers.Accepts e) (cooldown : Nat) (policy : Bool) (windowUs maxBytes : Nat)
    (elevatorDoor : Option String) (moves : List StreetMove) (hm : ∀ m ∈ moves, m.Orderly e)
    (s : Street) (hrun : (streetSystem addr).run (.start e media
      (.new .bind peers cooldown policy (.new windowUs maxBytes) elevatorDoor)) moves = some s)
    (hquiet : s.Quiet) :
    (s.door.pc.stage = .before ∨ s.door.pc.stage = .left → s.pad.shared.agent.phase = .idle) ∧
      (s.door.pc.stage = .calling → s.door.ear.stop = false →
        s.pad.shared.agent.phase =
          if s.door.ear.obs.answered then .connected else .ringing) := by
  have hagreed : s.line.Agreed :=
    System.run_refines_invariant (street_refines hip hspec he) (fun _ _ => CallLine.Agreed.step)
      (OnStreet.start hpeers ..) hm
      ⟨nofun, fun _ => ⟨rfl, rfl, rfl, rfl, rfl⟩, nofun, nofun⟩ hrun
  have hin : s.line.inbox = [] := by
    unfold Street.line
    rw [hquiet.toPad, List.filterMap_nil, List.append_nil, List.flatMap_eq_nil_iff]
    exact fun t ht => (HouseTask.silent_of_spent (hquiet.spent t ht)).1
  have hout : s.line.outbox = 0 := by
    have hhand : s.pad.threads.filterMap HouseTask.inHand = [] := by
      rw [List.filterMap_eq_nil_iff]
      exact fun t ht => (HouseTask.silent_of_spent (hquiet.spent t ht)).2
    unfold Street.line
    rw [hquiet.toDoor, hhand]
    rfl
  exact CallLine.agreed_of_silent hagreed hin hout

/-- The Pad takes the oldest datagram in, in so many steps. -/
def takenIn (i n : Nat) : List StreetMove := .arrive 0 :: handled i n

/-- The door rings three times, a client answers, and the door hears all that the Pad says. -/
def settledCall : List StreetMove :=
  List.replicate 18 (.door .keepalive) ++ (List.range 10).flatMap (takenIn · 8) ++
    (takenIn 10 9 ++ takenIn 11 12 ++ takenIn 12 11 ++ takenIn 13 11) ++
    .pad (.start (.agent (.command .claim "c" .lookup))) :: handled 14 8 ++
    List.replicate 5 (.hear 0)

theorem orderly_handled (e : Endpoints) (i n : Nat) : ∀ m ∈ handled i n, m.Orderly e := by
  intro m hm
  rw [List.eq_of_mem_replicate hm]
  exact ⟨by decide, nofun⟩

theorem orderly_takenIn (e : Endpoints) (i n : Nat) : ∀ m ∈ takenIn i n, m.Orderly e :=
  List.forall_mem_cons.mpr ⟨rfl, orderly_handled e i n⟩

theorem orderly_settledCall (e : Endpoints) : ∀ m ∈ settledCall, m.Orderly e := by
  have hpages : ∀ m ∈ (List.range 10).flatMap (takenIn · 8), m.Orderly e := by
    intro m hm
    obtain ⟨i, -, hm⟩ := List.mem_flatMap.mp hm
    exact orderly_takenIn e i 8 m hm
  have hsame {m : StreetMove} (h : m.Orderly e) (n : Nat) :
      ∀ m' ∈ List.replicate n m, m'.Orderly e := fun m' hm' => List.eq_of_mem_replicate hm' ▸ h
  unfold settledCall
  simp only [List.forall_mem_append, List.forall_mem_cons]
  have htaken := orderly_takenIn e
  have hheard : (StreetMove.hear 0).Orderly e := trivial
  have hdoor : (StreetMove.door .keepalive).Orderly e := trivial
  exact ⟨⟨⟨⟨hsame hdoor 18, hpages⟩, ⟨⟨htaken 10 9, htaken 11 12⟩, htaken 12 11⟩, htaken 13 11⟩,
    rfl, orderly_handled e 14 8⟩, hsame hheard 5⟩

/-- The door has heard the answer, and the Agent is in the call. -/
theorem settled_call_agrees : ∃ s, (streetSystem ⟨.v4 Endpoints.captured.door.ip, 10000⟩).run
      (.start .captured smallMedia (.new .bind ⟨Endpoints.captured.room, none, none, none, 10000⟩
        5000 true (.new 10 1000) none)) settledCall = some s ∧ s.Quiet ∧
    s.door.ear.obs.answered = true ∧ s.pad.shared.agent.phase = .connected := by
  have hend : ((streetSystem ⟨.v4 Endpoints.captured.door.ip, 10000⟩).run
      (.start .captured smallMedia (.new .bind ⟨Endpoints.captured.room, none, none, none, 10000⟩
        5000 true (.new 10 1000) none)) settledCall).map (fun s =>
      (s.toPad.isEmpty, s.toDoor.isEmpty, s.pad.threads.all HouseTask.spent, s.door.pc.stage,
        s.door.ear.stop, s.door.ear.obs.answered)) =
      some (true, true, true, .calling, false, true) := by decide +kernel
  obtain ⟨s, hrun, hs⟩ := Option.map_eq_some_iff.mp hend
  obtain ⟨hpad, hdoor, hspent, hstage, hstop, hanswered⟩ : _ ∧ _ ∧ _ ∧ _ ∧ _ ∧ _ := by
    simpa only [Prod.mk.injEq] using hs
  have hquiet : s.Quiet :=
    ⟨List.isEmpty_iff.mp hpad, List.isEmpty_iff.mp hdoor, List.all_eq_true.mp hspent⟩
  refine ⟨s, hrun, hquiet, hanswered, ?_⟩
  have hfits : Endpoints.captured.Fits := ⟨⟨by decide, by decide⟩, ⟨by decide, by decide⟩⟩
  have haccepts : Peers.Accepts ⟨Endpoints.captured.room, none, none, none, 10000⟩ .captured :=
    ⟨⟨rfl, .of_eq rfl⟩, ⟨fun h => absurd rfl h, fun h => absurd h (by decide)⟩,
      fun ⟨_, h, _⟩ => nomatch h⟩
  have hagrees := street_agrees _ .captured rfl (by decide) hfits smallMedia _ haccepts 5000 true
    10 1000 none settledCall (orderly_settledCall _) s hrun hquiet
  rw [hagrees.2 hstage hstop, hanswered]
  rfl

end Michoi
