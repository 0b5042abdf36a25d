/-
  Whom the Pad's packets speak of.

  `execute`, `send_keepalive` and `talk` read the peers once, check that some door is there,
  and address their packets with both stations as they were read. A door that was seen in
  discovery has an address and a blank id, a configured one may have no address yet, and so
  has the Pad. `addressed_iff` says that a packet speaks of two known stations exactly where
  the peers that its handler read did.
-/
import Michoi.Household.Destination
import Michoi.Protocol.Codec

namespace Michoi

open Lib

/-! ## Stations in a packet -/

/-- A station with an id and an address. -/
structure Station.FullyKnown (s : Station) : Prop where
  id : s.id ≠ ""
  ip : s.ip.Specified

instance (s : Station) : Decidable s.FullyKnown :=
  decidable_of_iff (s.id ≠ "" ∧ s.ip.Specified) ⟨fun h => ⟨h.1, h.2⟩, fun h => ⟨h.id, h.ip⟩⟩

structure Endpoints.FullyKnown (e : Endpoints) : Prop where
  door : e.door.FullyKnown
  room : e.room.FullyKnown

instance (e : Endpoints) : Decidable e.FullyKnown :=
  decidable_of_iff (e.door.FullyKnown ∧ e.room.FullyKnown)
    ⟨fun h => ⟨h.1, h.2⟩, fun h => ⟨h.door, h.room⟩⟩

/-- The endpoint block that a datagram carries. -/
def carriedBlock (raw : Bytes) : Option Endpoints :=
  (Message.parse raw).toOption.bind Message.endpoints

/-- The datagram carries an endpoint block with an id and an address for both stations. -/
def FullyAddressed (raw : Bytes) : Prop := ∃ e ∈ carriedBlock raw, e.FullyKnown

/-- A station whose id field is not blank: an id that begins with a NUL is. -/
structure Station.Complete (s : Station) : Prop where
  id : ∃ c ∈ s.id.toList.head?, c ≠ Char.ofNat 0
  ip : s.ip.Specified

structure Endpoints.Complete (e : Endpoints) : Prop where
  door : e.door.Complete
  room : e.room.Complete

theorem fromUtf8Lossy_eq_empty {bytes : Bytes} : fromUtf8Lossy bytes = "" ↔ bytes = [] := by
  constructor
  · intro h
    cases bytes with
    | nil => rfl
    | cons b rest =>
        have htext := congrArg String.toList h
        unfold fromUtf8Lossy at htext
        rw [String.toList_ofList, lossyChars] at htext
        cases htext
  · rintro rfl
    rfl

theorem takeWhile_ne_nil {bytes : Bytes} :
    bytes.takeWhile (· ≠ 0) ≠ [] ↔ ∃ b ∈ bytes.head?, b ≠ 0 := by
  cases bytes with
  | nil => simp
  | cons b rest =>
      by_cases hb : b = 0
      · simp [hb]
      · simp [hb]

/-- What is read of a packed id is blank where the id is, or begins with a NUL. -/
theorem takeWhile_resize_ne_nil (id : String) :
    (resize (asBytes id) 20).takeWhile (· ≠ 0) ≠ [] ↔
      ∃ c ∈ id.toList.head?, c ≠ Char.ofNat 0 := by
  rw [takeWhile_ne_nil]
  unfold asBytes
  cases id.toList with
  | nil => simp [resize, List.replicate_succ]
  | cons c cs =>
      obtain ⟨b, rest, hb⟩ := List.exists_cons_of_ne_nil (String.utf8EncodeChar_ne_nil (c := c))
      have hhead : (resize ((c :: cs).flatMap String.utf8EncodeChar) 20).head? = some b := by
        simp [resize, hb]
      have hzero : b = 0 ↔ c = Char.ofNat 0 := by
        constructor
        · rintro rfl
          by_contra hc
          exact zero_not_mem_encode hc (hb ▸ List.mem_cons_self)
        · rintro rfl
          exact (List.cons.inj hb).1.symm
      rw [hhead]
      simp [hzero]

theorem Station.parse_of_pack {s : Station} {raw : Bytes} (h : s.pack = .ok raw) :
    ∃ read, Station.parse raw = .ok read ∧ (read.FullyKnown ↔ s.Complete) := by
  unfold Station.pack at h
  split at h
  · cases h
  · obtain rfl := Except.ok.inj h
    have hid : fromUtf8Lossy ((resize (asBytes s.id) 20).takeWhile (· ≠ 0)) ≠ "" ↔
        ∃ c ∈ s.id.toList.head?, c ≠ Char.ofNat 0 :=
      (not_congr fromUtf8Lossy_eq_empty).trans (takeWhile_resize_ne_nil s.id)
    exact ⟨_, Station.parse_padded s, fun h => ⟨hid.mp h.id, h.ip⟩, fun h => ⟨hid.mpr h.id, h.ip⟩⟩

theorem Endpoints.parse_of_pack {e : Endpoints} {raw : Bytes} (h : e.pack = .ok raw) :
    raw.length = 48 ∧
      ∃ read, Endpoints.parse raw = .ok read ∧ (read.FullyKnown ↔ e.Complete) := by
  have hlen := length_of_block h
  obtain ⟨door, hdoor, h⟩ := bind_eq_ok_iff.mp h
  obtain ⟨room, hroom, h⟩ := bind_eq_ok_iff.mp h
  obtain rfl := Except.ok.inj h
  obtain ⟨d, hd, hdoorKnown⟩ := Station.parse_of_pack hdoor
  obtain ⟨r, hr, hroomKnown⟩ := Station.parse_of_pack hroom
  have hdoorLen := Michoi.length_of_pack hdoor
  have hroomLen := Michoi.length_of_pack hroom
  refine ⟨hlen, _, Endpoints.parse_append hdoorLen hroomLen hd hr,
    fun h => ⟨hdoorKnown.mp h.door, hroomKnown.mp h.room⟩,
    fun h => ⟨hdoorKnown.mpr h.door, hroomKnown.mpr h.room⟩⟩

/-! ## Packets -/

/-- The packets that `send_as_pad` is handed, with the stations they were built for. -/
def Carries (raw : Bytes) (e : Endpoints) : Prop :=
  (∃ opcode, sessionControl opcode e = .ok raw) ∨
    ∃ sequence pcm, audioPacket sequence pcm e = .ok raw

/-- Such a packet begins with the block of its stations. -/
theorem Carries.exists_block {raw : Bytes} {e : Endpoints} (h : Carries raw e) :
    ∃ block tail opcode declared, e.pack = .ok block ∧
      raw = packet familySession opcode declared (block ++ tail) := by
  rcases h with ⟨opcode, h⟩ | ⟨sequence, pcm, h⟩
  · obtain ⟨block, hblock, h⟩ := bind_eq_ok_iff.mp h
    refine ⟨block, [], opcode, 80, hblock, ?_⟩
    rw [← Except.ok.inj h, List.append_nil]
  · unfold audioPacket at h
    split at h
    · cases h
    · obtain ⟨block, hblock, h⟩ := bind_eq_ok_iff.mp h
      refine ⟨block, [mediaAudio, sequence, 1, 1, 512].flatMap u16ToLe ++ pcm, opMedia, 602,
        hblock, ?_⟩
      rw [← Except.ok.inj h, List.append_assoc]

/-- **A packet is fully addressed** exactly where its stations are complete. -/
theorem Carries.fullyAddressed_iff {raw : Bytes} {e : Endpoints} (h : Carries raw e) :
    FullyAddressed raw ↔ e.Complete := by
  obtain ⟨block, tail, opcode, declared, hblock, rfl⟩ := h.exists_block
  obtain ⟨hlen, read, hread, hknown⟩ := Endpoints.parse_of_pack hblock
  have hcarried : carriedBlock (packet familySession opcode declared (block ++ tail)) =
      some read := by
    unfold carriedBlock
    rw [parse_packet]
    exact endpoints_of_block (.inl rfl) rfl hlen hread
  rw [← hknown, FullyAddressed, hcarried]
  simp

/-! ## What is handed to the wire -/

/-- The peers have a door, and both stations are complete. -/
def Peers.Complete (p : Peers) : Prop := ∃ e ∈ p.endpoints, e.Complete

/-- What the handler's next step hands to `send_as_pad`: a packet, with the peers that the
    handler read before. -/
def HouseTask.handing : HouseTask → Option (Peers × Bytes)
  | agent (.command _ _ (.send peers _ packet)) => some (peers, packet)
  | talk _ (.send peers _ packet _) => some (peers, packet)
  | keepalive (.send peers packet) => some (peers, packet)
  | _ => none

variable {W : Type}

/-- The notes of a move: what it hands to `send_as_pad`. -/
def handedNotes (p : HousePool W) (m : HouseMove) (_ : HousePool W) : List Bytes :=
  match m with
  | .step i _ => ((p.threads[i]?).bind HouseTask.handing).toList.map Prod.snd
  | _ => []

/-- A step that sends is one of a handler that read complete peers. -/
def ReadComplete (p : HousePool W) : HouseMove → Prop
  | .step i _ => ∀ r ∈ (p.threads[i]?).bind HouseTask.handing, r.1.Complete
  | _ => True

/-- The packet was built for the stations of the peers that were read. -/
def BuiltFor (peers : Peers) (packet : Bytes) : Prop :=
  ∃ e ∈ peers.endpoints, Carries packet e

/-- What a handler carries along. -/
def HouseTask.Built : HouseTask → Prop
  | agent (.command _ _ (.send peers _ packet)) => BuiltFor peers packet
  | talk _ (.number peers e _) => e ∈ peers.endpoints
  | talk _ (.send peers e packet _) => e ∈ peers.endpoints ∧ Carries packet e
  | keepalive (.send peers packet) => BuiltFor peers packet
  | _ => True

theorem HouseTask.Built.of_handing {t : HouseTask} (h : t.Built) {peers : Peers} {packet : Bytes}
    (ht : t.handing = some (peers, packet)) : BuiltFor peers packet := by
  unfold handing at ht
  split at ht
  · obtain ⟨rfl, rfl⟩ := Prod.mk.inj (Option.some.inj ht)
    exact h
  · obtain ⟨rfl, rfl⟩ := Prod.mk.inj (Option.some.inj ht)
    exact ⟨_, h.1, h.2⟩
  · obtain ⟨rfl, rfl⟩ := Prod.mk.inj (Option.some.inj ht)
    exact h
  · cases ht

theorem HouseTask.built_of_fresh {t : HouseTask} (h : t.fresh = true) : t.Built := by
  cases t with
  | agent t =>
      cases t with
      | command action commandId pc =>
          cases pc with
          | lookup => trivial
          | _ => cases h
      | elevator => trivial
      | wire => trivial
  | talk pcm pc =>
      cases pc with
      | call => trivial
      | _ => cases h
  | keepalive pc =>
      cases pc with
      | readPeers => trivial
      | _ => cases h
  | _ => trivial

variable [Wire W] {env : HouseEnv} {h h' : Household W}

theorem commandStep_built {a a' : Agent W} {action : CallAction} {commandId : String}
    {pc pc' : CommandPc} (hs : CommandStep env.toEnv a action commandId pc a' pc') :
    (HouseTask.agent (.command action commandId pc')).Built := by
  cases hs with
  | built he _ hp => exact ⟨_, he, .inl ⟨_, hp⟩⟩
  | _ => trivial

theorem talkStep_built {pcm : Bytes} {pc pc' : TalkPc}
    (hs : talkStep env h pcm pc = some (h', pc')) (hb : (HouseTask.talk pcm pc).Built) :
    (HouseTask.talk pcm pc').Built := by
  cases pc with
  | call | check =>
      cases talkStep_cases hs <;> trivial
  | sending signal packets =>
      cases talkStep_cases hs <;> trivial
  | readPeers =>
      unfold talkStep at hs
      dsimp only at hs
      split at hs
      · cases hs
        trivial
      · next he =>
          cases hs
          exact he
  | number peers e frames =>
      cases frames with
      | nil =>
          cases hs
          trivial
      | cons frame frames =>
          unfold talkStep at hs
          dsimp only at hs
          split at hs
          · cases hs
            trivial
          · next hp =>
              cases hs
              exact ⟨hb, .inr ⟨_, _, hp⟩⟩
  | send peers e packet frames =>
      cases talkStep_cases hs with
      | send => exact hb.1
      | sendFailed => trivial
  | done => cases hs

theorem keepaliveStep_built {pc pc' : KeepalivePc}
    (hs : keepaliveStep env h pc = some (h', pc')) : (HouseTask.keepalive pc').Built := by
  cases pc with
  | check peers =>
      unfold keepaliveStep at hs
      dsimp only at hs
      split at hs
      · cases hs
        trivial
      · split at hs
        · next hp =>
            cases hs
            obtain ⟨e, he, hpacket⟩ := Option.map_eq_some_iff.mp hp
            exact ⟨e, he, .inl ⟨_, hpacket⟩⟩
        · cases hs
          trivial
        · cases hs
          trivial
  | readPeers | send =>
      cases hs
      trivial
  | done => cases hs

/-- A step of a handler keeps it. -/
theorem HouseTask.Built.step {t t' : HouseTask} (hb : t.Built)
    (hs : t.step env h = some (h', t')) : t'.Built := by
  cases t with
  | agent t =>
      obtain ⟨⟨a, u⟩, hu, he⟩ := Option.map_eq_some_iff.mp hs
      obtain ⟨-, rfl⟩ := Prod.mk.inj he
      cases t with
      | command action commandId pc =>
          obtain ⟨pc', rfl, hc⟩ := step_command hu
          exact commandStep_built hc
      | elevator commandId room pc =>
          obtain ⟨pc', rfl, -⟩ := step_elevator hu
          trivial
      | wire pc =>
          obtain ⟨r, -, he⟩ := Option.map_eq_some_iff.mp hu
          obtain ⟨-, rfl⟩ := Prod.mk.inj he
          trivial
  | talk pcm pc =>
      obtain ⟨r, hr, he⟩ := Option.map_eq_some_iff.mp hs
      obtain ⟨-, rfl⟩ := Prod.mk.inj he
      exact talkStep_built hr hb
  | keepalive pc =>
      obtain ⟨r, hr, he⟩ := Option.map_eq_some_iff.mp hs
      obtain ⟨-, rfl⟩ := Prod.mk.inj he
      exact keepaliveStep_built hr
  | startMonitor | stopMonitor | dial | hangupCall | talkVideo | datagram =>
      obtain ⟨r, -, he⟩ := Option.map_eq_some_iff.mp hs
      obtain ⟨-, rfl⟩ := Prod.mk.inj he
      trivial

/-! ## The runs -/

section

variable {mode : AgentMode} {p q : HousePool W} {m : HouseMove}

/-- Every handler carries packets for the stations that it read. -/
def AllBuilt (p : HousePool W) : Prop := ∀ t ∈ p.threads, t.Built

theorem AllBuilt.next (hp : AllBuilt p) (hq : (houseProgram mode W).system.next p m = some q) :
    AllBuilt q := by
  rcases Program.next_cases hq with
    ⟨t, rfl, hmay, rfl⟩ | ⟨i, env, t, h', t', rfl, ht, hstep, rfl⟩ | ⟨l, rfl, rfl⟩
  · intro u hu
    rcases List.mem_append.mp hu with hu | hu
    · exact hp u hu
    · rw [List.mem_singleton.mp hu]
      exact HouseTask.built_of_fresh (HouseTask.fresh_of_mayStart hmay)
  · intro u hu
    rcases List.mem_or_eq_of_mem_set hu with hu | rfl
    · exact hp u hu
    · exact (hp t (List.mem_of_getElem? ht)).step hstep
  · exact hp

omit [Wire W] in
/-- What a step hands over is fully addressed exactly where it had been read so. -/
theorem AllBuilt.handed_iff (hp : AllBuilt p) :
    (∀ raw ∈ handedNotes p m q, FullyAddressed raw) ↔ ReadComplete p m := by
  cases m with
  | start t => exact iff_of_true nofun trivial
  | outside l => exact iff_of_true nofun trivial
  | step i env =>
      unfold handedNotes ReadComplete
      dsimp only
      cases ht : p.threads[i]? with
      | none => exact iff_of_true nofun nofun
      | some t =>
          rw [Option.bind_some]
          cases hhand : t.handing with
          | none => exact iff_of_true nofun nofun
          | some r =>
              obtain ⟨peers, packet⟩ := r
              obtain ⟨e, he, hcarries⟩ := (hp t (List.mem_of_getElem? ht)).of_handing hhand
              have hcomplete : peers.Complete ↔ e.Complete := by
                refine ⟨?_, fun h => ⟨e, he, h⟩⟩
                rintro ⟨e', he', h⟩
                rwa [Option.some.inj (he.symm.trans he')]
              simp [hcarries.fullyAddressed_iff, hcomplete]

end

/-- **Commands speak for fully known stations** exactly where they read complete peers: in
    every run of either mode, from whatever was configured, every packet handed to
    `send_as_pad` is fully addressed if and only if every step that hands one over is of a
    handler that read complete peers. -/
theorem addressed_iff (mode : AgentMode) (a : Agent W) (moves : List HouseMove)
    {p : HousePool W} {notes : List Bytes}
    (hrun : ((houseProgram mode W).system.withHistory handedNotes).run (idleHouse a, []) moves =
      some (p, notes)) :
    (∀ raw ∈ notes, FullyAddressed raw) ↔
      (houseProgram mode W).system.Meets ReadComplete (idleHouse a) moves := by
  have hnil : AllBuilt (idleHouse a) := fun _ ht => absurd ht List.not_mem_nil
  rw [System.forall_notes_iff_meets (fun _ _ _ hp hq => hp.next hq)
    (fun _ _ _ hp _ => hp.handed_iff) hnil hrun]
  exact and_iff_right nofun

/-! ## From complete peers on -/

/-- What is known stays known. -/
theorem Peers.Complete.of_kept {p q : Peers} (h : p.Complete) (hk : p.Kept q) : q.Complete := by
  obtain ⟨e, he, hdoor, hroom⟩ := h
  unfold endpoints at he
  obtain ⟨d, hd, rfl⟩ := Option.map_eq_some_iff.mp he
  have hid : p.doorId = d.id := by rw [doorId, hd]; rfl
  have hip : p.doorIp = d.ip := by rw [doorIp, hd]; rfl
  have hnamed : d.id ≠ "" := by
    rintro hblank
    obtain ⟨c, hc, -⟩ := hdoor.id
    rw [hblank] at hc
    cases hc
  have hid' := hk.doorId (hid ▸ hnamed)
  have hip' := hk.doorIp (hip ▸ hdoor.ip)
  cases hq : q.door with
  | none =>
      rw [doorId, hq, hid] at hid'
      exact absurd hid'.symm hnamed
  | some d' =>
      rw [doorId, hq, hid] at hid'
      rw [doorIp, hq, hip] at hip'
      have hroom' : q.room = p.room := by
        cases hqr : q.room with
        | mk id ip =>
          have h₁ := hk.roomId
          have h₂ := hk.roomIp hroom.ip
          rw [hqr] at h₁ h₂
          subst h₁ h₂
          rfl
      have hsame : d' = d := by
        cases d'
        cases d
        exact congr (congrArg Station.mk hid') hip'
      refine ⟨⟨d', q.room⟩, by rw [endpoints, hq]; rfl, ?_, ?_⟩
      · exact hsame ▸ hdoor
      · exact hroom' ▸ hroom

theorem house_kept {t t' : HouseTask} (hs : HouseStep env h t h' t') :
    h.agent.peers.Kept h'.agent.peers := by
  have hsame {a a' : Agent W} (heq : a'.peers = a.peers) : a.peers.Kept a'.peers :=
    heq ▸ .refl _
  cases hs with
  | wire _ _ hw =>
      rcases wireStep_peers hw with hp | ⟨side, m, e, -, hp⟩
      · exact hsame hp
      · exact (congrArg h.agent.peers.Kept hp).mpr (Peers.acceptEndpoints_kept _ e)
  | command hc =>
      cases hc with
      | notify => exact hsame (notify_peers ..)
      | _ => exact .refl _
  | elevator hc => cases hc <;> exact .refl _
  | monitor hm =>
      cases hm with
      | replace => exact hsame (Agent.stopMonitorNow_peers _)
      | _ => exact .refl _
  | stop => exact hsame (Agent.stopMonitorNow_peers _)
  | dial hd => cases hd <;> exact .refl _
  | hangup hh =>
      cases hh with
      | take => exact hsame (takeCallSession_peers _)
      | _ => exact .refl _
  | talk ht => cases ht <;> exact .refl _
  | video hv => cases hv <;> exact .refl _
  | keepalive hk => cases hk <;> exact .refl _
  | datagram hd =>
      cases hd with
      | learnRoom => exact Peers.setRoomIpIfUnset_kept _ _
      | learnDoor => exact Peers.learnAddress_kept _ _ _
      | _ => exact .refl _

/-- So does every move. -/
theorem next_kept {mode : AgentMode} {p q : HousePool W} {m : HouseMove}
    (hq : (houseProgram mode W).system.next p m = some q) :
    p.shared.agent.peers.Kept q.shared.agent.peers := by
  rcases Program.next_cases hq with
    ⟨t, rfl, hmay, rfl⟩ | ⟨i, env, t, h', t', rfl, ht, hstep, rfl⟩ | ⟨l, rfl, rfl⟩
  · exact .refl _
  · exact house_kept (houseStep_cases hstep)
  · cases mode with
    | pad => exact .refl _
    | tap =>
        cases l with
        | address side ip => exact Peers.learnAddress_kept _ side ip
        | mac side found => exact Peers.pinMac_kept _ side found

/-- The peers that a handler has read and may send with. -/
def HouseTask.held : HouseTask → Option Peers
  | agent (.command _ _ (.readSession peers)) => some peers
  | agent (.command _ _ (.transition peers _)) => some peers
  | agent (.command _ _ (.send peers _ _)) => some peers
  | talk _ (.number peers _ _) => some peers
  | talk _ (.send peers _ _ _) => some peers
  | keepalive (.check peers) => some peers
  | keepalive (.send peers _) => some peers
  | _ => none

omit [Wire W] in
theorem HouseTask.held_of_fresh {t : HouseTask} (h : t.fresh = true) : t.held = none := by
  cases t with
  | agent t =>
      cases t with
      | command action commandId pc =>
          cases pc with
          | lookup => rfl
          | _ => cases h
      | elevator => rfl
      | wire => rfl
  | talk pcm pc =>
      cases pc with
      | call => rfl
      | _ => cases h
  | keepalive pc =>
      cases pc with
      | readPeers => rfl
      | _ => cases h
  | _ => rfl

omit [Wire W] in
theorem HouseTask.held_of_handing {t : HouseTask} {peers : Peers} {packet : Bytes}
    (h : t.handing = some (peers, packet)) : t.held = some peers := by
  unfold handing at h
  split at h
  · obtain ⟨rfl, -⟩ := Prod.mk.inj (Option.some.inj h)
    rfl
  · obtain ⟨rfl, -⟩ := Prod.mk.inj (Option.some.inj h)
    rfl
  · obtain ⟨rfl, -⟩ := Prod.mk.inj (Option.some.inj h)
    rfl
  · cases h

omit [Wire W] in
theorem HouseTask.held_of_wirePc {t : HouseTask} {pc : WirePc} (h : t.wirePc = some pc) :
    t.held = none := by
  unfold wirePc at h
  split at h
  · rfl
  · rfl
  · cases h

/-- A handler reads the peers of the Agent. -/
theorem HouseTask.held_of_step {t t' : HouseTask} (hs : HouseStep env h t h' t') {peers : Peers}
    (hheld : t'.held = some peers) : t.held = some peers ∨ peers = h.agent.peers := by
  cases hs with
  | wire _ ht' =>
      rw [HouseTask.held_of_wirePc ht'] at hheld
      cases hheld
  | command hc =>
      cases hc with
      | readPeers => exact .inr (Option.some.inj hheld).symm
      | readSession => exact .inl hheld
      | built => exact .inl hheld
      | _ => cases hheld
  | talk ht =>
      cases ht with
      | peers => exact .inr (Option.some.inj hheld).symm
      | number => exact .inl hheld
      | send => exact .inl hheld
      | _ => cases hheld
  | keepalive hk =>
      cases hk with
      | readPeers => exact .inr (Option.some.inj hheld).symm
      | active => exact .inl hheld
      | _ => cases hheld
  | elevator | monitor | stop | dial | hangup | video | datagram => cases hheld

/-- The Agent knows both stations, and so did the handlers when they read them. -/
structure AllComplete (p : HousePool W) : Prop where
  agent : p.shared.agent.peers.Complete
  held : ∀ t ∈ p.threads, ∀ peers ∈ t.held, peers.Complete

theorem AllComplete.next {mode : AgentMode} {p q : HousePool W} {m : HouseMove}
    (hp : AllComplete p) (hq : (houseProgram mode W).system.next p m = some q) :
    AllComplete q := by
  refine ⟨hp.agent.of_kept (next_kept hq), ?_⟩
  rcases Program.next_cases hq with
    ⟨t, rfl, hmay, rfl⟩ | ⟨i, env, t, h', t', rfl, ht, hstep, rfl⟩ | ⟨l, rfl, rfl⟩
  · intro u hu peers hheld
    rcases List.mem_append.mp hu with hu | hu
    · exact hp.held u hu peers hheld
    · rw [List.mem_singleton.mp hu,
        HouseTask.held_of_fresh (HouseTask.fresh_of_mayStart hmay)] at hheld
      cases hheld
  · intro u hu peers hheld
    rcases List.mem_or_eq_of_mem_set hu with hu | rfl
    · exact hp.held u hu peers hheld
    · rcases HouseTask.held_of_step (houseStep_cases hstep) hheld with hheld | rfl
      · exact hp.held t (List.mem_of_getElem? ht) peers hheld
      · exact hp.agent
  · exact hp.held

omit [Wire W] in
theorem AllComplete.readComplete {p : HousePool W} (hp : AllComplete p) (m : HouseMove) :
    ReadComplete p m := by
  cases m with
  | start t => trivial
  | outside l => trivial
  | step i env =>
      intro r hr
      obtain ⟨t, ht, hhand⟩ := Option.bind_eq_some_iff.mp hr
      exact hp.held t (List.mem_of_getElem? ht) r.1 (HouseTask.held_of_handing hhand)

/-- From then on every packet is fully addressed. -/
theorem AllComplete.addressed {mode : AgentMode} {p : HousePool W} (hp : AllComplete p)
    (moves : List HouseMove) : (houseProgram mode W).system.Meets ReadComplete p moves := by
  have htrue : (houseProgram mode W).system.Meets (fun _ _ => True) p moves :=
    System.meets_of_forall (fun _ _ => trivial) _ _
  exact System.Meets.of_invariant (fun _ _ _ hp _ hq => AllComplete.next hp hq)
    (fun _ m hp _ => AllComplete.readComplete hp m) hp htrue

/-- With both stations configured, every packet is fully addressed. -/
theorem addressed_of_configured (mode : AgentMode) {a : Agent W} (ha : a.peers.Complete)
    (moves : List HouseMove) :
    (houseProgram mode W).system.Meets ReadComplete (idleHouse a) moves :=
  AllComplete.addressed ⟨ha, fun _ ht => absurd ht List.not_mem_nil⟩ moves

omit [Wire W] in
/-- An accepted block with both stations is what is known from then on. -/
theorem Peers.complete_of_accepts {p : Peers} {e : Endpoints} (h : p.Accepts e)
    (he : e.Complete) : (p.acceptEndpoints e).2.Complete := by
  rw [acceptEndpoints_of_accepts h]
  exact ⟨e, rfl, he⟩

/-- With both stations learned from a message that was accepted, a ring of the door, every packet
    is fully addressed but for those of handlers that had read the peers before. -/
theorem addressed_of_learned (mode : AgentMode) {p q : HousePool W} {i : Nat} {env : HouseEnv}
    {t : HouseTask} {side : Side} {m : Message} {e : Endpoints} (ht : p.threads[i]? = some t)
    (hpc : t.wirePc = some (.accept side m e)) (haccepts : p.shared.agent.peers.Accepts e)
    (he : e.Complete) (hheld : ∀ u ∈ p.threads, ∀ peers ∈ u.held, peers.Complete)
    (hq : (houseProgram mode W).system.next p (.step i env) = some q) (moves : List HouseMove) :
    (houseProgram mode W).system.Meets ReadComplete q moves := by
  obtain ⟨t₀, h', t', ht₀, hstep, rfl⟩ := Program.stepAt_eq_some hq
  obtain rfl := Option.some.inj (ht.symm.trans ht₀)
  have hlearned : h'.agent.peers.Complete ∧ t'.held = none := by
    cases houseStep_cases hstep with
    | wire hpc₀ hpc' hw =>
        obtain rfl := Option.some.inj (hpc.symm.trans hpc₀)
        refine ⟨?_, HouseTask.held_of_wirePc hpc'⟩
        rw [Household.withAgent_agent, wireStep_accept_peers hw]
        exact Peers.complete_of_accepts haccepts he
    | datagram hd => cases hd <;> cases hpc
    | _ => cases hpc
  refine AllComplete.addressed ⟨hlearned.1, fun u hu peers hpeers => ?_⟩ moves
  rcases List.mem_or_eq_of_mem_set hu with hu | rfl
  · exact hheld u hu peers hpeers
  · rw [hlearned.2] at hpeers
    cases hpeers

/-- What a command returned. -/
def HouseTask.commandResult : HouseTask → Option CommandResult
  | agent (.command _ _ (.done result)) => some result
  | _ => none

/-- A keepalive with both stations known. -/
theorem keepalive_addressed : ∃ p notes,
    ((houseProgram .pad UdpWire).system.withHistory handedNotes).run (idleHouse pinnedPadAgent, [])
        (doorRings ++ serve 1 (.keepalive .readPeers) 3) = some (p, notes) ∧
      notes ≠ [] ∧ ∀ raw ∈ notes, FullyAddressed raw := by
  have hend : (((houseProgram .pad UdpWire).system.withHistory handedNotes).run
      (idleHouse pinnedPadAgent, []) (doorRings ++ serve 1 (.keepalive .readPeers) 3)).map
        (fun s => s.2.length) = some 1 := by
    decide +kernel
  have hcomplete : pinnedPadAgent.peers.Complete :=
    ⟨.captured, rfl, ⟨⟨'M', by decide +kernel, by decide⟩, by decide +kernel⟩,
      ⟨⟨'S', by decide +kernel, by decide⟩, by decide +kernel⟩⟩
  obtain ⟨⟨p, notes⟩, hrun, hone⟩ := Option.map_eq_some_iff.mp hend
  refine ⟨p, notes, hrun, List.ne_nil_of_length_pos (by rw [hone]; decide), ?_⟩
  exact (addressed_iff .pad pinnedPadAgent _ hrun).mpr (addressed_of_configured .pad hcomplete _)

/-- A datagram comes from the door before it ever rang, and the door is unlocked. -/
def unlockBeforeRing : List HouseMove :=
  .start (.datagram ⟨.v4 Endpoints.captured.door.ip, 10000⟩ [] .received) ::
    List.replicate 4 (.step 0 { localAddr := some Endpoints.captured.room.ip }) ++
      serve 1 (.agent (.command .unlock "c" .lookup)) 8

/-- The command returns `ok`, and its packet names a door without an id. -/
theorem unlock_for_blank_door : ∃ p notes,
    ((houseProgram .pad UdpWire).system.withHistory handedNotes).run (idleHouse padAgent, [])
        unlockBeforeRing = some (p, notes) ∧
      (p.threads[1]?).bind HouseTask.commandResult = some (.accepted "c") ∧
      notes.map carriedBlock = [some ⟨⟨"", Endpoints.captured.door.ip⟩,
        ⟨"S00000000000", Endpoints.captured.room.ip⟩⟩] ∧
      ¬ ∀ raw ∈ notes, FullyAddressed raw := by
  have hend : (((houseProgram .pad UdpWire).system.withHistory handedNotes).run
      (idleHouse padAgent, []) unlockBeforeRing).map (fun s =>
        ((s.1.threads[1]?).bind HouseTask.commandResult, s.2.map carriedBlock)) =
      some (some (.accepted "c"), [some ⟨⟨"", Endpoints.captured.door.ip⟩,
        ⟨"S00000000000", Endpoints.captured.room.ip⟩⟩]) := by
    decide +kernel
  obtain ⟨⟨p, notes⟩, hrun, hboth⟩ := Option.map_eq_some_iff.mp hend
  obtain ⟨hresult, hblocks⟩ := Prod.mk.inj hboth
  refine ⟨p, notes, hrun, hresult, hblocks, fun hall => ?_⟩
  obtain ⟨raw, hraw, hblock⟩ := List.mem_map.mp (hblocks ▸ List.mem_singleton_self _)
  obtain ⟨e, he, hknown⟩ := hall raw hraw
  rw [hblock] at he
  obtain rfl := Option.some.inj he
  exact hknown.door.id rfl

end Michoi
