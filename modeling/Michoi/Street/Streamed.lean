/-
  What each side of a street shows and plays comes from the other side.

  The network may lose datagrams, deliver them twice and in any order, and the Pad runs all its
  handlers. Still each picture that the Agent shows is a frame that the camera has sent, whole,
  and sound reaches it after a client has answered; the door in turn does and plays what
  clients of the household have asked for and said. The camera numbers its frames with 16 bits,
  so this holds for as long as no number comes twice.
-/
import Michoi.Emulator.Observed
import Michoi.Emulator.Sending
import Michoi.Street

namespace Michoi

open Lib

/-! ## The door's frames -/

/-- No frame takes more packets than can be numbered. -/
def MediaSource.Numberable (media : MediaSource) : Prop :=
  ∀ jpeg ∈ media.frames, jpeg.length ≤ 1200 * 65535

namespace Emulator

variable {d : Emulator}

theorem distinct_frames (h : d.fi ≤ 2 ^ 16) : Distinct d.frames := by
  unfold Distinct frames
  rw [List.map_map]
  refine List.Nodup.map_on (fun i hi j hj heq => ?_) List.nodup_range
  rw [List.mem_range] at hi hj
  have hnat := congrArg UInt16.toNat heq
  change (UInt16.ofNat (i + 1)).toNat = (UInt16.ofNat (j + 1)).toNat at hnat
  rw [UInt16.toNat_ofNat', UInt16.toNat_ofNat'] at hnat
  omega

theorem numberable_frames (h : d.media.Numberable) : ∀ s ∈ d.frames, s.Numberable := by
  intro s hs
  obtain ⟨i, -, rfl⟩ := List.mem_map.mp hs
  unfold SentFrame.Numberable frame
  cases hf : d.media.frames[i % d.media.frames.length]? with
  | none => exact Nat.zero_le _
  | some jpeg => exact h jpeg (List.mem_of_getElem? hf)

end Emulator

/-! ## The door's receiver -/

theorem DoorEar.observeMedia_answered (ear : DoorEar) (m : Message) :
    (ear.observeMedia m).obs.answered = ear.obs.answered := by
  unfold observeMedia
  split
  · rfl
  · split <;> rfl

theorem DoorEar.observeReply_answered (ear : DoorEar) (raw : Bytes) :
    (ear.observeReply raw).obs.answered = (ear.obs.answered || hasOpcode opAnswer raw) := by
  unfold observeReply hasOpcode sessionOpcode
  cases Message.parse raw with
  | error => exact (Bool.or_false _).symm
  | ok m =>
      dsimp only
      by_cases hf : m.family = familySession
      · rw [if_neg (not_not_intro hf), if_pos hf, Option.some_beq_some]
        by_cases ha : m.opcode = opAnswer
        · rw [if_neg (by rw [ha]; decide), if_pos ha, beq_iff_eq.mpr ha, Bool.or_true]
        · rw [beq_eq_false_iff_ne.mpr ha, Bool.or_false, if_neg ha]
          repeat' split
          any_goals rfl
          exact observeMedia_answered ear m
      · rw [if_pos hf, if_neg hf]
        exact (Bool.or_false _).symm

/-- Answered stays answered. -/
theorem DoorEar.hear_answered {ear : DoorEar} (h : ear.obs.answered = true) (raw : Bytes) :
    (ear.hear raw).obs.answered = true := by
  change ((splitCoalesced raw).foldl observeReply ear).obs.answered = true
  induction splitCoalesced raw generalizing ear with
  | nil => exact h
  | cons m rest ih => exact ih (by rw [observeReply_answered, h, Bool.true_or])

theorem DoorEar.hearAll_snoc (heard : List Bytes) (raw : Bytes) :
    start.hearAll (heard ++ [raw]) = (start.hearAll heard).hear raw := by
  unfold hearAll
  rw [List.foldl_append, List.foldl_cons, List.foldl_nil]

theorem Emulator.later_hear (d : Emulator) (raw : Bytes) : d.Later (d.hear raw) := by
  unfold hear
  split
  · exact ⟨rfl, rfl, Nat.le_refl _, fun h => h⟩
  · exact ⟨rfl, rfl, Nat.le_refl _, fun h => DoorEar.hear_answered h raw⟩

theorem Emulator.InOrder.hear {d : Emulator} (h : d.InOrder) (raw : Bytes) :
    (d.hear raw).InOrder := by
  unfold Emulator.hear
  split
  · exact h
  · exact ⟨h.seq, h.request⟩

/-! ## The invariant -/

/-- Everything that is under way from one side to the other is of that side. -/
structure Streamed (s : Street) : Prop where
  inOrder : s.door.InOrder
  media : s.door.media.Numberable
  shows : ShowsOnly s.door.frames s.door.Sounding s.pad.shared.agent
  said : ∀ raw ∈ s.toPad, DoorSays s.door raw
  tasks : ∀ t ∈ s.pad.threads, t.Bears s.door.Streams
  ledger : Ledger s.pad
  replied : ∀ raw ∈ s.toDoor, raw ∈ s.pad.shared.packets
  heard : ∃ heard, (∀ raw ∈ heard, raw ∈ s.pad.shared.packets) ∧
    s.door.ear = DoorEar.start.hearAll heard

theorem DoorSays.bears {d : Emulator} {raw : Bytes} (h : DoorSays d raw) :
    ∀ m ∈ splitCoalesced raw, BearsOnly d.Streams m := by
  intro m hm
  rw [h.split, List.mem_singleton] at hm
  rw [hm]
  exact fun f hf => h.streams hf

theorem Street.mem_newTo {addr : SocketAddr} {p q : HousePool UdpWire} {raw : Bytes}
    (h : raw ∈ newTo addr p q) : raw ∈ q.shared.packets := by
  obtain ⟨sent, hsent, hraw⟩ := List.mem_filterMap.mp h
  split at hraw
  · obtain rfl := Option.some.inj hraw
    exact List.mem_map_of_mem (List.mem_of_mem_drop hsent)
  · cases hraw

/-- A step of the household keeps what it shows and what its handlers bear. -/
structure HouseStreams (d : Emulator) (p : HousePool UdpWire) : Prop where
  shows : ShowsOnly d.frames d.Sounding p.shared.agent
  tasks : ∀ t ∈ p.threads, t.Bears d.Streams

theorem HouseStreams.later {d d' : Emulator} {p : HousePool UdpWire} (h : HouseStreams d p)
    (hd : d.Later d') : HouseStreams d' p where
  shows := h.shows.mono (fun _ => hd.frames) fun _ => hd.sounding
  tasks t ht := (h.tasks t ht).mono fun _ hf => hf.later hd

theorem HouseStreams.next {d : Emulator} {p q : HousePool UdpWire} {m : HouseMove}
    (h : HouseStreams d p) (hd : Distinct d.frames) (hn : ∀ s ∈ d.frames, s.Numberable)
    (hm : startsDatagram m = false)
    (hq : (houseProgram .pad UdpWire).system.next p m = some q) : HouseStreams d q := by
  rcases Program.next_cases hq with
    ⟨t, rfl, hmay, rfl⟩ | ⟨i, env, t, h', t', rfl, ht, hstep, rfl⟩ | ⟨l, rfl, rfl⟩
  · refine ⟨h.shows, fun u hu => ?_⟩
    rcases List.mem_append.mp hu with hu | hu
    · exact h.tasks u hu
    · rw [List.mem_singleton.mp hu]
      refine HouseTask.bears_of_mayStart hmay ?_
      rintro sender payload pc rfl
      cases hm
  · have hbears := h.tasks t (List.mem_of_getElem? ht)
    refine ⟨?_, fun u hu => ?_⟩
    · rcases house_media (houseStep_cases hstep) with hsame | ⟨f, hpc, hfed⟩
      · exact h.shows.of_same hsame
      · change ShowsOnly _ _ h'.agent
        rw [hfed]
        exact h.shows.feed hd hn (hbears.feed hpc)
    · rcases List.mem_or_eq_of_mem_set hu with hu | rfl
      · exact h.tasks u hu
      · exact hbears.step hstep
  · exact h

namespace Streamed

variable {addr : SocketAddr} {s t : Street} {m : StreetMove}

theorem house (hs : Streamed s) : HouseStreams s.door s.pad := ⟨hs.shows, hs.tasks⟩

theorem start {e : Endpoints} {media : MediaSource} (hmedia : media.Numberable) (peers : Peers)
    (cooldown : Nat) (policy : Bool) (windowUs maxBytes : Nat) (elevatorDoor : Option String) :
    Streamed (.start e media
      (.new .bind peers cooldown policy (.new windowUs maxBytes) elevatorDoor)) where
  inOrder := .start e media
  media := hmedia
  shows := ⟨.default, nofun, nofun, nofun⟩
  said := nofun
  tasks _ h := absurd h List.not_mem_nil
  ledger := .start rfl
  replied := nofun
  heard := ⟨[], nofun, rfl⟩

/-- The door does a step, and what it said is under way. -/
theorem door {tick : EmulatorTick} {d : Emulator} {sent : List Bytes} (hs : Streamed s)
    (hstep : s.door.step tick = some (d, sent)) :
    Streamed { s with door := d, toPad := s.toPad ++ sent } := by
  have hcases := emulatorStep_cases hstep
  have hlater := hcases.later
  obtain ⟨hshows, htasks⟩ := hs.house.later hlater
  refine ⟨hcases.inOrder hs.inOrder, hlater.media ▸ hs.media, hshows, fun raw hraw => ?_, htasks,
    hs.ledger, hs.replied, ?_⟩
  · rcases List.mem_append.mp hraw with hraw | hraw
    · exact (hs.said raw hraw).later hlater
    · exact hcases.spoken_of_mem hs.inOrder hraw
  · change ∃ heard, _ ∧ d.ear = _
    rw [hcases.ear]
    exact hs.heard

/-- **One move of a street** before the camera's numbers come again. -/
theorem next (hs : Streamed s) (hfew : s.door.fi ≤ 2 ^ 16)
    (ht : (streetSystem addr).next s m = some t) : Streamed t := by
  cases street_cases ht with
  | door hstep => exact hs.door hstep
  | @pad m p hm hp =>
      have hprefix := hs.ledger.packets_next hp
      obtain ⟨hshows, htasks⟩ := hs.house.next (Emulator.distinct_frames hfew)
        (Emulator.numberable_frames hs.media) hm hp
      obtain ⟨heard, hheard, hear⟩ := hs.heard
      refine ⟨hs.inOrder, hs.media, hshows, hs.said, htasks, hs.ledger.next hp, fun raw hraw => ?_,
        heard, fun raw hraw => hprefix.subset (hheard raw hraw), hear⟩
      rcases List.mem_append.mp hraw with hraw | hraw
      · exact hprefix.subset (hs.replied raw hraw)
      · exact Street.mem_newTo hraw
  | @arrive i raw hraw hmay =>
      have hsaid := hs.said raw (List.mem_of_getElem? hraw)
      have hp := Program.next_start (P := houseProgram .pad UdpWire) (p := s.pad)
        (l := .datagram addr raw .received) hmay
      refine ⟨hs.inOrder, hs.media, hs.shows, fun raw' hraw' => ?_, fun u hu => ?_,
        hs.ledger.next hp, hs.replied, hs.heard⟩
      · exact hs.said raw' (List.mem_of_mem_eraseIdx hraw')
      · rcases List.mem_append.mp hu with hu | hu
        · exact hs.tasks u hu
        · rw [List.mem_singleton.mp hu]
          exact ⟨hsaid.bears, trivial⟩
  | @hear i raw hraw =>
      have hlater := s.door.later_hear raw
      obtain ⟨hshows, htasks⟩ := hs.house.later hlater
      refine ⟨hs.inOrder.hear raw, hlater.media ▸ hs.media, hshows,
        fun raw' hraw' => (hs.said raw' hraw').later hlater, htasks, hs.ledger,
        fun raw' hraw' => hs.replied raw' (List.mem_of_mem_eraseIdx hraw'), ?_⟩
      obtain ⟨heard, hheard, hear⟩ := hs.heard
      unfold Emulator.hear
      split
      · exact ⟨heard, hheard, hear⟩
      · refine ⟨heard ++ [raw], fun raw' hraw' => ?_, ?_⟩
        · rcases List.mem_append.mp hraw' with hraw' | hraw'
          · exact hheard raw' hraw'
          · rw [List.mem_singleton.mp hraw']
            exact hs.replied raw (List.mem_of_getElem? hraw)
        · rw [DoorEar.hearAll_snoc, ← hear]
  | padward =>
      exact ⟨hs.inOrder, hs.media, hs.shows, fun raw hraw => hs.said raw (Fate.mem_of_mem_apply hraw),
        hs.tasks, hs.ledger, hs.replied, hs.heard⟩
  | doorward =>
      exact ⟨hs.inOrder, hs.media, hs.shows, hs.said, hs.tasks, hs.ledger,
        fun raw hraw => hs.replied raw (Fate.mem_of_mem_apply hraw), hs.heard⟩

/-- A run in which no number of the camera has come twice. -/
theorem run {u : Street} (hs : Streamed s) {moves : List StreetMove}
    (hrun : (streetSystem addr).run s moves = some u) (hfew : u.door.fi ≤ 2 ^ 16) :
    Streamed u := by
  refine System.run_induction (M := streetSystem addr)
    (P := fun u => u.door.fi ≤ 2 ^ 16 → Streamed u) ?_ (fun _ => hs) hrun hfew
  intro s m t ih ht hfew
  have hle : s.door.fi ≤ t.door.fi := by
    cases street_cases ht with
    | door hstep => exact (emulatorStep_cases hstep).later.fi
    | hear => exact (s.door.later_hear _).fi
    | _ => exact Nat.le_refl _
  have hfew' := Nat.le_trans hle hfew
  exact (ih hfew').next hfew' ht

/-- A packet that the door heard was a client's command. -/
theorem exists_command (hs : Streamed s) (action : CallAction) {heard : List Bytes}
    (hheard : ∀ raw ∈ heard, raw ∈ s.pad.shared.packets)
    (hany : heard.any (hasOpcode action.opcode) = true) :
    ∃ t ∈ s.pad.threads, t.carriedOut action = true := by
  obtain ⟨raw, hraw, hop⟩ := List.any_eq_true.mp hany
  have hpos : 0 < s.pad.shared.packets.countP (hasOpcode action.opcode) :=
    List.countP_pos_iff.mpr ⟨raw, hheard raw hraw, hop⟩
  rw [hs.ledger.commands action] at hpos
  exact List.countP_pos_iff.mp hpos

end Streamed

/-- What a door did and played was asked for and said by clients of the household, though it may
    have heard a command or a piece of sound more than once. -/
structure Obeyed (tasks : List HouseTask) (ear : DoorEar) : Prop where
  answered : ear.obs.answered = true → ∃ t ∈ tasks, t.carriedOut .claim = true
  unlocked : 0 < ear.obs.unlocks → ∃ t ∈ tasks, t.carriedOut .unlock = true
  stopped : ear.stop = true → ∃ t ∈ tasks, t.carriedOut .hangup = true
  played : ∀ pcm ∈ ear.played, ∃ words pc, .talk words pc ∈ tasks ∧ FrameOf words pcm

/-- What the household shows and plays is what the door's camera and its microphone gave, and it
    plays nothing before a client has answered. -/
structure Watches (d : Emulator) (p : HousePool UdpWire) : Prop where
  latest : ∀ frame ∈ p.shared.agent.latest, ∃ i < d.fi, frame.jpeg = (d.frame i).jpeg
  video : ∀ frame ∈ p.shared.agent.history.inner.video,
    ∃ i < d.fi, frame.jpeg = (d.frame i).jpeg
  audio : ∀ chunk ∈ p.shared.agent.history.inner.audio,
    d.media.Sounds chunk.pcm ∧ ∃ t ∈ p.threads, t.carriedOut .claim = true

theorem Streamed.obeyed {s : Street} (hs : Streamed s) : Obeyed s.pad.threads s.door.ear := by
  obtain ⟨heard, hheard, hear⟩ := hs.heard
  have hspoken : ∀ raw ∈ heard, ∃ sound, PadSays raw sound := fun raw hraw => by
    obtain ⟨sound, hpad, -⟩ := hs.ledger.spoken raw (hheard raw hraw)
    exact ⟨sound, hpad⟩
  rw [hear, DoorEar.hearAll_eq hspoken]
  refine ⟨hs.exists_command .claim hheard, fun hpos => ?_, hs.exists_command .hangup hheard, ?_⟩
  · exact hs.exists_command .unlock hheard ((any_iff_countP _ heard).mpr hpos)
  · intro pcm hpcm
    obtain ⟨raw, hraw, hsound⟩ := List.mem_filterMap.mp hpcm
    exact hs.ledger.said_of_sound (hheard raw hraw) hsound

theorem Streamed.watches {s : Street} (hs : Streamed s) : Watches s.door s.pad := by
  have hframe {jpeg : Bytes} (h : ∃ f ∈ s.door.frames, jpeg = f.jpeg) :
      ∃ i < s.door.fi, jpeg = (s.door.frame i).jpeg := by
    obtain ⟨f, hf, rfl⟩ := h
    obtain ⟨i, hi, rfl⟩ := List.mem_map.mp hf
    exact ⟨i, List.mem_range.mp hi, rfl⟩
  refine ⟨fun frame hf => hframe (hs.shows.latest frame hf),
    fun frame hf => hframe (hs.shows.video frame hf), fun chunk hc => ?_⟩
  obtain ⟨hsounds, ha⟩ := hs.shows.audio chunk hc
  exact ⟨hsounds, hs.obeyed.answered ha⟩

/-- **Both sides of a street get what the other side gave**, in every interleaving and whatever
    the network loses, doubles or reorders. -/
theorem street_streams (addr : SocketAddr) (e : Endpoints) (media : MediaSource)
    (hmedia : media.Numberable) (peers : Peers) (cooldown : Nat) (policy : Bool)
    (windowUs maxBytes : Nat) (elevatorDoor : Option String) (moves : List StreetMove) (s : Street)
    (hrun : (streetSystem addr).run (.start e media
      (.new .bind peers cooldown policy (.new windowUs maxBytes) elevatorDoor)) moves = some s)
    (hfew : s.door.fi ≤ 2 ^ 16) :
    Watches s.door s.pad ∧ Obeyed s.pad.threads s.door.ear :=
  have hs := (Streamed.start hmedia ..).run hrun hfew
  ⟨hs.watches, hs.obeyed⟩

/-- A camera with one small picture, and no sound file. -/
def smallMedia : MediaSource := ⟨[[0xff, 0xd8, 1, 0xff, 0xd9]], []⟩

/-- A handler of the Pad does so many steps. -/
def handled (i n : Nat) : List StreetMove := List.replicate n (.pad (.step i {}))

/-- The door rings, a client answers, and then a chunk of sound and a picture arrive. -/
def answeredCall : List StreetMove :=
  List.replicate 18 (.door .keepalive) ++ .arrive 11 :: handled 0 12 ++
    .pad (.start (.agent (.command .claim "c" .lookup))) :: handled 1 8 ++
    [.hear 1, .door .audio, .door .keepalive, .door .frame, .arrive 13] ++ handled 2 10 ++
    .arrive 13 :: handled 3 10

/-- The household has the picture and the sound. -/
theorem answered_call_streams : ∃ s, (streetSystem ⟨.v4 Endpoints.captured.door.ip, 10000⟩).run
      (.start .captured smallMedia (.new .bind ⟨Endpoints.captured.room, none, none, none, 10000⟩
        5000 true (.new 10 1000) none)) answeredCall = some s ∧
    s.pad.shared.agent.latest.isSome = true ∧ s.pad.shared.agent.history.inner.audio ≠ [] ∧
    Watches s.door s.pad ∧ Obeyed s.pad.threads s.door.ear := by
  have hend : ((streetSystem ⟨.v4 Endpoints.captured.door.ip, 10000⟩).run
      (.start .captured smallMedia (.new .bind ⟨Endpoints.captured.room, none, none, none, 10000⟩
        5000 true (.new 10 1000) none)) answeredCall).map (fun s =>
      (s.pad.shared.agent.latest.isSome, s.pad.shared.agent.history.inner.audio.length,
        s.door.fi)) = some (true, 1, 1) := by decide +kernel
  obtain ⟨s, hrun, hs⟩ := Option.map_eq_some_iff.mp hend
  obtain ⟨hlatest, haudio, hfi⟩ : _ ∧ _ ∧ _ := by simpa only [Prod.mk.injEq] using hs
  refine ⟨s, hrun, hlatest, List.length_pos_iff.mp (by omega), ?_⟩
  exact street_streams _ .captured smallMedia (by unfold MediaSource.Numberable; decide) _ 5000
    true 10 1000 none answeredCall s hrun (by omega)

end Michoi
