/-
  What a door hears of a Pad is what the household's clients asked for.

  Each packet of the Agent comes through a receiver's splitting in one piece
  (`PadSays.split`), and the door notes it (`DoorEar.hearAll_eq`). With the household's ledger
  that is `door_obeys_commands`: the network may lose datagrams and reorder them, and it is
  every run of the household, with every interleaving and whatever datagrams come in. The
  other end of a call between two Pads is a `CallObservation`.
-/
import Michoi.Emulator
import Michoi.Household.Sound

namespace Michoi

open Lib

/-! ## What a receiver makes of it -/

theorem CallAction.opcode_ne_media (action : CallAction) : action.opcode ≠ opMedia := by
  cases action <;> decide

/-- Each of these comes through the splitting of a receiver in one piece. -/
theorem PadSays.split {raw : Bytes} {sound : Option Bytes} (h : PadSays raw sound) :
    splitCoalesced raw = [raw] := by
  cases h with
  | bootstrap h => exact (Encoded.bootstrapReply h).split
  | capability h => exact (Encoded.sessionReply h).split
  | @command action e raw h => exact (Encoded.sessionControl action.opcode_ne_media h).split
  | keepalive h => exact (Encoded.sessionControl (by decide) h).split
  | sound h => exact (Encoded.audioPacket h).split

theorem hasOpcode_of_none {raw : Bytes} (h : sessionOpcode raw = none) (opcode : UInt32) :
    hasOpcode opcode raw = false := by
  unfold hasOpcode
  rw [h]
  rfl

theorem family_of_none {raw : Bytes} {m : Message} (h : sessionOpcode raw = none)
    (hp : Message.parse raw = .ok m) : m.family ≠ familySession := by
  intro hf
  unfold sessionOpcode at h
  rw [hp] at h
  dsimp only at h
  rw [if_pos hf] at h
  cases h

/-- What does not come with a session opcode is not looked at. -/
theorem observeReply_of_none {raw : Bytes} (ear : DoorEar) (h : sessionOpcode raw = none) :
    ear.observeReply raw = ear := by
  unfold DoorEar.observeReply
  split
  · rfl
  · next m hp => exact if_pos (family_of_none h hp)

theorem observe_of_none {raw : Bytes} (obs : CallObservation) (h : sessionOpcode raw = none) :
    obs.observe raw = obs := by
  unfold CallObservation.observe
  split
  · rfl
  · next m hp => exact if_pos (family_of_none h hp)

theorem isHangup_eq (raw : Bytes) : DoorEar.isHangup raw = hasOpcode opHangup raw := by
  unfold DoorEar.isHangup hasOpcode sessionOpcode
  cases Message.parse raw with
  | error => rfl
  | ok m =>
      dsimp only
      by_cases hf : m.family = familySession <;> simp [hf]

/-- A listener that takes each datagram into its notes has noted all it heard. -/
theorem foldl_noted {σ : Type} (hear : σ → Bytes → σ) (noted : List Bytes → σ)
    {spoken : Bytes → Prop}
    (hear_noted : ∀ heard d, spoken d → hear (noted heard) d = noted (heard ++ [d]))
    {heard : List Bytes} (h : ∀ d ∈ heard, spoken d) :
    heard.foldl hear (noted []) = noted heard := by
  induction heard using List.reverseRecOn with
  | nil => rfl
  | append_singleton heard d ih =>
      have hinit := ih fun d' hd' => h d' (List.mem_append_left _ hd')
      rw [List.foldl_append, hinit]
      exact hear_noted heard d (h d (by simp))

/-- What a door has noted that heard these datagrams. -/
def DoorEar.noted (heard : List Bytes) : DoorEar where
  obs := {
    capabilityReply := heard.any (hasOpcode opReply)
    answered := heard.any (hasOpcode opAnswer)
    unlocks := heard.countP (hasOpcode opUnlock)
    hangups := heard.countP (hasOpcode opHangup)
    audioPackets := heard.countP (hasOpcode opMedia)
    audioBytes := 512 * heard.countP (hasOpcode opMedia) }
  played := heard.filterMap soundOf
  stop := heard.any (hasOpcode opHangup)

/-- One more datagram of the Pad. -/
theorem DoorEar.hear_noted {raw : Bytes} {sound : Option Bytes} (h : PadSays raw sound)
    (heard : List Bytes) : (noted heard).hear raw = noted (heard ++ [raw]) := by
  unfold hear
  rw [h.split]
  simp only [List.foldl_cons, List.foldl_nil, List.any_cons, List.any_nil, isHangup_eq,
    Bool.or_false]
  cases sound with
  | none =>
      rcases h.opcode_cases with ⟨hnone, hsound⟩ | ⟨opcode, hop, hsome⟩
      · rw [observeReply_of_none _ hnone]
        simp [noted, hasOpcode_of_none hnone, hsound]
      · obtain ⟨m, hp, hf, rfl⟩ := exists_message hsome
        have hne : m.opcode ≠ opMedia := by
          intro he
          rw [he] at hop
          revert hop
          decide
        have hsound := soundOf_of_opcode hsome hne
        unfold observeReply
        rw [hp]
        simp only [List.mem_cons, List.not_mem_nil, or_false] at hop
        rcases hop with he | he | he | he | he <;>
          simp [noted, hasOpcode_of hsome, he, hf, hsound, opReply, opAnswer, opUnlock, opHangup,
            opMedia, opKeepalive]
  | some frame =>
      obtain ⟨hop, hsound, hlen, m, media, hp, hf, he, hmedia, htype, rfl⟩ := h.sound_eq
      unfold observeReply
      rw [hp]
      simp [noted, hasOpcode_of hop, he, hf, hsound, observeMedia, hmedia, htype, hlen, opReply,
        opAnswer, opUnlock, opHangup, opMedia]
      omega

/-- **The door notes what it heard.** -/
theorem DoorEar.hearAll_eq {heard : List Bytes} (h : ∀ d ∈ heard, ∃ sound, PadSays d sound) :
    start.hearAll heard = noted heard :=
  foldl_noted hear noted (fun _ _ ⟨_, hd⟩ => hear_noted hd _) h

/-! ## What the other end has noted -/

/-- What a caller has noted that heard these datagrams: no picture among them. -/
def CallObservation.noted (heard : List Bytes) : CallObservation where
  answered := heard.any (hasOpcode opAnswer)
  jpegFrames := 0
  audioPackets := heard.countP (hasOpcode opMedia)
  hangups := heard.countP (hasOpcode opHangup)
  jpeg := .default
  stop := heard.any (hasOpcode opHangup)

theorem CallObservation.hear_noted {raw : Bytes} {sound : Option Bytes} (h : PadSays raw sound)
    (heard : List Bytes) : (noted heard).hear raw = noted (heard ++ [raw]) := by
  unfold hear
  rw [h.split]
  simp only [List.foldl_cons, List.foldl_nil]
  cases sound with
  | none =>
      rcases h.opcode_cases with ⟨hnone, -⟩ | ⟨opcode, hop, hsome⟩
      · rw [observe_of_none _ hnone]
        simp [noted, hasOpcode_of_none hnone]
      · obtain ⟨m, hp, hf, rfl⟩ := exists_message hsome
        unfold observe
        rw [hp]
        simp only [List.mem_cons, List.not_mem_nil, or_false] at hop
        rcases hop with he | he | he | he | he <;>
          simp [noted, hasOpcode_of hsome, he, hf, opReply, opAnswer, opUnlock, opHangup,
            opMedia, opKeepalive]
  | some frame =>
      obtain ⟨hop, -, -, m, media, hp, hf, he, hmedia, htype, -⟩ := h.sound_eq
      unfold observe
      rw [hp]
      simp [noted, hasOpcode_of hop, he, hf, observeMedia, hmedia, htype, opAnswer, opHangup,
        opMedia]

theorem CallObservation.hearAll_eq {heard : List Bytes}
    (h : ∀ d ∈ heard, ∃ sound, PadSays d sound) : start.hearAll heard = noted heard :=
  foldl_noted hear noted (fun _ _ ⟨_, hd⟩ => hear_noted hd _) h

/-- What a door noted was asked for by clients, one command for each thing noted, and it played
    each piece that a talk said at most once. -/
structure OnlyAsked (called : Prop) (tasks : List HouseTask) (ear : DoorEar) : Prop where
  answered : ear.obs.answered = true → ∃ t ∈ tasks, t.carriedOut .claim = true
  unlocks : ear.obs.unlocks ≤ tasks.countP (·.carriedOut .unlock)
  hangups : ear.obs.hangups ≤ tasks.countP (·.carriedOut .hangup)
  stop : ear.stop = true → ∃ t ∈ tasks, t.carriedOut .hangup = true
  sound : ∃ said, SharedOut (HouseTask.Said called) tasks said ∧ ear.played.Subperm said
  /-- It counts what it plays, in whole pieces. -/
  audioPackets : ear.obs.audioPackets = ear.played.length
  audioBytes : ear.obs.audioBytes = 512 * ear.played.length

/-- Where nothing was lost the door has noted all that was asked for and played all that was
    said. -/
structure AllAsked (called : Prop) (tasks : List HouseTask) (ear : DoorEar) : Prop where
  answered : ear.obs.answered = true ↔ ∃ t ∈ tasks, t.carriedOut .claim = true
  unlocks : ear.obs.unlocks = tasks.countP (·.carriedOut .unlock)
  hangups : ear.obs.hangups = tasks.countP (·.carriedOut .hangup)
  stop : ear.stop = true ↔ ∃ t ∈ tasks, t.carriedOut .hangup = true
  sound : SharedOut (HouseTask.Said called) tasks ear.played

/-- The same of the caller of a call between two Pads, who counts no unlocks and is shown no
    picture. -/
structure CallerOnlyAsked (called : Prop) (tasks : List HouseTask) (obs : CallObservation) :
    Prop where
  answered : obs.answered = true → ∃ t ∈ tasks, t.carriedOut .claim = true
  hangups : obs.hangups ≤ tasks.countP (·.carriedOut .hangup)
  stop : obs.stop = true → ∃ t ∈ tasks, t.carriedOut .hangup = true
  sound : ∃ said, SharedOut (HouseTask.Said called) tasks said ∧ obs.audioPackets ≤ said.length
  pictures : obs.jpegFrames = 0

structure CallerAllAsked (called : Prop) (tasks : List HouseTask) (obs : CallObservation) :
    Prop where
  answered : obs.answered = true ↔ ∃ t ∈ tasks, t.carriedOut .claim = true
  hangups : obs.hangups = tasks.countP (·.carriedOut .hangup)
  stop : obs.stop = true ↔ ∃ t ∈ tasks, t.carriedOut .hangup = true
  sound : ∃ said, SharedOut (HouseTask.Said called) tasks said ∧ obs.audioPackets = said.length

theorem any_iff_countP {ι : Type} (f : ι → Bool) (xs : List ι) :
    xs.any f = true ↔ 0 < xs.countP f := by
  rw [List.any_eq_true, List.countP_pos_iff]

section

variable {a : Agent UdpWire} {p : HousePool UdpWire} {heard : List Bytes}

theorem Ledger.heardSays (hp : Ledger p) (h : heard.Subperm p.shared.packets) :
    ∀ d ∈ heard, ∃ sound, PadSays d sound := fun d hd => by
  obtain ⟨sound, hpad, -⟩ := hp.spoken d (h.subset hd)
  exact ⟨sound, hpad⟩

theorem Ledger.countP_le (hp : Ledger p) (h : heard.Subperm p.shared.packets)
    (action : CallAction) :
    heard.countP (hasOpcode action.opcode) ≤ p.threads.countP (·.carriedOut action) :=
  hp.commands action ▸ h.countP_le _

theorem Ledger.exists_of_any (hp : Ledger p) (h : heard.Subperm p.shared.packets)
    (action : CallAction) (hany : heard.any (hasOpcode action.opcode) = true) :
    ∃ t ∈ p.threads, t.carriedOut action = true := by
  have hpos := (any_iff_countP _ heard).mp hany
  exact List.countP_pos_iff.mp (Nat.lt_of_lt_of_le hpos (hp.countP_le h action))

/-- Sound that went out was cut from what a client said. -/
theorem Ledger.said_of_sound (hp : Ledger p) {raw pcm : Bytes} (hraw : raw ∈ p.shared.packets)
    (hsound : soundOf raw = some pcm) :
    ∃ words pc, .talk words pc ∈ p.threads ∧ FrameOf words pcm := by
  obtain ⟨sound, hpad, htalk⟩ := hp.spoken raw hraw
  cases sound with
  | none =>
      rcases hpad.opcode_cases with ⟨-, hnone⟩ | ⟨opcode, hop, hsome⟩
      · rw [hnone] at hsound
        cases hsound
      · rw [soundOf_of_opcode hsome (by rintro rfl; revert hop; decide)] at hsound
        cases hsound
  | some frame =>
      obtain ⟨-, hframe, -⟩ := hpad.sound_eq
      obtain rfl := Option.some.inj (hframe.symm.trans hsound)
      exact htalk _ rfl

/-- Each sound message is one piece. -/
theorem length_sound (h : ∀ d ∈ heard, ∃ sound, PadSays d sound) :
    heard.countP (hasOpcode opMedia) = (heard.filterMap soundOf).length := by
  rw [List.length_filterMap_eq_countP]
  refine List.countP_congr fun d hd => ?_
  obtain ⟨sound, hpad⟩ := h d hd
  rw [hpad.isSome_soundOf]

theorem sound_subperm {packets : List Bytes} (h : heard.Subperm packets) :
    (heard.filterMap soundOf).Subperm (packets.filterMap soundOf) := by
  obtain ⟨part, hperm, hpart⟩ := h
  exact ⟨_, hperm.filterMap soundOf, hpart.filterMap soundOf⟩

theorem Ledger.onlyAsked (hp : Ledger p) (hv : Voiced a p) (h : heard.Subperm p.shared.packets) :
    OnlyAsked (Called a p.threads) p.threads (DoorEar.start.hearAll heard) := by
  have hlength := length_sound (hp.heardSays h)
  rw [DoorEar.hearAll_eq (hp.heardSays h)]
  exact {
    answered := hp.exists_of_any h .claim
    unlocks := hp.countP_le h .unlock
    hangups := hp.countP_le h .hangup
    stop := hp.exists_of_any h .hangup
    sound := ⟨_, hv.sound, sound_subperm h⟩
    audioPackets := hlength
    audioBytes := congrArg (512 * ·) hlength }

theorem Ledger.callerOnlyAsked (hp : Ledger p) (hv : Voiced a p)
    (h : heard.Subperm p.shared.packets) :
    CallerOnlyAsked (Called a p.threads) p.threads (CallObservation.start.hearAll heard) := by
  rw [CallObservation.hearAll_eq (hp.heardSays h)]
  exact {
    answered := hp.exists_of_any h .claim
    hangups := hp.countP_le h .hangup
    stop := hp.exists_of_any h .hangup
    sound := ⟨_, hv.sound, by
      change heard.countP _ ≤ _
      rw [length_sound (hp.heardSays h)]
      exact (sound_subperm h).length_le⟩
    pictures := rfl }

theorem Ledger.count_all (hp : Ledger p) (h : heard.Perm p.shared.packets)
    (action : CallAction) :
    heard.countP (hasOpcode action.opcode) = p.threads.countP (·.carriedOut action) :=
  (h.countP_eq _).trans (hp.commands action)

theorem Ledger.any_all (hp : Ledger p) (h : heard.Perm p.shared.packets) (action : CallAction) :
    heard.any (hasOpcode action.opcode) = true ↔ ∃ t ∈ p.threads, t.carriedOut action = true := by
  rw [any_iff_countP, hp.count_all h, List.countP_pos_iff]

theorem Ledger.allAsked (hp : Ledger p) (hv : Voiced a p) (h : heard.Perm p.shared.packets) :
    AllAsked (Called a p.threads) p.threads (DoorEar.start.hearAll heard) := by
  rw [DoorEar.hearAll_eq (hp.heardSays h.subperm)]
  exact {
    answered := hp.any_all h .claim
    unlocks := hp.count_all h .unlock
    hangups := hp.count_all h .hangup
    stop := hp.any_all h .hangup
    sound := hv.sound.perm (h.filterMap soundOf) }

theorem Ledger.callerAllAsked (hp : Ledger p) (hv : Voiced a p)
    (h : heard.Perm p.shared.packets) :
    CallerAllAsked (Called a p.threads) p.threads (CallObservation.start.hearAll heard) := by
  have hlength := length_sound (hp.heardSays h.subperm)
  rw [CallObservation.hearAll_eq (hp.heardSays h.subperm)]
  exact {
    answered := hp.any_all h .claim
    hangups := hp.count_all h .hangup
    stop := hp.any_all h .hangup
    sound := ⟨_, hv.sound.perm (h.filterMap soundOf), hlength⟩ }

/-- **The door obeys the household's clients**, in every run of a `pad` mode Agent with all its
    handlers, whatever comes in and whatever the network loses or reorders of what goes out. -/
theorem door_obeys_commands (a : Agent UdpWire) (ha : a.wire.out = [])
    (moves : List HouseMove) (p : HousePool UdpWire)
    (hrun : (houseProgram .pad UdpWire).system.run (idleHouse a) moves = some p)
    (heard : List Bytes) (h : heard.Subperm p.shared.packets) :
    OnlyAsked (Called a p.threads) p.threads (DoorEar.start.hearAll heard) ∧
      CallerOnlyAsked (Called a p.threads) p.threads (CallObservation.start.hearAll heard) ∧
      (heard.Perm p.shared.packets →
        AllAsked (Called a p.threads) p.threads (DoorEar.start.hearAll heard) ∧
          CallerAllAsked (Called a p.threads) p.threads
            (CallObservation.start.hearAll heard)) :=
  have hp := Ledger.run ha hrun
  have hv := Voiced.run ha hrun
  ⟨hp.onlyAsked hv h, hp.callerOnlyAsked hv h, fun hall =>
    ⟨hp.allAsked hv hall, hp.callerAllAsked hv hall⟩⟩

end

/-- The known door rings, and a client answers, says something, unlocks and hangs up. -/
def answeredAndUnlocked : List HouseMove :=
  doorRings ++ serve 1 (.agent (.command .claim "c" .lookup)) 8 ++
    serve 2 (.talk [1, 2, 3] .call) 6 ++ serve 3 (.agent (.command .unlock "u" .lookup)) 8 ++
    serve 4 (.agent (.command .hangup "h" .lookup)) 8

/-- All of it reaches the door. -/
theorem door_unlocked_once : ∃ p,
    (houseProgram .pad UdpWire).system.run (idleHouse pinnedPadAgent) answeredAndUnlocked =
        some p ∧
      (p.threads.countP (·.carriedOut .unlock),
        (DoorEar.start.hearAll p.shared.packets).obs.audioPackets) = (1, 1) ∧
      AllAsked (Called pinnedPadAgent p.threads) p.threads
        (DoorEar.start.hearAll p.shared.packets) := by
  have hend : ((houseProgram .pad UdpWire).system.run (idleHouse pinnedPadAgent)
      answeredAndUnlocked).map (fun p => (p.threads.countP (·.carriedOut .unlock),
        (DoorEar.start.hearAll p.shared.packets).obs.audioPackets)) = some (1, 1) := by
    decide +kernel
  obtain ⟨p, hrun, hone⟩ := Option.map_eq_some_iff.mp hend
  exact ⟨p, hrun, hone, ((door_obeys_commands pinnedPadAgent rfl _ p hrun _
    (List.Perm.refl _).subperm).2.2 (.refl _)).1⟩

end Michoi
