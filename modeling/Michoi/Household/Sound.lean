/-
  The sound that a household's talks put on the line to its door.

  `HouseTask.Said` says what a talk has handed over where it stands: the pieces of its buffer up
  to the one that comes next. `said_step` is what one step of any handler adds, and `Voiced` says
  of every run that the sound that went out is what the talks said, each its share (`SharedOut`).
  A talk during an outbound call has another line, which `Called` tells.
-/
import Michoi.Lib.Shares
import Michoi.Household.Ledger
import Michoi.Household.Slots

namespace Michoi

open Lib

/-! ## The sound of a datagram -/

/-- The sound in a datagram. -/
def soundOf (raw : Bytes) : Option Bytes := (audioOf raw).map MediaFragment.data

theorem exists_message {raw : Bytes} {opcode : UInt32} (h : sessionOpcode raw = some opcode) :
    ∃ m, Message.parse raw = .ok m ∧ m.family = familySession ∧ m.opcode = opcode := by
  unfold sessionOpcode at h
  split at h
  · cases h
  · next m hp =>
      split at h
      · next hf => exact ⟨m, hp, hf, Option.some.inj h⟩
      · cases h

theorem soundOf_of_opcode {raw : Bytes} {opcode : UInt32} (h : sessionOpcode raw = some opcode)
    (hop : opcode ≠ opMedia) : soundOf raw = none := by
  obtain ⟨m, hp, -, rfl⟩ := exists_message h
  unfold soundOf audioOf
  rw [hp, show (Except.ok m : Except ProtocolError Message).toOption = some m from rfl,
    Option.bind_some, media_none (.inl hop), Option.map_none]

namespace PadSays

/-- Anything but sound, by its opcode. -/
theorem opcode_cases {raw : Bytes} (h : PadSays raw none) :
    sessionOpcode raw = none ∧ soundOf raw = none ∨
      ∃ opcode ∈ [opReply, opAnswer, opUnlock, opHangup, opKeepalive],
        sessionOpcode raw = some opcode := by
  cases h with
  | bootstrap h =>
      refine .inl ⟨sessionOpcode_bootstrapReply h, ?_⟩
      obtain ⟨station, -, h⟩ := bind_eq_ok_iff.mp h
      rw [← Except.ok.inj h]
      unfold soundOf audioOf
      rw [parse_packet]
      rfl
  | capability h => exact .inr ⟨_, by simp, sessionOpcode_sessionReply h⟩
  | @command action e raw h =>
      refine .inr ⟨_, ?_, sessionOpcode_sessionControl h⟩
      cases action <;> simp [CallAction.opcode]
  | keepalive h => exact .inr ⟨_, by simp, sessionOpcode_sessionControl h⟩

/-- Sound, as a reader has it. -/
theorem sound_eq {raw frame : Bytes} (h : PadSays raw (some frame)) :
    sessionOpcode raw = some opMedia ∧ soundOf raw = some frame ∧ frame.length = 512 ∧
      ∃ m media, Message.parse raw = .ok m ∧ m.family = familySession ∧ m.opcode = opMedia ∧
        m.media = some media ∧ media.mediaType = mediaAudio ∧ media.data = frame := by
  cases h with
  | sound h =>
      obtain ⟨hlen, haudio⟩ := audioOf_audioPacket h
      have hop := sessionOpcode_audioPacket h
      obtain ⟨m, hp, hf, he⟩ := exists_message hop
      have hsound : soundOf raw = some frame := congrArg (Option.map MediaFragment.data) haudio
      unfold audioOf at haudio
      rw [hp] at haudio
      exact ⟨hop, hsound, hlen, m, _, hp, hf, he, haudio, rfl, rfl⟩

theorem isSome_soundOf {raw : Bytes} {sound : Option Bytes} (h : PadSays raw sound) :
    (soundOf raw).isSome = hasOpcode opMedia raw := by
  cases sound with
  | none =>
      rcases h.opcode_cases with ⟨hnone, hsound⟩ | ⟨opcode, hop, hsome⟩
      · unfold hasOpcode
        rw [hsound, hnone]
        rfl
      · have hne : opcode ≠ opMedia := by
          rintro rfl
          revert hop
          decide
        rw [soundOf_of_opcode hsome hne, hasOpcode_of hsome, decide_eq_false hne]
        rfl
  | some frame =>
      obtain ⟨hop, hsound, -⟩ := h.sound_eq
      rw [hsound, hasOpcode_of hop, decide_eq_true rfl]
      rfl

theorem soundOf_of_none {raw : Bytes} (h : PadSays raw none) : soundOf raw = none := by
  rcases h.opcode_cases with ⟨-, hsound⟩ | ⟨opcode, hop, hsome⟩
  · exact hsound
  · exact soundOf_of_opcode hsome (by rintro rfl; revert hop; decide)

end PadSays

/-! ## What a talk has said -/

/-- The pieces of a buffer, each filled up. -/
def pieces (words : Bytes) : List Bytes := (chunks 512 words).map (resize · 512)

/-- What a handler has said to the door so far. While an outbound call has been made a talk may
    have had the call's line instead. -/
def HouseTask.Said (called : Prop) : HouseTask → List Bytes → Prop
  | talk words (.number _ _ frames), sound => sound ++ frames.map (resize · 512) = pieces words
  | talk words (.send _ _ packet frames), sound => ∃ frame, soundOf packet = some frame ∧
      sound ++ frame :: frames.map (resize · 512) = pieces words
  | talk words (.done (.ok ())), sound => sound = pieces words ∨ called ∧ sound = []
  | talk words (.done (.error .agentOffline)), sound => sound <+: pieces words
  | talk _ (.sending ..), sound => called ∧ sound = []
  | _, sound => sound = []

/-- The handler calls another station. -/
def HouseTask.dials : HouseTask → Bool
  | dial .. => true
  | _ => false

/-- There has been an outbound call. -/
def Called (a : Agent UdpWire) (tasks : List HouseTask) : Prop :=
  a.callSession ≠ none ∨ ∃ t ∈ tasks, t.dials = true

section

variable {env : HouseEnv} {h h' : Household UdpWire} {t t' : HouseTask} {called : Prop}
  {sound : List Bytes}

theorem HouseTask.Said.imp {called' : Prop} (hs : t.Said called sound)
    (himp : called → called') : t.Said called' sound := by
  unfold Said at hs ⊢
  split at hs
  · exact hs
  · exact hs
  · exact hs.imp_right fun hc => ⟨himp hc.1, hc.2⟩
  · exact hs
  · exact ⟨himp hs.1, hs.2⟩
  · exact hs

/-- Only a talk says anything. -/
theorem HouseTask.said_iff_of_not_talk (ht : ∀ words pc, t ≠ .talk words pc) :
    t.Said called sound ↔ sound = [] := by
  cases t with
  | talk words pc => exact absurd rfl (ht words pc)
  | _ => rfl

theorem HouseTask.said_of_fresh (ht : t.fresh = true) : t.Said called [] := by
  unfold fresh at ht
  split at ht
  all_goals first | rfl | cases ht

/-- What a step of a talk adds to what it has said. -/
theorem talk_said {words : Bytes} {pc pc' : TalkPc} (hs : TalkStep env h words pc h' pc')
    (hcalled : h.agent.callSession ≠ none → called) : ∃ more,
      h'.packets.filterMap soundOf = h.packets.filterMap soundOf ++ more ∧
        ∀ sound, (HouseTask.talk words pc).Said called sound →
          (HouseTask.talk words pc').Said called (sound ++ more) := by
  have hsilent {h' : Household UdpWire} {pc' : TalkPc} (hw : h'.agent.wire = h.agent.wire)
      (hsaid : ∀ sound, (HouseTask.talk words pc).Said called sound →
        (HouseTask.talk words pc').Said called sound) : ∃ more,
      h'.packets.filterMap soundOf = h.packets.filterMap soundOf ++ more ∧
        ∀ sound, (HouseTask.talk words pc).Said called sound →
          (HouseTask.talk words pc').Said called (sound ++ more) := by
    refine ⟨[], ?_, fun sound hsound => ?_⟩
    · unfold Household.packets
      rw [hw, List.append_nil]
    · rw [List.append_nil]
      exact hsaid sound hsound
  cases hs with
  | noCall | allowed => exact hsilent rfl fun _ hsound => hsound
  | noLine hc | onCall hc =>
      exact hsilent rfl fun _ hsound => ⟨hcalled (by rw [hc]; nofun), hsound⟩
  | sent => exact hsilent rfl fun _ hsound => .inr hsound
  | sending => exact hsilent rfl fun _ hsound => hsound
  | refused => exact hsilent rfl fun _ hsound => hsound
  | noDoor =>
      refine hsilent rfl fun sound hsound => ?_
      obtain rfl : sound = [] := hsound
      exact List.nil_prefix
  | peers =>
      refine hsilent rfl fun sound hsound => ?_
      obtain rfl : sound = [] := hsound
      rfl
  | numbered =>
      refine hsilent rfl fun sound hsound => .inl ?_
      exact (List.append_nil sound).symm.trans hsound
  | unpacked => exact hsilent rfl fun sound hsound => ⟨_, hsound⟩
  | @number _ _ frame frames packet hp =>
      refine hsilent rfl fun sound hsound => ⟨resize frame 512, ?_, hsound⟩
      exact congrArg (Option.map MediaFragment.data) (audioOf_audioPacket hp).2
  | @send peers e packet frames hok =>
      rcases UdpWire.send_cases h.agent.wire env.send packet with ⟨-, hout⟩ | ⟨hno, -⟩
      · refine ⟨(soundOf packet).toList, ?_, ?_⟩
        · change ((h.agent.wire.send env.send packet).2.out.map Prod.snd).filterMap soundOf = _
          rw [hout, List.filterMap_append]
          cases hsound : soundOf packet <;> simp [Household.packets, hsound]
        · rintro sound ⟨frame, hframe, hsound⟩
          rw [hframe]
          exact (List.append_assoc ..).trans hsound
      · exact absurd hok hno
  | @sendFailed peers e packet frames hfail =>
      rcases UdpWire.send_cases h.agent.wire env.send packet with ⟨hok, -⟩ | ⟨-, hsame⟩
      · exact absurd hok hfail
      · refine hsilent hsame fun sound hsound => ?_
        obtain ⟨frame, -, hwords⟩ := hsound
        exact ⟨_, hwords⟩

/-- **What any step adds**: sound comes from the talk that steps, and is its next piece. -/
theorem said_step (hs : HouseStep env h t h' t') (ht : t.Speaks)
    (hcalled : h.agent.callSession ≠ none → called) : ∃ more,
      h'.packets.filterMap soundOf = h.packets.filterMap soundOf ++ more ∧
        ∀ sound, t.Said called sound → t'.Said called (sound ++ more) := by
  by_cases htalk : ∃ words pc, t = .talk words pc
  · obtain ⟨words, pc, rfl⟩ := htalk
    cases hs with
    | talk hs => exact talk_said hs hcalled
    | wire hpc => cases hpc
  · have hno : ∀ words pc, t ≠ .talk words pc := fun words pc he => htalk ⟨words, pc, he⟩
    have hno' : ∀ words pc, t' ≠ .talk words pc := by
      rintro words pc rfl
      cases hs with
      | talk => exact hno _ _ rfl
      | wire _ hpc => cases hpc
    obtain ⟨said, hands⟩ := hands_of_step hs ht
    have hsilent : said.filterMap soundOf = [] := by
      rw [List.filterMap_eq_nil_iff]
      intro d hd
      obtain ⟨sound, hpad, hframe⟩ := hands.spoken d hd
      cases sound with
      | none => exact hpad.soundOf_of_none
      | some frame =>
          obtain ⟨words, pc, hpc, -⟩ := hframe frame rfl
          exact absurd hpc (hno' words pc)
    refine ⟨[], ?_, fun sound hsound => ?_⟩
    · rw [hands.packets, List.filterMap_append, hsilent]
    · obtain rfl := (HouseTask.said_iff_of_not_talk hno).mp hsound
      exact (HouseTask.said_iff_of_not_talk hno').mpr rfl

theorem dials_step (hs : HouseStep env h t h' t') (ht : t.dials = true) : t'.dials = true := by
  cases t with
  | dial =>
      cases hs with
      | dial => rfl
      | wire hpc => cases hpc
  | _ => cases ht

/-- Only a `dial` fills the call slot. -/
theorem dials_of_callSession (hs : HouseStep env h t h' t')
    (hc : h'.agent.callSession ≠ none) : h.agent.callSession ≠ none ∨ t.dials = true := by
  obtain ⟨c, hc⟩ := Option.ne_none_iff_exists'.mp hc
  rcases (house_slots hs).call hc with ⟨c₀, hc₀, -⟩ | hdial
  · exact .inl (by rw [hc₀]; nofun)
  · right
    cases t with
    | dial => rfl
    | _ => cases hdial

end

/-! ## A household -/

/-- The sound that went out is what the talks said. -/
structure Voiced (a : Agent UdpWire) (p : HousePool UdpWire) : Prop where
  called : p.shared.agent.callSession ≠ none → Called a p.threads
  sound : SharedOut (HouseTask.Said (Called a p.threads)) p.threads
    (p.shared.packets.filterMap soundOf)

namespace Voiced

variable {a : Agent UdpWire} {p q : HousePool UdpWire} {m : HouseMove}

theorem start (ha : a.wire.out = []) : Voiced a (idleHouse a) where
  called hc := .inl hc
  sound := by
    have hnil : (idleHouse a).shared.packets = [] := congrArg (List.map Prod.snd) ha
    rw [hnil]
    exact .nil

theorem next (hv : Voiced a p) (hp : Ledger p)
    (hq : (houseProgram .pad UdpWire).system.next p m = some q) : Voiced a q := by
  rcases Program.next_cases hq with
    ⟨t, rfl, hmay, rfl⟩ | ⟨i, env, t, h', t', rfl, ht, hstep, rfl⟩ | ⟨l, rfl, rfl⟩
  · have hcalled : Called a p.threads → Called a (p.threads ++ [t]) :=
      Or.imp_right fun ⟨u, hu, hdial⟩ => ⟨u, List.mem_append_left _ hu, hdial⟩
    exact {
      called := fun hc => hcalled (hv.called hc)
      sound := (hv.sound.imp fun _ _ hsaid => hsaid.imp hcalled).append
        (HouseTask.said_of_fresh (HouseTask.fresh_of_mayStart hmay)) }
  · have hcases := houseStep_cases hstep
    have hcalled : Called a p.threads → Called a (p.threads.set i t') :=
      Or.imp_right fun hdial => exists_set hdial ht (dials_step hcases)
    have hslot : p.shared.agent.callSession ≠ none → Called a (p.threads.set i t') :=
      fun hc => hcalled (hv.called hc)
    obtain ⟨more, hmore, hsaid⟩ :=
      said_step hcases (hp.speaks t (List.mem_of_getElem? ht)) hslot
    refine ⟨fun hc => ?_, ?_⟩
    · rcases dials_of_callSession hcases hc with hc | hdial
      · exact hcalled (hv.called hc)
      · exact .inr (exists_set ⟨t, List.mem_of_getElem? ht, hdial⟩ ht (dials_step hcases))
    · change SharedOut _ (p.threads.set i t') (h'.packets.filterMap soundOf)
      rw [hmore]
      exact (hv.sound.imp fun _ _ hsaid => hsaid.imp hcalled).set ht hsaid
  · refine ⟨fun hc => hv.called ?_, hv.sound⟩
    cases l <;> exact hc

theorem run (ha : a.wire.out = []) {moves : List HouseMove}
    (hrun : (houseProgram .pad UdpWire).system.run (idleHouse a) moves = some p) :
    Voiced a p :=
  (System.run_induction (P := fun p => Ledger p ∧ Voiced a p)
    (fun _ _ _ hp hq => ⟨hp.1.next hq, hp.2.next hp.1 hq⟩) ⟨.start ha, .start ha⟩ hrun).2

end Voiced

end Michoi
