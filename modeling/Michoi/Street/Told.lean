/-
  What a door tells a Pad about the call, and what it hears of it.

  `DoorTells` is what a step of `run_emulator` does to the stage of the call, with the words in
  what it sends (`door_tells`). What the receiver notes of a datagram about the call is its word
  (`DoorEar.hear_word`).
-/
import Michoi.Street.Streamed
import Michoi.Street.Words

namespace Michoi

open Lib

/-! ## What the door tells -/

def EmulatorPc.stage : EmulatorPc → DoorStage
  | page _ => .before
  | bootstrap => .before
  | build => .before
  | ring left _ => if left < 3 then .calling else .before
  | check => .calling
  | select => .calling
  | bye => .calling
  | done => .left
  | failed => .gone
  | panicked => .gone

/-- What a step of the door tells the Pad. -/
inductive DoorTells : DoorStage → DoorStage → List Word → Prop where
  | quiet {stage} : DoorTells stage stage []
  | ring {stage} (h : stage = .before ∨ stage = .calling) : DoorTells stage .calling [.ring]
  | leave : DoorTells .calling .left [.bye]
  | fail {stage} : DoorTells stage .gone []

theorem wordOf_of_media {raw : Bytes} {f : MediaFragment} (h : ReadsMedia raw f) :
    wordOf raw = none := by
  obtain ⟨m, hp, hm⟩ := h
  have hop : m.opcode = opMedia := by
    by_contra hne
    rw [media_none (.inl hne)] at hm
    cases hm
  rw [wordOf_of_parse hp]
  unfold Message.word
  rw [hop]
  exact ite_self none

theorem wordOf_sessionControl {opcode : UInt32} {e : Endpoints} {raw : Bytes}
    (h : sessionControl opcode e = .ok raw) : wordOf raw = Word.ofOpcode opcode := by
  rw [wordOf_eq, sessionOpcode_sessionControl h]
  rfl

theorem wordOf_sessionRequest {e : Endpoints} {raw : Bytes} (h : sessionRequest e = .ok raw) :
    wordOf raw = some .ring := by
  obtain ⟨block, -, h⟩ := bind_eq_ok_iff.mp h
  rw [← Except.ok.inj h, wordOf_packet]
  rfl

section

variable {d d' : Emulator} {tick : EmulatorTick} {sent : List Bytes}

theorem Emulator.control_words (he : d.endpoints.Fits) (opcode : UInt32) :
    (d.control opcode).filterMap wordOf = (Word.ofOpcode opcode).toList := by
  obtain ⟨door, room, hdoor, hroom, -, -⟩ := Endpoints.parse_pack he
  have hok : sessionControl opcode d.endpoints =
      .ok (packet familySession opcode 80 (door ++ room)) := by
    unfold sessionControl Endpoints.pack
    rw [hdoor, hroom]
    rfl
  unfold Emulator.control
  rw [hok]
  change [_].filterMap wordOf = _
  rw [List.filterMap_cons, wordOf_sessionControl hok]
  cases Word.ofOpcode opcode <;> rfl

theorem picture_words (sequence : UInt16) (frame : Bytes) (e : Endpoints) :
    ((jpegPackets sequence frame e).toOption.getD []).filterMap wordOf = [] := by
  rw [List.filterMap_eq_nil_iff]
  intro raw hraw
  cases hp : jpegPackets sequence frame e with
  | error =>
      rw [hp] at hraw
      cases hraw
  | ok packets =>
      rw [hp] at hraw
      obtain ⟨i, hi⟩ := List.mem_iff_getElem?.mp hraw
      exact wordOf_of_media ((reads_packets (s := ⟨sequence, frame⟩) hp).2 i raw hi).2

theorem sound_words (sequence : UInt16) (chunk : Bytes) (e : Endpoints) :
    ((audioPacket sequence chunk e).toOption.toList).filterMap wordOf = [] := by
  cases hp : audioPacket sequence chunk e with
  | error => rfl
  | ok raw =>
      have hno : wordOf raw = none := by
        rw [wordOf_eq, sessionOpcode_audioPacket hp]
        rfl
      change [raw].filterMap wordOf = _
      rw [List.filterMap_cons, hno]
      rfl

/-- **What each step of the door tells.** -/
theorem door_tells (hs : EmulatorStep d tick d' sent) (hd : d.InOrder) (he : d.endpoints.Fits)
    (hthree : ∀ left request, d.pc = .ring left request → left ≤ 3) :
    DoorTells d.pc.stage d'.pc.stage (sent.filterMap wordOf) := by
  cases hs with
  | paged h | build h | rung h => rw [h]; exact .quiet
  | page h =>
      rw [h, List.filterMap_cons, show wordOf pageRequest = none from by decide]
      exact .quiet
  | bootstrap h =>
      rw [h, List.filterMap_cons, show wordOf bootstrapRequest = none from by decide]
      exact .quiet
  | unbuilt | refused | noPicture => exact .fail
  | @ring _ left request h =>
      have hleft := hthree _ _ h
      have hcalling : (EmulatorPc.ring left request).stage = .calling := if_pos (by omega)
      change DoorTells _ (EmulatorPc.ring left request).stage _
      rw [h, hcalling, List.filterMap_cons, wordOf_sessionRequest (hd.request _ _ h)]
      refine .ring ?_
      change (if left + 1 < 3 then DoorStage.calling else .before) = _ ∨
        (if left + 1 < 3 then DoorStage.calling else .before) = _
      split
      · exact .inr rfl
      · exact .inl rfl
  | leave h | stay h | silent h | stopped h => rw [h]; exact .quiet
  | picture h => rw [h, picture_words]; exact .quiet
  | sound h => rw [h, sound_words]; exact .quiet
  | keepalive h => rw [h, Emulator.control_words he]; exact .quiet
  | bye h => rw [h, Emulator.control_words he]; exact .leave

theorem EmulatorStep.ring_le (hs : EmulatorStep d tick d' sent)
    (hthree : ∀ left request, d.pc = .ring left request → left ≤ 3) :
    ∀ left request, d'.pc = .ring left request → left ≤ 3 := by
  intro left request h
  cases hs with
  | build => cases h; exact Nat.le_refl 3
  | ring hpc => cases h; exact Nat.le_of_succ_le (hthree _ _ hpc)
  | _ => cases h

end

/-! ## What the door hears -/

/-- A word is heard where its opcode is. -/
theorem hasOpcode_word (w : Word) (raw : Bytes) :
    hasOpcode w.opcode raw = (wordOf raw == some w) := by
  rw [wordOf_eq]
  unfold hasOpcode
  cases sessionOpcode raw with
  | none => rfl
  | some opcode =>
      rw [Option.bind_some, Bool.eq_iff_iff, beq_iff_eq, beq_iff_eq, Option.some_inj,
        Word.ofOpcode_eq_some]

theorem DoorEar.observeReply_stop (ear : DoorEar) (raw : Bytes) :
    (ear.observeReply raw).stop = ear.stop := by
  unfold observeReply observeMedia
  repeat' split
  all_goals rfl

/-- A datagram of the Pad, as far as it is about the call. -/
theorem DoorEar.hear_word {raw : Bytes} (ear : DoorEar) (h : splitCoalesced raw = [raw]) :
    (ear.hear raw).obs.answered = (ear.obs.answered || wordOf raw == some .answer) ∧
      (ear.hear raw).stop = (ear.stop || wordOf raw == some .bye) := by
  unfold hear
  rw [h]
  dsimp only [List.foldl_cons, List.foldl_nil, List.any_cons, List.any_nil]
  have hanswer : hasOpcode opAnswer raw = _ := hasOpcode_word .answer raw
  have hbye : hasOpcode opHangup raw = _ := hasOpcode_word .bye raw
  rw [Bool.or_false, isHangup_eq, hbye]
  refine ⟨?_, ?_⟩
  · rw [← hanswer, ← observeReply_answered]
  · rw [observeReply_stop]

end Michoi
