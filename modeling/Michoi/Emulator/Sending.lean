/-
  Everything the door's sending side can do, said once, and what its datagrams are read as.

  `EmulatorStep` has one constructor for each way a step of `run_emulator` can go. `DoorSays`
  lists the datagrams, each built by the encoders of the protocol out of the door's own
  endpoints, its camera and its microphone. Each of them goes through the splitting of a
  receiver in one piece (`DoorSays.split`), and `DoorSays.media_cases` tells the pictures and
  the sound from the rest.
-/
import Michoi.Emulator
import Michoi.Household.Media
import Michoi.Household.Voice

namespace Michoi

open Lib

/-- What the microphone gives: the sound file, or silence without one. -/
def MediaSource.Sounds (media : MediaSource) (chunk : Bytes) : Prop :=
  chunk ∈ media.audio ∨ media.audio = [] ∧ chunk = Emulator.silence

/-- What a step of `run_emulator` can do. -/
inductive EmulatorStep (d : Emulator) : EmulatorTick → Emulator → List Bytes → Prop where
  | paged {tick} (h : d.pc = .page 0) : EmulatorStep d tick (d.goto .bootstrap) []
  | page {tick left} (h : d.pc = .page (left + 1)) :
      EmulatorStep d tick (d.goto (.page left)) [pageRequest]
  | bootstrap {tick} (h : d.pc = .bootstrap) :
      EmulatorStep d tick (d.goto .build) [bootstrapRequest]
  | build {tick request} (h : d.pc = .build) (hr : sessionRequest d.endpoints = .ok request) :
      EmulatorStep d tick (d.goto (.ring 3 request)) []
  | unbuilt {tick error} (h : d.pc = .build) (hr : sessionRequest d.endpoints = .error error) :
      EmulatorStep d tick (d.goto .failed) []
  | rung {tick request} (h : d.pc = .ring 0 request) : EmulatorStep d tick (d.goto .check) []
  | ring {tick left request} (h : d.pc = .ring (left + 1) request) :
      EmulatorStep d tick (d.goto (.ring left request)) [request]
  | refused {left request} (h : d.pc = .ring (left + 1) request) :
      EmulatorStep d .refused (d.goto .failed) []
  | leave {tick} (h : d.pc = .check) (hstop : d.ear.stop = true ∨ tick = .deadline) :
      EmulatorStep d tick (d.goto .bye) []
  | stay {tick} (h : d.pc = .check) (hstop : d.ear.stop = false) :
      EmulatorStep d tick (d.goto .select) []
  | noPicture (h : d.pc = .select) : EmulatorStep d .frame (d.goto .panicked) []
  | picture {frame} (h : d.pc = .select)
      (hf : d.media.frames[d.fi % d.media.frames.length]? = some frame) :
      EmulatorStep d .frame { d with fi := d.fi + 1, seq := d.seq + 1, pc := .check }
        ((jpegPackets d.seq frame d.endpoints).toOption.getD [])
  | silent (h : d.pc = .select) (ha : d.ear.obs.answered = false) :
      EmulatorStep d .audio (d.goto .check) []
  | sound {chunk ai} (h : d.pc = .select) (ha : d.ear.obs.answered = true)
      (hc : d.media.Sounds chunk) :
      EmulatorStep d .audio { d with ai, aseq := d.aseq + 1, pc := .check }
        (audioPacket d.aseq chunk d.endpoints).toOption.toList
  | keepalive (h : d.pc = .select) :
      EmulatorStep d .keepalive (d.goto .check) (d.control opKeepalive)
  | stopped (h : d.pc = .select) : EmulatorStep d .stopped (d.goto .check) []
  | bye {tick} (h : d.pc = .bye) : EmulatorStep d tick (d.goto .done) (d.control opHangup)

theorem sendFrame_cases {d d' : Emulator} {sent : List Bytes} (hpc : d.pc = .select)
    (h : d.sendFrame = some (d', sent)) : EmulatorStep d .frame d' sent := by
  unfold Emulator.sendFrame at h
  split at h
  · cases h; exact .noPicture hpc
  · next hf => cases h; exact .picture hpc hf

theorem sendAudio_cases {d d' : Emulator} {sent : List Bytes} (hpc : d.pc = .select)
    (h : d.sendAudio = some (d', sent)) : EmulatorStep d .audio d' sent := by
  unfold Emulator.sendAudio at h
  split at h
  · next ha => cases h; exact .silent hpc (by simpa using ha)
  · next ha =>
      have ha : d.ear.obs.answered = true := by simpa using ha
      split at h
      · next hnone =>
          cases h
          refine .sound hpc ha (.inr ⟨?_, rfl⟩)
          -- An index modulo the length is in range unless there is nothing.
          by_contra hne
          have hlt := Nat.mod_lt d.ai (List.length_pos_iff.mpr hne)
          rw [List.getElem?_eq_getElem hlt] at hnone
          cases hnone
      · next hc => cases h; exact .sound hpc ha (.inl (List.mem_of_getElem? hc))

theorem emulatorStep_cases {d d' : Emulator} {tick : EmulatorTick} {sent : List Bytes}
    (h : d.step tick = some (d', sent)) : EmulatorStep d tick d' sent := by
  unfold Emulator.step at h
  split at h
  case h_1 hpc => cases h; exact .paged hpc
  case h_2 hpc => cases h; exact .page hpc
  case h_3 hpc => cases h; exact .bootstrap hpc
  case h_4 hpc =>
    split at h
    · next hr => cases h; exact .build hpc hr
    · next hr => cases h; exact .unbuilt hpc hr
  case h_5 hpc => cases h; exact .rung hpc
  case h_6 hpc =>
    split at h
    · next ht => cases h; subst ht; exact .refused hpc
    · cases h; exact .ring hpc
  case h_7 hpc =>
    split at h
    · next hstop =>
        cases h
        exact .leave hpc (by simpa using hstop)
    · next hstop =>
        cases h
        rw [Bool.or_eq_true, not_or, Bool.not_eq_true] at hstop
        exact .stay hpc hstop.1
  case h_8 hpc =>
    split at h
    · exact sendFrame_cases hpc h
    · exact sendAudio_cases hpc h
    · cases h; exact .keepalive hpc
    · cases h; exact .stopped hpc
    · cases h
    · cases h
  case h_9 hpc => cases h; exact .bye hpc
  all_goals cases h

/-! ## The datagrams -/

namespace Emulator

/-- The frame that goes out as number `i`, counted from zero. -/
def frame (d : Emulator) (i : Nat) : SentFrame where
  sequence := UInt16.ofNat (i + 1)
  jpeg := (d.media.frames[i % d.media.frames.length]?).getD []

/-- The frames that went out. -/
def frames (d : Emulator) : List SentFrame := (List.range d.fi).map d.frame

/-- The counter of the frames and the request are what they should be. -/
structure InOrder (d : Emulator) : Prop where
  seq : d.seq = UInt16.ofNat (d.fi + 1)
  request : ∀ left request, d.pc = .ring left request → sessionRequest d.endpoints = .ok request

theorem InOrder.start (e : Endpoints) (media : MediaSource) : (start e media).InOrder where
  seq := rfl
  request _ _ h := nomatch h

end Emulator

/-- What a door hands to its socket. -/
inductive DoorSays (d : Emulator) : Bytes → Prop where
  | page : DoorSays d pageRequest
  | bootstrap : DoorSays d bootstrapRequest
  | request {raw} (h : sessionRequest d.endpoints = .ok raw) : DoorSays d raw
  | keepalive {raw} (h : sessionControl opKeepalive d.endpoints = .ok raw) : DoorSays d raw
  | hangup {raw} (h : sessionControl opHangup d.endpoints = .ok raw) : DoorSays d raw
  | sound {sequence chunk raw} (ha : d.ear.obs.answered = true) (hc : d.media.Sounds chunk)
      (h : audioPacket sequence chunk d.endpoints = .ok raw) : DoorSays d raw
  | picture {s raw} (hs : s ∈ d.frames) (h : s.Has d.endpoints raw) : DoorSays d raw

section

variable {d d' : Emulator} {tick : EmulatorTick} {sent : List Bytes}

/-- What a door never changes, and what only grows. -/
structure Emulator.Later (d d' : Emulator) : Prop where
  endpoints : d'.endpoints = d.endpoints
  media : d'.media = d.media
  fi : d.fi ≤ d'.fi
  answered : d.ear.obs.answered = true → d'.ear.obs.answered = true

theorem Emulator.Later.frames (h : d.Later d') {s : SentFrame} (hs : s ∈ d.frames) :
    s ∈ d'.frames := by
  obtain ⟨i, hi, rfl⟩ := List.mem_map.mp hs
  refine List.mem_map.mpr ⟨i, ?_, ?_⟩
  · rw [List.mem_range] at hi ⊢
    exact Nat.lt_of_lt_of_le hi h.fi
  · unfold Emulator.frame
    rw [h.media]

/-- What was said stays said. -/
theorem DoorSays.later {raw : Bytes} (hd : DoorSays d raw) (h : d.Later d') : DoorSays d' raw := by
  cases hd with
  | page => exact .page
  | bootstrap => exact .bootstrap
  | request hr => exact .request (h.endpoints ▸ hr)
  | keepalive hr => exact .keepalive (h.endpoints ▸ hr)
  | hangup hr => exact .hangup (h.endpoints ▸ hr)
  | sound ha hc hr => exact .sound (h.answered ha) (h.media ▸ hc) (h.endpoints ▸ hr)
  | picture hs hr => exact .picture (h.frames hs) (h.endpoints ▸ hr)

theorem EmulatorStep.later (hs : EmulatorStep d tick d' sent) : d.Later d' := by
  cases hs with
  | picture => exact ⟨rfl, rfl, Nat.le_succ _, fun h => h⟩
  | _ => exact ⟨rfl, rfl, Nat.le_refl _, fun h => h⟩

theorem EmulatorStep.ear (hs : EmulatorStep d tick d' sent) : d'.ear = d.ear := by
  cases hs <;> rfl

theorem EmulatorStep.inOrder (hs : EmulatorStep d tick d' sent) (hd : d.InOrder) :
    d'.InOrder := by
  cases hs with
  | build hpc hr =>
      refine ⟨hd.seq, fun left request h => ?_⟩
      cases h
      exact hr
  | ring hpc =>
      refine ⟨hd.seq, fun left request h => ?_⟩
      cases h
      exact hd.request _ _ hpc
  | picture hpc hf =>
      refine ⟨?_, fun _ _ h => nomatch h⟩
      change d.seq + 1 = UInt16.ofNat (d.fi + 1 + 1)
      rw [hd.seq, UInt16.ofNat_add (d.fi + 1) 1]
      rfl
  | _ => exact ⟨hd.seq, fun _ _ h => nomatch h⟩

theorem mem_control {opcode : UInt32} {raw : Bytes} (h : raw ∈ d.control opcode) :
    sessionControl opcode d.endpoints = .ok raw := by
  unfold Emulator.control at h
  cases hr : sessionControl opcode d.endpoints with
  | error => rw [hr] at h; cases h
  | ok packet =>
      rw [hr] at h
      rw [List.mem_singleton.mp h]

/-- **What a step hands to the socket.** -/
theorem EmulatorStep.spoken_of_mem (hs : EmulatorStep d tick d' sent) (hd : d.InOrder)
    {raw : Bytes} (hraw : raw ∈ sent) : DoorSays d' raw := by
  cases hs with
  | page => rw [List.mem_singleton.mp hraw]; exact .page
  | bootstrap => rw [List.mem_singleton.mp hraw]; exact .bootstrap
  | ring hpc =>
      rw [List.mem_singleton.mp hraw]
      exact .request (hd.request _ _ hpc)
  | @picture frame hpc hf =>
      cases hr : jpegPackets d.seq frame d.endpoints with
      | error => rw [hr] at hraw; cases hraw
      | ok packets =>
          rw [hr] at hraw
          have hframe : d.frame d.fi = ⟨d.seq, frame⟩ := by
            unfold Emulator.frame
            rw [hf, hd.seq]
            rfl
          refine .picture (s := ⟨d.seq, frame⟩) ?_ ⟨packets, hr, hraw⟩
          exact List.mem_map.mpr ⟨d.fi, List.mem_range.mpr (Nat.lt_succ_self _), hframe⟩
  | @sound chunk _ hpc ha hc =>
      cases hr : audioPacket d.aseq chunk d.endpoints with
      | error => rw [hr] at hraw; cases hraw
      | ok packet =>
          rw [hr] at hraw
          rw [List.mem_singleton.mp hraw]
          exact .sound ha hc hr
  | keepalive => exact .keepalive (mem_control hraw)
  | bye => exact .hangup (mem_control hraw)
  | _ => cases hraw

theorem DoorSays.encoded {raw : Bytes} (h : DoorSays d raw) : Encoded raw := by
  cases h with
  | page => exact .pageRequest
  | bootstrap => exact .bootstrapRequest
  | request h => exact .sessionRequest h
  | keepalive h => exact .sessionControl (by decide) h
  | hangup h => exact .sessionControl (by decide) h
  | sound _ _ h => exact .audioPacket h
  | picture _ h =>
      obtain ⟨packets, hpackets, hmem⟩ := h
      exact .jpegPacket hpackets hmem

theorem DoorSays.split {raw : Bytes} (h : DoorSays d raw) : splitCoalesced raw = [raw] :=
  h.encoded.split

/-! ## What their media are -/

/-- The microphone is open once the Pad has answered. -/
def Emulator.Sounding (d : Emulator) (chunk : Bytes) : Prop :=
  d.media.Sounds chunk ∧ d.ear.obs.answered = true

/-- What the door streams. -/
def Emulator.Streams (d : Emulator) : MediaFragment → Prop := Fragment d.frames d.Sounding

theorem Emulator.Later.sounding (h : d.Later d') {chunk : Bytes} (hc : d.Sounding chunk) :
    d'.Sounding chunk := ⟨h.media ▸ hc.1, h.answered hc.2⟩

theorem Emulator.Streams.later {f : MediaFragment} (hf : d.Streams f) (h : d.Later d') :
    d'.Streams f := by
  rcases hf with ⟨s, hs, hi⟩ | ⟨htype, hc⟩
  · exact .inl ⟨s, h.frames hs, hi⟩
  · exact .inr ⟨htype, h.sounding hc⟩

/-- Media in a datagram of the door are its own. -/
theorem DoorSays.streams {raw : Bytes} (h : DoorSays d raw) {f : MediaFragment}
    (hf : ReadsMedia raw f) : d.Streams f := by
  obtain ⟨m, hp, hm⟩ := hf
  have hno {family : UInt16} {opcode declared : UInt32} {body : Bytes}
      (hraw : raw = packet family opcode declared body) (hop : opcode ≠ opMedia) : False := by
    rw [hraw, parse_packet] at hp
    obtain rfl := Except.ok.inj hp
    rw [media_none (.inl hop)] at hm
    cases hm
  cases h with
  | page | bootstrap => exact (hno rfl (by decide)).elim
  | request h | keepalive h | hangup h =>
      obtain ⟨block, -, h⟩ := bind_eq_ok_iff.mp h
      exact (hno (Except.ok.inj h).symm (by decide)).elim
  | @sound sequence chunk _ ha hc h =>
      obtain ⟨-, haudio⟩ := audioOf_audioPacket h
      unfold audioOf at haudio
      rw [hp] at haudio
      obtain rfl := Option.some.inj (hm.symm.trans haudio)
      exact .inr ⟨rfl, hc, ha⟩
  | @picture s raw hs h =>
      obtain ⟨packets, hpackets, hmem⟩ := h
      obtain ⟨i, hi⟩ := List.mem_iff_getElem?.mp hmem
      obtain ⟨hlt, hread⟩ := (reads_packets hpackets).2 i raw hi
      exact .inl ⟨s, hs, i, hlt, ReadsMedia.unique ⟨m, hp, hm⟩ hread⟩

end

end Michoi
