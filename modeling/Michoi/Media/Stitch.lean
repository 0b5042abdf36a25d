/-
  One reassembler for all streams: when a frame is put together from two pictures.

  Senders count their frames from 1 on, modulo 2^16, and the reassembler is never reset, so
  a frame may find the parts of another one under its number. `ArrivesApart` says that it
  does not, at its first fragment; `never_stitched` is every run of which all steps meet
  that, and `frames_stitched` a run that does not.
-/
import Michoi.Lib.System
import Michoi.Media.Fragments

namespace Michoi

open Lib

/-! ## Streams -/

/-- The frames of one sender, numbered from 1 on modulo 2^16. -/
def numbered (jpegs : List Bytes) : List SentFrame :=
  jpegs.mapIdx fun i jpeg => { sequence := UInt16.ofNat (i + 1), jpeg }

/-- All frames that are sent, stream after stream. -/
def streamFrames (streams : List (List Bytes)) : List SentFrame := streams.flatMap numbered

/-- All fragments in sending order, each with the place of its frame. -/
def sending (streams : List (List Bytes)) : List (Nat × MediaFragment) :=
  (streamFrames streams).zipIdx.flatMap fun s => s.1.fragments.map fun f => (s.2, f)

/-- The Agent's reassembler, the frame whose fragment came last, and the frames returned. -/
structure SharedReassembler where
  reassembler : Reassembler
  last : Option Nat
  returned : List Bytes

namespace SharedReassembler

def start : SharedReassembler where
  reassembler := .default
  last := none
  returned := []

/-- A fragment arrives. -/
def arrive (p : SharedReassembler) (m : Nat × MediaFragment) : SharedReassembler where
  reassembler := (p.reassembler.push m.2).2
  last := some m.1
  returned := p.returned ++ (p.reassembler.push m.2).1.toList

/-- Nothing is pending under the fragment's number and count, but perhaps a part in the very
    place of the fragment. -/
def Clear (r : JpegReassembler) (f : MediaFragment) : Prop :=
  ∀ entry ∈ r.frames.lookup f.sequence, entry.1 = f.fragmentCount →
    ∀ index ∈ entry.2.keys, index = f.fragmentIndex

instance (r : JpegReassembler) (f : MediaFragment) : Decidable (Clear r f) :=
  have (entry : UInt16 × Parts) : Decidable (∀ index ∈ entry.2.keys, index = f.fragmentIndex) :=
    List.decidableBAll _ _
  inferInstanceAs (Decidable (∀ entry ∈ r.frames.lookup f.sequence, _))

/-- The first fragment of a frame to arrive finds no parts of another frame. -/
def ArrivesApart (p : SharedReassembler) (m : Nat × MediaFragment) : Prop :=
  p.last ≠ some m.1 → Clear p.reassembler.1 m.2

instance (p : SharedReassembler) (m : Nat × MediaFragment) : Decidable (p.ArrivesApart m) :=
  inferInstanceAs (Decidable (_ → _))

end SharedReassembler

/-- The reassembler over the arrivals. -/
def sharedSystem : System SharedReassembler (Nat × MediaFragment) := .ofFun .arrive

/-! ## Runs -/

namespace SharedReassembler

/-- Every entry has parts of one frame, the entry under the number and count of the last frame
    has parts of that, and what was returned was sent. -/
structure Unmixed (frames : List SentFrame) (p : SharedReassembler) : Prop where
  entries : ∀ sequence entry, p.reassembler.1.frames.lookup sequence = some entry →
    ∃ s ∈ frames, s.sequence = sequence ∧ OfFrame s entry
  current : ∀ g s parts, p.last = some g → frames[g]? = some s →
    p.reassembler.1.frames.lookup s.sequence = some (s.count, parts) →
    OfFrame s (s.count, parts)
  returned : ∀ jpeg ∈ p.returned, ∃ s ∈ frames, jpeg = s.jpeg

theorem Unmixed.start (frames : List SentFrame) : Unmixed frames start where
  entries sequence entry hl := by cases hl
  current g s parts hlast := by cases hlast
  returned jpeg h := by cases h

variable {frames : List SentFrame} {p : SharedReassembler} {g i : Nat} {s : SentFrame}

/-- What is beside an arriving fragment is of its frame. -/
theorem Unmixed.besideOwn (h : Unmixed frames p) (hg : frames[g]? = some s)
    (hapart : p.ArrivesApart (g, s.fragment i)) : p.reassembler.1.BesideOwn s i := by
  intro parts hl index data hindex hdata
  by_cases hlast : p.last = some g
  · exact (h.current g s parts hlast hg hl).parts index data hdata
  · have hclear := hapart hlast
    have hmem : index ∈ parts.keys := AList.lookup_isSome.mp (by rw [hdata]; rfl)
    exact absurd (hclear (s.count, parts) hl rfl index hmem) hindex

/-- **One arrival keeps the frames apart.** -/
theorem Unmixed.arrive (h : Unmixed frames p) (hg : frames[g]? = some s) (hs : s.Numberable)
    (hi : i < s.pieces) (hapart : p.ArrivesApart (g, s.fragment i)) :
    Unmixed frames (p.arrive (g, s.fragment i)) := by
  have hbeside := h.besideOwn hg hapart
  have hmem : s ∈ frames := List.mem_of_getElem? hg
  have husable := SentFrame.usable_fragment hs hi
  have hpushed := p.reassembler.pushed (s.fragment i)
  have hof := JpegReassembler.entryWith_ofFrame hi hbeside
  constructor
  case entries =>
    intro sequence entry hl
    rcases hpushed.lookup husable hl with ⟨rfl, rfl⟩ | ⟨-, hl⟩
    · exact ⟨s, hmem, rfl, hof⟩
    · exact h.entries sequence entry hl
  case current =>
    intro g' s' parts hlast hg' hl
    obtain rfl : g = g' := Option.some.inj hlast
    obtain rfl : s = s' := Option.some.inj (hg.symm.trans hg')
    rcases hpushed.lookup husable hl with ⟨-, hentry⟩ | ⟨hne, -⟩
    · rw [hentry]
      exact hof
    · exact absurd rfl hne
  case returned =>
    intro jpeg hjpeg
    rcases List.mem_append.mp hjpeg with hjpeg | hjpeg
    · exact h.returned jpeg hjpeg
    · rw [Option.mem_toList] at hjpeg
      rw [show (p.reassembler.push (s.fragment i)).1 = some jpeg from hjpeg] at hpushed
      exact ⟨s, hmem, hpushed.frame_eq hs hi hbeside⟩

/-- What is sent is a fragment of the frame at its place. -/
theorem mem_sending {streams : List (List Bytes)} {m : Nat × MediaFragment}
    (h : m ∈ sending streams) : ∃ s i, (streamFrames streams)[m.1]? = some s ∧ i < s.pieces ∧
      m.2 = s.fragment i := by
  obtain ⟨⟨s, g⟩, hs, hm⟩ := List.mem_flatMap.mp h
  obtain ⟨f, hf, rfl⟩ := List.mem_map.mp hm
  obtain ⟨i, hi, rfl⟩ := SentFrame.mem_fragments.mp hf
  exact ⟨s, i, List.mem_zipIdx_iff_getElem?.mp hs, hi, rfl⟩

theorem mem_streamFrames {streams : List (List Bytes)} {s : SentFrame}
    (h : s ∈ streamFrames streams) : ∃ stream ∈ streams, s.jpeg ∈ stream := by
  obtain ⟨stream, hstream, hs⟩ := List.mem_flatMap.mp h
  obtain ⟨i, hi, rfl⟩ := List.mem_mapIdx.mp hs
  exact ⟨stream, hstream, List.getElem_mem hi⟩

/-- **No frame is stitched from two pictures** where every frame arrives apart: each one that
    was returned is one that a sender sent, and each entry that is pending has parts of one. -/
theorem never_stitched {streams : List (List Bytes)}
    (hsize : ∀ stream ∈ streams, ∀ jpeg ∈ stream, jpeg.length ≤ 1200 * 65535)
    {moves : List (Nat × MediaFragment)} (hmoves : moves.Sublist (sending streams))
    (hapart : sharedSystem.Meets ArrivesApart start moves) {p : SharedReassembler}
    (hrun : sharedSystem.run start moves = some p) :
    (∀ jpeg ∈ p.returned, ∃ stream ∈ streams, jpeg ∈ stream) ∧
      ∀ sequence entry, p.reassembler.1.frames.lookup sequence = some entry →
        ∃ s ∈ streamFrames streams, s.sequence = sequence ∧ OfFrame s entry := by
  have hsent := System.meets_of_mem (M := sharedSystem)
    (fun m hm => mem_sending (hmoves.subset hm)) start
  have hunmixed : Unmixed (streamFrames streams) p := by
    refine System.run_induction_meets (fun p m q hp hok hnext => ?_) (.start _)
      (hapart.and hsent) hrun
    obtain ⟨g, f⟩ := m
    obtain ⟨hapart, s, i, hg, hi, rfl⟩ := hok
    obtain rfl := Option.some.inj hnext
    obtain ⟨stream, hstream, hjpeg⟩ := mem_streamFrames (List.mem_of_getElem? hg)
    exact hp.arrive hg (hsize stream hstream s.jpeg hjpeg) hi hapart
  refine ⟨fun jpeg hjpeg => ?_, hunmixed.entries⟩
  obtain ⟨s, hs, rfl⟩ := hunmixed.returned jpeg hjpeg
  exact mem_streamFrames hs

/-- Two pictures of two slots each, of one color, with a tail of their own. -/
def twoSlots (color tail : UInt8) : Bytes :=
  [0xff, 0xd8] ++ List.replicate 1198 color ++ [tail, 0xff, 0xd9]

/-- A call ends after the first slot of its first picture. The next call's picture takes its
    place, and comes out whole. -/
theorem next_picture_whole : ∃ p, sharedSystem.run start
    [(0, (SentFrame.mk 1 (twoSlots 0 5)).fragment 0),
      (1, (SentFrame.mk 1 (twoSlots 1 7)).fragment 0),
      (1, (SentFrame.mk 1 (twoSlots 1 7)).fragment 1)] = some p ∧
    ∀ jpeg ∈ p.returned, ∃ stream ∈ [[twoSlots 0 5], [twoSlots 1 7]], jpeg ∈ stream := by
  have hruns : (sharedSystem.run start [(0, (SentFrame.mk 1 (twoSlots 0 5)).fragment 0),
      (1, (SentFrame.mk 1 (twoSlots 1 7)).fragment 0),
      (1, (SentFrame.mk 1 (twoSlots 1 7)).fragment 1)]).isSome = true := by
    decide +kernel
  obtain ⟨p, hp⟩ := Option.isSome_iff_exists.mp hruns
  exact ⟨p, hp, (@never_stitched [[twoSlots 0 5], [twoSlots 1 7]] (by decide +kernel) _
    (by decide +kernel) (by decide +kernel) _ hp).1⟩

/-- The last slot of the first picture and the first slot of the second one are lost: what
    comes out is the first slot of one call and the last slot of the next. -/
theorem frames_stitched : ¬ ∀ (streams : List (List Bytes)) (moves : List (Nat × MediaFragment))
    (p : SharedReassembler), moves.Sublist (sending streams) →
      sharedSystem.run start moves = some p →
      ∀ jpeg ∈ p.returned, ∃ stream ∈ streams, jpeg ∈ stream := by
  intro h
  have hsub : [(0, (SentFrame.mk 1 (twoSlots 0 5)).fragment 0),
      (1, (SentFrame.mk 1 (twoSlots 1 7)).fragment 1)].Sublist
        (sending [[twoSlots 0 5], [twoSlots 1 7]]) := by decide +kernel
  have hsent := h _ _ _ hsub rfl
  have hmixed : ¬ ∀ jpeg ∈ ((start.arrive (0, (SentFrame.mk 1 (twoSlots 0 5)).fragment 0)).arrive
      (1, (SentFrame.mk 1 (twoSlots 1 7)).fragment 1)).returned,
      ∃ stream ∈ [[twoSlots 0 5], [twoSlots 1 7]], jpeg ∈ stream := by decide +kernel
  exact hmixed hsent

end SharedReassembler

end Michoi
