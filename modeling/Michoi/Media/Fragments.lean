/-
  A JPEG cut into fragments and put together again.

  `SentFrame.fragment` is what the receiver reads of the i-th packet of `jpeg_packets`
  (`reads_packets`). An entry of the reassembler is `OfFrame` when all its parts are
  parts of one frame: then `entryWith` keeps it so, and a complete one joins to the frame
  (`join_of_complete`). `Pushed` is what one `push` can do.
-/
import Michoi.Media.Absorb
import Michoi.Protocol.Codec

namespace Michoi

open Lib

/-- A JPEG that is sent under a sequence number. -/
structure SentFrame where
  sequence : UInt16
  jpeg : Bytes
  deriving DecidableEq, Repr

namespace SentFrame

/-- How many slots of 1200 bytes the frame takes. -/
def pieces (s : SentFrame) : Nat := (s.jpeg.length + 1199) / 1200

def count (s : SentFrame) : UInt16 := UInt16.ofNat (max s.pieces 1)

/-- What is in a slot. -/
def part (s : SentFrame) (i : Nat) : Bytes := (s.jpeg.drop (1200 * i)).take 1200

/-- The fragment in a slot. Its index counts from one. -/
def fragment (s : SentFrame) (i : Nat) : MediaFragment where
  mediaType := mediaJpeg
  sequence := s.sequence
  fragmentCount := s.count
  fragmentIndex := UInt16.ofNat (i + 1)
  validLength := UInt16.ofNat (s.part i).length
  data := s.part i

def fragments (s : SentFrame) : List MediaFragment := (List.range s.pieces).map s.fragment

/-- The frame's slots can be numbered. -/
def Numberable (s : SentFrame) : Prop := s.jpeg.length ≤ 1200 * 65535

instance (s : SentFrame) : Decidable s.Numberable := inferInstanceAs (Decidable (_ ≤ _))

section

variable {s : SentFrame} {i j : Nat}

theorem Numberable.pieces_le (h : s.Numberable) : s.pieces ≤ 65535 := by
  unfold Numberable at h
  unfold SentFrame.pieces
  omega

theorem toNat_index (h : s.Numberable) (hi : i < s.pieces) :
    (UInt16.ofNat (i + 1)).toNat = i + 1 := by
  have := h.pieces_le
  rw [UInt16.toNat_ofNat']
  omega

theorem toNat_count (h : s.Numberable) : s.count.toNat = max s.pieces 1 := by
  have := h.pieces_le
  rw [count, UInt16.toNat_ofNat']
  omega

theorem index_inj (h : s.Numberable) (hi : i < s.pieces) (hj : j < s.pieces)
    (heq : UInt16.ofNat (i + 1) = UInt16.ofNat (j + 1)) : i = j := by
  have := congrArg UInt16.toNat heq
  rw [toNat_index h hi, toNat_index h hj] at this
  omega

theorem mem_fragments {f : MediaFragment} :
    f ∈ s.fragments ↔ ∃ i, i < s.pieces ∧ f = s.fragment i := by
  simp [fragments, eq_comm]

/-- Every fragment of a frame is one that the reassembler keeps. -/
theorem usable_fragment (h : s.Numberable) (hi : i < s.pieces) :
    JpegReassembler.usable (s.fragment i) = true := by
  have hindex := toNat_index h hi
  have hcount := toNat_count h
  have hle : UInt16.ofNat (i + 1) ≤ s.count := by
    rw [UInt16.le_iff_toNat_le, hindex, hcount]
    omega
  have hne : s.count ≠ 0 := fun h0 => by
    have := congrArg UInt16.toNat h0
    rw [hcount, UInt16.toNat_zero] at this
    omega
  have hne' : UInt16.ofNat (i + 1) ≠ 0 := fun h0 => by
    have := congrArg UInt16.toNat h0
    rw [hindex, UInt16.toNat_zero] at this
    omega
  unfold JpegReassembler.usable
  rw [Bool.and_eq_true, Bool.and_eq_true, Bool.and_eq_true]
  exact ⟨⟨⟨rfl, bne_iff_ne.mpr hne⟩, bne_iff_ne.mpr hne'⟩, decide_eq_true hle⟩

theorem flatten_parts (bytes : Bytes) (n : Nat) :
    ((List.range n).map fun i => (bytes.drop (1200 * i)).take 1200).flatten =
      bytes.take (1200 * n) := by
  induction n with
  | zero => simp
  | succ n ih =>
      rw [List.range_succ, List.map_append, List.flatten_append, ih, Nat.mul_succ, List.take_add]
      simp

/-- The parts of a frame, one after the other, are the frame. -/
theorem parts_flatten (s : SentFrame) : ((List.range s.pieces).map s.part).flatten = s.jpeg := by
  have hlen : s.jpeg.length ≤ 1200 * s.pieces := by
    unfold pieces
    omega
  exact (flatten_parts s.jpeg s.pieces).trans (List.take_of_length_le hlen)

end

end SentFrame

/-! ## What the receiver reads of the packets -/

/-- The datagram is parsed, and the media in it pushed. -/
def Reassembler.receive (r : Reassembler) (raw : Bytes) : Option Bytes × Reassembler :=
  match Message.parse raw with
  | .error _ => (none, r)
  | .ok m =>
      match m.media with
      | none => (none, r)
      | some f => r.push f

/-- The packets of a frame, if its endpoints can be packed. -/
def SentFrame.packets (s : SentFrame) (e : Endpoints) : Except ProtocolError (List Bytes) :=
  jpegPackets s.sequence s.jpeg e

theorem Endpoints.length_of_pack {e : Endpoints} {block : Bytes} (h : e.pack = .ok block) :
    block.length = 48 := by
  obtain ⟨door, hdoor, hrest⟩ := bind_eq_ok_iff.mp h
  obtain ⟨room, hroom, hblock⟩ := bind_eq_ok_iff.mp hrest
  obtain rfl := Except.ok.inj hblock
  rw [List.length_append, Michoi.length_of_pack hdoor, Michoi.length_of_pack hroom]

/-- The datagram is a message with this media. -/
def ReadsMedia (raw : Bytes) (f : MediaFragment) : Prop :=
  ∃ m, Message.parse raw = .ok m ∧ m.media = some f

theorem ReadsMedia.receive {raw : Bytes} {f : MediaFragment} (h : ReadsMedia raw f)
    (r : Reassembler) : r.receive raw = r.push f := by
  obtain ⟨m, hparse, hmedia⟩ := h
  unfold Reassembler.receive
  rw [hparse]
  dsimp only
  rw [hmedia]

theorem ReadsMedia.unique {raw : Bytes} {f f' : MediaFragment} (h : ReadsMedia raw f)
    (h' : ReadsMedia raw f') : f = f' := by
  obtain ⟨m, hparse, hmedia⟩ := h
  obtain ⟨m', hparse', hmedia'⟩ := h'
  obtain rfl : m = m' := Except.ok.inj (hparse.symm.trans hparse')
  exact Option.some.inj (hmedia.symm.trans hmedia')

/-- One packet of a frame is read as its fragment, whatever the endpoints are. -/
theorem media_jpegPacket (sequence fragmentCount index : UInt16) {block chunk : Bytes}
    (hblock : block.length = 48) (hchunk : chunk.length ≤ 1200) :
    ReadsMedia (jpegPacket sequence fragmentCount index block chunk) {
      mediaType := mediaJpeg, sequence, fragmentCount, fragmentIndex := index
      validLength := UInt16.ofNat chunk.length, data := chunk } := by
  rw [jpegPacket_eq _ _ _ _ hchunk]
  exact ⟨_, parse_packet .., media_of_header _ (.inl rfl) rfl hblock rfl
    (toNat_length_part hchunk)⟩

/-- **What is read of the packets** are the frame's fragments, one from each. -/
theorem reads_packets {s : SentFrame} {e : Endpoints} {packets : List Bytes}
    (h : s.packets e = .ok packets) : packets.length = s.pieces ∧
      ∀ (i : Nat) raw, packets[i]? = some raw →
        i < s.pieces ∧ ReadsMedia raw (s.fragment i) := by
  obtain ⟨block, hblock, hpackets⟩ := bind_eq_ok_iff.mp h
  obtain rfl := Except.ok.inj hpackets
  have hcount : (chunks 1200 s.jpeg).length = s.pieces := length_chunksLoop (Nat.le_refl _)
  refine ⟨by rw [List.length_mapIdx, hcount], fun i raw hraw => ?_⟩
  rw [List.getElem?_mapIdx] at hraw
  obtain ⟨chunk, hchunk, rfl⟩ := Option.map_eq_some_iff.mp hraw
  have hi : i < (chunks 1200 s.jpeg).length := (List.getElem?_eq_some_iff.mp hchunk).1
  have hdata : chunk = s.part i := getElem?_chunksLoop hchunk
  have hchunkLength : chunk.length ≤ 1200 := by
    rw [hdata]
    exact List.length_take_le ..
  have hread := media_jpegPacket s.sequence s.count (UInt16.ofNat i + 1)
    (Endpoints.length_of_pack hblock) hchunkLength
  have hfragment : s.fragment i = {
      mediaType := mediaJpeg, sequence := s.sequence, fragmentCount := s.count
      fragmentIndex := UInt16.ofNat i + 1, validLength := UInt16.ofNat chunk.length
      data := chunk } := by
    rw [hdata, show UInt16.ofNat i + 1 = UInt16.ofNat (i + 1) from (UInt16.ofNat_add i 1).symm]
    rfl
  rw [hfragment]
  exact ⟨by omega, hread⟩

/-! ## Entries that hold one frame -/

/-- All parts of the entry are parts of the frame, in their places. -/
structure OfFrame (s : SentFrame) (entry : UInt16 × Parts) : Prop where
  count : entry.1 = s.count
  parts : ∀ index data, entry.2.lookup index = some data →
    ∃ i, i < s.pieces ∧ index = UInt16.ofNat (i + 1) ∧ data = s.part i

namespace OfFrame

variable {s : SentFrame} {entry : UInt16 × Parts}

/-- The first part makes such an entry. -/
theorem single {i : Nat} (hi : i < s.pieces) :
    OfFrame s (s.count, AList.insert (UInt16.ofNat (i + 1)) (s.part i) ∅) where
  count := rfl
  parts index data h := by
    by_cases hindex : index = UInt16.ofNat (i + 1)
    · subst hindex
      rw [AList.lookup_insert] at h
      exact ⟨i, hi, rfl, (Option.some.inj h).symm⟩
    · rw [AList.lookup_insert_ne hindex, AList.lookup_empty] at h
      cases h

/-- A part of the frame goes beside others of it. What was in its place does not matter. -/
theorem insert (entry : UInt16 × Parts) {i : Nat} (hcount : entry.1 = s.count) (hi : i < s.pieces)
    (hbeside : ∀ index data, index ≠ UInt16.ofNat (i + 1) →
      entry.2.lookup index = some data →
      ∃ j, j < s.pieces ∧ index = UInt16.ofNat (j + 1) ∧ data = s.part j) :
    OfFrame s (entry.1, entry.2.insert (UInt16.ofNat (i + 1)) (s.part i)) where
  count := hcount
  parts index data hl := by
    by_cases hindex : index = UInt16.ofNat (i + 1)
    · subst hindex
      rw [AList.lookup_insert] at hl
      exact ⟨i, hi, rfl, (Option.some.inj hl).symm⟩
    · rw [AList.lookup_insert_ne hindex] at hl
      exact hbeside index data hindex hl

/-- The indices of the frame, in their order. -/
def indices (s : SentFrame) : List UInt16 := (List.range s.pieces).map fun i => UInt16.ofNat (i + 1)

theorem indices_ordered (hs : s.Numberable) : (indices s).Pairwise (· ≤ ·) := by
  refine List.pairwise_map.mpr (List.pairwise_lt_range.imp_of_mem fun hi hj hlt => ?_)
  rw [UInt16.le_iff_toNat_le, SentFrame.toNat_index hs (List.mem_range.mp hi),
    SentFrame.toNat_index hs (List.mem_range.mp hj)]
  omega

theorem indices_nodup (hs : s.Numberable) : (indices s).Nodup := by
  refine List.Nodup.map_on (fun i hi j hj heq => ?_) List.nodup_range
  exact SentFrame.index_inj hs (List.mem_range.mp hi) (List.mem_range.mp hj) heq

theorem keys_subset (h : OfFrame s entry) : entry.2.keys ⊆ indices s := by
  intro index hmem
  obtain ⟨data, hl⟩ := Option.isSome_iff_exists.mp (AList.lookup_isSome.mpr hmem)
  obtain ⟨i, hi, rfl, -⟩ := h.parts index data hl
  exact List.mem_map.mpr ⟨i, List.mem_range.mpr hi, rfl⟩

/-- An entry is complete when it has all parts. -/
theorem complete_iff (h : OfFrame s entry) (hs : s.Numberable) (hpos : 0 < s.pieces) :
    JpegReassembler.complete entry = true ↔ ∀ i, i < s.pieces →
      UInt16.ofNat (i + 1) ∈ entry.2 := by
  have hcount : entry.1.toNat = s.pieces := by
    rw [h.count, SentFrame.toNat_count hs]
    omega
  unfold JpegReassembler.complete
  rw [Bool.and_eq_true, beq_iff_eq, List.all_eq_true, hcount]
  constructor
  · rintro ⟨-, hall⟩ i hi
    exact of_decide_eq_true (hall (i + 1) (List.mem_range'_1.mpr (by omega)))
  · intro hall
    constructor
    · have hsub : indices s ⊆ entry.2.keys := by
        intro index hmem
        obtain ⟨i, hi, rfl⟩ := List.mem_map.mp hmem
        exact hall i (List.mem_range.mp hi)
      have hle := (List.subperm_of_subset entry.2.keys_nodup h.keys_subset).length_le
      have hge := (List.subperm_of_subset (indices_nodup hs) hsub).length_le
      have hlen : (indices s).length = s.pieces := by simp [indices]
      omega
    · intro index hmem
      obtain ⟨i, rfl⟩ : ∃ i, index = i + 1 := ⟨index - 1, by
        have := List.mem_range'_1.mp hmem
        omega⟩
      exact decide_eq_true (hall i (by have := List.mem_range'_1.mp hmem; omega))

/-- **A complete entry is the frame.** -/
theorem join_of_complete (h : OfFrame s entry) (hs : s.Numberable)
    (hc : JpegReassembler.complete entry = true) : entry.2.join = s.jpeg := by
  have hlen : entry.2.keys.length = entry.1.toNat := by
    unfold JpegReassembler.complete at hc
    rw [Bool.and_eq_true, beq_iff_eq] at hc
    exact hc.1
  have hle := (List.subperm_of_subset entry.2.keys_nodup h.keys_subset).length_le
  have hcount : entry.1.toNat = max s.pieces 1 := by rw [h.count, SentFrame.toNat_count hs]
  have hindices : (indices s).length = s.pieces := by simp [indices]
  have hall := (h.complete_iff hs (by omega)).mp hc
  have hperm : entry.2.keys.Perm (indices s) :=
    (List.subperm_of_subset entry.2.keys_nodup h.keys_subset).perm_of_length_le (by omega)
  have hsorted : entry.2.keys.insertionSort (· ≤ ·) = indices s :=
    ((List.perm_insertionSort _ _).trans hperm).eq_of_pairwise'
      (List.pairwise_insertionSort _ _) (indices_ordered hs)
  have hlookup : ∀ i ∈ List.range s.pieces,
      entry.2.lookup (UInt16.ofNat (i + 1)) = some (s.part i) := by
    intro i hi
    rw [List.mem_range] at hi
    obtain ⟨data, hl⟩ := Option.isSome_iff_exists.mp (AList.lookup_isSome.mpr (hall i hi))
    obtain ⟨j, hj, heq, rfl⟩ := h.parts _ data hl
    rw [hl, SentFrame.index_inj hs hi hj heq]
  unfold Parts.join
  rw [hsorted, indices, List.filterMap_map]
  refine .trans (congrArg List.flatten ?_) s.parts_flatten
  rw [← List.filterMap_eq_map]
  exact List.filterMap_congr fun i hi => hlookup i hi

end OfFrame

/-! ## One push -/

namespace JpegReassembler

/-- Everything one push can do. -/
inductive Pushed (r : JpegReassembler) (f : MediaFragment) :
    Option Bytes → JpegReassembler → Prop where
  | ignored (hu : usable f = false) : Pushed r f none r
  | kept {r' : JpegReassembler} (hu : usable f = true)
      (hc : complete (r.entryWith f) = false)
      (htrim : trimLoop (r.withPart f).frames (r.withPart f).order = some r') :
      Pushed r f none r'
  | joined (hu : usable f = true) (hc : complete (r.entryWith f) = true) :
      Pushed r f
        (if framed (r.entryWith f).2.join then some (r.entryWith f).2.join else none)
        ((r.withPart f).remove f.sequence)

variable {r r' : JpegReassembler} {f : MediaFragment} {frame : Option Bytes}

theorem push_cases (h : r.push f = some (frame, r')) : Pushed r f frame r' := by
  unfold push at h
  split at h
  · next hu =>
      obtain ⟨rfl, rfl⟩ := Prod.mk.inj (Option.some.inj h)
      exact .ignored (by simpa using hu)
  · next hu =>
      dsimp only at h
      split at h
      · next hc =>
          obtain ⟨q, hq, hp⟩ := Option.map_eq_some_iff.mp h
          obtain ⟨rfl, rfl⟩ := Prod.mk.inj hp
          exact .kept (by simpa using hu) (by simpa using hc) hq
      · next hc =>
          obtain ⟨rfl, rfl⟩ := Prod.mk.inj (Option.some.inj h)
          exact .joined (by simpa using hu) (by simpa using hc)

/-- The trim only takes entries away. -/
theorem lookup_of_trimLoop {frames : AList fun _ : UInt16 => UInt16 × Parts}
    {order : List UInt16} (h : trimLoop frames order = some r') {sequence : UInt16}
    {entry : UInt16 × Parts} (hl : r'.frames.lookup sequence = some entry) :
    frames.lookup sequence = some entry := by
  induction order generalizing frames with
  | nil =>
      unfold trimLoop at h
      split at h
      · obtain rfl := Option.some.inj h
        exact hl
      · cases h
  | cons old order ih =>
      unfold trimLoop at h
      split at h
      · obtain rfl := Option.some.inj h
        exact hl
      · have herased := ih h
        by_cases hs : sequence = old
        · subst hs
          rw [AList.lookup_erase] at herased
          cases herased
        · rwa [AList.lookup_erase_ne hs] at herased

/-- Every entry after a push is the one the fragment went into, or was there before. -/
theorem Pushed.lookup (h : Pushed r f frame r') (hu : usable f = true) {sequence : UInt16}
    {entry : UInt16 × Parts} (hl : r'.frames.lookup sequence = some entry) :
    sequence = f.sequence ∧ entry = r.entryWith f ∨
      sequence ≠ f.sequence ∧ r.frames.lookup sequence = some entry := by
  have hpart (hl : (r.withPart f).frames.lookup sequence = some entry) :
      sequence = f.sequence ∧ entry = r.entryWith f ∨
        sequence ≠ f.sequence ∧ r.frames.lookup sequence = some entry := by
    by_cases hs : sequence = f.sequence
    · subst hs
      have hl' : (r.frames.insert f.sequence (r.entryWith f)).lookup f.sequence = some entry := hl
      rw [AList.lookup_insert] at hl'
      exact .inl ⟨rfl, (Option.some.inj hl').symm⟩
    · exact .inr ⟨hs, (AList.lookup_insert_ne hs).symm.trans hl⟩
  cases h with
  | ignored hno =>
      rw [hu] at hno
      cases hno
  | kept _ hc htrim => exact hpart (lookup_of_trimLoop htrim hl)
  | joined _ hc =>
      have hl' : ((r.withPart f).frames.erase f.sequence).lookup sequence = some entry := hl
      by_cases hs : sequence = f.sequence
      · subst hs
        rw [AList.lookup_erase] at hl'
        cases hl'
      · rw [AList.lookup_erase_ne hs] at hl'
        exact hpart hl'

/-- A push makes no entry but the fragment's. -/
theorem Pushed.not_mem (h : Pushed r f frame r') {sequence : UInt16} (hne : f.sequence ≠ sequence)
    (hnew : sequence ∉ r.frames) : sequence ∉ r'.frames := by
  intro hmem
  cases hu : usable f with
  | true =>
      obtain ⟨entry, hl⟩ := Option.isSome_iff_exists.mp (AList.lookup_isSome.mpr hmem)
      rcases h.lookup hu hl with ⟨heq, -⟩ | ⟨-, hl⟩
      · exact hne heq.symm
      · exact hnew (AList.lookup_isSome.mp (by rw [hl]; rfl))
  | false =>
      cases h with
      | ignored _ => exact hnew hmem
      | kept hu' _ _ => rw [hu] at hu'; cases hu'
      | joined hu' _ => rw [hu] at hu'; cases hu'

/-- What is beside the fragment in its entry is of the same frame. A count that differs
    starts the entry anew. -/
def BesideOwn (r : JpegReassembler) (s : SentFrame) (i : Nat) : Prop :=
  ∀ parts, r.frames.lookup s.sequence = some (s.count, parts) →
    ∀ index data, index ≠ UInt16.ofNat (i + 1) → parts.lookup index = some data →
      ∃ j, j < s.pieces ∧ index = UInt16.ofNat (j + 1) ∧ data = s.part j

theorem entryWith_ofFrame {s : SentFrame} {i : Nat} (hi : i < s.pieces)
    (h : r.BesideOwn s i) : OfFrame s (r.entryWith (s.fragment i)) := by
  unfold entryWith
  cases hl : r.frames.lookup (s.fragment i).sequence with
  | none => exact .single hi
  | some entry =>
      obtain ⟨count, parts⟩ := entry
      dsimp only
      split
      · exact .single hi
      · next hcount =>
          obtain rfl : count = s.count := not_not.mp hcount
          exact OfFrame.insert (s.count, parts) rfl hi (h parts hl)

/-- **A frame comes out as it was sent** when only its own parts were beside the last one. -/
theorem Pushed.frame_eq {s : SentFrame} {i : Nat} {jpeg : Bytes} (hs : s.Numberable)
    (hi : i < s.pieces) (hbeside : r.BesideOwn s i)
    (h : Pushed r (s.fragment i) (some jpeg) r') : jpeg = s.jpeg := by
  generalize hframe : some jpeg = frame at h
  cases h with
  | ignored hu => cases hframe
  | kept hu hc htrim => cases hframe
  | joined hu hc =>
      split at hframe
      · rw [Option.some.inj hframe]
        exact (entryWith_ofFrame hi hbeside).join_of_complete hs hc
      · cases hframe

end JpegReassembler

/-- One push of the reassembler that cannot spin. -/
theorem Reassembler.pushed (r : Reassembler) (f : MediaFragment) :
    JpegReassembler.Pushed r.1 f (r.push f).1 (r.push f).2.1 :=
  JpegReassembler.push_cases (r.push_eq f)

end Michoi
