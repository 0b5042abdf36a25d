/-
  Media buffers: the JPEG reassembler (`protocol.rs`) and the pre-roll ring
  (`agent_api.rs`).

  `JpegReassembler` is the source's pair of a map of frames and a queue of their
  sequence numbers. `trim` pops the queue until eight frames are left, and would spin on
  an empty queue: the model returns `none` there. `push_isSome` shows that it never
  happens while the queue lists the frames, so `Reassembler`, which carries that
  invariant, has a total `push`.
-/
import Michoi.Lib.Fifo
import Michoi.Protocol
import Mathlib.Data.List.Sort

namespace Michoi

open Lib

/-! ## Reassembling JPEG frames -/

/-- The parts of one frame by fragment index, `BTreeMap<u16, Vec<u8>>`. -/
abbrev Parts := AList fun _ : UInt16 => Bytes

/-- `BTreeMap::into_values`, flattened: the parts in the order of their index. -/
def Parts.join (parts : Parts) : Bytes :=
  ((parts.keys.insertionSort (· ≤ ·)).filterMap parts.lookup).flatten

structure JpegReassembler where
  frames : AList fun _ : UInt16 => UInt16 × Parts
  order : List UInt16

namespace JpegReassembler

/-- `JpegReassembler::default`. -/
def default : JpegReassembler where
  frames := ∅
  order := []

/-- The loop of `JpegReassembler::trim`; `none` where the source would spin. -/
def trimLoop (frames : AList fun _ : UInt16 => UInt16 × Parts) :
    List UInt16 → Option JpegReassembler
  | [] => if frames.keys.length ≤ 8 then some ⟨frames, []⟩ else none
  | old :: order =>
      if frames.keys.length ≤ 8 then some ⟨frames, old :: order⟩
      else trimLoop (frames.erase old) order

/-- `JpegReassembler::trim`. -/
def trim (r : JpegReassembler) : Option JpegReassembler := trimLoop r.frames r.order

/-- The guard at the head of `push`: only a numbered part of a JPEG frame is kept. -/
def usable (f : MediaFragment) : Bool :=
  f.mediaType == mediaJpeg && f.fragmentCount != 0 && f.fragmentIndex != 0 &&
    f.fragmentIndex ≤ f.fragmentCount

/-- The frame's entry with the new part in it. A changed count starts the frame anew. -/
def entryWith (r : JpegReassembler) (f : MediaFragment) : UInt16 × Parts :=
  match r.frames.lookup f.sequence with
  | none => (f.fragmentCount, AList.insert f.fragmentIndex f.data ∅)
  | some (count, parts) =>
      if count ≠ f.fragmentCount then
        (f.fragmentCount, AList.insert f.fragmentIndex f.data ∅)
      else (count, parts.insert f.fragmentIndex f.data)

/-- The reassembler with the new part in it. -/
def withPart (r : JpegReassembler) (f : MediaFragment) : JpegReassembler where
  frames := r.frames.insert f.sequence (r.entryWith f)
  order := if f.sequence ∈ r.frames then r.order else r.order ++ [f.sequence]

/-- Every index from 1 to the count has its part. -/
def complete (entry : UInt16 × Parts) : Bool :=
  entry.2.keys.length == entry.1.toNat &&
    (List.range' 1 entry.1.toNat).all fun index => UInt16.ofNat index ∈ entry.2

/-- The frame is taken out of both the map and the queue. -/
def remove (r : JpegReassembler) (sequence : UInt16) : JpegReassembler where
  frames := r.frames.erase sequence
  order := r.order.filter (· ≠ sequence)

/-- A joined frame counts when it has a JPEG's first and last two bytes. -/
def framed (frame : Bytes) : Bool :=
  [0xff, 0xd8].isPrefixOf frame && [0xff, 0xd9].isSuffixOf frame

/-- `JpegReassembler::push`: the frame this fragment completes, if any. -/
def push (r : JpegReassembler) (f : MediaFragment) : Option (Option Bytes × JpegReassembler) :=
  if !usable f then some (none, r)
  else
    let entry := r.entryWith f
    if !complete entry then (r.withPart f).trim.map fun r => (none, r)
    else
      let frame := entry.2.join
      some (if framed frame then some frame else none, (r.withPart f).remove f.sequence)

/-- The queue lists the frames that are being put together. -/
def Consistent (r : JpegReassembler) : Prop := Lists r.order r.frames

theorem trimLoop_isSome {frames : AList fun _ : UInt16 => UInt16 × Parts} {order : List UInt16}
    (h : Lists order frames) : ∃ r, trimLoop frames order = some r ∧ r.Consistent := by
  induction order generalizing frames with
  | nil =>
      have h0 : frames.keys.length ≤ 8 := by
        have := h.length_eq
        simp only [List.length_nil] at this
        omega
      exact ⟨⟨frames, []⟩, if_pos h0, h⟩
  | cons old order ih =>
      unfold trimLoop
      split
      · exact ⟨_, rfl, h⟩
      · exact ih h.erase_head

theorem withPart_consistent {r : JpegReassembler} (h : r.Consistent) (f : MediaFragment) :
    (r.withPart f).Consistent := by
  unfold Consistent withPart
  dsimp only
  split
  · next hk => exact h.insert_old hk _
  · next hk => exact h.insert_new hk _

theorem remove_consistent {r : JpegReassembler} (h : r.Consistent) (sequence : UInt16) :
    (r.remove sequence).Consistent :=
  h.erase sequence

/-- From a consistent reassembler `push` returns, and leaves a consistent one. -/
theorem push_isSome {r : JpegReassembler} (h : r.Consistent) (f : MediaFragment) :
    ∃ frame r', r.push f = some (frame, r') ∧ r'.Consistent := by
  unfold push
  split
  · exact ⟨none, r, rfl, h⟩
  · have hp := withPart_consistent h f
    dsimp only
    split
    · obtain ⟨r', hr', hc⟩ := trimLoop_isSome hp
      exact ⟨none, r', by rw [show (r.withPart f).trim = some r' from hr']; rfl, hc⟩
    · exact ⟨_, _, rfl, remove_consistent hp _⟩

end JpegReassembler

/-- A reassembler whose queue and map are in step. -/
def Reassembler := { r : JpegReassembler // r.Consistent }

namespace Reassembler

def default : Reassembler := ⟨.default, Lists.empty⟩

/-- `push` on a reassembler that cannot spin. -/
def push (r : Reassembler) (f : MediaFragment) : Option Bytes × Reassembler :=
  match h : r.1.push f with
  | some (frame, r') =>
      (frame, ⟨r', by
        obtain ⟨_, r'', hp, hc⟩ := JpegReassembler.push_isSome r.2 f
        rw [h] at hp
        cases hp
        exact hc⟩)
  | none => (none, r)

/-- The `none` branch of `push` is never taken. -/
theorem push_eq (r : Reassembler) (f : MediaFragment) :
    r.1.push f = some ((r.push f).1, (r.push f).2.1) := by
  unfold push
  split
  · next h => exact h
  · next h =>
      obtain ⟨_, _, hp, -⟩ := JpegReassembler.push_isSome r.2 f
      rw [h] at hp
      cases hp

end Reassembler

/-! ## The pre-roll ring -/

structure VideoFrame where
  ptsUs : Nat
  jpeg : Bytes
  deriving DecidableEq, Repr

structure AudioChunk where
  ptsUs : Nat
  pcm : Bytes
  deriving DecidableEq, Repr

structure RingInner where
  video : List VideoFrame
  audio : List AudioChunk
  bytes : Nat
  deriving DecidableEq, Repr

structure MediaRing where
  inner : RingInner
  windowUs : Nat
  maxBytes : Nat
  deriving DecidableEq, Repr

namespace RingInner

/-- The loop that drops video frames older than `floor`. -/
def dropOldVideo (floor : Nat) (audio : List AudioChunk) : List VideoFrame → Nat → RingInner
  | [], bytes => ⟨[], audio, bytes⟩
  | f :: video, bytes =>
      if f.ptsUs < floor then dropOldVideo floor audio video (bytes - f.jpeg.length)
      else ⟨f :: video, audio, bytes⟩

/-- The loop that drops audio chunks older than `floor`. -/
def dropOldAudio (floor : Nat) (video : List VideoFrame) : List AudioChunk → Nat → RingInner
  | [], bytes => ⟨video, [], bytes⟩
  | a :: audio, bytes =>
      if a.ptsUs < floor then dropOldAudio floor video audio (bytes - a.pcm.length)
      else ⟨video, a :: audio, bytes⟩

/-- The byte cap: drop the oldest of whichever stream is oldest. Each round drops one
    item, so as many rounds as there are items are enough. -/
def capBytes (maxBytes : Nat) : Nat → RingInner → RingInner
  | 0, inner => inner
  | rounds + 1, inner =>
      if inner.bytes ≤ maxBytes then inner
      else
        match inner.video, inner.audio with
        | v :: video, a :: audio =>
            if a.ptsUs < v.ptsUs then
              capBytes maxBytes rounds ⟨v :: video, audio, inner.bytes - a.pcm.length⟩
            else capBytes maxBytes rounds ⟨video, a :: audio, inner.bytes - v.jpeg.length⟩
        | v :: video, [] => capBytes maxBytes rounds ⟨video, [], inner.bytes - v.jpeg.length⟩
        | [], a :: audio => capBytes maxBytes rounds ⟨[], audio, inner.bytes - a.pcm.length⟩
        | [], [] => inner

/-- `MediaRing::evict`. -/
def evict (inner : RingInner) (windowUs maxBytes newestUs : Nat) : RingInner :=
  let floor := newestUs - windowUs
  let inner := dropOldVideo floor inner.audio inner.video inner.bytes
  let inner := dropOldAudio floor inner.video inner.audio inner.bytes
  capBytes maxBytes (inner.video.length + inner.audio.length) inner

end RingInner

namespace MediaRing

/-- `MediaRing::new`. -/
def new (windowUs maxBytes : Nat) : MediaRing where
  inner := { video := [], audio := [], bytes := 0 }
  windowUs := windowUs
  maxBytes := maxBytes

/-- `MediaRing::push_video`. -/
def pushVideo (ring : MediaRing) (frame : VideoFrame) : MediaRing :=
  if ring.windowUs = 0 then ring
  else
    let inner : RingInner := { ring.inner with
      bytes := ring.inner.bytes + frame.jpeg.length
      video := ring.inner.video ++ [frame] }
    { ring with inner := inner.evict ring.windowUs ring.maxBytes frame.ptsUs }

/-- `MediaRing::push_audio`. -/
def pushAudio (ring : MediaRing) (chunk : AudioChunk) : MediaRing :=
  if ring.windowUs = 0 then ring
  else
    let inner : RingInner := { ring.inner with
      bytes := ring.inner.bytes + chunk.pcm.length
      audio := ring.inner.audio ++ [chunk] }
    { ring with inner := inner.evict ring.windowUs ring.maxBytes chunk.ptsUs }

end MediaRing

end Michoi
