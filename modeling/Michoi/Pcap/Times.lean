/-
  The times that `read_udp` gives the frames of a capture.

  `Capture` is a well-formed file: a magic, the rest of the head, and frames with their
  stamps, in any order of time. `readUdp_bytes` says what is read of it, with the arithmetic
  of the machine, and `timesExact_iff` when that is what the stamps say. The sum of a stamp
  always fits in 64 bits (`time_lt`), so only the difference can go wrong, and the number of
  a frame, which has 32 bits.
-/
import Mathlib.Algebra.Group.Nat.Defs
import Michoi.Ethernet.Fields

namespace Michoi

open Lib Lib.Checked

/-! ## Capture files -/

structure CaptureFrame where
  seconds : UInt32
  fraction : UInt32
  original : UInt32
  data : Bytes
  fits : data.length < 2 ^ 32

structure Capture where
  little : Bool
  /-- The fractions are nanoseconds, not microseconds. -/
  nano : Bool
  /-- The head behind the magic. -/
  head : Bytes
  frames : List CaptureFrame
  headLength : head.length = 20

def u32To (little : Bool) (n : UInt32) : Bytes :=
  if little then u32ToLe n else (u32ToLe n).reverse

namespace CaptureFrame

def header (little : Bool) (f : CaptureFrame) : Bytes :=
  u32To little f.seconds ++ u32To little f.fraction ++
    u32To little (UInt32.ofNat f.data.length) ++ u32To little f.original

def bytes (little : Bool) (f : CaptureFrame) : Bytes := f.header little ++ f.data

end CaptureFrame

namespace Capture

def magic (c : Capture) : Bytes :=
  match c.little, c.nano with
  | true, false => [0xd4, 0xc3, 0xb2, 0xa1]
  | false, false => [0xa1, 0xb2, 0xc3, 0xd4]
  | true, true => [0x4d, 0x3c, 0xb2, 0xa1]
  | false, true => [0xa1, 0xb2, 0x3c, 0x4d]

def bytes (c : Capture) : Bytes :=
  c.magic ++ c.head ++ c.frames.flatMap (CaptureFrame.bytes c.little)

/-- The stamp of a frame, in nanoseconds. -/
def time (c : Capture) (f : CaptureFrame) : Nat :=
  f.seconds.toNat * 1000000000 + f.fraction.toNat * if c.nano then 1 else 1000

/-- The stamp of the first frame. -/
def firstTime (c : Capture) : Nat := (c.frames.head?.map c.time).getD 0

/-- The frames with their numbers, from 1. -/
def numbered (c : Capture) : List (CaptureFrame × Nat) := c.frames.zipIdx 1

/-- `scale`. -/
def scale (c : Capture) : UInt64 := if c.nano then 1000000000 else 1000000

end Capture

/-! ## One frame -/

/-- What `decode_udp` gives for a frame. -/
def decodedAs (number : UInt32) (raw : Bytes) : Option UdpRecord :=
  match ipOf raw with
  | some ip => if CarriesUdp ip then some (UdpRecord.of number ip) else none
  | none => none

/-- A frame can be decoded, whatever its number is. -/
def isDecoded (raw : Bytes) : Bool := (decodedAs 0 raw).isSome

theorem isSome_decodedAs (number : UInt32) (raw : Bytes) :
    (decodedAs number raw).isSome = isDecoded raw := by
  unfold isDecoded decodedAs
  split
  · split <;> rfl
  · rfl

theorem decodedAs_frame {number : UInt32} {raw : Bytes} {u : UdpRecord}
    (h : decodedAs number raw = some u) : u.frame = number ∧ u.timestampMicros = 0 := by
  unfold decodedAs at h
  split at h
  · split at h
    · obtain rfl := Option.some.inj h
      exact ⟨rfl, rfl⟩
    · cases h
  · cases h

section

variable (little : Bool) (f : CaptureFrame)

theorem length_header : (f.header little).length = 16 := by
  cases little <;> rfl

theorem pcapU32_header :
    pcapU32 little (f.header little) 0 = f.seconds ∧
      pcapU32 little (f.header little) 4 = f.fraction ∧
      (pcapU32 little (f.header little) 8).toNat = f.data.length := by
  have hlength : (UInt32.ofNat f.data.length).toNat = f.data.length := by
    rw [UInt32.toNat_ofNat', Nat.mod_eq_of_lt f.fits]
  cases little with
  | false =>
      exact ⟨u32OfLe_toLe f.seconds, u32OfLe_toLe f.fraction,
        (congrArg UInt32.toNat (u32OfLe_toLe _)).trans hlength⟩
  | true =>
      exact ⟨u32OfLe_toLe f.seconds, u32OfLe_toLe f.fraction,
        (congrArg UInt32.toNat (u32OfLe_toLe _)).trans hlength⟩

end

/-- `nanos` of a frame, as the machine computes it. -/
def Capture.nanos (c : Capture) (f : CaptureFrame) : UInt64 :=
  pcapNanos c.little c.scale (f.header c.little)

/-- A stamp fits in 64 bits. -/
theorem time_lt (c : Capture) (f : CaptureFrame) : c.time f < 2 ^ 64 := by
  have hseconds := f.seconds.toNat_lt
  have hfraction := f.fraction.toNat_lt
  unfold Capture.time
  split <;> omega

theorem toNat_nanos (c : Capture) (f : CaptureFrame) : (c.nanos f).toNat = c.time f := by
  have hlt := time_lt c f
  have hseconds := f.seconds.toNat_lt
  have hfraction := f.fraction.toNat_lt
  obtain ⟨hs, hf, _⟩ := pcapU32_header c.little f
  unfold Capture.nanos pcapNanos Capture.time Capture.scale at *
  rw [hs, hf]
  cases c.nano
  · simp only [UInt64.toNat_add, UInt64.toNat_mul, UInt32.toNat_toUInt64, Bool.false_eq_true,
      if_false] at hlt ⊢
    change (f.seconds.toNat * 1000000000 % 2 ^ 64 + f.fraction.toNat * 1000 % 2 ^ 64) % 2 ^ 64 = _
    omega
  · simp only [UInt64.toNat_add, UInt64.toNat_mul, UInt32.toNat_toUInt64, if_true] at hlt ⊢
    change (f.seconds.toNat * 1000000000 % 2 ^ 64 + f.fraction.toNat * 1 % 2 ^ 64) % 2 ^ 64 = _
    omega

/-! ## The loop -/

/-- What is pushed for a frame with its number. -/
def Capture.record (c : Capture) (base : UInt64) (x : CaptureFrame × Nat) : Option UdpRecord :=
  (decodedAs (UInt32.ofNat x.2) x.1.data).map fun u =>
    { u with timestampMicros := (c.nanos x.1 - base) / 1000 }

theorem read_frame (c : Capture) (f : CaptureFrame) {s : PcapReader} {k : Nat} {base : UInt64}
    (hframe : s.frame + 1 = UInt32.ofNat k) (hbase : s.firstNs.getD (c.nanos f) = base) :
    s.read (c.nanos f) f.data =
      .ok ⟨some base, UInt32.ofNat k, s.records ++ (c.record base (f, k)).toList⟩ := by
  unfold PcapReader.read Capture.record
  dsimp only
  rw [decodeUdp_eq, hframe, hbase]
  change (Except.ok (decodedAs (UInt32.ofNat k) f.data) >>= _) = _
  rw [ok_bind]
  cases decodedAs (UInt32.ofNat k) f.data with
  | none =>
      rw [Option.map_none, Option.toList_none, List.append_nil]
      rfl
  | some u => rfl

theorem readFrames_bytes (c : Capture) {frames : List CaptureFrame} {rounds k : Nat}
    {base : UInt64} {s : PcapReader} (hrounds : frames.length ≤ rounds)
    (hframe : s.frame + 1 = UInt32.ofNat k)
    (hbase : ∀ f ∈ frames.head?, s.firstNs.getD (c.nanos f) = base) :
    readFrames c.little c.scale rounds s (frames.flatMap (CaptureFrame.bytes c.little)) =
      .ok (.ok (s.records ++ (frames.zipIdx k).filterMap (c.record base))) := by
  induction frames generalizing rounds k s with
  | nil =>
      rw [List.zipIdx_nil, List.filterMap_nil, List.append_nil]
      cases rounds <;> rfl
  | cons f frames ih =>
      obtain ⟨rounds, rfl⟩ : ∃ r, rounds = r + 1 :=
        ⟨rounds - 1, by simp only [List.length_cons] at hrounds; omega⟩
      have hcaptured := (pcapU32_header c.little f).2.2
      have hheader := length_header c.little f
      have hread := read_frame c f hframe (hbase f rfl)
      have hnext := @ih rounds (k + 1)
        ⟨some base, UInt32.ofNat k, s.records ++ (c.record base (f, k)).toList⟩
        (Nat.le_of_succ_le_succ hrounds) (by simp) (fun _ _ => rfl)
      generalize hrest : frames.flatMap (CaptureFrame.bytes c.little) = rest at hnext
      rw [List.flatMap_cons, hrest, CaptureFrame.bytes, List.append_assoc, readFrames, if_neg (by
        rw [List.length_append, hheader]
        omega)]
      dsimp only
      rw [List.take_append_of_le_length (by omega), List.take_of_length_le (by omega),
        List.drop_append_of_le_length (by omega), List.drop_of_length_le (by omega),
        List.nil_append, hcaptured, if_neg (by rw [List.length_append]; omega), List.take_left,
        List.drop_left]
      change (s.read (c.nanos f) f.data >>= _) = _
      rw [hread, ok_bind, hnext, List.zipIdx_cons, List.filterMap_cons]
      cases c.record base (f, k) <;> simp

theorem pcapMagic_eq (c : Capture) : pcapMagic c.magic = some (c.little, c.scale) := by
  unfold Capture.magic Capture.scale
  cases c.little <;> cases c.nano <;> rfl

theorem length_magic (c : Capture) : c.magic.length = 4 := by
  unfold Capture.magic
  split <;> rfl

theorem length_le_bytes (little : Bool) (frames : List CaptureFrame) :
    frames.length ≤ (frames.flatMap (CaptureFrame.bytes little)).length := by
  induction frames with
  | nil => exact Nat.le_refl 0
  | cons f frames ih =>
      have hheader := length_header little f
      rw [List.flatMap_cons, List.length_append, List.length_cons, CaptureFrame.bytes,
        List.length_append]
      omega

/-- The stamp that the others are taken relative to. -/
def Capture.base (c : Capture) : UInt64 := (c.frames.head?.map c.nanos).getD 0

/-- **What is read of a capture**: one record for each frame that can be decoded. -/
theorem readUdp_bytes (c : Capture) :
    readUdp c.bytes = .ok (.ok (c.numbered.filterMap (c.record c.base))) := by
  have hhead : (c.magic ++ c.head).length = 24 := by
    rw [List.length_append, length_magic, c.headLength]
  have hmagic : c.bytes.take 4 = c.magic := by
    rw [Capture.bytes, List.append_assoc,
      List.take_append_of_le_length (Nat.le_of_eq (length_magic c).symm),
      List.take_of_length_le (Nat.le_of_eq (length_magic c))]
  have hframes : c.bytes.drop 24 = c.frames.flatMap (CaptureFrame.bytes c.little) := by
    rw [Capture.bytes, List.drop_append_of_le_length (by omega),
      List.drop_of_length_le (by omega), List.nil_append]
  have hlength : c.bytes.length =
      24 + (c.frames.flatMap (CaptureFrame.bytes c.little)).length := by
    rw [Capture.bytes, List.length_append, hhead]
  have hbase : ∀ f ∈ c.frames.head?, (none : Option UInt64).getD (c.nanos f) = c.base := by
    intro f hf
    rw [Capture.base, Option.mem_def.mp hf, Option.map_some, Option.getD_some, Option.getD_none]
  have hrounds := length_le_bytes c.little c.frames
  have hread := readFrames_bytes c (k := 1) (s := ⟨none, 0, []⟩)
    (Nat.le_trans hrounds (Nat.le_trans (Nat.le_add_left _ 24) (Nat.le_of_eq hlength.symm)))
    (by decide) hbase
  rw [readUdp, if_neg (by omega), hmagic, pcapMagic_eq, hframes]
  exact hread

/-! ## Exact times -/

/-- A record is that of a frame: its number, what was decoded, and its time relative to the
    first frame, of which no step wraps. -/
structure RecordOf (c : Capture) (x : CaptureFrame × Nat) (u : UdpRecord) : Prop where
  number : u.frame.toNat = x.2
  decoded : decodedAs u.frame x.1.data = some { u with timestampMicros := 0 }
  fits : c.time x.1 < 2 ^ 64
  notBefore : c.firstTime ≤ c.time x.1
  micros : u.timestampMicros.toNat = (c.time x.1 - c.firstTime) / 1000

/-- The file is read, and its records are those of the decodable frames, in their order. -/
def TimesExact (c : Capture) : Prop :=
  ∃ records, readUdp c.bytes = .ok (.ok records) ∧
    List.Forall₂ (RecordOf c) (c.numbered.filter fun x => isDecoded x.1.data) records

/-- Elements with a value, beside the values. -/
theorem forall₂_filterMap {α β : Type} {R : α → β → Prop} {p : α → Bool} {f : α → Option β}
    (hp : ∀ x, (f x).isSome = p x) (l : List α) :
    List.Forall₂ R (l.filter p) (l.filterMap f) ↔ ∀ x ∈ l, ∀ y, f x = some y → R x y := by
  induction l with
  | nil => simp
  | cons x l ih =>
      have hx := hp x
      cases hf : f x with
      | none =>
          rw [hf] at hx
          simp [← hx, hf, ih]
      | some y =>
          rw [hf] at hx
          simp [← hx, hf, ih]

theorem toNat_base (c : Capture) : c.base.toNat = c.firstTime := by
  unfold Capture.base Capture.firstTime
  cases c.frames.head? with
  | none => rfl
  | some f => exact toNat_nanos c f

theorem recordOf_iff (c : Capture) {x : CaptureFrame × Nat} {u : UdpRecord}
    (h : c.record c.base x = some u) :
    RecordOf c x u ↔ x.2 < 2 ^ 32 ∧ c.firstTime ≤ c.time x.1 := by
  obtain ⟨u', hu', rfl⟩ := Option.map_eq_some_iff.mp h
  obtain ⟨hnumber, hstamp⟩ := decodedAs_frame hu'
  have htoNat : (UInt32.ofNat x.2).toNat = x.2 % 2 ^ 32 := UInt32.toNat_ofNat'
  constructor
  · intro hr
    refine ⟨?_, hr.notBefore⟩
    have hnumber' : u'.frame.toNat = x.2 := hr.number
    rw [hnumber, htoNat] at hnumber'
    omega
  · rintro ⟨hlt, hle⟩
    have hsub : (c.nanos x.1 - c.base).toNat = c.time x.1 - c.firstTime := by
      rw [UInt64.toNat_sub_of_le _ _ (UInt64.le_iff_toNat_le.mpr (by
        rw [toNat_base, toNat_nanos]
        exact hle)), toNat_base, toNat_nanos]
    refine ⟨?_, ?_, time_lt c x.1, hle, ?_⟩
    · change u'.frame.toNat = x.2
      rw [hnumber, htoNat, Nat.mod_eq_of_lt hlt]
    · have hself : { u' with timestampMicros := 0 } = u' := by rw [← hstamp]
      change decodedAs u'.frame x.1.data = some { u' with timestampMicros := 0 }
      rw [hself, hnumber, hu']
    · change ((c.nanos x.1 - c.base) / 1000).toNat = _
      rw [UInt64.toNat_div, hsub]
      rfl

/-- **Relative times are exact** exactly where no decodable frame has a stamp before the first
    frame's, or a number that does not fit. -/
theorem timesExact_iff (c : Capture) : TimesExact c ↔
    ∀ x ∈ c.numbered, isDecoded x.1.data → x.2 < 2 ^ 32 ∧ c.firstTime ≤ c.time x.1 := by
  have hsome : ∀ x : CaptureFrame × Nat,
      (c.record c.base x).isSome = isDecoded x.1.data := by
    intro x
    rw [Capture.record, Option.isSome_map, isSome_decodedAs]
  have hexact : TimesExact c ↔
      ∀ x ∈ c.numbered, ∀ u, c.record c.base x = some u → RecordOf c x u := by
    rw [← forall₂_filterMap hsome]
    constructor
    · rintro ⟨records, hread, hrecords⟩
      rw [readUdp_bytes] at hread
      cases hread
      exact hrecords
    · exact fun h => ⟨_, readUdp_bytes c, h⟩
  rw [hexact]
  constructor
  · intro h x hx hdecoded
    obtain ⟨u, hu⟩ := Option.isSome_iff_exists.mp ((hsome x).trans hdecoded)
    exact (recordOf_iff c hu).mp (h x hx u hu)
  · intro h x hx u hu
    have hdecoded : isDecoded x.1.data = true := by
      rw [← hsome x, hu]
      rfl
    exact (recordOf_iff c hu).mpr (h x hx hdecoded)

/-- A frame with an empty datagram. -/
def emptyDatagram : Bytes :=
  List.replicate 12 2 ++ [8, 0] ++
    [0x45, 0, 0, 28, 0, 0, 0, 0, 64, 17, 0, 0, 10, 0, 0, 1, 10, 0, 0, 2] ++
    [0x27, 0x10, 0x27, 0x10, 0, 8, 0, 0]

/-- Two frames, the second stamped one second before the first. -/
def swapped : Capture where
  little := true
  nano := false
  head := List.replicate 20 0
  frames := [⟨2, 0, 42, emptyDatagram, by decide⟩, ⟨1, 0, 42, emptyDatagram, by decide⟩]
  headLength := rfl

/-- The second frame's time is 2^64 nanoseconds less one second, in microseconds. -/
theorem swapped_wraps :
    (swapped.numbered.filterMap (swapped.record swapped.base)).map
        (fun u => (u.frame, u.timestampMicros)) = [(1, 0), (2, 18446744072709551)] ∧
      ¬ TimesExact swapped := by
  refine ⟨by decide +kernel, ?_⟩
  rintro ⟨records, _, hrecords⟩
  have hdecoded : (swapped.numbered.filter fun x => isDecoded x.1.data) = swapped.numbered := by
    rfl
  rw [hdecoded] at hrecords
  cases hrecords with
  | cons _ hrest =>
      cases hrest with
      | cons hsecond _ => exact absurd hsecond.notBefore (by decide +kernel)

end Michoi
