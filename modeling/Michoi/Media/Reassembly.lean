/-
  The reassembler over whole runs, with any fragments at all.

  `Sound` is what holds after every push: the queue lists the frames in the order in which
  their entries were made, there are at most eight, and each is begun and not finished.
  `Sound.push` is the step and `Sound.pushes` the run; that no run spins in `trim` is part
  of it. `pushed_keeps` says that the frame a fragment went into is not the one trimmed.
-/
import Michoi.Lib.Recency
import Michoi.Media.Delivered

namespace Michoi

open Lib

/-- Some part of a frame is there, none that is not numbered in it, and one is missing. -/
structure Unfinished (entry : UInt16 × Parts) : Prop where
  begun : entry.2.keys ≠ []
  numbered : ∀ index ∈ entry.2, 1 ≤ index ∧ index ≤ entry.1
  missing : ∃ index, 1 ≤ index ∧ index ≤ entry.1 ∧ index ∉ entry.2

namespace JpegReassembler

variable {r r' : JpegReassembler} {f : MediaFragment} {frame : Option Bytes}
  {made : List UInt16}

/-! ## Runs -/

/-- `push` after `push`; `none` where one of them spins. -/
def pushes : JpegReassembler → List MediaFragment → Option JpegReassembler
  | r, [] => some r
  | r, f :: fs =>
      match r.push f with
      | none => none
      | some (_, r') => r'.pushes fs

/-- The sequence number whose entry a fragment makes. -/
def makes (r : JpegReassembler) (f : MediaFragment) : List UInt16 :=
  if usable f = true ∧ f.sequence ∉ r.frames then [f.sequence] else []

/-- The entries that the pushes make, one after the other. -/
def creations : JpegReassembler → List MediaFragment → List UInt16
  | _, [] => []
  | r, f :: fs =>
      r.makes f ++
        match r.push f with
        | none => []
        | some (_, r') => r'.creations fs

/-- What holds after every push; `made` are the entries made so far, and a frame stands where
    its last one does. -/
structure Sound (made : List UInt16) (r : JpegReassembler) : Prop where
  lists : Lists r.order r.frames
  ordered : r.order.Sublist (recency id made)
  held : r.frames.keys.length ≤ 8
  unfinished : ∀ sequence entry, r.frames.lookup sequence = some entry → Unfinished entry

theorem sound_default : Sound [] default where
  lists := Lists.empty
  ordered := List.Sublist.refl _
  held := Nat.zero_le _
  unfinished := by
    intro sequence entry hl
    cases hl

/-! ## The entry of a fragment -/

/-- The numbers of the parts of a frame. -/
def indicesTo (count : UInt16) : List UInt16 := (List.range' 1 count.toNat).map UInt16.ofNat

theorem mem_indicesTo {count index : UInt16} :
    index ∈ indicesTo count ↔ 1 ≤ index ∧ index ≤ count := by
  have hlt : count.toNat < UInt16.size := count.toNat_lt
  rw [indicesTo, List.mem_map, UInt16.le_iff_toNat_le, UInt16.le_iff_toNat_le]
  constructor
  · rintro ⟨n, hn, rfl⟩
    rw [List.mem_range'_1] at hn
    rw [UInt16.toNat_ofNat_of_lt' (by omega)]
    exact ⟨hn.1, by omega⟩
  · rintro ⟨hpos, hle⟩
    rw [UInt16.toNat_one] at hpos
    exact ⟨index.toNat, List.mem_range'_1.mpr ⟨hpos, by omega⟩, UInt16.ofNat_toNat⟩

theorem nodup_indicesTo (count : UInt16) : (indicesTo count).Nodup := by
  have hlt : count.toNat < UInt16.size := count.toNat_lt
  refine List.Nodup.map_on (fun n hn m hm h => ?_) List.nodup_range'
  rw [List.mem_range'_1] at hn hm
  rw [← UInt16.toNat_inj, UInt16.toNat_ofNat_of_lt' (by omega),
    UInt16.toNat_ofNat_of_lt' (by omega)] at h
  exact h

theorem length_indicesTo (count : UInt16) : (indicesTo count).length = count.toNat := by
  rw [indicesTo, List.length_map, List.length_range']

/-- An entry that is not complete lacks a part: its parts are numbered, so with all of them
    there are as many as the count says. -/
theorem missing_of_not_complete {entry : UInt16 × Parts}
    (hnumbered : ∀ index ∈ entry.2, 1 ≤ index ∧ index ≤ entry.1)
    (hc : complete entry = false) : ∃ index, 1 ≤ index ∧ index ≤ entry.1 ∧ index ∉ entry.2 := by
  by_contra hnone
  have hall : ∀ index, 1 ≤ index → index ≤ entry.1 → index ∈ entry.2 := by
    intro index hpos hle
    by_contra hmem
    exact hnone ⟨index, hpos, hle, hmem⟩
  have hperm : entry.2.keys.Perm (indicesTo entry.1) := by
    refine (List.perm_ext_iff_of_nodup entry.2.keys_nodup (nodup_indicesTo _)).mpr fun index => ?_
    rw [mem_indicesTo]
    exact ⟨fun h => hnumbered index (AList.mem_keys.mpr h),
      fun h => AList.mem_keys.mp (hall index h.1 h.2)⟩
  have htrue : complete entry = true := by
    unfold complete
    rw [Bool.and_eq_true, beq_iff_eq, hperm.length_eq, length_indicesTo, List.all_eq_true]
    refine ⟨rfl, fun n hn => decide_eq_true ?_⟩
    have hmem := mem_indicesTo.mp (List.mem_map_of_mem (f := UInt16.ofNat) hn)
    exact hall _ hmem.1 hmem.2
  rw [hc] at htrue
  cases htrue

theorem numbered_of_usable (hu : usable f = true) :
    1 ≤ f.fragmentIndex ∧ f.fragmentIndex ≤ f.fragmentCount := by
  simp only [usable, Bool.and_eq_true, bne_iff_ne, decide_eq_true_eq] at hu
  refine ⟨?_, hu.2⟩
  have hne : f.fragmentIndex.toNat ≠ 0 := fun h => hu.1.2 (UInt16.toNat_inj.mp h)
  rw [UInt16.le_iff_toNat_le, UInt16.toNat_one]
  omega

/-- The part is in its entry, and every part there is numbered. -/
theorem entryWith_numbered (hr : Sound made r) (hu : usable f = true) :
    f.fragmentIndex ∈ (r.entryWith f).2 ∧
      ∀ index ∈ (r.entryWith f).2, 1 ≤ index ∧ index ≤ (r.entryWith f).1 := by
  have hown := numbered_of_usable hu
  have hinsert (parts : Parts) (count : UInt16) (hcount : count = f.fragmentCount)
      (hparts : ∀ index ∈ parts, 1 ≤ index ∧ index ≤ count) :
      f.fragmentIndex ∈ parts.insert f.fragmentIndex f.data ∧
        ∀ index ∈ parts.insert f.fragmentIndex f.data, 1 ≤ index ∧ index ≤ count := by
    refine ⟨(AList.mem_insert parts).mpr (.inl rfl), fun index hi => ?_⟩
    obtain rfl | hi := (AList.mem_insert parts).mp hi
    · exact hcount ▸ hown
    · exact hparts index hi
  unfold entryWith
  split
  · exact hinsert ∅ _ rfl fun index hi => absurd hi (AList.notMem_empty index)
  · next count parts hl =>
      split
      · exact hinsert ∅ _ rfl fun index hi => absurd hi (AList.notMem_empty index)
      · next hcount => exact hinsert parts _ (not_not.mp hcount) (hr.unfinished _ _ hl).numbered

theorem entryWith_unfinished (hr : Sound made r) (hu : usable f = true)
    (hc : complete (r.entryWith f) = false) : Unfinished (r.entryWith f) where
  begun := List.ne_nil_of_mem (AList.mem_keys.mp (entryWith_numbered hr hu).1)
  numbered := (entryWith_numbered hr hu).2
  missing := missing_of_not_complete (entryWith_numbered hr hu).2 hc

/-! ## The order -/

/-- The queue with the fragment's sequence number in it, after the entry is made. -/
theorem withPart_ordered (hr : Sound made r) (hu : usable f = true) :
    (r.withPart f).order.Sublist (recency id (made ++ r.makes f)) := by
  by_cases hk : f.sequence ∈ r.frames
  · have horder : (r.withPart f).order = r.order := if_pos hk
    have hmakes : r.makes f = [] := if_neg fun h => h.2 hk
    rw [horder, hmakes, List.append_nil]
    exact hr.ordered
  · have horder : (r.withPart f).order = r.order ++ [f.sequence] := if_neg hk
    have hmakes : r.makes f = [f.sequence] := if_pos ⟨hu, hk⟩
    have hno : f.sequence ∉ r.order := fun hm =>
      hk (AList.mem_keys.mpr ((List.Perm.mem_iff hr.lists).mp hm))
    have hkeep : r.order.filter (fun s => id s ≠ id f.sequence) = r.order :=
      List.filter_eq_self.mpr fun s hs => decide_eq_true fun (h : s = f.sequence) => hno (h ▸ hs)
    rw [horder, hmakes, recency_snoc, touch, ← hkeep]
    exact (hr.ordered.filter _).append (List.Sublist.refl _)

/-- The loop leaves eight frames. -/
theorem trimLoop_held {frames : AList fun _ : UInt16 => UInt16 × Parts} {order : List UInt16}
    (h : trimLoop frames order = some r') : r'.frames.keys.length ≤ 8 := by
  induction order generalizing frames with
  | nil =>
      unfold trimLoop at h
      split at h
      · next hle => exact Option.some.inj h ▸ hle
      · cases h
  | cons old order ih =>
      unfold trimLoop at h
      split at h
      · next hle => exact Option.some.inj h ▸ hle
      · exact ih h

/-! ## One push -/

/-- **A push keeps the invariant.** -/
theorem Sound.push (hr : Sound made r) (h : r.push f = some (frame, r')) :
    Sound (made ++ r.makes f) r' := by
  have hlists : Lists r'.order r'.frames := by
    obtain ⟨frame', r'', hp, hc⟩ := push_isSome hr.lists f
    rw [h] at hp
    cases hp
    exact hc
  have hpushed := push_cases h
  refine ⟨hlists, ?_, ?_, fun sequence entry hl => ?_⟩
  · cases hpushed with
    | ignored hu =>
        have hmakes : r.makes f = [] := if_neg fun h => by rw [hu] at h; cases h.1
        rw [hmakes, List.append_nil]
        exact hr.ordered
    | kept hu hc htrim => exact (trimLoop_suffix htrim).sublist.trans (withPart_ordered hr hu)
    | joined hu hc => exact List.filter_sublist.trans (withPart_ordered hr hu)
  · cases hpushed with
    | ignored hu => exact hr.held
    | kept hu hc htrim => exact trimLoop_held htrim
    | joined hu hc =>
        -- the entry that may be one too many is the one taken out
        show ((r.frames.insert f.sequence _).erase f.sequence).keys.length ≤ 8
        rw [AList.keys_erase, AList.keys_insert, List.erase_cons_head]
        exact Nat.le_trans (List.length_erase_le ..) hr.held
  · cases hpushed with
    | ignored hu => exact hr.unfinished sequence entry hl
    | kept hu hc htrim =>
        rcases (push_cases h).lookup hu hl with ⟨-, rfl⟩ | ⟨-, hold⟩
        · exact entryWith_unfinished hr hu hc
        · exact hr.unfinished sequence entry hold
    | joined hu hc =>
        have hne : sequence ≠ f.sequence := by
          rintro rfl
          rw [show ((r.withPart f).remove f.sequence).frames.lookup f.sequence = none from
            AList.lookup_erase ..] at hl
          cases hl
        rcases (push_cases h).lookup hu hl with ⟨heq, -⟩ | ⟨-, hold⟩
        · exact absurd heq hne
        · exact hr.unfinished sequence entry hold

/-- The frame a fragment went into stays. -/
theorem pushed_keeps (hr : Sound made r) (hu : usable f = true)
    (hc : complete (r.entryWith f) = false) :
    ∃ r', r.push f = some (none, r') ∧ r'.frames.lookup f.sequence = some (r.entryWith f) := by
  obtain ⟨frame, r', hp, -⟩ := push_isSome hr.lists f
  have hlookup : (r.withPart f).frames.lookup f.sequence = some (r.entryWith f) :=
    AList.lookup_insert _
  have hlists : Lists (r.withPart f).order (r.withPart f).frames :=
    withPart_consistent hr.lists f
  cases push_cases hp with
  | ignored hno => rw [hu] at hno; cases hno
  | joined _ hc' => rw [hc] at hc'; cases hc'
  | kept _ _ htrim =>
      refine ⟨r', hp, ?_⟩
      by_cases hk : f.sequence ∈ r.frames
      · rw [trimLoop_of_le ((withPart_length hr.lists hk).trans_le hr.held)] at htrim
        rw [← Option.some.inj htrim]
        exact hlookup
      · have horder : (r.withPart f).order = r.order ++ [f.sequence] := if_neg hk
        rw [horder] at htrim hlists
        rw [← hlookup]
        exact (trimLoop_keeps htrim hlists (Nat.zero_lt_succ _)).1

/-! ## The run -/

theorem Sound.pushes (hr : Sound made r) (fs : List MediaFragment) :
    ∃ r', r.pushes fs = some r' ∧ Sound (made ++ r.creations fs) r' := by
  induction fs generalizing made r with
  | nil => exact ⟨r, rfl, by rw [creations, List.append_nil]; exact hr⟩
  | cons f fs ih =>
      obtain ⟨frame, r', hp, -⟩ := push_isSome hr.lists f
      obtain ⟨r'', hrun, hsound⟩ := ih (hr.push hp)
      refine ⟨r'', ?_, ?_⟩
      · rw [JpegReassembler.pushes, hp]
        exact hrun
      · rw [creations, hp, ← List.append_assoc]
        exact hsound

theorem pushes_snoc {fs : List MediaFragment} (h : r.pushes fs = some r')
    {r'' : JpegReassembler} (hp : r'.push f = some (frame, r'')) :
    r.pushes (fs ++ [f]) = some r'' := by
  induction fs generalizing r with
  | nil =>
      obtain rfl := Option.some.inj h
      rw [List.nil_append, JpegReassembler.pushes, hp]
      rfl
  | cons g fs ih =>
      rw [JpegReassembler.pushes] at h
      rw [List.cons_append, JpegReassembler.pushes]
      split at h
      · cases h
      · exact ih h

/-- **Whatever is pushed, no push spins, and after each the queue lists the frames as they
    were begun.** -/
theorem reassembler_represents (fs : List MediaFragment) :
    ∃ r, default.pushes fs = some r ∧ Sound (default.creations fs) r ∧
      ∀ f, usable f = true → complete (r.entryWith f) = false →
        ∃ r', default.pushes (fs ++ [f]) = some r' ∧
          r'.frames.lookup f.sequence = some (r.entryWith f) := by
  obtain ⟨r, hrun, hsound⟩ := sound_default.pushes fs
  rw [List.nil_append] at hsound
  refine ⟨r, hrun, hsound, fun f hu hc => ?_⟩
  obtain ⟨r', hp, hlookup⟩ := pushed_keeps hsound hu hc
  exact ⟨r', pushes_snoc hrun hp, hlookup⟩

end JpegReassembler

end Michoi
