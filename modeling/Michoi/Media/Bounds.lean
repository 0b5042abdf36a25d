/-
  The pre-roll ring keeps its books and its bounds in every run of pushes.

  `push_inner` is one push on the merged items, `Books` what holds whatever is pushed.
  `Bounds` needs time stamps that do not go back: then the merged items are ordered, so the
  front that `evict` drops is the oldest of both streams (`push_gone`).
-/
import Michoi.Media.Ring
import Mathlib.Data.List.Induction

namespace Michoi

open Lib

namespace RingInner

theorem weight_add (inner : RingInner) (item : MediaItem) :
    weight MediaItem.size (inner.add item).merged =
      weight MediaItem.size inner.merged + item.size := by
  obtain ⟨video, audio, bytes⟩ := inner
  cases item <;> simp [add, weight_merged] <;> omega

theorem Booked.add {inner : RingInner} (hb : inner.Booked) (item : MediaItem) :
    (inner.add item).Booked := by
  unfold Booked at hb ⊢
  rw [weight_add, ← hb]
  cases item <;> rfl

theorem merged_add_perm (inner : RingInner) (item : MediaItem) :
    (inner.add item).merged.Perm (item :: inner.merged) := by
  refine (merged_perm _).trans (.trans ?_ ((merged_perm inner).symm.cons item))
  cases item with
  | video frame =>
      rw [add, List.map_append, List.append_assoc]
      exact List.perm_middle
  | audio chunk =>
      rw [add, List.map_append, ← List.append_assoc]
      exact List.perm_append_singleton _ _

/-- The frames among the merged items are the video stream. -/
theorem videos_merged (inner : RingInner) :
    inner.merged.filterMap MediaItem.video? = inner.video := by
  obtain ⟨video, audio, bytes⟩ := inner
  induction video generalizing audio with
  | nil => simp [List.filterMap_map, Function.comp_def]
  | cons v video ihv =>
      induction audio with
      | nil => simp [List.filterMap_map, Function.comp_def]
      | cons a audio iha =>
          rw [merged_cons_cons]
          split
          · exact congrArg (v :: ·) (ihv (a :: audio))
          · exact iha

/-- The chunks among the merged items are the audio stream. -/
theorem audios_merged (inner : RingInner) :
    inner.merged.filterMap MediaItem.audio? = inner.audio := by
  obtain ⟨video, audio, bytes⟩ := inner
  induction video generalizing audio with
  | nil => simp [List.filterMap_map, Function.comp_def]
  | cons v video ihv =>
      induction audio with
      | nil => simp
      | cons a audio iha =>
          rw [merged_cons_cons]
          split
          · exact ihv (a :: audio)
          · exact congrArg (a :: ·) iha

/-- Two ordered streams are merged to ordered items. -/
theorem ordered_merged {inner : RingInner} (hv : inner.video.Pairwise (·.ptsUs ≤ ·.ptsUs))
    (ha : inner.audio.Pairwise (·.ptsUs ≤ ·.ptsUs)) : Ordered MediaItem.ptsUs inner.merged := by
  have h := @List.pairwise_merge MediaItem (fun x y => decide (x.ptsUs ≤ y.ptsUs))
    (fun a b c hab hbc => decide_eq_true
      (Nat.le_trans (of_decide_eq_true hab) (of_decide_eq_true hbc)))
    (fun a b => by rw [← Bool.decide_or]; exact decide_eq_true (Nat.le_total ..))
    (inner.video.map .video) (inner.audio.map .audio)
    (hv.map _ fun _ _ => decide_eq_true) (ha.map _ fun _ _ => decide_eq_true)
  exact h.imp of_decide_eq_true

end RingInner

namespace MediaRing

/-! ## One push -/

/-- `push` with the arithmetic and the loops of `evict` checked. -/
def pushChecked (ring : MediaRing) (item : MediaItem) : Checked MediaRing :=
  if ring.windowUs = 0 then .ok ring
  else do
    let full := ring.inner.add item
    let inner ← full.evictChecked (full.size + 1) ring.windowUs ring.maxBytes item.ptsUs
    return { ring with inner }

def runChecked (ring : MediaRing) (pushes : List MediaItem) : Checked MediaRing :=
  pushes.foldlM pushChecked ring

theorem push_eq (ring : MediaRing) (h : ring.windowUs ≠ 0) (item : MediaItem) :
    ring.push item = { ring with
      inner := (ring.inner.add item).evict ring.windowUs ring.maxBytes item.ptsUs } := by
  cases item
  · exact if_neg h
  · exact if_neg h

/-- One push on the merged items. -/
theorem push_inner {ring : MediaRing} (h : ring.windowUs ≠ 0) (hb : ring.inner.Booked)
    (item : MediaItem) : (ring.push item).inner.Booked ∧
      (ring.push item).inner.merged = keep MediaItem.size MediaItem.ptsUs
        (item.ptsUs - ring.windowUs) ring.maxBytes (ring.inner.add item).merged := by
  rw [push_eq ring h]
  exact RingInner.merged_evict (hb.add item) ..

theorem pushChecked_eq {ring : MediaRing} (hb : ring.inner.Booked) (item : MediaItem) :
    ring.pushChecked item = .ok (ring.push item) := by
  unfold pushChecked
  by_cases h : ring.windowUs = 0
  · rw [if_pos h]
    cases item <;> simp [push, pushVideo, pushAudio, h]
  · rw [if_neg h, push_eq ring h]
    dsimp only
    rw [RingInner.evictChecked_eq (hb.add item) (Nat.lt_succ_self _)]
    rfl

@[simp] theorem push_windowUs (ring : MediaRing) (item : MediaItem) :
    (ring.push item).windowUs = ring.windowUs := by
  cases item <;> simp only [push, pushVideo, pushAudio] <;> split <;> rfl

@[simp] theorem push_maxBytes (ring : MediaRing) (item : MediaItem) :
    (ring.push item).maxBytes = ring.maxBytes := by
  cases item <;> simp only [push, pushVideo, pushAudio] <;> split <;> rfl

/-! ## The books -/

theorem run_append (ring : MediaRing) (pushes : List MediaItem) (item : MediaItem) :
    ring.run (pushes ++ [item]) = (ring.run pushes).push item := by
  simp [run]

@[simp] theorem run_windowUs (ring : MediaRing) (pushes : List MediaItem) :
    (ring.run pushes).windowUs = ring.windowUs := by
  induction pushes using List.reverseRecOn with
  | nil => rfl
  | append_singleton pushes item ih => rw [run_append, push_windowUs, ih]

@[simp] theorem run_maxBytes (ring : MediaRing) (pushes : List MediaItem) :
    (ring.run pushes).maxBytes = ring.maxBytes := by
  induction pushes using List.reverseRecOn with
  | nil => rfl
  | append_singleton pushes item ih => rw [run_append, push_maxBytes, ih]

theorem run_booked {ring : MediaRing} (hwindow : ring.windowUs ≠ 0) (hb : ring.inner.Booked)
    (pushes : List MediaItem) : (ring.run pushes).inner.Booked := by
  induction pushes using List.reverseRecOn with
  | nil => exact hb
  | append_singleton pushes item ih =>
      rw [run_append]
      exact (push_inner (by rwa [run_windowUs]) ih item).1

theorem runChecked_eq {ring : MediaRing} (hwindow : ring.windowUs ≠ 0) (hb : ring.inner.Booked)
    (pushes : List MediaItem) : ring.runChecked pushes = .ok (ring.run pushes) := by
  induction pushes using List.reverseRecOn with
  | nil => rfl
  | append_singleton pushes item ih =>
      unfold runChecked at ih ⊢
      rw [List.foldlM_append, ih, run_append, ok_bind, List.foldlM_cons,
        pushChecked_eq (run_booked hwindow hb pushes), ok_bind]
      rfl

/-- What holds of the ring whatever was pushed. The last field says how far the counter goes
    up before it is cut. -/
structure Books (ring : MediaRing) : Prop where
  counted : ring.inner.bytes =
    (ring.inner.video.map (·.jpeg.length)).sum + (ring.inner.audio.map (·.pcm.length)).sum
  capped : ring.inner.bytes ≤ ring.maxBytes
  raised : ∀ item, (ring.inner.add item).bytes ≤ ring.maxBytes + item.size

theorem new_booked (windowUs maxBytes : Nat) : (new windowUs maxBytes).inner.Booked :=
  (RingInner.weight_merged [] [] 0).symm

theorem run_capped {windowUs : Nat} (hwindow : 0 < windowUs) (maxBytes : Nat)
    (pushes : List MediaItem) :
    ((new windowUs maxBytes).run pushes).inner.bytes ≤ maxBytes := by
  induction pushes using List.reverseRecOn with
  | nil => exact Nat.zero_le maxBytes
  | append_singleton pushes item ih =>
      have hne : ((new windowUs maxBytes).run pushes).windowUs ≠ 0 := by
        rw [run_windowUs]
        exact Nat.ne_of_gt hwindow
      have hpush := push_inner hne
        (run_booked (Nat.ne_of_gt hwindow) (new_booked windowUs maxBytes) pushes) item
      rw [run_append, hpush.1, hpush.2, run_maxBytes]
      exact weight_keep_le ..

theorem run_books {windowUs : Nat} (hwindow : 0 < windowUs) (maxBytes : Nat)
    (pushes : List MediaItem) : ((new windowUs maxBytes).run pushes).Books := by
  have hbooked := run_booked (Nat.ne_of_gt hwindow) (new_booked windowUs maxBytes) pushes
  have hcapped := run_capped hwindow maxBytes pushes
  have hmax : ((new windowUs maxBytes).run pushes).maxBytes = maxBytes := run_maxBytes ..
  constructor
  · exact hbooked.trans (RingInner.weight_merged ..)
  · rw [hmax]
    exact hcapped
  · intro item
    rw [hmax]
    cases item with
    | video frame => exact Nat.add_le_add_right hcapped _
    | audio chunk => exact Nat.add_le_add_right hcapped _

/-! ## The bounds -/

/-- What a push drops. In the order of `merged` it is the front, up to the last item that is
    older than the window or too much together with all that is after it. -/
structure DropsNeeded (ring : MediaRing) (item : MediaItem) : Prop where
  front : (ring.push item).inner.merged <:+ (ring.inner.add item).merged
  needed : ∀ front x rest, (ring.inner.add item).merged = front ++ x :: rest →
    ((ring.push item).inner.merged.length ≤ rest.length ↔
      x.ptsUs < item.ptsUs - ring.windowUs ∨
        ring.maxBytes < weight MediaItem.size (x :: rest))

/-- What the ring holds after so many pushes whose time stamps do not go back. -/
structure Bounds (pushes : List MediaItem) (ring : MediaRing) : Prop where
  video : ring.inner.video <:+ pushes.filterMap MediaItem.video?
  audio : ring.inner.audio <:+ pushes.filterMap MediaItem.audio?
  young : ∀ newest ∈ pushes.getLast?, ∀ x ∈ ring.inner.merged,
    newest.ptsUs - ring.windowUs ≤ x.ptsUs
  span : ring.buffered ≤ ring.windowUs
  /-- What was pushed is what is gone and what is held, and nothing gone is younger. -/
  gone : ∃ gone, (gone ++ ring.inner.merged).Perm pushes ∧
    ∀ x ∈ gone, ∀ y ∈ ring.inner.merged, x.ptsUs ≤ y.ptsUs

/-- `history` gives the items held that are younger, of each stream the oldest first. -/
structure HistoryExact (ring : MediaRing) (sinceUs : Nat) : Prop where
  exactly : ((ring.history sinceUs).video.map MediaItem.video ++
    (ring.history sinceUs).audio.map MediaItem.audio).Perm
      (ring.inner.merged.filter fun x => sinceUs < x.ptsUs)
  video : (ring.history sinceUs).video.Sublist ring.inner.video ∧
    (ring.history sinceUs).video.Pairwise (·.ptsUs ≤ ·.ptsUs)
  audio : (ring.history sinceUs).audio.Sublist ring.inner.audio ∧
    (ring.history sinceUs).audio.Pairwise (·.ptsUs ≤ ·.ptsUs)

section

variable {pushes : List MediaItem} {ring : MediaRing} {item : MediaItem}

theorem ordered_videos (h : Ordered MediaItem.ptsUs pushes) :
    (pushes.filterMap MediaItem.video?).Pairwise (·.ptsUs ≤ ·.ptsUs) := by
  refine List.Pairwise.filterMap _ (fun x y hxy v hv w hw => ?_) h
  cases x <;> cases y <;> simp_all

theorem ordered_audios (h : Ordered MediaItem.ptsUs pushes) :
    (pushes.filterMap MediaItem.audio?).Pairwise (·.ptsUs ≤ ·.ptsUs) := by
  refine List.Pairwise.filterMap _ (fun x y hxy v hv w hw => ?_) h
  cases x <;> cases y <;> simp_all

theorem suffix_append_right {α : Type} {l l' : List α} (h : l <:+ l') (x : List α) :
    l ++ x <:+ l' ++ x := by
  obtain ⟨front, rfl⟩ := h
  exact ⟨front, (List.append_assoc ..).symm⟩

/-- The streams with the new item are still the last that was pushed. -/
theorem add_suffix (item : MediaItem)
    (hvideo : ring.inner.video <:+ pushes.filterMap MediaItem.video?)
    (haudio : ring.inner.audio <:+ pushes.filterMap MediaItem.audio?) :
    (ring.inner.add item).video <:+ (pushes ++ [item]).filterMap MediaItem.video? ∧
      (ring.inner.add item).audio <:+ (pushes ++ [item]).filterMap MediaItem.audio? := by
  rw [List.filterMap_append, List.filterMap_append]
  cases item with
  | video frame =>
      refine ⟨suffix_append_right hvideo [frame], ?_⟩
      rw [List.filterMap_cons_none rfl, List.filterMap_nil, List.append_nil]
      exact haudio
  | audio chunk =>
      refine ⟨?_, suffix_append_right haudio [chunk]⟩
      rw [List.filterMap_cons_none rfl, List.filterMap_nil, List.append_nil]
      exact hvideo

/-- With ordered pushes the merged items are ordered, the new one among them. -/
theorem ordered_add (hvideo : ring.inner.video <:+ pushes.filterMap MediaItem.video?)
    (haudio : ring.inner.audio <:+ pushes.filterMap MediaItem.audio?)
    (h : Ordered MediaItem.ptsUs (pushes ++ [item])) :
    Ordered MediaItem.ptsUs (ring.inner.add item).merged := by
  obtain ⟨hv, ha⟩ := add_suffix item hvideo haudio
  exact RingInner.ordered_merged ((ordered_videos h).sublist hv.sublist)
    ((ordered_audios h).sublist ha.sublist)

theorem drops_needed (hwindow : ring.windowUs ≠ 0) (hb : ring.inner.Booked)
    (h : Ordered MediaItem.ptsUs (ring.inner.add item).merged) : ring.DropsNeeded item := by
  obtain ⟨-, hmerged⟩ := push_inner hwindow hb item
  constructor
  · rw [hmerged]
    exact keep_suffix ..
  · intro front x rest hfull
    rw [hmerged, hfull]
    rw [hfull] at h
    exact dropped_iff h

/-- The items held span no more than from the first to the last time stamp allowed. -/
theorem buffered_le {lo hi : Nat}
    (h : ∀ x ∈ ring.inner.merged, lo ≤ x.ptsUs ∧ x.ptsUs ≤ hi) : ring.buffered ≤ hi - lo := by
  have hmem {x : MediaItem} (hx : x ∈ ring.inner.video.map MediaItem.video ++
      ring.inner.audio.map .audio) : lo ≤ x.ptsUs ∧ x.ptsUs ≤ hi :=
    h x (ring.inner.merged_perm.mem_iff.mpr hx)
  unfold buffered
  dsimp only
  split
  · next oldest newest hold hnew =>
      have hlo : lo ≤ oldest := by
        have := List.min?_mem hold
        rw [List.mem_append] at this
        simp only [Option.mem_toList, Option.map_eq_some_iff] at this
        rcases this with ⟨v, hv, rfl⟩ | ⟨a, ha, rfl⟩
        · exact (hmem (x := .video v) (by simp [List.mem_of_mem_head? hv])).1
        · exact (hmem (x := .audio a) (by simp [List.mem_of_mem_head? ha])).1
      have hhi : newest ≤ hi := by
        have := List.max?_mem hnew
        rw [List.mem_append] at this
        simp only [Option.mem_toList, Option.map_eq_some_iff] at this
        rcases this with ⟨v, hv, rfl⟩ | ⟨a, ha, rfl⟩
        · exact (hmem (x := .video v) (by simp [List.mem_of_mem_getLast? hv])).2
        · exact (hmem (x := .audio a) (by simp [List.mem_of_mem_getLast? ha])).2
      omega
  · exact Nat.zero_le _

theorem bounds_new (windowUs maxBytes : Nat) : Bounds [] (new windowUs maxBytes) where
  video := List.suffix_rfl
  audio := List.suffix_rfl
  young := by simp
  span := Nat.zero_le _
  gone := ⟨[], by simp [new], by simp⟩

/-- **One more push keeps the bounds**, if its time stamp does not go back. -/
theorem Bounds.push (hbounds : Bounds pushes ring) (hwindow : ring.windowUs ≠ 0)
    (hb : ring.inner.Booked) (h : Ordered MediaItem.ptsUs (pushes ++ [item])) :
    Bounds (pushes ++ [item]) (ring.push item) := by
  have hfull := ordered_add hbounds.video hbounds.audio h
  obtain ⟨-, hmerged⟩ := push_inner hwindow hb item
  have hfront := (drops_needed hwindow hb hfull).front
  obtain ⟨gone, hperm, hgone⟩ := hbounds.gone
  have hpushed : ∀ x ∈ pushes, x.ptsUs ≤ item.ptsUs := fun x hx =>
    (List.pairwise_append.mp h).2.2 x hx item (List.mem_singleton.mpr rfl)
  have hheld : ∀ x ∈ ring.inner.merged, x ∈ pushes := fun x hx =>
    hperm.mem_iff.mp (List.mem_append_right _ hx)
  have hmem : ∀ x ∈ (ring.push item).inner.merged, x = item ∨ x ∈ ring.inner.merged :=
    fun x hx => List.mem_cons.mp ((ring.inner.merged_add_perm item).mem_iff.mp (hfront.subset hx))
  have hyoung : ∀ x ∈ (ring.push item).inner.merged, item.ptsUs - ring.windowUs ≤ x.ptsUs := by
    intro x hx
    rw [hmerged] at hx
    exact le_of_mem_keep hfull hx
  obtain ⟨hvideo, haudio⟩ := add_suffix item hbounds.video hbounds.audio
  constructor
  case video =>
    have := hfront.filterMap MediaItem.video?
    rw [RingInner.videos_merged, RingInner.videos_merged] at this
    exact this.trans hvideo
  case audio =>
    have := hfront.filterMap MediaItem.audio?
    rw [RingInner.audios_merged, RingInner.audios_merged] at this
    exact this.trans haudio
  case young =>
    intro newest hnewest x hx
    rw [List.getLast?_append, List.getLast?_singleton, Option.some_or] at hnewest
    obtain rfl := Option.some.inj hnewest
    rw [push_windowUs]
    exact hyoung x hx
  case span =>
    have hnewest : ∀ x ∈ (ring.push item).inner.merged, x.ptsUs ≤ item.ptsUs := by
      intro x hx
      rcases hmem x hx with rfl | hx
      · exact Nat.le_refl _
      · exact hpushed x (hheld x hx)
    have hspan := buffered_le fun x hx => ⟨hyoung x hx, hnewest x hx⟩
    rw [push_windowUs]
    omega
  case gone =>
    obtain ⟨dropped, hdropped⟩ := hfront
    refine ⟨gone ++ dropped, ?_, ?_⟩
    · rw [List.append_assoc, hdropped]
      have hadd := (ring.inner.merged_add_perm item).append_left gone
      exact hadd.trans (List.perm_middle.trans
        ((hperm.cons item).trans (List.perm_append_singleton item pushes).symm))
    · intro x hx y hy
      rcases List.mem_append.mp hx with hx | hx
      · rcases hmem y hy with rfl | hy
        · exact hpushed x (hperm.mem_iff.mp (List.mem_append_left _ hx))
        · exact hgone x hx y hy
      · rw [hmerged] at hdropped hy
        exact dropped_le_kept hfull hdropped hx hy

theorem run_bounds {windowUs : Nat} (hwindow : 0 < windowUs) (maxBytes : Nat)
    (h : Ordered MediaItem.ptsUs pushes) :
    Bounds pushes ((new windowUs maxBytes).run pushes) := by
  have hne : windowUs ≠ 0 := Nat.ne_of_gt hwindow
  induction pushes using List.reverseRecOn with
  | nil => exact bounds_new windowUs maxBytes
  | append_singleton pushes item ih =>
      have hpushes := h.sublist (List.sublist_append_left pushes [item])
      rw [run_append]
      exact (ih hpushes).push (by rwa [run_windowUs])
        (run_booked hne (new_booked windowUs maxBytes) pushes) h

theorem history_exact (hbounds : Bounds pushes ring) (h : Ordered MediaItem.ptsUs pushes)
    (sinceUs : Nat) : ring.HistoryExact sinceUs where
  exactly := by
    refine .trans ?_ (ring.inner.merged_perm.symm.filter _)
    rw [List.filter_append, List.filter_map, List.filter_map]
    exact .refl _
  video := ⟨List.filter_sublist,
    ((ordered_videos h).sublist hbounds.video.sublist).sublist List.filter_sublist⟩
  audio := ⟨List.filter_sublist,
    ((ordered_audios h).sublist hbounds.audio.sublist).sublist List.filter_sublist⟩

end

/-- **The ring keeps its books in every run**, and its bounds where time does not go back. -/
theorem mediaRing_books_and_bounds {windowUs : Nat} (hwindow : 0 < windowUs) (maxBytes : Nat)
    (pushes : List MediaItem) :
    ((new windowUs maxBytes).run pushes).Books ∧
      (new windowUs maxBytes).runChecked pushes = .ok ((new windowUs maxBytes).run pushes) ∧
      (Ordered MediaItem.ptsUs pushes →
        Bounds pushes ((new windowUs maxBytes).run pushes) ∧
        (∀ before item after, pushes = before ++ item :: after →
          ((new windowUs maxBytes).run before).DropsNeeded item) ∧
        ∀ sinceUs, ((new windowUs maxBytes).run pushes).HistoryExact sinceUs) := by
  have hne : windowUs ≠ 0 := Nat.ne_of_gt hwindow
  refine ⟨run_books hwindow maxBytes pushes,
    runChecked_eq hne (new_booked windowUs maxBytes) pushes, fun h => ?_⟩
  have hbounds := run_bounds hwindow maxBytes h
  refine ⟨hbounds, ?_, history_exact hbounds h⟩
  rintro before item after rfl
  have hnext : Ordered MediaItem.ptsUs (before ++ [item]) :=
    h.sublist (by simp [List.append_sublist_append_left])
  have hbefore := run_bounds hwindow maxBytes (hnext.sublist (List.sublist_append_left ..))
  exact drops_needed (by rwa [run_windowUs])
    (run_booked hne (new_booked windowUs maxBytes) before)
    (ordered_add hbefore.video hbefore.audio hnext)

/-- Frames and chunks of which the second push is too old for the last one, and the first too
    much before that. -/
def mixedPushes : List MediaItem :=
  [.video ⟨1, [1, 2, 3]⟩, .audio ⟨2, [4]⟩, .video ⟨2, [5, 6]⟩, .audio ⟨6, [7]⟩]

theorem mixedPushes_bounds : ((new 3 4).run mixedPushes).Books ∧
    (new 3 4).runChecked mixedPushes = .ok ((new 3 4).run mixedPushes) ∧
    Bounds mixedPushes ((new 3 4).run mixedPushes) := by
  have h := @mediaRing_books_and_bounds 3 (by decide) 4 mixedPushes
  exact ⟨h.1, h.2.1, (h.2.2 (by unfold Ordered; decide)).1⟩

end MediaRing

end Michoi
