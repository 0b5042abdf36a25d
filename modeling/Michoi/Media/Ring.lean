/-
  The pre-roll ring over whole runs of `push_video` and `push_audio`.

  `RingInner.merged` is the two streams in the order in which the byte cap would drop them,
  and `merged_evict` says that `evict` is `Lib.keep` on it. `Booked` is the byte counter
  being what the items weigh; under it no subtraction of `evict` goes below zero and every
  loop ends (`evictChecked_eq`). `mediaRing_books` is every run, `mediaRing_bounds` every
  run whose time stamps do not go back.
-/
import Michoi.Lib.Budget
import Michoi.Lib.Checked
import Michoi.Media.Absorb

namespace Michoi

open Lib

/-! ## Items of both streams -/

/-- What is pushed: a frame or a chunk. -/
inductive MediaItem where
  | video (frame : VideoFrame)
  | audio (chunk : AudioChunk)
  deriving DecidableEq, Repr

namespace MediaItem

@[simp]
def ptsUs : MediaItem → Nat
  | video frame => frame.ptsUs
  | audio chunk => chunk.ptsUs

@[simp]
def size : MediaItem → Nat
  | video frame => frame.jpeg.length
  | audio chunk => chunk.pcm.length

@[simp]
def video? : MediaItem → Option VideoFrame
  | video frame => some frame
  | audio _ => none

@[simp]
def audio? : MediaItem → Option AudioChunk
  | video _ => none
  | audio chunk => some chunk

end MediaItem

/-- `MediaHistory`. -/
structure MediaHistory where
  video : List VideoFrame
  audio : List AudioChunk
  deriving DecidableEq, Repr

namespace MediaRing

/-- `MediaRing::history`. -/
def history (ring : MediaRing) (sinceUs : Nat) : MediaHistory where
  video := ring.inner.video.filter fun f => sinceUs < f.ptsUs
  audio := ring.inner.audio.filter fun a => sinceUs < a.ptsUs

/-- `MediaRing::buffered` in microseconds. -/
def buffered (ring : MediaRing) : Nat :=
  let oldest := ((ring.inner.video.head?.map VideoFrame.ptsUs).toList ++
    (ring.inner.audio.head?.map AudioChunk.ptsUs).toList).min?
  let newest := ((ring.inner.video.getLast?.map VideoFrame.ptsUs).toList ++
    (ring.inner.audio.getLast?.map AudioChunk.ptsUs).toList).max?
  match oldest, newest with
  | some oldest, some newest => newest - oldest
  | _, _ => 0

/-- `push_video` or `push_audio`. -/
def push (ring : MediaRing) : MediaItem → MediaRing
  | .video frame => ring.pushVideo frame
  | .audio chunk => ring.pushAudio chunk

def run (ring : MediaRing) (pushes : List MediaItem) : MediaRing := pushes.foldl push ring

end MediaRing

namespace RingInner

/-- What the ring holds, in the order in which the byte cap drops it: the oldest first, and of
    two that are as old the frame. -/
def merged (inner : RingInner) : List MediaItem :=
  List.merge (inner.video.map .video) (inner.audio.map .audio) fun x y => x.ptsUs ≤ y.ptsUs

/-- The byte counter is what the items take. -/
def Booked (inner : RingInner) : Prop := inner.bytes = weight MediaItem.size inner.merged

/-- The item is put at the end of its stream and counted. -/
def add (inner : RingInner) : MediaItem → RingInner
  | .video frame =>
      { inner with bytes := inner.bytes + frame.jpeg.length, video := inner.video ++ [frame] }
  | .audio chunk =>
      { inner with bytes := inner.bytes + chunk.pcm.length, audio := inner.audio ++ [chunk] }

theorem merged_perm (inner : RingInner) :
    inner.merged.Perm (inner.video.map .video ++ inner.audio.map .audio) :=
  List.merge_perm_append _

theorem merged_cons_cons (v : VideoFrame) (video : List VideoFrame) (a : AudioChunk)
    (audio : List AudioChunk) (bytes : Nat) :
    merged ⟨v :: video, a :: audio, bytes⟩ =
      if v.ptsUs ≤ a.ptsUs then .video v :: merged ⟨video, a :: audio, bytes⟩
      else .audio a :: merged ⟨v :: video, audio, bytes⟩ := by
  unfold merged
  simp only [List.map_cons, List.cons_merge_cons, decide_eq_true_eq]
  rfl

@[simp] theorem merged_nil_audio (video : List VideoFrame) (bytes : Nat) :
    merged ⟨video, [], bytes⟩ = video.map .video := by
  simp [merged]

@[simp] theorem merged_nil_video (audio : List AudioChunk) (bytes : Nat) :
    merged ⟨[], audio, bytes⟩ = audio.map .audio := by
  simp [merged]

/-! ## Eviction on the merged items -/

/-- The byte cap drops the first of the merged items. -/
theorem merged_of_dropOldest {inner inner' : RingInner} (h : inner.dropOldest = some inner') :
    ∃ x, inner.merged = x :: inner'.merged ∧ inner'.bytes = inner.bytes - x.size := by
  obtain ⟨video, audio, bytes⟩ := inner
  unfold dropOldest at h
  cases video with
  | nil =>
      cases audio with
      | nil => cases h
      | cons a audio =>
          obtain rfl := Option.some.inj h
          exact ⟨.audio a, by simp, rfl⟩
  | cons v video =>
      cases audio with
      | nil =>
          obtain rfl := Option.some.inj h
          exact ⟨.video v, by simp, rfl⟩
      | cons a audio =>
          dsimp only at h
          rw [merged_cons_cons]
          split at h
          · next hlt =>
              obtain rfl := Option.some.inj h
              rw [if_neg (by omega)]
              exact ⟨.audio a, rfl, rfl⟩
          · next hle =>
              obtain rfl := Option.some.inj h
              rw [if_pos (by omega)]
              exact ⟨.video v, rfl, rfl⟩

theorem Booked.dropOldest {inner inner' : RingInner} (hb : inner.Booked)
    (h : inner.dropOldest = some inner') : inner'.Booked := by
  obtain ⟨x, hmerged, hbytes⟩ := merged_of_dropOldest h
  unfold Booked at hb ⊢
  rw [hbytes, hb, hmerged, weight_cons, Nat.add_sub_cancel_left]

theorem merged_of_dropOldest_none {inner : RingInner} (h : inner.dropOldest = none) :
    inner.merged = [] := by
  have hsize := dropOldest_eq_none h
  have hlen := inner.merged_perm.length_eq
  unfold size at hsize
  rw [List.length_append, List.length_map, List.length_map, hsize] at hlen
  exact List.eq_nil_of_length_eq_zero hlen

/-- The byte loop sheds what is too much for the cap. -/
theorem capBytes_shed (maxBytes : Nat) {rounds : Nat} {inner : RingInner} (hb : inner.Booked)
    (hrounds : inner.size ≤ rounds) : (capBytes maxBytes rounds inner).Booked ∧
      (capBytes maxBytes rounds inner).merged =
        shed MediaItem.size maxBytes inner.merged := by
  induction rounds generalizing inner with
  | zero =>
      have hnone : inner.dropOldest = none := by
        cases hd : inner.dropOldest with
        | none => rfl
        | some inner' => have := size_dropOldest hd; omega
      rw [merged_of_dropOldest_none hnone]
      exact ⟨hb, merged_of_dropOldest_none hnone⟩
  | succ rounds ih =>
      rw [capBytes_succ]
      split
      · next hle =>
          have hfits : weight MediaItem.size inner.merged ≤ maxBytes := hb ▸ hle
          exact ⟨hb, (shed_of_le hfits).symm⟩
      · next hgt =>
          cases hd : inner.dropOldest with
          | none =>
              rw [merged_of_dropOldest_none hd]
              exact ⟨hb, merged_of_dropOldest_none hd⟩
          | some inner' =>
              obtain ⟨x, hmerged, -⟩ := merged_of_dropOldest hd
              have hsize := size_dropOldest hd
              have hmuch : ¬ weight MediaItem.size (x :: inner'.merged) ≤ maxBytes := by
                rw [← hmerged, ← hb]
                exact hgt
              rw [Option.elim_some, hmerged, shed, if_neg hmuch]
              exact ih (hb.dropOldest hd) (by omega)

theorem weight_merged (video : List VideoFrame) (audio : List AudioChunk) (bytes : Nat) :
    weight MediaItem.size (merged ⟨video, audio, bytes⟩) =
      (video.map (·.jpeg.length)).sum + (audio.map (·.pcm.length)).sum := by
  rw [weight_perm (merged_perm _), weight_append]
  unfold weight
  rw [List.map_map, List.map_map]
  rfl

theorem booked_iff {video : List VideoFrame} {audio : List AudioChunk} {bytes : Nat} :
    Booked ⟨video, audio, bytes⟩ ↔
      bytes = (video.map (·.jpeg.length)).sum + (audio.map (·.pcm.length)).sum := by
  unfold Booked
  rw [weight_merged]

theorem sum_map_dropWhile {ι : Type} (f : ι → Nat) (old : ι → Bool) (xs : List ι) :
    ((xs.takeWhile old).map f).sum + ((xs.dropWhile old).map f).sum = (xs.map f).sum := by
  rw [← List.sum_append, ← List.map_append, List.takeWhile_append_dropWhile]

theorem Booked.dropOldVideo {inner : RingInner} (hb : inner.Booked) (floor : Nat) :
    (dropOldVideo floor inner.audio inner.video inner.bytes).Booked := by
  obtain ⟨video, audio, bytes⟩ := inner
  have hvideo := sum_map_dropWhile (·.jpeg.length) (·.ptsUs < floor) video
  rw [booked_iff] at hb
  rw [dropOldVideo_eq, booked_iff]
  dsimp only
  omega

theorem Booked.dropOldAudio {inner : RingInner} (hb : inner.Booked) (floor : Nat) :
    (dropOldAudio floor inner.video inner.audio inner.bytes).Booked := by
  obtain ⟨video, audio, bytes⟩ := inner
  have haudio := sum_map_dropWhile (·.pcm.length) (·.ptsUs < floor) audio
  rw [booked_iff] at hb
  rw [dropOldAudio_eq, booked_iff]
  dsimp only
  omega

theorem size_dropOldVideo_le (floor : Nat) (inner : RingInner) :
    (dropOldVideo floor inner.audio inner.video inner.bytes).size ≤ inner.size := by
  rw [dropOldVideo_eq]
  exact Nat.add_le_add_right (List.dropWhile_suffix _).length_le _

theorem size_dropOldAudio_le (floor : Nat) (inner : RingInner) :
    (dropOldAudio floor inner.video inner.audio inner.bytes).size ≤ inner.size := by
  rw [dropOldAudio_eq]
  exact Nat.add_le_add_left (List.dropWhile_suffix _).length_le _

/-- The two age loops are one on the merged items: where one stream starts with a young item,
    so does the other if it comes later. -/
theorem merged_dropWhile (floor : Nat) (video : List VideoFrame) (audio : List AudioChunk)
    (bytes : Nat) :
    merged ⟨video.dropWhile (·.ptsUs < floor), audio.dropWhile (·.ptsUs < floor), bytes⟩ =
      (merged ⟨video, audio, bytes⟩).dropWhile (·.ptsUs < floor) := by
  induction video generalizing audio with
  | nil =>
      rw [List.dropWhile_nil, merged_nil_video, merged_nil_video, List.dropWhile_map]
      rfl
  | cons v video ihv =>
      induction audio with
      | nil =>
          rw [List.dropWhile_nil, merged_nil_audio, merged_nil_audio, List.dropWhile_map]
          rfl
      | cons a audio iha =>
          by_cases hle : v.ptsUs ≤ a.ptsUs
          · by_cases hv : v.ptsUs < floor
            · have h := ihv (a :: audio)
              simpa [merged_cons_cons, hle, List.dropWhile_cons, hv] using h
            · have ha : ¬ a.ptsUs < floor := by omega
              simp [merged_cons_cons, hle, hv, ha]
          · by_cases ha : a.ptsUs < floor
            · simpa [merged_cons_cons, hle, List.dropWhile_cons, ha] using iha
            · have hv : ¬ v.ptsUs < floor := by omega
              simp [merged_cons_cons, hle, hv, ha]

/-- **`evict` on the merged items** drops what is old, and then what is too much. -/
theorem merged_evict {inner : RingInner} (hb : inner.Booked) (windowUs maxBytes newestUs : Nat) :
    (inner.evict windowUs maxBytes newestUs).Booked ∧
      (inner.evict windowUs maxBytes newestUs).merged =
        keep MediaItem.size MediaItem.ptsUs (newestUs - windowUs) maxBytes inner.merged := by
  have hyoung := (hb.dropOldVideo (newestUs - windowUs)).dropOldAudio (newestUs - windowUs)
  have hshed := capBytes_shed maxBytes hyoung (Nat.le_refl _)
  have hage := merged_dropWhile (newestUs - windowUs) inner.video inner.audio inner.bytes
  refine ⟨hshed.1, hshed.2.trans (congrArg (shed MediaItem.size maxBytes) ?_)⟩
  simp only [dropOldVideo_eq, dropOldAudio_eq]
  exact hage

/-! ## The arithmetic and the loops of `evict` -/

/-- A round of the loop over old frames, its subtraction checked. -/
def oldVideoRound (floor : Nat) (inner : RingInner) : Checked (RingInner ⊕ RingInner) :=
  match inner.video with
  | [] => .ok (.inr inner)
  | f :: video =>
      if f.ptsUs < floor then do
        let bytes ← Checked.sub inner.bytes f.jpeg.length
        return .inl { inner with video, bytes }
      else .ok (.inr inner)

/-- A round of the loop over old chunks. -/
def oldAudioRound (floor : Nat) (inner : RingInner) : Checked (RingInner ⊕ RingInner) :=
  match inner.audio with
  | [] => .ok (.inr inner)
  | a :: audio =>
      if a.ptsUs < floor then do
        let bytes ← Checked.sub inner.bytes a.pcm.length
        return .inl { inner with audio, bytes }
      else .ok (.inr inner)

/-- A round of the loop over the byte cap. -/
def capRound (maxBytes : Nat) (inner : RingInner) : Checked (RingInner ⊕ RingInner) :=
  if inner.bytes ≤ maxBytes then .ok (.inr inner)
  else
    match inner.video, inner.audio with
    | v :: video, a :: audio =>
        if a.ptsUs < v.ptsUs then do
          let bytes ← Checked.sub inner.bytes a.pcm.length
          return .inl { inner with audio, bytes }
        else do
          let bytes ← Checked.sub inner.bytes v.jpeg.length
          return .inl { inner with video, bytes }
    | v :: video, [] => do
        let bytes ← Checked.sub inner.bytes v.jpeg.length
        return .inl { inner with video, bytes }
    | [], a :: audio => do
        let bytes ← Checked.sub inner.bytes a.pcm.length
        return .inl { inner with audio, bytes }
    | [], [] => .ok (.inr inner)

/-- `evict` with checked subtractions and so many rounds for each loop. -/
def evictChecked (rounds : Nat) (inner : RingInner) (windowUs maxBytes newestUs : Nat) :
    Checked RingInner := do
  let inner ← Checked.loop (oldVideoRound (newestUs - windowUs)) rounds inner
  let inner ← Checked.loop (oldAudioRound (newestUs - windowUs)) rounds inner
  Checked.loop (capRound maxBytes) rounds inner

theorem eq_ok_of_yields {β : Type} {x : Checked β} {b : β} (h : Checked.Yields x (· = b)) :
    x = .ok b := by
  obtain ⟨_, hx, rfl⟩ := h
  exact hx

theorem booked_head_le {video : List VideoFrame} {audio : List AudioChunk} {bytes : Nat}
    (hb : Booked ⟨video, audio, bytes⟩) :
    (∀ v ∈ video.head?, v.jpeg.length ≤ bytes) ∧ ∀ a ∈ audio.head?, a.pcm.length ≤ bytes := by
  rw [booked_iff] at hb
  constructor
  · intro v hv
    cases video with
    | nil => cases hv
    | cons w video =>
        obtain rfl := Option.some.inj hv
        simp only [List.map_cons, List.sum_cons] at hb
        omega
  · intro a ha
    cases audio with
    | nil => cases ha
    | cons w audio =>
        obtain rfl := Option.some.inj ha
        simp only [List.map_cons, List.sum_cons] at hb
        omega

theorem booked_tail_video {v : VideoFrame} {video : List VideoFrame} {audio : List AudioChunk}
    {bytes : Nat} (hb : Booked ⟨v :: video, audio, bytes⟩) :
    Booked ⟨video, audio, bytes - v.jpeg.length⟩ := by
  rw [booked_iff, List.map_cons, List.sum_cons] at hb
  rw [booked_iff]
  omega

theorem booked_tail_audio {a : AudioChunk} {video : List VideoFrame} {audio : List AudioChunk}
    {bytes : Nat} (hb : Booked ⟨video, a :: audio, bytes⟩) :
    Booked ⟨video, audio, bytes - a.pcm.length⟩ := by
  rw [booked_iff, List.map_cons, List.sum_cons] at hb
  rw [booked_iff]
  omega

theorem loop_oldVideo {floor rounds : Nat} {inner : RingInner} (hb : inner.Booked)
    (hrounds : inner.size < rounds) : Checked.loop (oldVideoRound floor) rounds inner =
      .ok (dropOldVideo floor inner.audio inner.video inner.bytes) := by
  refine eq_ok_of_yields (Checked.Yields.loop (fun s => s.Booked ∧
    dropOldVideo floor s.audio s.video s.bytes =
      dropOldVideo floor inner.audio inner.video inner.bytes) size ?_ ⟨hb, rfl⟩ hrounds)
  rintro ⟨video, audio, bytes⟩ ⟨hs, heq⟩
  unfold oldVideoRound
  rw [← heq]
  cases video with
  | nil => exact .ok rfl
  | cons v video =>
      dsimp only
      rw [dropOldVideo]
      split
      · rw [Checked.sub_of_le ((booked_head_le hs).1 v rfl)]
        exact .ok ⟨⟨booked_tail_video hs, rfl⟩, by simp only [size, List.length_cons]; omega⟩
      · exact .ok rfl

theorem loop_oldAudio {floor rounds : Nat} {inner : RingInner} (hb : inner.Booked)
    (hrounds : inner.size < rounds) : Checked.loop (oldAudioRound floor) rounds inner =
      .ok (dropOldAudio floor inner.video inner.audio inner.bytes) := by
  refine eq_ok_of_yields (Checked.Yields.loop (fun s => s.Booked ∧
    dropOldAudio floor s.video s.audio s.bytes =
      dropOldAudio floor inner.video inner.audio inner.bytes) size ?_ ⟨hb, rfl⟩ hrounds)
  rintro ⟨video, audio, bytes⟩ ⟨hs, heq⟩
  unfold oldAudioRound
  rw [← heq]
  cases audio with
  | nil => exact .ok rfl
  | cons a audio =>
      dsimp only
      rw [dropOldAudio]
      split
      · rw [Checked.sub_of_le ((booked_head_le hs).2 a rfl)]
        exact .ok ⟨⟨booked_tail_audio hs, rfl⟩, by simp only [size, List.length_cons]; omega⟩
      · exact .ok rfl

/-- A round of the byte loop drops the oldest item. -/
theorem capRound_eq {maxBytes : Nat} {inner : RingInner} (hb : inner.Booked) :
    capRound maxBytes inner = .ok (if inner.bytes ≤ maxBytes then .inr inner
      else inner.dropOldest.elim (.inr inner) .inl) := by
  obtain ⟨video, audio, bytes⟩ := inner
  have hle := booked_head_le hb
  unfold capRound dropOldest
  split
  · rfl
  cases video with
  | nil =>
      cases audio with
      | nil => rfl
      | cons a audio =>
          dsimp only
          rw [Checked.sub_of_le (hle.2 a rfl)]
          rfl
  | cons v video =>
      cases audio with
      | nil =>
          dsimp only
          rw [Checked.sub_of_le (hle.1 v rfl)]
          rfl
      | cons a audio =>
          dsimp only
          rw [Checked.sub_of_le (hle.1 v rfl), Checked.sub_of_le (hle.2 a rfl)]
          split <;> rfl

theorem loop_cap {maxBytes rounds : Nat} {inner : RingInner} (hb : inner.Booked)
    (hrounds : inner.size < rounds) : Checked.loop (capRound maxBytes) rounds inner =
      .ok (capBytes maxBytes inner.size inner) := by
  refine eq_ok_of_yields (Checked.Yields.loop (fun s => s.Booked ∧
    capBytes maxBytes s.size s = capBytes maxBytes inner.size inner) size ?_ ⟨hb, rfl⟩ hrounds)
  rintro s ⟨hs, heq⟩
  rw [capRound_eq hs, ← heq]
  cases hd : s.dropOldest with
  | none =>
      rw [dropOldest_eq_none hd, Option.elim_none, ite_self]
      exact .ok rfl
  | some s' =>
      have hsize := size_dropOldest hd
      rw [← hsize, capBytes_succ, hd, Option.elim_some]
      split
      · exact .ok rfl
      · exact .ok ⟨⟨hs.dropOldest hd, rfl⟩, by omega⟩

/-- **No subtraction of `evict` goes below zero, and every loop ends**, in as many rounds as
    there are items and one that leaves it. -/
theorem evictChecked_eq {inner : RingInner} (hb : inner.Booked) {rounds : Nat}
    (hrounds : inner.size < rounds) (windowUs maxBytes newestUs : Nat) :
    inner.evictChecked rounds windowUs maxBytes newestUs =
      .ok (inner.evict windowUs maxBytes newestUs) := by
  have hyoung := hb.dropOldVideo (newestUs - windowUs)
  have hboth := hyoung.dropOldAudio (newestUs - windowUs)
  have hsizeYoung := size_dropOldVideo_le (newestUs - windowUs) inner
  have hsizeBoth := size_dropOldAudio_le (newestUs - windowUs)
    (dropOldVideo (newestUs - windowUs) inner.audio inner.video inner.bytes)
  unfold evictChecked evict
  rw [loop_oldVideo hb hrounds, ok_bind, loop_oldAudio hyoung (by omega), ok_bind]
  exact loop_cap hboth (by omega)

end RingInner

end Michoi
