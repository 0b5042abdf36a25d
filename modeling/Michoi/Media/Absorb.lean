/-
  When the media buffers take a fragment and are as they were before it.

  The pre-roll ring takes every chunk, unless it keeps no history, and then drops from the
  front: it is unchanged only when the byte cap drops one item that equals the new one
  (`pushAudio_eq_iff`, `pushVideo_eq_iff`). The reassembler is unchanged by a fragment it
  does not use, by a part that it has already, and by a frame of a single part
  (`push_same_iff`). Its map is compared by its entries, as the source would compare it.
-/
import Mathlib.Algebra.Order.Ring.Nat
import Michoi.Media

namespace Michoi

open Lib

/-- Pushing one more and dropping the first changes nothing when all are alike. -/
theorem tail_append_eq_iff {α : Type} {l : List α} {x : α} :
    (l ++ [x]).tail = l ↔ ∀ y ∈ l, y = x := by
  induction l with
  | nil => exact iff_of_true rfl nofun
  | cons a l ih =>
      rw [List.cons_append, List.tail_cons, List.forall_mem_cons, ← ih]
      cases l with
      | nil => exact ⟨fun h => ⟨(List.cons.inj h).1.symm, rfl⟩, fun h => by rw [h.1]; rfl⟩
      | cons b l =>
          rw [List.cons_append, List.tail_cons, List.cons.injEq]
          constructor
          · rintro ⟨rfl, h⟩
            exact ⟨(ih.mp h b List.mem_cons_self), h⟩
          · rintro ⟨rfl, h⟩
            exact ⟨ih.mp h b List.mem_cons_self, h⟩

/-! ## The pre-roll ring -/

namespace RingInner

/-- How many items the ring holds. -/
def size (inner : RingInner) : Nat := inner.video.length + inner.audio.length

/-- The oldest item of the two streams goes. -/
def dropOldest (inner : RingInner) : Option RingInner :=
  match inner.video, inner.audio with
  | v :: video, a :: audio =>
      if a.ptsUs < v.ptsUs then some ⟨v :: video, audio, inner.bytes - a.pcm.length⟩
      else some ⟨video, a :: audio, inner.bytes - v.jpeg.length⟩
  | v :: video, [] => some ⟨video, [], inner.bytes - v.jpeg.length⟩
  | [], a :: audio => some ⟨[], audio, inner.bytes - a.pcm.length⟩
  | [], [] => none

theorem capBytes_succ (maxBytes rounds : Nat) (inner : RingInner) :
    capBytes maxBytes (rounds + 1) inner =
      if inner.bytes ≤ maxBytes then inner
      else inner.dropOldest.elim inner (capBytes maxBytes rounds) := by
  unfold capBytes dropOldest
  split
  · rfl
  · cases inner.video <;> cases inner.audio <;> try rfl
    dsimp only
    split <;> rfl

theorem size_dropOldest {inner inner' : RingInner} (h : inner.dropOldest = some inner') :
    inner'.size + 1 = inner.size := by
  obtain ⟨video, audio, bytes⟩ := inner
  unfold dropOldest at h
  unfold size
  cases video <;> cases audio <;> dsimp only at h
  · cases h
  · cases h; simp
  · cases h; simp
  · split at h <;> cases h <;> simp only [List.length_cons] <;> omega

theorem dropOldest_eq_none {inner : RingInner} (h : inner.dropOldest = none) :
    inner.size = 0 := by
  obtain ⟨video, audio, bytes⟩ := inner
  unfold dropOldest at h
  cases video <;> cases audio <;> dsimp only at h
  · rfl
  · cases h
  · cases h
  · split at h <;> cases h

/-- The byte cap leaves the ring as it is, or with fewer items. -/
theorem capBytes_eq_or_lt (maxBytes rounds : Nat) (inner : RingInner) :
    capBytes maxBytes rounds inner = inner ∨
      (capBytes maxBytes rounds inner).size < inner.size := by
  induction rounds generalizing inner with
  | zero => exact .inl rfl
  | succ rounds ih =>
      rw [capBytes_succ]
      split
      · exact .inl rfl
      · cases hd : inner.dropOldest with
        | none => exact .inl rfl
        | some inner' =>
            have hsize := size_dropOldest hd
            refine .inr ?_
            rcases ih inner' with h | h
            · rw [Option.elim_some, h]
              omega
            · exact Nat.lt_trans h (by omega)

/-- The cap drops exactly one item. -/
theorem capBytes_eq_iff {maxBytes : Nat} {pushed inner : RingInner}
    (hsize : pushed.size = inner.size + 1) :
    capBytes maxBytes pushed.size pushed = inner ↔
      maxBytes < pushed.bytes ∧ pushed.dropOldest = some inner ∧
        (inner.bytes ≤ maxBytes ∨ inner.size = 0) := by
  have hstop : capBytes maxBytes inner.size inner = inner ↔
      inner.bytes ≤ maxBytes ∨ inner.size = 0 := by
    cases hn : inner.size with
    | zero => exact iff_of_true rfl (.inr rfl)
    | succ n =>
        rw [capBytes_succ]
        split
        · next h => exact iff_of_true rfl (.inl h)
        · next h =>
            refine iff_of_false (fun heq => ?_) (by rintro (h' | h'); exacts [h h', by omega])
            cases hd : inner.dropOldest with
            | none => rw [dropOldest_eq_none hd] at hn; cases hn
            | some inner' =>
                rw [hd, Option.elim_some] at heq
                have hlt := size_dropOldest hd
                rcases capBytes_eq_or_lt maxBytes n inner' with h' | h'
                · rw [h'] at heq
                  rw [heq] at hlt
                  omega
                · rw [heq] at h'
                  omega
  rw [hsize, capBytes_succ, ← hstop]
  split
  · next h =>
      refine iff_of_false (fun heq => ?_) fun h' => Nat.not_lt.mpr h h'.1
      rw [heq] at hsize
      omega
  · next h =>
      cases hd : pushed.dropOldest with
      | none => rw [dropOldest_eq_none hd] at hsize; omega
      | some inner' =>
          rw [Option.elim_some]
          have hlt := size_dropOldest hd
          constructor
          · intro heq
            rcases capBytes_eq_or_lt maxBytes inner.size inner' with h' | h'
            · rw [h'] at heq
              exact ⟨Nat.not_le.mp h, congrArg some heq, by rw [← heq] at h' ⊢; exact h'⟩
            · rw [heq] at h'
              omega
          · rintro ⟨-, heq, hfix⟩
            rw [Option.some.inj heq]
            exact hfix

/-! ### Items older than the window -/

/-- A loop that drops old items from the front, as both age loops do. -/
theorem dropLoop_eq {ι : Type} {loop : List ι → Nat → RingInner} {old : ι → Bool}
    {size : ι → Nat} (left : List ι → Nat → RingInner) (hnil : ∀ bytes, loop [] bytes = left [] bytes)
    (hcons : ∀ x xs bytes, loop (x :: xs) bytes =
      if old x then loop xs (bytes - size x) else left (x :: xs) bytes)
    (xs : List ι) (bytes : Nat) :
    loop xs bytes = left (xs.dropWhile old) (bytes - ((xs.takeWhile old).map size).sum) := by
  induction xs generalizing bytes with
  | nil => exact hnil bytes
  | cons x xs ih =>
      rw [hcons, List.dropWhile_cons, List.takeWhile_cons]
      split
      · rw [ih, List.map_cons, List.sum_cons, Nat.sub_sub]
      · rfl

theorem dropOldVideo_eq (floor : Nat) (audio : List AudioChunk) (video : List VideoFrame)
    (bytes : Nat) : dropOldVideo floor audio video bytes =
      ⟨video.dropWhile (·.ptsUs < floor), audio,
        bytes - ((video.takeWhile (·.ptsUs < floor)).map (·.jpeg.length)).sum⟩ := by
  apply dropLoop_eq fun video bytes => ⟨video, audio, bytes⟩
  · exact fun _ => rfl
  · intro v video bytes
    simp [dropOldVideo]

theorem dropOldAudio_eq (floor : Nat) (video : List VideoFrame) (audio : List AudioChunk)
    (bytes : Nat) : dropOldAudio floor video audio bytes =
      ⟨video, audio.dropWhile (·.ptsUs < floor),
        bytes - ((audio.takeWhile (·.ptsUs < floor)).map (·.pcm.length)).sum⟩ := by
  apply dropLoop_eq fun audio bytes => ⟨video, audio, bytes⟩
  · exact fun _ => rfl
  · intro a audio bytes
    simp [dropOldAudio]

theorem dropOldVideo_of_young {floor : Nat} {video : List VideoFrame}
    (h : ∀ v ∈ video.head?, floor ≤ v.ptsUs) (audio : List AudioChunk) (bytes : Nat) :
    dropOldVideo floor audio video bytes = ⟨video, audio, bytes⟩ := by
  cases video with
  | nil => rfl
  | cons v rest => exact if_neg (Nat.not_lt.mpr (h v rfl))

theorem dropOldAudio_of_young {floor : Nat} {audio : List AudioChunk}
    (h : ∀ a ∈ audio.head?, floor ≤ a.ptsUs) (video : List VideoFrame) (bytes : Nat) :
    dropOldAudio floor video audio bytes = ⟨video, audio, bytes⟩ := by
  cases audio with
  | nil => rfl
  | cons a rest => exact if_neg (Nat.not_lt.mpr (h a rfl))

/-- A front item that is old is dropped. -/
theorem dropWhile_suffix_tail {ι : Type} {old : ι → Bool} {x : ι} (h : old x = true)
    (rest : List ι) : (x :: rest).dropWhile old <:+ rest := by
  rw [List.dropWhile_cons_of_pos h]
  exact List.dropWhile_suffix old

theorem capBytes_suffix (maxBytes rounds : Nat) (inner : RingInner) :
    (capBytes maxBytes rounds inner).video <:+ inner.video ∧
      (capBytes maxBytes rounds inner).audio <:+ inner.audio := by
  induction rounds generalizing inner with
  | zero => exact ⟨List.suffix_rfl, List.suffix_rfl⟩
  | succ rounds ih =>
      rw [capBytes_succ]
      split
      · exact ⟨List.suffix_rfl, List.suffix_rfl⟩
      · cases hd : inner.dropOldest with
        | none => exact ⟨List.suffix_rfl, List.suffix_rfl⟩
        | some inner' =>
            have hdrop : inner'.video <:+ inner.video ∧ inner'.audio <:+ inner.audio := by
              obtain ⟨video, audio, bytes⟩ := inner
              unfold dropOldest at hd
              cases video <;> cases audio <;> dsimp only at hd
              · cases hd
              · cases hd; exact ⟨List.suffix_rfl, List.suffix_cons ..⟩
              · cases hd; exact ⟨List.suffix_cons .., List.suffix_rfl⟩
              · split at hd <;> cases hd
                · exact ⟨List.suffix_rfl, List.suffix_cons ..⟩
                · exact ⟨List.suffix_cons .., List.suffix_rfl⟩
            exact ⟨(ih inner').1.trans hdrop.1, (ih inner').2.trans hdrop.2⟩

/-- A ring that took one item and is as before has dropped one, and for the byte cap. -/
theorem capBytes_of_evict {inner pushed : RingInner} {windowUs maxBytes newestUs : Nat}
    (h : pushed.evict windowUs maxBytes newestUs = inner)
    (hvideo : ∀ v rest, pushed.video = v :: rest → inner.video <:+ rest →
      newestUs - windowUs ≤ v.ptsUs)
    (haudio : ∀ a rest, pushed.audio = a :: rest → inner.audio <:+ rest →
      newestUs - windowUs ≤ a.ptsUs) : capBytes maxBytes pushed.size pushed = inner := by
  obtain ⟨video, audio, bytes⟩ := pushed
  have hsuffix : inner.video <:+ video.dropWhile (·.ptsUs < newestUs - windowUs) ∧
      inner.audio <:+ audio.dropWhile (·.ptsUs < newestUs - windowUs) := by
    rw [← h]
    simp only [evict, dropOldVideo_eq, dropOldAudio_eq]
    exact capBytes_suffix ..
  have hyoungVideo : ∀ v ∈ video.head?, newestUs - windowUs ≤ v.ptsUs := by
    intro v hv
    obtain ⟨rest, rfl⟩ := List.head?_eq_some_iff.mp hv
    by_contra hold
    have hdropped : (v :: rest).dropWhile (·.ptsUs < newestUs - windowUs) <:+ rest := by
      apply dropWhile_suffix_tail
      exact decide_eq_true (Nat.not_le.mp hold)
    exact hold (hvideo v rest rfl (hsuffix.1.trans hdropped))
  have hyoungAudio : ∀ a ∈ audio.head?, newestUs - windowUs ≤ a.ptsUs := by
    intro a ha
    obtain ⟨rest, rfl⟩ := List.head?_eq_some_iff.mp ha
    by_contra hold
    have hdropped : (a :: rest).dropWhile (·.ptsUs < newestUs - windowUs) <:+ rest := by
      apply dropWhile_suffix_tail
      exact decide_eq_true (Nat.not_le.mp hold)
    exact hold (haudio a rest rfl (hsuffix.2.trans hdropped))
  simp only [evict, dropOldVideo_of_young hyoungVideo, dropOldAudio_of_young hyoungAudio] at h
  exact h

/-- Nothing is older than the window where the front items are not older than the new one. -/
theorem evict_of_young (pushed : RingInner) (windowUs maxBytes : Nat) {newestUs : Nat}
    (hvideo : ∀ v ∈ pushed.video.head?, newestUs ≤ v.ptsUs)
    (haudio : ∀ a ∈ pushed.audio.head?, newestUs ≤ a.ptsUs) :
    pushed.evict windowUs maxBytes newestUs = capBytes maxBytes pushed.size pushed := by
  have hv := dropOldVideo_of_young (fun v h => Nat.le_trans (Nat.sub_le newestUs windowUs)
    (hvideo v h)) pushed.audio pushed.bytes
  have ha := dropOldAudio_of_young (fun a h => Nat.le_trans (Nat.sub_le newestUs windowUs)
    (haudio a h)) pushed.video pushed.bytes
  unfold evict
  dsimp only
  rw [hv, ha]
  rfl

end RingInner

namespace MediaRing

/-- The byte cap drops one chunk, and all chunks are like the new one. -/
structure CyclesAudio (ring : MediaRing) (chunk : AudioChunk) : Prop where
  same : ∀ c ∈ ring.inner.audio, c = chunk
  newer : ∀ v ∈ ring.inner.video.head?, chunk.ptsUs < v.ptsUs
  full : ring.maxBytes < ring.inner.bytes + chunk.pcm.length
  fits : ring.inner.bytes ≤ ring.maxBytes ∨ ring.inner.size = 0

/-- The byte cap drops one frame, and all frames are like the new one. -/
structure CyclesVideo (ring : MediaRing) (frame : VideoFrame) : Prop where
  same : ∀ f ∈ ring.inner.video, f = frame
  newer : ∀ a ∈ ring.inner.audio.head?, frame.ptsUs ≤ a.ptsUs
  full : ring.maxBytes < ring.inner.bytes + frame.jpeg.length
  fits : ring.inner.bytes ≤ ring.maxBytes ∨ ring.inner.size = 0

/-- After a chunk was pushed the oldest item is that chunk's equal, and all chunks are. -/
theorem dropOldest_audio (video : List VideoFrame) (audio : List AudioChunk) (bytes : Nat)
    (chunk : AudioChunk) :
    RingInner.dropOldest ⟨video, audio ++ [chunk], bytes + chunk.pcm.length⟩ =
        some ⟨video, audio, bytes⟩ ↔
      (∀ c ∈ audio, c = chunk) ∧ ∀ v ∈ video.head?, chunk.ptsUs < v.ptsUs := by
  rw [← tail_append_eq_iff]
  cases hl : audio ++ [chunk] with
  | nil => exact absurd hl (List.append_ne_nil_of_right_ne_nil _ (List.cons_ne_nil _ _))
  | cons a rest =>
      have ha : rest = audio → a = chunk := by
        intro hr
        have hmem : a ∈ audio ++ [chunk] := hl ▸ List.mem_cons_self
        have hsame := tail_append_eq_iff.mp ((congrArg List.tail hl).trans hr)
        rcases List.mem_append.mp hmem with h | h
        · exact hsame a h
        · exact List.mem_singleton.mp h
      unfold RingInner.dropOldest
      rw [List.tail_cons]
      cases video with
      | nil =>
          dsimp only
          rw [Option.some.injEq, RingInner.mk.injEq]
          constructor
          · rintro ⟨-, hr, -⟩
            exact ⟨hr, nofun⟩
          · rintro ⟨hr, -⟩
            rw [ha hr]
            exact ⟨rfl, hr, Nat.add_sub_cancel ..⟩
      | cons v video =>
          dsimp only
          split
          · next hlt =>
              rw [Option.some.injEq, RingInner.mk.injEq]
              constructor
              · rintro ⟨-, hr, -⟩
                exact ⟨hr, fun w hw => Option.some.inj hw ▸ ha hr ▸ hlt⟩
              · rintro ⟨hr, -⟩
                rw [ha hr]
                exact ⟨rfl, hr, Nat.add_sub_cancel ..⟩
          · next hlt =>
              refine iff_of_false (fun h => ?_) fun h => hlt (ha h.1 ▸ h.2 v rfl)
              have hvideo := congrArg RingInner.video (Option.some.inj h)
              exact List.cons_ne_self v video hvideo.symm

/-- After a frame was pushed the oldest item is that frame's equal, and all frames are. -/
theorem dropOldest_video (video : List VideoFrame) (audio : List AudioChunk) (bytes : Nat)
    (frame : VideoFrame) :
    RingInner.dropOldest ⟨video ++ [frame], audio, bytes + frame.jpeg.length⟩ =
        some ⟨video, audio, bytes⟩ ↔
      (∀ f ∈ video, f = frame) ∧ ∀ a ∈ audio.head?, frame.ptsUs ≤ a.ptsUs := by
  rw [← tail_append_eq_iff]
  cases hl : video ++ [frame] with
  | nil => exact absurd hl (List.append_ne_nil_of_right_ne_nil _ (List.cons_ne_nil _ _))
  | cons v rest =>
      have hv : rest = video → v = frame := by
        intro hr
        have hmem : v ∈ video ++ [frame] := hl ▸ List.mem_cons_self
        have hsame := tail_append_eq_iff.mp ((congrArg List.tail hl).trans hr)
        rcases List.mem_append.mp hmem with h | h
        · exact hsame v h
        · exact List.mem_singleton.mp h
      unfold RingInner.dropOldest
      rw [List.tail_cons]
      cases audio with
      | nil =>
          dsimp only
          rw [Option.some.injEq, RingInner.mk.injEq]
          constructor
          · rintro ⟨hr, -, -⟩
            exact ⟨hr, nofun⟩
          · rintro ⟨hr, -⟩
            rw [hv hr]
            exact ⟨hr, rfl, Nat.add_sub_cancel ..⟩
      | cons a audio =>
          dsimp only
          split
          · next hlt =>
              refine iff_of_false (fun h => ?_) fun h =>
                Nat.not_le.mpr hlt (hv h.1 ▸ h.2 a rfl)
              have haudio := congrArg RingInner.audio (Option.some.inj h)
              exact List.cons_ne_self a audio haudio.symm
          · next hlt =>
              rw [Option.some.injEq, RingInner.mk.injEq]
              constructor
              · rintro ⟨hr, -, -⟩
                exact ⟨hr, fun b hb => Option.some.inj hb ▸ hv hr ▸ Nat.not_lt.mp hlt⟩
              · rintro ⟨hr, -⟩
                rw [hv hr]
                exact ⟨hr, rfl, Nat.add_sub_cancel ..⟩

/-- A whole list does not fit behind its own head. -/
theorem not_suffix_tail {α : Type} {l rest : List α} {x y : α} (h : l ++ [x] = y :: rest)
    (hs : l <:+ rest) : ∀ z ∈ y :: rest, z = x := by
  have hlen : l.length = rest.length := by
    have := congrArg List.length h
    simpa using this
  obtain rfl : l = rest := hs.eq_of_length hlen
  have hsame : ∀ z ∈ l, z = x := tail_append_eq_iff.mp (congrArg List.tail h)
  intro z hz
  rw [← h] at hz
  rcases List.mem_append.mp hz with hz | hz
  · exact hsame z hz
  · exact List.mem_singleton.mp hz

theorem pushAudio_eq_iff (ring : MediaRing) (chunk : AudioChunk) :
    ring.pushAudio chunk = ring ↔ ring.windowUs = 0 ∨ ring.CyclesAudio chunk := by
  obtain ⟨⟨video, audio, bytes⟩, windowUs, maxBytes⟩ := ring
  unfold pushAudio
  split
  · next h => exact iff_of_true rfl (.inl h)
  · next hw =>
      dsimp only
      have hsize : RingInner.size ⟨video, audio ++ [chunk], bytes + chunk.pcm.length⟩ =
          RingInner.size ⟨video, audio, bytes⟩ + 1 := by
        unfold RingInner.size
        rw [List.length_append, List.length_singleton]
        rfl
      constructor
      · intro h
        have hcap := RingInner.capBytes_of_evict (congrArg MediaRing.inner h)
          (fun v rest hr hs => absurd hs.length_le (by
            rw [show video = v :: rest from hr, List.length_cons]; exact Nat.not_succ_le_self _))
          (fun a rest hr hs => by
            rw [not_suffix_tail hr hs a List.mem_cons_self]; exact Nat.sub_le ..)
        obtain ⟨hfull, hdrop, hfits⟩ := (RingInner.capBytes_eq_iff hsize).mp hcap
        obtain ⟨hsame, hnewer⟩ := (dropOldest_audio ..).mp hdrop
        exact .inr ⟨hsame, hnewer, hfull, hfits⟩
      · rintro (h | ⟨hsame, hnewer, hfull, hfits⟩)
        · exact absurd h hw
        · have hcap := (RingInner.capBytes_eq_iff hsize).mpr
            ⟨hfull, (dropOldest_audio ..).mpr ⟨hsame, hnewer⟩, hfits⟩
          have hyoung : ∀ a ∈ (audio ++ [chunk]).head?, chunk.ptsUs ≤ a.ptsUs := by
            intro a ha
            rcases List.mem_append.mp (List.mem_of_mem_head? ha) with h | h
            · rw [hsame a h]
            · rw [List.mem_singleton.mp h]
          have hevict := RingInner.evict_of_young
            ⟨video, audio ++ [chunk], bytes + chunk.pcm.length⟩ windowUs maxBytes
            (fun v hv => Nat.le_of_lt (hnewer v hv)) hyoung
          rw [hevict, hcap]

theorem pushVideo_eq_iff (ring : MediaRing) (frame : VideoFrame) :
    ring.pushVideo frame = ring ↔ ring.windowUs = 0 ∨ ring.CyclesVideo frame := by
  obtain ⟨⟨video, audio, bytes⟩, windowUs, maxBytes⟩ := ring
  unfold pushVideo
  split
  · next h => exact iff_of_true rfl (.inl h)
  · next hw =>
      dsimp only
      have hsize : RingInner.size ⟨video ++ [frame], audio, bytes + frame.jpeg.length⟩ =
          RingInner.size ⟨video, audio, bytes⟩ + 1 := by
        unfold RingInner.size
        rw [List.length_append, List.length_singleton]
        exact Nat.add_right_comm ..
      constructor
      · intro h
        have hcap := RingInner.capBytes_of_evict (congrArg MediaRing.inner h)
          (fun v rest hr hs => by
            rw [not_suffix_tail hr hs v List.mem_cons_self]; exact Nat.sub_le ..)
          (fun a rest hr hs => absurd hs.length_le (by
            rw [show audio = a :: rest from hr, List.length_cons]; exact Nat.not_succ_le_self _))
        obtain ⟨hfull, hdrop, hfits⟩ := (RingInner.capBytes_eq_iff hsize).mp hcap
        obtain ⟨hsame, hnewer⟩ := (dropOldest_video ..).mp hdrop
        exact .inr ⟨hsame, hnewer, hfull, hfits⟩
      · rintro (h | ⟨hsame, hnewer, hfull, hfits⟩)
        · exact absurd h hw
        · have hcap := (RingInner.capBytes_eq_iff hsize).mpr
            ⟨hfull, (dropOldest_video ..).mpr ⟨hsame, hnewer⟩, hfits⟩
          have hyoung : ∀ v ∈ (video ++ [frame]).head?, frame.ptsUs ≤ v.ptsUs := by
            intro v hv
            rcases List.mem_append.mp (List.mem_of_mem_head? hv) with h | h
            · rw [hsame v h]
            · rw [List.mem_singleton.mp h]
          have hevict := RingInner.evict_of_young
            ⟨video ++ [frame], audio, bytes + frame.jpeg.length⟩ windowUs maxBytes hyoung hnewer
          rw [hevict, hcap]

end MediaRing

/-! ## The reassembler -/

theorem Parts.join_single (index : UInt16) (data : Bytes) :
    Parts.join (AList.insert index data ∅) = data := by
  have hl : AList.lookup index (AList.insert index data ∅ : Parts) = some data :=
    AList.lookup_insert _
  show ([index].filterMap fun i => AList.lookup i (AList.insert index data ∅ : Parts)).flatten =
    data
  rw [List.filterMap_cons, hl]
  exact List.append_nil data

namespace JpegReassembler

/-- What is kept of one frame: its count, and its parts by index. -/
def view (entry : UInt16 × Parts) : UInt16 × (UInt16 → Option Bytes) :=
  (entry.1, fun index => entry.2.lookup index)

/-- The same frames are being put together, in the same order. -/
structure Same (r r' : JpegReassembler) : Prop where
  frames : ∀ sequence,
    (r.frames.lookup sequence).map view = (r'.frames.lookup sequence).map view
  order : r.order = r'.order

theorem Same.refl (r : JpegReassembler) : r.Same r := ⟨fun _ => rfl, rfl⟩

/-- The fragment's frame is being put together, and has this very part. -/
def Holds (r : JpegReassembler) (f : MediaFragment) : Prop :=
  ∃ parts, r.frames.lookup f.sequence = some (f.fragmentCount, parts) ∧
    parts.lookup f.fragmentIndex = some f.data ∧ complete (f.fragmentCount, parts) = false

/-- The fragment is a frame of its own. -/
def Single (r : JpegReassembler) (f : MediaFragment) : Prop :=
  f.sequence ∉ r.frames ∧ f.fragmentCount = 1

instance (r : JpegReassembler) (f : MediaFragment) : Decidable (r.Single f) :=
  inferInstanceAs (Decidable (_ ∧ _))

/-- The fragments that a reassembler with at most eight frames takes without a trace. -/
def Absorbs (r : JpegReassembler) (f : MediaFragment) : Prop :=
  usable f = false ∨ (r.Holds f ∧ r.frames.keys.length ≤ 8) ∨ r.Single f

section

variable {r : JpegReassembler} {f : MediaFragment}

theorem usable_index (h : usable f = true) : f.fragmentIndex ≠ 0 ∧
    f.fragmentIndex ≤ f.fragmentCount := by
  unfold usable at h
  simp only [Bool.and_eq_true, bne_iff_ne, decide_eq_true_eq] at h
  exact ⟨h.1.2, h.2⟩

theorem entryWith_of_new (h : f.sequence ∉ r.frames) :
    r.entryWith f = (f.fragmentCount, AList.insert f.fragmentIndex f.data ∅) := by
  unfold entryWith
  rw [AList.lookup_eq_none.mpr h]

/-- A first part completes its frame exactly when it is the only one. -/
theorem complete_of_new (h : f.sequence ∉ r.frames) (hu : usable f = true) :
    complete (r.entryWith f) = true ↔ f.fragmentCount = 1 := by
  obtain ⟨hne, hle⟩ := usable_index hu
  have hkeys : (AList.insert f.fragmentIndex f.data ∅ : Parts).keys = [f.fragmentIndex] := by
    rw [AList.keys_insert]
    rfl
  rw [entryWith_of_new h]
  unfold complete
  rw [hkeys, List.length_singleton, Bool.and_eq_true, beq_iff_eq]
  constructor
  · rintro ⟨hcount, -⟩
    exact UInt16.toNat.inj hcount.symm
  · intro hcount
    rw [hcount] at hle ⊢
    have hidx : f.fragmentIndex = 1 := by
      apply UInt16.toNat.inj
      have h1 : f.fragmentIndex.toNat ≤ 1 := hle
      have h2 : f.fragmentIndex.toNat ≠ 0 := fun h => hne (UInt16.toNat.inj h)
      show f.fragmentIndex.toNat = 1
      omega
    refine ⟨rfl, ?_⟩
    rw [hidx]
    rfl

theorem complete_insert {count index : UInt16} {parts : Parts} (h : index ∈ parts) (data : Bytes) :
    complete (count, parts.insert index data) = complete (count, parts) := by
  have hlen : (parts.insert index data).keys.length = parts.keys.length := by
    have hperm := List.perm_cons_erase (AList.mem_keys.mp h)
    rw [AList.keys_insert]
    exact (List.Perm.length_eq hperm).symm
  have hmem : ∀ i : UInt16, i ∈ parts.insert index data ↔ i ∈ parts := by
    intro i
    rw [AList.mem_insert]
    exact ⟨fun hi => hi.elim (fun e => e ▸ h) id, .inr⟩
  unfold complete
  dsimp only
  rw [hlen]
  simp only [hmem]

/-- The part that is there already changes nothing of the frame. -/
theorem entryWith_of_holds {parts : Parts}
    (hl : r.frames.lookup f.sequence = some (f.fragmentCount, parts)) :
    r.entryWith f = (f.fragmentCount, parts.insert f.fragmentIndex f.data) := by
  unfold entryWith
  rw [hl]
  exact if_neg (not_not_intro rfl)

theorem view_entryWith_iff {entry : UInt16 × Parts}
    (hl : r.frames.lookup f.sequence = some entry) :
    view (r.entryWith f) = view entry ↔
      entry.1 = f.fragmentCount ∧ entry.2.lookup f.fragmentIndex = some f.data := by
  obtain ⟨count, parts⟩ := entry
  constructor
  · intro h
    have hcount : count = f.fragmentCount := by
      have h1 : (r.entryWith f).1 = count := congrArg Prod.fst h
      unfold entryWith at h1
      rw [hl] at h1
      dsimp only at h1
      split at h1
      · exact h1.symm
      · next hc => exact not_not.mp hc
    refine ⟨hcount, ?_⟩
    subst hcount
    rw [entryWith_of_holds hl] at h
    have h2 := congrFun (congrArg Prod.snd h) f.fragmentIndex
    exact h2.symm.trans (AList.lookup_insert parts)
  · rintro ⟨rfl, hpart⟩
    rw [entryWith_of_holds hl]
    refine congrArg (Prod.mk _) (funext fun index => ?_)
    by_cases hi : index = f.fragmentIndex
    · subst hi
      exact (AList.lookup_insert parts).trans hpart.symm
    · exact AList.lookup_insert_ne hi

/-! ### The trim -/

theorem trimLoop_of_le {frames : AList fun _ : UInt16 => UInt16 × Parts} {order : List UInt16}
    (h : frames.keys.length ≤ 8) : trimLoop frames order = some ⟨frames, order⟩ := by
  cases order with
  | nil => exact if_pos h
  | cons old order => exact if_pos h

/-- The newest frame is not trimmed. -/
theorem mem_order_of_trimLoop {frames : AList fun _ : UInt16 => UInt16 × Parts}
    {order : List UInt16} {s : UInt16} {r' : JpegReassembler}
    (hl : Lists (order ++ [s]) frames) (h : trimLoop frames (order ++ [s]) = some r') :
    s ∈ r'.order := by
  induction order generalizing frames with
  | nil =>
      have hlen : frames.keys.length ≤ 8 := by
        rw [← hl.length_eq]
        exact Nat.le_of_ble_eq_true rfl
      rw [trimLoop_of_le hlen] at h
      rw [← Option.some.inj h]
      exact List.mem_singleton.mpr rfl
  | cons old order ih =>
      rw [List.cons_append] at h hl
      unfold trimLoop at h
      split at h
      · rw [← Option.some.inj h]
        exact List.mem_cons_of_mem _ (List.mem_append_right _ (List.mem_singleton.mpr rfl))
      · exact ih hl.erase_head h

theorem trimLoop_suffix {frames : AList fun _ : UInt16 => UInt16 × Parts} {order : List UInt16}
    {r' : JpegReassembler} (h : trimLoop frames order = some r') : r'.order <:+ order := by
  induction order generalizing frames with
  | nil =>
      unfold trimLoop at h
      split at h
      · exact Option.some.inj h ▸ List.suffix_rfl
      · cases h
  | cons old order ih =>
      unfold trimLoop at h
      split at h
      · exact Option.some.inj h ▸ List.suffix_rfl
      · exact (ih h).trans (List.suffix_cons _ _)

/-- More than eight frames: the oldest goes. -/
theorem trimLoop_ne {frames : AList fun _ : UInt16 => UInt16 × Parts} {order : List UInt16}
    {r' : JpegReassembler} (h : trimLoop frames order = some r')
    (hlen : ¬ frames.keys.length ≤ 8) : r'.order ≠ order := by
  cases order with
  | nil =>
      unfold trimLoop at h
      rw [if_neg hlen] at h
      cases h
  | cons old order =>
      unfold trimLoop at h
      rw [if_neg hlen] at h
      intro heq
      have hle := (trimLoop_suffix h).length_le
      rw [heq, List.length_cons] at hle
      exact Nat.not_succ_le_self _ hle

/-! ### One push -/

/-- A part that goes to a known frame, with at most eight frames. -/
theorem withPart_same_iff (hk : f.sequence ∈ r.frames) :
    r.Same (r.withPart f) ↔ ∃ entry, r.frames.lookup f.sequence = some entry ∧
      view (r.entryWith f) = view entry := by
  obtain ⟨entry, hl⟩ := Option.isSome_iff_exists.mp (AList.lookup_isSome.mpr hk)
  have hframes : (r.withPart f).frames = r.frames.insert f.sequence (r.entryWith f) := rfl
  constructor
  · intro h
    have hs := h.frames f.sequence
    rw [hframes, AList.lookup_insert, hl] at hs
    exact ⟨entry, hl, (Option.some.inj hs).symm⟩
  · rintro ⟨entry', hl', hv⟩
    refine ⟨fun s => ?_, (if_pos hk).symm⟩
    rw [hframes]
    by_cases hs : s = f.sequence
    · subst hs
      rw [AList.lookup_insert, hl', Option.map_some, Option.map_some, hv]
    · rw [AList.lookup_insert_ne hs]

theorem withPart_length (hr : r.Consistent) (hk : f.sequence ∈ r.frames) :
    (r.withPart f).frames.keys.length = r.frames.keys.length :=
  (hr.insert_old hk (r.entryWith f)).length_eq.symm.trans hr.length_eq

/-- An incomplete frame is kept: unchanged if it was known with this part in it. -/
theorem trim_same_iff (hr : r.Consistent)
    (hc : complete (r.entryWith f) = false) {r' : JpegReassembler}
    (h : (r.withPart f).trim = some r') :
    r.Same r' ↔ r.Holds f ∧ r.frames.keys.length ≤ 8 := by
  have htrim : trimLoop (r.withPart f).frames (r.withPart f).order = some r' := h
  by_cases hk : f.sequence ∈ r.frames
  · have horder : (r.withPart f).order = r.order := if_pos hk
    by_cases h8 : r.frames.keys.length ≤ 8
    · rw [trimLoop_of_le ((withPart_length hr hk).trans_le h8)] at htrim
      obtain rfl : r.withPart f = r' := Option.some.inj htrim
      rw [withPart_same_iff hk]
      constructor
      · rintro ⟨⟨count, parts⟩, hl, hv⟩
        obtain ⟨rfl, hpart⟩ := (view_entryWith_iff hl).mp hv
        rw [entryWith_of_holds hl,
          complete_insert (AList.lookup_isSome.mp (by rw [hpart]; rfl))] at hc
        exact ⟨⟨parts, hl, hpart, hc⟩, h8⟩
      · rintro ⟨⟨parts, hl, hpart, -⟩, -⟩
        exact ⟨_, hl, (view_entryWith_iff hl).mpr ⟨rfl, hpart⟩⟩
    · refine iff_of_false (fun hsame => ?_) fun hh => h8 hh.2
      exact trimLoop_ne htrim (by rw [withPart_length hr hk]; exact h8)
        (hsame.order.symm.trans horder.symm)
  · have horder : (r.withPart f).order = r.order ++ [f.sequence] := if_neg hk
    refine iff_of_false (fun hsame => hk ?_) ?_
    · have hlists : Lists (r.withPart f).order (r.withPart f).frames := withPart_consistent hr f
      rw [horder] at hlists htrim
      have hmem := mem_order_of_trimLoop hlists htrim
      rw [← hsame.order] at hmem
      exact AList.mem_keys.mpr ((List.Perm.mem_iff hr).mp hmem)
    · rintro ⟨⟨parts, hl, -, -⟩, -⟩
      exact hk (AList.lookup_isSome.mp (by rw [hl]; rfl))

/-- A complete frame is taken out: unchanged if this part is all there was of it. -/
theorem remove_same_iff (hr : r.Consistent) (f : MediaFragment) :
    r.Same ((r.withPart f).remove f.sequence) ↔ f.sequence ∉ r.frames := by
  have hgone : ((r.withPart f).remove f.sequence).frames.lookup f.sequence = none :=
    AList.lookup_erase ..
  constructor
  · intro hsame hk
    have hs := hsame.frames f.sequence
    obtain ⟨entry, hl⟩ := Option.isSome_iff_exists.mp (AList.lookup_isSome.mpr hk)
    rw [hgone, hl] at hs
    cases hs
  · intro hk
    refine ⟨fun s => ?_, ?_⟩
    · by_cases hs : s = f.sequence
      · subst hs
        rw [hgone, AList.lookup_eq_none.mpr hk]
      · have hl : ((r.withPart f).remove f.sequence).frames.lookup s = r.frames.lookup s :=
          (AList.lookup_erase_ne hs).trans (AList.lookup_insert_ne hs)
        rw [hl]
    · have horder : (r.withPart f).order = r.order ++ [f.sequence] := if_neg hk
      have hno : f.sequence ∉ r.order := fun hm =>
        hk (AList.mem_keys.mpr ((List.Perm.mem_iff hr).mp hm))
      have hkeep : r.order.filter (· ≠ f.sequence) = r.order :=
        List.filter_eq_self.mpr fun x hx => decide_eq_true fun h => hno (h ▸ hx)
      show r.order = (r.withPart f).order.filter (· ≠ f.sequence)
      rw [horder, List.filter_append, hkeep]
      simp

/-- A known frame is not completed by a part it has already. -/
theorem not_complete_of_holds (h : r.Holds f) : complete (r.entryWith f) = false := by
  obtain ⟨parts, hl, hpart, hc⟩ := h
  rw [entryWith_of_holds hl, complete_insert (AList.lookup_isSome.mp (by rw [hpart]; rfl))]
  exact hc

/-- **When a fragment leaves the reassembler as it was.** -/
theorem push_same_iff (hr : r.Consistent) {frame : Option Bytes} {r' : JpegReassembler}
    (h : r.push f = some (frame, r')) : r.Same r' ↔ r.Absorbs f := by
  unfold push at h
  split at h
  · next hu =>
      rw [← (Prod.mk.inj (Option.some.inj h)).2]
      exact iff_of_true (.refl r) (.inl (by simpa using hu))
  · next hu =>
      have hu' : usable f = true := by simpa using hu
      have husable : ¬ usable f = false := by rw [hu']; exact Bool.noConfusion
      unfold Absorbs
      rw [or_iff_right husable]
      dsimp only at h
      split at h
      · next hc =>
          have hc' : complete (r.entryWith f) = false := by simpa using hc
          obtain ⟨q, hq, hp⟩ := Option.map_eq_some_iff.mp h
          obtain rfl : q = r' := (Prod.mk.inj hp).2
          rw [trim_same_iff hr hc' hq]
          refine (or_iff_left ?_).symm
          rintro ⟨hk, hcount⟩
          rw [(complete_of_new hk hu').mpr hcount] at hc'
          cases hc'
      · next hc =>
          have hc' : complete (r.entryWith f) = true := by simpa using hc
          rw [← (Prod.mk.inj (Option.some.inj h)).2, remove_same_iff hr]
          constructor
          · intro hk
            exact .inr ⟨hk, (complete_of_new hk hu').mp hc'⟩
          · rintro (⟨hholds, -⟩ | hsingle)
            · rw [not_complete_of_holds hholds] at hc'
              cases hc'
            · exact hsingle.1

/-- The only frame that comes out of an absorbed fragment is the fragment itself. -/
theorem push_frame_of_absorbs {frame : Option Bytes} {r' : JpegReassembler}
    (h : r.push f = some (frame, r')) (ha : r.Absorbs f) :
    frame = if usable f = true ∧ r.Single f ∧ framed f.data = true then some f.data else none := by
  unfold push at h
  split at h
  · next hu =>
      have hu' : usable f = false := by simpa using hu
      rw [if_neg fun h => by rw [hu'] at h; cases h.1]
      exact (Prod.mk.inj (Option.some.inj h)).1.symm
  · next hu =>
      have hu' : usable f = true := by simpa using hu
      dsimp only at h
      split at h
      · next hc =>
          have hno : ¬ (usable f = true ∧ r.Single f ∧ framed f.data = true) := by
            rintro ⟨-, ⟨hk, hcount⟩, -⟩
            rw [(complete_of_new hk hu').mpr hcount] at hc
            cases hc
          obtain ⟨q, -, hp⟩ := Option.map_eq_some_iff.mp h
          rw [if_neg hno]
          exact (Prod.mk.inj hp).1.symm
      · next hc =>
          have hc' : complete (r.entryWith f) = true := by simpa using hc
          have hsingle : r.Single f := by
            rcases ha with ha | ⟨hholds, -⟩ | hsingle
            · rw [hu'] at ha
              cases ha
            · rw [not_complete_of_holds hholds] at hc'
              cases hc'
            · exact hsingle
          have hjoin : (r.entryWith f).2.join = f.data := by
            rw [entryWith_of_new hsingle.1]
            exact Parts.join_single ..
          rw [← (Prod.mk.inj (Option.some.inj h)).1, hjoin]
          by_cases hframed : framed f.data = true
          · rw [if_pos hframed, if_pos ⟨hu', hsingle, hframed⟩]
          · rw [if_neg hframed, if_neg fun h => hframed h.2.2]

end

end JpegReassembler

end Michoi
