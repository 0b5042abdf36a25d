/-
  Where the pictures and the sound of a household come from.

  The media buffers are written by the receive loop only, from the fragments of the messages
  it was handed. `HouseTask.Bears` says which fragments a handler can still bring there, and
  `house_media` that nothing else changes the buffers. `ShowsOnly` is what the buffers hold of a
  sender's frames and of its sound, whatever order its fragments come in.
-/
import Michoi.Agent.Isolation
import Michoi.Household.Frame
import Michoi.Media.Absorb
import Michoi.Media.Delivered

namespace Michoi

open Lib

variable {W : Type}

/-! ## What the buffers hold -/

/-- The buffers hold the frames and the sound of one sender. -/
structure ShowsOnly (frames : List SentFrame) (sounds : Bytes → Prop) (a : Agent W) : Prop where
  holding : Holding frames a.jpeg
  latest : ∀ frame ∈ a.latest, ∃ s ∈ frames, frame.jpeg = s.jpeg
  video : ∀ frame ∈ a.history.inner.video, ∃ s ∈ frames, frame.jpeg = s.jpeg
  audio : ∀ chunk ∈ a.history.inner.audio, sounds chunk.pcm

/-- A fragment of one of the frames, or sound. -/
def Fragment (frames : List SentFrame) (sounds : Bytes → Prop) (f : MediaFragment) : Prop :=
  (∃ s ∈ frames, ∃ i < s.pieces, f = s.fragment i) ∨ f.mediaType = mediaAudio ∧ sounds f.data

theorem RingInner.evict_suffix (inner : RingInner) (windowUs maxBytes newestUs : Nat) :
    (inner.evict windowUs maxBytes newestUs).video <:+ inner.video ∧
      (inner.evict windowUs maxBytes newestUs).audio <:+ inner.audio := by
  unfold evict
  simp only [dropOldVideo_eq, dropOldAudio_eq]
  obtain ⟨hvideo, haudio⟩ := capBytes_suffix ..
  exact ⟨hvideo.trans (List.dropWhile_suffix _), haudio.trans (List.dropWhile_suffix _)⟩

theorem MediaRing.mem_pushVideo {ring : MediaRing} {frame : VideoFrame} :
    (∀ f ∈ (ring.pushVideo frame).inner.video, f ∈ ring.inner.video ∨ f = frame) ∧
      ∀ c ∈ (ring.pushVideo frame).inner.audio, c ∈ ring.inner.audio := by
  unfold pushVideo
  split
  · exact ⟨fun _ h => .inl h, fun _ h => h⟩
  · refine ⟨fun f hf => ?_, fun c hc => ?_⟩
    · simpa using (RingInner.evict_suffix ..).1.subset hf
    · simpa using (RingInner.evict_suffix ..).2.subset hc

theorem MediaRing.mem_pushAudio {ring : MediaRing} {chunk : AudioChunk} :
    (∀ c ∈ (ring.pushAudio chunk).inner.audio, c ∈ ring.inner.audio ∨ c = chunk) ∧
      ∀ f ∈ (ring.pushAudio chunk).inner.video, f ∈ ring.inner.video := by
  unfold pushAudio
  split
  · exact ⟨fun _ h => .inl h, fun _ h => h⟩
  · refine ⟨fun c hc => ?_, fun f hf => ?_⟩
    · simpa using (RingInner.evict_suffix ..).2.subset hc
    · simpa using (RingInner.evict_suffix ..).1.subset hf

namespace ShowsOnly

variable {frames frames' : List SentFrame} {sounds sounds' : Bytes → Prop} {a a' : Agent W}

theorem of_same (h : ShowsOnly frames sounds a) (hsame : SameMedia a a') : ShowsOnly frames sounds a' where
  holding := hsame.jpeg ▸ h.holding
  latest := hsame.latest ▸ h.latest
  video := hsame.history ▸ h.video
  audio := hsame.history ▸ h.audio

/-- What was shown stays shown when the sender goes on. -/
theorem mono (h : ShowsOnly frames sounds a) (hframes : ∀ s ∈ frames, s ∈ frames')
    (hsounds : ∀ chunk, sounds chunk → sounds' chunk) : ShowsOnly frames' sounds' a where
  holding sequence entry hl := by
    obtain ⟨s, hs, hof⟩ := h.holding sequence entry hl
    exact ⟨s, hframes s hs, hof⟩
  latest frame hf := by
    obtain ⟨s, hs, heq⟩ := h.latest frame hf
    exact ⟨s, hframes s hs, heq⟩
  video frame hf := by
    obtain ⟨s, hs, heq⟩ := h.video frame hf
    exact ⟨s, hframes s hs, heq⟩
  audio chunk hc := hsounds _ (h.audio chunk hc)

/-- **One more fragment of the sender.** -/
theorem feed {env : Env} {f : MediaFragment} (h : ShowsOnly frames sounds a)
    (hd : Distinct frames) (hn : ∀ s ∈ frames, s.Numberable) (hf : Fragment frames sounds f) :
    ShowsOnly frames sounds (a.feed env f) := by
  rcases hf with ⟨s, hs, i, hi, rfl⟩ | ⟨htype, hsound⟩
  · have hholding := h.holding.push hd hs (hn s hs) hi
    have hreturned : ∀ jpeg, (a.jpeg.push (s.fragment i)).1 = some jpeg → jpeg = s.jpeg :=
      fun jpeg => h.holding.returned hd hs (hn s hs) hi
    unfold Agent.feed
    rw [if_neg (by exact (by decide : mediaJpeg ≠ mediaAudio))]
    cases hr : a.jpeg.push (s.fragment i) with
    | mk frame r =>
        rw [hr] at hholding hreturned
        cases frame with
        | none => exact ⟨hholding, h.latest, h.video, h.audio⟩
        | some jpeg =>
            obtain rfl := hreturned jpeg rfl
            refine ⟨hholding, ?_, fun frame hframe => ?_, fun chunk hchunk => ?_⟩
            · rintro frame ⟨⟩
              exact ⟨s, hs, rfl⟩
            · rcases MediaRing.mem_pushVideo.1 frame hframe with hframe | rfl
              · exact h.video frame hframe
              · exact ⟨s, hs, rfl⟩
            · exact h.audio chunk (MediaRing.mem_pushVideo.2 chunk hchunk)
  · unfold Agent.feed
    rw [if_pos htype]
    refine ⟨h.holding, h.latest, fun frame hframe => ?_, fun chunk hchunk => ?_⟩
    · exact h.video frame (MediaRing.mem_pushAudio.2 frame hframe)
    · rcases MediaRing.mem_pushAudio.1 chunk hchunk with hchunk | rfl
      · exact h.audio chunk hchunk
      · exact hsound

end ShowsOnly

/-! ## What a handler can bring there -/

section

variable (P : MediaFragment → Prop)

/-- The media of a datagram's message. -/
def BearsOnly (raw : Bytes) : Prop := ∀ f, ReadsMedia raw f → P f

def WirePc.Bears : WirePc → Prop
  | received _ raw => BearsOnly P raw
  | outboundCheck _ m => ∀ f, m.media = some f → P f
  | accept _ m _ => ∀ f, m.media = some f → P f
  | feed f => P f
  | _ => True

/-- The media that a handler of the receive loop can still bring to the buffers. -/
def HouseTask.Bears : HouseTask → Prop
  | agent (.wire pc) => pc.Bears P
  | datagram _ payload pc =>
      (∀ raw ∈ splitCoalesced payload, BearsOnly P raw) ∧
        match pc with
        | .messages rest => ∀ raw ∈ rest, BearsOnly P raw
        | .onWire pc rest => pc.Bears P ∧ ∀ raw ∈ rest, BearsOnly P raw
        | _ => True
  | _ => True

end

section

variable {P Q : MediaFragment → Prop}

theorem WirePc.Bears.mono {pc : WirePc} (h : pc.Bears P) (hPQ : ∀ f, P f → Q f) :
    pc.Bears Q := by
  cases pc with
  | received => exact fun f hf => hPQ f (h f hf)
  | outboundCheck | accept => exact fun f hf => hPQ f (h f hf)
  | feed f => exact hPQ f h
  | _ => trivial

theorem HouseTask.Bears.mono {t : HouseTask} (h : t.Bears P) (hPQ : ∀ f, P f → Q f) :
    t.Bears Q := by
  have hraw {raws : List Bytes} (hr : ∀ raw ∈ raws, BearsOnly P raw) :
      ∀ raw ∈ raws, BearsOnly Q raw := fun raw hmem f hf => hPQ f (hr raw hmem f hf)
  cases t with
  | agent t =>
      cases t with
      | wire pc => exact WirePc.Bears.mono h hPQ
      | _ => trivial
  | datagram sender payload pc =>
      obtain ⟨hpayload, hpc⟩ := h
      refine ⟨hraw hpayload, ?_⟩
      cases pc with
      | messages => exact hraw hpc
      | onWire => exact ⟨hpc.1.mono hPQ, hraw hpc.2⟩
      | _ => trivial
  | _ => trivial

theorem WirePc.bears_media {m : Message} (h : ∀ f, m.media = some f → P f) :
    (WirePc.media m).Bears P := by
  unfold WirePc.media
  split
  · next hm => exact h _ hm
  · trivial

theorem WirePc.bears_route {monitoring : Bool} {side : Side} {m : Message}
    (h : ∀ f, m.media = some f → P f) : (WirePc.route monitoring side m).Bears P := by
  unfold WirePc.route
  split
  · split
    · exact bears_media h
    · split <;> trivial
  · exact h

theorem WirePc.bears_routeCall {calling : Bool} {side : Side} {m : Message}
    (h : ∀ f, m.media = some f → P f) : (WirePc.routeCall calling side m).Bears P := by
  unfold WirePc.routeCall
  split
  · split
    · trivial
    · split
      · exact bears_media h
      · split <;> trivial
  · split
    · trivial
    · split
      · trivial
      · split
        · trivial
        · exact h

theorem WirePc.bears_session {side : Side} {m : Message} {e : Endpoints} {peers : Peers}
    (h : ∀ f, m.media = some f → P f) : (WirePc.session side m e peers).Bears P := by
  unfold WirePc.session
  split
  · split <;> trivial
  · split
    · trivial
    · split
      · trivial
      · split
        · trivial
        · split
          · exact bears_media h
          · trivial

variable [Wire W] {env : Env} {a a' : Agent W} {pc pc' : WirePc}

theorem wireStep_bears (hs : wireStep env a pc = some (a', pc')) (h : pc.Bears P) :
    pc'.Bears P := by
  cases pc with
  | received side raw =>
      unfold wireStep at hs
      dsimp only at hs
      split at hs
      · cases hs; trivial
      · next m hp =>
          have hm : ∀ f, m.media = some f → P f := fun f hf => h f ⟨m, hp, hf⟩
          split at hs
          · split at hs <;> cases hs <;> trivial
          · cases hs; exact WirePc.bears_route hm
  | outboundCheck => cases hs; exact WirePc.bears_routeCall h
  | accept =>
      unfold wireStep at hs
      dsimp only at hs
      split at hs
      · cases hs; trivial
      · cases hs; exact WirePc.bears_session h
  | bootstrapReply | ringReply | feed | stopMonitor | outboundAnswered | wakeElevator | callEnd
    | publish => cases hs; trivial
  | bootstrap | outboundHangup | ringStart | padAnswer | padUnlock | hangup =>
      unfold wireStep at hs
      dsimp only at hs
      split at hs <;> cases hs <;> trivial
  | done => cases hs

/-- The receive loop changes the media buffers by feeding them, and in no other way. -/
theorem wireStep_media (hs : wireStep env a pc = some (a', pc')) :
    SameMedia a a' ∨ ∃ f, pc = .feed f ∧ a' = a.feed env f := by
  cases pc with
  | feed f =>
      cases hs
      exact .inr ⟨f, rfl, rfl⟩
  | stopMonitor =>
      left
      cases hs
      unfold Agent.stopMonitorNow
      split <;> exact ⟨rfl, rfl, rfl⟩
  | outboundAnswered =>
      left
      cases hs
      unfold Agent.outboundAnswered
      split
      · exact .refl a
      · split <;> exact ⟨rfl, rfl, rfl⟩
  | outboundHangup =>
      left
      unfold wireStep Agent.takeCallSession at hs
      dsimp only at hs
      cases hc : a.callSession <;> rw [hc] at hs <;> cases hs <;> exact ⟨rfl, rfl, rfl⟩
  | bootstrapReply | ringReply | wakeElevator | callEnd | publish | outboundCheck =>
      cases hs
      exact .inl ⟨rfl, rfl, rfl⟩
  | received =>
      left
      unfold wireStep at hs
      dsimp only at hs
      repeat' split at hs
      all_goals cases hs; exact .refl _
  | bootstrap | ringStart | padAnswer | padUnlock | hangup =>
      left
      unfold wireStep at hs
      dsimp only at hs
      split at hs <;> cases hs <;> exact ⟨rfl, rfl, rfl⟩
  | accept =>
      left
      unfold wireStep Agent.acceptEndpoints at hs
      dsimp only at hs
      split at hs <;> next heq =>
        obtain ⟨-, rfl⟩ := Prod.mk.inj heq
        cases hs
        exact ⟨rfl, rfl, rfl⟩
  | done => cases hs

end

section

variable [Wire W] {env : HouseEnv} {h h' : Household W} {t t' : HouseTask}
  {P : MediaFragment → Prop}

theorem notify_media (a : Agent W) (env : Env) (action : CallAction) (peers : Peers) :
    SameMedia a (a.notify env action peers) := by
  cases action <;> exact ⟨rfl, rfl, rfl⟩

/-- A step of any handler changes the media buffers by feeding them. -/
theorem house_media (hs : HouseStep env h t h' t') : SameMedia h.agent h'.agent ∨
    ∃ f, t.wirePc = some (.feed f) ∧ h'.agent = h.agent.feed env.toEnv f := by
  cases hs with
  | wire ht _ hw =>
      rcases wireStep_media hw with hsame | ⟨f, rfl, rfl⟩
      · exact .inl hsame
      · exact .inr ⟨f, ht, rfl⟩
  | command hs =>
      left
      cases hs with
      | notify => exact notify_media ..
      | _ => exact ⟨rfl, rfl, rfl⟩
  | stop =>
      left
      unfold Household.withAgent Agent.stopMonitorNow
      split <;> exact ⟨rfl, rfl, rfl⟩
  | monitor hs =>
      left
      cases hs with
      | replace =>
          unfold Household.withAgent Agent.stopMonitorNow
          split <;> exact ⟨rfl, rfl, rfl⟩
      | _ => exact ⟨rfl, rfl, rfl⟩
  | hangup hs =>
      left
      cases hs with
      | take =>
          unfold Household.withAgent Agent.takeCallSession
          split <;> exact ⟨rfl, rfl, rfl⟩
      | _ => exact ⟨rfl, rfl, rfl⟩
  | elevator hs | dial hs | talk hs | video hs | keepalive hs | datagram hs =>
      left
      cases hs <;> exact ⟨rfl, rfl, rfl⟩

/-- A request that has just come bears no media. -/
theorem HouseTask.bears_of_mayStart {tasks : List HouseTask}
    (h : t.mayStart .pad tasks = true) (hno : ∀ sender payload pc, t ≠ .datagram sender payload pc) :
    t.Bears P := by
  cases t with
  | agent t =>
      cases t with
      | wire =>
          have hmode := (Bool.and_eq_true_iff.mp (Bool.and_eq_true_iff.mp h).1).2
          cases hmode
      | _ => trivial
  | datagram sender payload pc => exact absurd rfl (hno sender payload pc)
  | _ => trivial

/-- A step brings no other media along. -/
theorem HouseTask.Bears.step (ht : t.Bears P) (hs : t.step env h = some (h', t')) :
    t'.Bears P := by
  cases t with
  | agent t =>
      obtain ⟨⟨a, u⟩, hu, he⟩ := Option.map_eq_some_iff.mp hs
      obtain ⟨-, rfl⟩ := Prod.mk.inj he
      cases t with
      | command action commandId pc =>
          obtain ⟨pc', rfl, -⟩ := step_command hu
          trivial
      | elevator commandId room pc =>
          obtain ⟨pc', rfl, -⟩ := step_elevator hu
          trivial
      | wire pc =>
          obtain ⟨r, hr, he⟩ := Option.map_eq_some_iff.mp hu
          obtain ⟨-, rfl⟩ := Prod.mk.inj he
          exact wireStep_bears hr ht
  | datagram sender payload pc =>
      obtain ⟨⟨q, pc'⟩, hr, he⟩ := Option.map_eq_some_iff.mp hs
      obtain ⟨-, rfl⟩ := Prod.mk.inj he
      obtain ⟨hpayload, hpc⟩ := ht
      refine ⟨hpayload, ?_⟩
      rcases datagramStep_cases hr with hd | ⟨wpc, a, wpc', rest, rfl, rfl, hw, -⟩
      · cases hd with
        | received hpc' =>
            rcases hpc' with ⟨ip, -, rfl⟩ | ⟨-, rfl⟩
            · trivial
            · exact hpayload
        | learnRoom | noAddress | noMessage => trivial
        | learnDoor => exact hpayload
        | message =>
            exact ⟨hpc _ List.mem_cons_self, fun raw hraw => hpc raw (List.mem_cons_of_mem _ hraw)⟩
        | handled => exact hpc.2
      · exact ⟨wireStep_bears hw hpc.1, hpc.2⟩
  | startMonitor | stopMonitor | dial | hangupCall | talk | talkVideo | keepalive =>
      obtain ⟨r, -, he⟩ := Option.map_eq_some_iff.mp hs
      obtain ⟨-, rfl⟩ := Prod.mk.inj he
      trivial

/-- The handler's next fragment is one that it bears. -/
theorem HouseTask.Bears.feed {f : MediaFragment} (ht : t.Bears P)
    (hpc : t.wirePc = some (.feed f)) : P f := by
  unfold wirePc at hpc
  split at hpc
  · obtain rfl := Option.some.inj hpc
    exact ht
  · obtain rfl := Option.some.inj hpc
    exact ht.2.1
  · cases hpc

end

end Michoi
