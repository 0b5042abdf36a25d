/-
  Whom the Agent listens to while it views a camera or calls another station.

  While a monitor or an outbound call is active, `on_wire` takes every session-like message
  before any identity check, and none of these branches looks at the endpoint block. What a
  stranger's message does there is decided by its opcode alone: `only_callee_heard_iff` says
  which messages leave the session, the event log and the media as they are.
-/
import Michoi.Agent.OnWire
import Michoi.Media.Absorb
import Michoi.Task.Frame

namespace Michoi

variable {W : Type}

/-- The block names the station neither by its id nor by its address. -/
structure Endpoints.Omits (e : Endpoints) (c : Station) : Prop where
  doorId : e.door.id ≠ c.id
  roomId : e.room.id ≠ c.id
  doorIp : e.door.ip ≠ c.ip
  roomIp : e.room.ip ≠ c.ip

/-- The Agent views the camera `c`, or has called the station `c`. -/
def Agent.ListensTo (a : Agent W) (c : Station) : Prop :=
  a.monitor.map MonitorHandle.camera = some c ∨ a.callSession.map CallHandle.callee = some c

/-- A message that a session with `c` should not hear. -/
structure Foreign (c : Station) (raw : Bytes) (m : Message) : Prop where
  parsed : Message.parse raw = .ok m
  omits : ∃ e, m.endpoints = some e ∧ e.Omits c

/-- Neither the media, nor the event log, nor the Agent's own session have changed. -/
structure Unheard (a a' : Agent W) : Prop where
  history : a'.history = a.history
  latest : a'.latest = a.latest
  jpeg : a.jpeg.1.Same a'.jpeg.1
  events : a'.events = a.events
  monitor : a'.monitor = a.monitor
  callSession : a'.callSession = a.callSession

theorem Unheard.refl (a : Agent W) : Unheard a a := ⟨rfl, rfl, .refl _, rfl, rfl, rfl⟩

/-- The ring takes a new item without a trace: it keeps no history, or the byte cap drops
    an item just like it. -/
def MediaRing.AbsorbsAudio (ring : MediaRing) (chunk : AudioChunk) : Prop :=
  ring.windowUs = 0 ∨ ring.CyclesAudio chunk

def MediaRing.AbsorbsVideo (ring : MediaRing) (frame : VideoFrame) : Prop :=
  ring.windowUs = 0 ∨ ring.CyclesVideo frame

/-- The media buffers take the fragment without a trace. -/
def Agent.Absorbs (a : Agent W) (env : Env) (f : MediaFragment) : Prop :=
  if f.mediaType = mediaAudio then a.history.AbsorbsAudio ⟨env.elapsedUs, f.data⟩
  else
    a.jpeg.1.Absorbs f ∧
      (JpegReassembler.usable f = true ∧ a.jpeg.1.Single f ∧
          JpegReassembler.framed f.data = true →
        a.latest = some ⟨env.elapsedUs, f.data⟩ ∧
          a.history.AbsorbsVideo ⟨env.elapsedUs, f.data⟩)

/-- What the branches of `on_wire` make of a stranger's message: a hangup ends the session,
    the first answer connects the call, and media go to the buffers. -/
structure Harmless (a : Agent W) (env : Env) (m : Message) : Prop where
  hangup : m.opcode ≠ opHangup
  answer : m.opcode = opAnswer → a.monitor = none →
    ∀ handle, a.callSession = some handle → handle.answered = true
  media : m.opcode = opMedia → ∀ f, m.media = some f → a.Absorbs env f

theorem EventLog.push_ne (log : EventLog) (atMs : Nat) (kind : EventKind) :
    log.push atMs kind ≠ log :=
  fun h => Nat.succ_ne_self _ (congrArg EventLog.nextSeq h)

section

variable {a : Agent W} {env : Env} {m : Message}

theorem feed_unheard_iff (f : MediaFragment) :
    Unheard a (a.feed env f) ↔ a.Absorbs env f := by
  unfold Agent.feed Agent.Absorbs
  split
  · unfold MediaRing.AbsorbsAudio
    rw [← MediaRing.pushAudio_eq_iff]
    exact ⟨Unheard.history, fun h => ⟨h, rfl, .refl _, rfl, rfl, rfl⟩⟩
  · have hpush := a.jpeg.push_eq f
    have hsame := JpegReassembler.push_same_iff a.jpeg.2 hpush
    cases hr : a.jpeg.push f with
    | mk frame r' =>
        rw [hr] at hpush hsame
        have hframe := fun h => JpegReassembler.push_frame_of_absorbs hpush (hsame.mp h)
        cases frame with
        | none =>
            constructor
            · intro h
              refine ⟨hsame.mp h.jpeg, fun hwhole => ?_⟩
              have hnone := hframe h.jpeg
              rw [if_pos hwhole] at hnone
              cases hnone
            · intro h
              exact ⟨rfl, rfl, hsame.mpr h.1, rfl, rfl, rfl⟩
        | some jpeg =>
            have hdata : a.jpeg.1.Same r'.1 → (JpegReassembler.usable f = true ∧
                a.jpeg.1.Single f ∧ JpegReassembler.framed f.data = true) ∧ jpeg = f.data := by
              intro h
              have hsome := hframe h
              split at hsome
              · next hwhole => exact ⟨hwhole, Option.some.inj hsome⟩
              · cases hsome
            unfold MediaRing.AbsorbsVideo
            rw [← MediaRing.pushVideo_eq_iff]
            constructor
            · intro h
              obtain ⟨-, rfl⟩ := hdata h.jpeg
              exact ⟨hsame.mp h.jpeg, fun _ => ⟨h.latest.symm, h.history⟩⟩
            · rintro ⟨habsorbs, hrest⟩
              obtain ⟨hwhole, rfl⟩ := hdata (hsame.mpr habsorbs)
              obtain ⟨hlatest, hhistory⟩ := hrest hwhole
              exact ⟨hhistory, hlatest.symm, hsame.mpr habsorbs, rfl, rfl, rfl⟩

/-- The media branch, which both kinds of session share. -/
theorem media_unheard_iff (m : Message) :
    Unheard a (match m.media with | some media => a.feed env media | none => a) ↔
      ∀ f, m.media = some f → a.Absorbs env f := by
  cases hm : m.media with
  | none => exact iff_of_true (.refl a) nofun
  | some f =>
      rw [feed_unheard_iff]
      exact ⟨fun h _ hf => Option.some.inj hf ▸ h, fun h => h f rfl⟩

theorem onMonitorMessage_unheard_iff (hm : a.monitor.isSome = true) :
    Unheard a (a.onMonitorMessage env m) ↔ Harmless a env m := by
  obtain ⟨handle, hh⟩ := Option.isSome_iff_exists.mp hm
  have hbusy : a.monitor ≠ none := by rw [hh]; exact Option.some_ne_none _
  unfold Agent.onMonitorMessage
  split
  · next hop =>
      refine (media_unheard_iff m).trans ?_
      constructor
      · intro h
        exact ⟨by rw [hop]; decide, fun _ hn => absurd hn hbusy, fun _ => h⟩
      · intro h
        exact h.media hop
  · next hmedia =>
      split
      · next hop =>
          refine iff_of_false (fun h => ?_) fun h => h.hangup hop
          have hgone := h.monitor
          unfold Agent.stopMonitorNow at hgone
          rw [hh] at hgone
          cases hgone
      · next hop =>
          exact iff_of_true (.refl a)
            ⟨hop, fun _ hn => absurd hn hbusy, fun hop => absurd hop hmedia⟩

theorem onOutboundMessage_unheard_iff (hm : a.monitor = none)
    (hc : a.callSession.isSome = true) :
    Unheard a (a.onOutboundMessage env m) ↔ Harmless a env m := by
  obtain ⟨handle, hh⟩ := Option.isSome_iff_exists.mp hc
  unfold Agent.onOutboundMessage
  split
  · next hop =>
      unfold Agent.outboundAnswered
      rw [hh]
      dsimp only
      split
      · next hanswered =>
          refine iff_of_true (.refl a) ⟨by rw [hop]; decide, fun _ _ h hsome => ?_, fun hop' => ?_⟩
          · obtain rfl := Option.some.inj (hh.symm.trans hsome)
            exact hanswered
          · rw [hop] at hop'
            exact absurd hop' (by decide)
      · next hanswered =>
          refine iff_of_false (fun h => ?_) fun h => hanswered (h.answer hop hm handle hh)
          exact EventLog.push_ne _ _ _ h.events
  · next hanswer =>
      split
      · next hop =>
          refine (media_unheard_iff m).trans ?_
          constructor
          · intro h
            exact ⟨by rw [hop]; decide, fun hop' => absurd hop' hanswer, fun _ => h⟩
          · intro h
            exact h.media hop
      · next hmedia =>
          split
          · next hop =>
              refine iff_of_false (fun h => ?_) fun h => h.hangup hop
              have hgone := h.callSession
              unfold Agent.hangupCallNow Agent.takeCallSession at hgone
              rw [hh] at hgone
              cases hgone
          · next hop =>
              exact iff_of_true (.refl a)
                ⟨hop, fun hop' => absurd hop' hanswer, fun hop' => absurd hop' hmedia⟩

end

variable [Wire W]

/-- **Whom the Agent listens to.** While a camera is viewed or a station is called, a message
    that names neither its id nor its address leaves the media, the event log and the
    session alone exactly when it is no hangup, not the call's first answer, and carries no
    media that the buffers take up. -/
theorem only_callee_heard_iff (a : Agent W) (c : Station) (hc : a.ListensTo c) (env : Env)
    (side : Side) (raw : Bytes) (m : Message) (hm : Foreign c raw m) :
    Unheard a (a.onWire env side raw) ↔ Harmless a env m := by
  obtain ⟨e, he, -⟩ := hm.omits
  rw [a.onWire_of_sessionLike env side hm.parsed (Message.isSessionLike_of_endpoints he)]
  split
  · next hmonitor => exact onMonitorMessage_unheard_iff hmonitor
  · next hmonitor =>
      have hnone : a.monitor = none := Option.not_isSome_iff_eq_none.mp hmonitor
      have hcall : a.callSession.isSome = true := by
        rcases hc with hc | hc
        · rw [hnone] at hc
          cases hc
        · exact Option.isSome_iff_exists.mpr (Option.map_eq_some_iff.mp hc |>.imp fun _ h => h.1)
      rw [if_pos hcall]
      exact onOutboundMessage_unheard_iff hnone hcall

/-- An Agent that views a camera. -/
def viewingAgent : Agent TapWire :=
  { tapAgent with monitor := some ⟨⟨"M00000000001", ⟨192, 168, 124, 3⟩⟩, 0⟩ }

/-- The session of another household on the same bridge. -/
def neighbours : Endpoints where
  door := ⟨"M00000000002", ⟨192, 168, 124, 4⟩⟩
  room := ⟨"S00000000009", ⟨192, 168, 124, 69⟩⟩

/-- A control message of the neighbours' session. -/
def neighbourControl (opcode : UInt32) : Bytes :=
  (sessionControl opcode neighbours).toOption.getD []

/-- What the neighbours' camera sends to their Pad. -/
def neighbourMonitor (opcode : UInt32) : Bytes :=
  packet familyMonitor opcode 80 (neighbours.pack.toOption.getD [])

theorem neighbourMonitor_foreign (opcode : UInt32)
    (h : (Message.parse (neighbourMonitor opcode)).map (fun m => (m.opcode, m.endpoints)) =
      .ok (opcode, some neighbours)) :
    ∃ m, Foreign ⟨"M00000000001", ⟨192, 168, 124, 3⟩⟩ (neighbourMonitor opcode) m ∧
      m.opcode = opcode := by
  cases hp : Message.parse (neighbourMonitor opcode) with
  | error => rw [hp] at h; cases h
  | ok m =>
      rw [hp] at h
      obtain ⟨hop, he⟩ := Prod.mk.inj (Except.ok.inj h)
      exact ⟨m, ⟨hp, _, he, by decide, by decide, by decide, by decide⟩, hop⟩

/-- The neighbours' answer is not heard. -/
theorem foreign_answer_unheard : Unheard viewingAgent
    (viewingAgent.onWire { } .door (neighbourMonitor opAnswer)) := by
  obtain ⟨m, hm, hop⟩ := neighbourMonitor_foreign opAnswer (by decide +kernel)
  refine (only_callee_heard_iff viewingAgent _ (.inl rfl) { } .door _ m hm).mpr
    ⟨by rw [hop]; decide, fun _ hnone => (nomatch hnone), fun hmedia => ?_⟩
  rw [hop] at hmedia
  exact absurd hmedia (by decide)

/-- The end of the neighbours' view ends ours: the receive loop of `tap` mode hands on every
    message of this family. -/
theorem foreign_hangup_heard : ∃ m,
    Foreign ⟨"M00000000001", ⟨192, 168, 124, 3⟩⟩ (neighbourMonitor opHangup) m ∧
      m.family = familyMonitor ∧ viewingAgent.ListensTo ⟨"M00000000001", ⟨192, 168, 124, 3⟩⟩ ∧
        ¬ Unheard viewingAgent
          (viewingAgent.onWire { } .door (neighbourMonitor opHangup)) := by
  obtain ⟨m, hm, -⟩ := neighbourMonitor_foreign opHangup (by decide +kernel)
  have hfamily : (Message.parse (neighbourMonitor opHangup)).map Message.family =
      .ok familyMonitor := by decide +kernel
  rw [hm.parsed] at hfamily
  refine ⟨m, hm, Except.ok.inj hfamily, .inl rfl, fun h => ?_⟩
  have hgone : (viewingAgent.onWire { } .door (neighbourMonitor opHangup)).monitor = none := by
    decide +kernel
  rw [h.monitor] at hgone
  cases hgone

end Michoi
