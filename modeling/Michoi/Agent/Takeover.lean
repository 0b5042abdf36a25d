/-
  What the physical Pad can still do to a call that a remote backend holds.

  A message from the Pad's side changes nothing while the machine is Connected/Remote
  (`fromPad_harmless_or_hangup`), with one exception: `on_wire` handles a hangup whichever
  side it comes from, so an accepted hangup of the silenced Pad ends the remote call.
  `pad_cannot_touch_iff` is the exact statement.
-/
import Michoi.Agent.Calls
import Michoi.Agent.Isolation

namespace Michoi

variable {W : Type} [Wire W] {a a' : Agent W} {env : Env} {raw : Bytes}

/-- A remote backend holds the call. -/
structure HeldRemotely (a : Agent W) : Prop where
  phase : a.call.machine.state.phase = .connected
  owner : a.call.machine.state.owner = .remote

/-- A hangup of this household's session, from a block that the identity check lets pass. -/
def AcceptedHangup (a : Agent W) (raw : Bytes) : Prop :=
  ∃ m e, Message.parse raw = .ok m ∧ m.family = familySession ∧ m.opcode = opHangup ∧
    m.endpoints = some e ∧ a.peers.Accepts e

/-- The Pad's message leaves the call to its owner: no change of the machine's phase, owner
    or session, no event, and no end of the call for the wire. -/
structure PadHarmless (a : Agent W) (env : Env) (raw : Bytes) : Prop where
  phase : (a.onWire env .pad raw).call.machine.state.phase = a.call.machine.state.phase
  owner : (a.onWire env .pad raw).call.machine.state.owner = a.call.machine.state.owner
  session : (a.onWire env .pad raw).call.machine.state.sessionId = a.call.machine.state.sessionId
  events : (a.onWire env .pad raw).events = a.events
  callEnd : ∀ peers, .onCallEnd peers ∉ a.wireCalls env .pad raw

omit [Wire W] in
theorem onPadAnswer_of_held (h : HeldRemotely a) : a.onPadAnswer env = a := by
  unfold Agent.onPadAnswer Call.padAnswered CallMachine.padAnswer
  rw [if_pos (by rw [h.phase]; decide)]
  rfl

omit [Wire W] in
theorem onPadUnlock_of_held (h : HeldRemotely a) : a.onPadUnlock env = a := by
  unfold Agent.onPadUnlock Call.padUnlocked
  rw [h.owner]
  rfl

/-- The Pad's message touches neither the call, nor the log, nor the wire. -/
structure Untouched (a a' : Agent W) : Prop where
  call : a'.call = a.call
  events : a'.events = a.events
  wire : a'.wire = a.wire

theorem fromPad_harmless_or_hangup (hm : a.monitor = none) (hc : a.callSession = none)
    (h : HeldRemotely a) (hw : OnWire a env .pad raw a') :
    Untouched a a' ∨ AcceptedHangup a raw := by
  cases hw with
  | dropped | bootstrap | elevator | refused => exact .inl ⟨rfl, rfl, rfl⟩
  | monitored _ _ hm' => rw [hm] at hm'; cases hm'
  | outbound _ _ _ hc' => rw [hc] at hc'; cases hc'
  | @accepted m e hp hf he ha =>
      have hheld : HeldRemotely (a.withPeers (a.peers.withStations e)) := ⟨h.phase, h.owner⟩
      have hs := onSession_cases (a.withPeers (a.peers.withStations e)) env .pad m e
        (a.peers.withStations e)
      unfold Agent.onAccepted
      generalize (a.withPeers (a.peers.withStations e)).onSession env .pad m e _ = a' at hs ⊢
      cases hs with
      | ring _ hs | media _ hs => cases hs
      | padAnswer => exact .inl (by rw [onPadAnswer_of_held hheld]; exact ⟨rfl, rfl, rfl⟩)
      | padUnlock => exact .inl (by rw [onPadUnlock_of_held hheld]; exact ⟨rfl, rfl, rfl⟩)
      | hangup hop => exact .inr ⟨m, e, hp, hf, hop, he, ha⟩
      | ignored => exact .inl ⟨rfl, rfl, rfl⟩

/-- An accepted hangup ends the call, from either side. -/
theorem onWire_of_accepted_hangup (hm : a.monitor = none) (hc : a.callSession = none)
    (side : Side) (h : AcceptedHangup a raw) :
    (a.onWire env side raw).call.machine.state.phase = .idle := by
  obtain ⟨m, e, hp, hf, hop, he, ha⟩ := h
  rw [a.onWire_of_session env side hm hc hp hf he, if_pos ha]
  unfold Agent.onAccepted Agent.onSession
  rw [hop, if_neg (by simp [opHangup, opRequest]), if_neg (by simp [opHangup, opAnswer]),
    if_neg (by simp [opHangup, opUnlock]), if_pos rfl, onWireHangup_machine]
  rfl

/-- **When the silenced Pad cannot touch a remotely owned call.** In every state in which a
    remote backend holds the call and the Agent has no session of its own, a message from
    the Pad's side leaves the call alone, exactly unless it is a hangup that the identity
    check accepts. -/
theorem pad_cannot_touch_iff (a : Agent W) (env : Env) (raw : Bytes) (hm : a.monitor = none)
    (hc : a.callSession = none) (h : HeldRemotely a) :
    PadHarmless a env raw ↔ ¬ AcceptedHangup a raw := by
  constructor
  · intro hharmless hhangup
    have hphase := hharmless.phase
    rw [onWire_of_accepted_hangup hm hc .pad hhangup, h.phase] at hphase
    cases hphase
  · intro hno
    have hplain : Untouched a (a.onWire env .pad raw) :=
      (fromPad_harmless_or_hangup hm hc h (a.onWire_cases env .pad raw)).resolve_right hno
    have hcalls : Untouched a.recorded (a.recorded.onWire env .pad raw) :=
      (fromPad_harmless_or_hangup (a := a.recorded) hm hc ⟨h.phase, h.owner⟩
        (a.recorded.onWire_cases env .pad raw)).resolve_right hno
    refine ⟨by rw [hplain.call], by rw [hplain.call], by rw [hplain.call], hplain.events, ?_⟩
    intro peers
    unfold Agent.wireCalls
    rw [hcalls.wire]
    exact List.not_mem_nil

/-- A `tap` mode Agent whose call a remote backend has claimed. -/
def claimedAgent : Agent TapWire :=
  ((tapAgent.onWire { } .door ((sessionControl opRequest .captured).toOption.getD [])).execute
    { } .claim "c1").2

/-- The answer and the unlock of the silenced Pad do nothing. -/
theorem pad_answer_is_harmless :
    PadHarmless claimedAgent { } ((sessionControl opAnswer .captured).toOption.getD []) := by
  refine (pad_cannot_touch_iff claimedAgent { } _ rfl rfl
    ⟨by decide +kernel, by decide +kernel⟩).mpr ?_
  rintro ⟨m, e, hp, -, hop, -⟩
  have hanswer : (Message.parse ((sessionControl opAnswer .captured).toOption.getD [])).map
      Message.opcode = .ok opAnswer := by decide +kernel
  rw [hp] at hanswer
  rw [show m.opcode = opAnswer from Except.ok.inj hanswer] at hop
  exact absurd hop (by decide)

/-- The hangup of the silenced Pad, which is captured before the bridge drops it, ends the
    remote call. -/
theorem pad_hangup_ends_remote_call :
    HeldRemotely claimedAgent ∧ claimedAgent.monitor = none ∧ claimedAgent.callSession = none ∧
      ¬ PadHarmless claimedAgent { } ((sessionControl opHangup .captured).toOption.getD []) :=
  ⟨⟨by decide +kernel, by decide +kernel⟩, rfl, rfl,
    fun h => absurd h.phase (by decide +kernel)⟩

end Michoi
