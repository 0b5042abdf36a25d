/-
  The silenced Pad, under every interleaving of commands and messages in tap mode.

  The table is installed and flushed outside the machine's lock. Two steps can leave it in
  place with nobody to flush it: a claim that reaches `on_remote_claim` when its call is
  already over, and a remote hangup that ends the call and then fails to be built or sent,
  so that `on_call_end` is never called. `hangup_overtakes_claim` is a run with the first.

  `pad_silenced_only_while_held`: in every run without these two steps, whenever no handler
  is in progress and the Pad is silenced, the remote owner holds the call. The invariant
  (`SilenceInv`) says who is to lift the silence: the call's end to come, or a handler on
  its way to `on_call_end`.
-/
import Michoi.Task.Frame

namespace Michoi

open Lib

/-- The call is connected and a remote backend owns it. -/
def Call.heldRemotely (c : Call) : Prop :=
  c.machine.state.phase = .connected ∧ c.machine.state.owner = .remote

instance (c : Call) : Decidable c.heldRemotely := inferInstanceAs (Decidable (_ ∧ _))

/-- The handler has ended the call and is on its way to `on_call_end`. -/
def Task.clearing : Task → Bool
  | command .hangup _ (.send _ _ _) => true
  | command .hangup _ (.notify _ _) => true
  | wire (.callEnd _ _) => true
  | _ => false

theorem Task.not_finished_of_clearing {t : Task} (h : t.clearing = true) :
    t.finished = false := by
  cases t with
  | command _ _ pc =>
      cases pc with
      | done => unfold clearing at h; split at h <;> simp_all
      | _ => rfl
  | elevator => cases h
  | wire pc =>
      cases pc with
      | done => cases h
      | _ => rfl

/-- Another handler is on its way to `on_call_end`. -/
def clearedByOther (p : AgentPool TapWire) (i : Nat) : Prop :=
  OtherThread (fun t => t.clearing = true) p.threads i

instance (p : AgentPool TapWire) (i : Nat) : Decidable (clearedByOther p i) :=
  inferInstanceAs (Decidable (OtherThread _ _ _))

/-- The next step of the handler at place `i` leaves no silence behind. -/
def silenceKeptBy (p : AgentPool TapWire) (i : Nat) (env : Env) : Task → Bool
  -- The claim silences the Pad only while its call, or another one, is still held.
  | .command .claim _ (.notify _ _) => p.shared.call.heldRemotely ∨ clearedByOther p i
  -- A remote hangup that ends the call gets as far as `on_call_end`.
  | .command .hangup _ (.transition peers _) =>
      p.shared.call.machine.state.phase = .idle ∨
        (peers.endpoints.all fun e => (sessionControl opHangup e).toBool) = true ∨
          p.shared.wire.silenced = false ∨ clearedByOther p i
  | .command .hangup _ (.send peers _ packet) =>
      (Wire.sendAsPad p.shared.wire env.send packet peers).1 = .ok () ∨
        p.shared.wire.silenced = false ∨ p.shared.call.heldRemotely ∨ clearedByOther p i
  | _ => true

/-- No step of the run leaves a silence behind that nobody is to lift. -/
def SilenceKept (p : AgentPool TapWire) : AgentMove → Prop
  | .step i env => ∀ t ∈ p.threads[i]?, silenceKeptBy p i env t = true
  | _ => True

instance (p : AgentPool TapWire) : ∀ m, Decidable (SilenceKept p m)
  | .step _ _ => inferInstanceAs (Decidable (∀ t ∈ _, _))
  | .start _ => isTrue trivial
  | .outside _ => isTrue trivial

/-- While the Pad is silenced, the remote owner holds the call or a handler is on its way
    to lift the silence. -/
def SilenceInv (p : AgentPool TapWire) : Prop :=
  p.shared.wire.silenced = true →
    p.shared.call.heldRemotely ∨ ∃ t ∈ p.threads, t.clearing = true

/-! ## One step of a handler -/

/-- What `SilenceInv` says of a pool with the handler at `i` singled out. -/
def LiftedBy (a : Agent TapWire) (t : Task) (others : Prop) : Prop :=
  a.wire.silenced = true → a.call.heldRemotely ∨ t.clearing = true ∨ others

section

variable {p : AgentPool TapWire} {i : Nat} {env : Env} {a' : Agent TapWire} {t t' : Task}

theorem SilenceInv.liftedBy (h : SilenceInv p) (ht : p.threads[i]? = some t) :
    LiftedBy p.shared t (clearedByOther p i) := by
  intro hs
  rcases h hs with hheld | hclear
  · exact Or.inl hheld
  · exact Or.inr (exists_cases hclear ht)

theorem LiftedBy.silenceInv (ht : p.threads[i]? = some t)
    (h : LiftedBy a' t' (clearedByOther p i)) : SilenceInv ⟨a', p.threads.set i t'⟩ := by
  intro hs
  rcases h hs with hheld | hclear | hother
  · exact Or.inl hheld
  · exact Or.inr ⟨t', List.mem_of_getElem? (getElem?_set_self ht), hclear⟩
  · exact Or.inr hother.exists_set

/-- A step that neither silences the Pad nor ends the call nor gives up on lifting. -/
theorem LiftedBy.mono {a : Agent TapWire} {others : Prop} (h : LiftedBy a t others)
    (hs : a'.wire.silenced = a.wire.silenced)
    (hheld : a.call.heldRemotely → a'.call.heldRemotely)
    (hclear : t.clearing = true → t'.clearing = true) : LiftedBy a' t' others := by
  intro hs'
  rcases h (hs ▸ hs') with h | h | h
  · exact Or.inl (hheld h)
  · exact Or.inr (Or.inl (hclear h))
  · exact Or.inr (Or.inr h)

theorem LiftedBy.of_unsilenced {others : Prop} (h : a'.wire.silenced = false) :
    LiftedBy a' t' others := by
  intro hs
  rw [h] at hs
  cases hs

theorem LiftedBy.of_held {others : Prop} (h : a'.call.heldRemotely) : LiftedBy a' t' others :=
  fun _ => Or.inl h

/-- Claiming makes the remote owner hold the call. -/
theorem held_after_claim {c : Call} (h : c.admits env .claim) :
    (c.after env .claim).heldRemotely := by
  unfold Call.heldRemotely
  rw [Call.after_claim h]
  exact ⟨rfl, rfl⟩

theorem held_after_unlock {c : Call} (h : c.admits env .unlock) (hheld : c.heldRemotely) :
    (c.after env .unlock).heldRemotely := by
  unfold Call.heldRemotely
  rw [Call.after_unlock h]
  exact hheld

theorem not_held_of_idle {c : Call} (h : c.machine.state.phase = .idle) : ¬ c.heldRemotely := by
  rintro ⟨hp, -⟩
  rw [h] at hp
  cases hp

theorem sendAsPad_silenced (w : TapWire) (outcome : Outcome) (packet : Bytes) (peers : Peers) :
    (Wire.sendAsPad w outcome packet peers).2.silenced = w.silenced :=
  congrArg Option.isSome (TapWire.sendAsPad_table w outcome packet peers)

theorem command_lifted {action : CallAction} {commandId : String} {pc pc' : CommandPc}
    (hstep : CommandStep env p.shared action commandId pc a' pc')
    (hok : silenceKeptBy p i env (.command action commandId pc) = true)
    (h : LiftedBy p.shared (.command action commandId pc) (clearedByOther p i)) :
    LiftedBy a' (.command action commandId pc') (clearedByOther p i) := by
  cases hstep with
  | replay | miss | readPeers | readSession | refuse | publish | store =>
      exact h.mono rfl id (by cases action <;> nofun)
  | unpacked he hadm hp =>
      cases action with
      | claim => exact .of_held (held_after_claim hadm)
      | unlock => exact h.mono rfl (held_after_unlock hadm) nofun
      | hangup =>
          rcases of_decide_eq_true hok with hidle | hpack | hs | hother
          · exact absurd hidle hadm
          · rw [he] at hpack
            change (sessionControl opHangup _).toBool = true at hpack
            rw [show sessionControl opHangup _ = _ from hp] at hpack
            cases hpack
          · exact .of_unsilenced hs
          · exact fun _ => Or.inr (Or.inr hother)
  | built he hadm hp =>
      cases action with
      | claim => exact .of_held (held_after_claim hadm)
      | unlock => exact h.mono rfl (held_after_unlock hadm) nofun
      | hangup => exact fun _ => Or.inr (Or.inl rfl)
  | sent =>
      refine h.mono (sendAsPad_silenced ..) id fun hc => ?_
      cases action with
      | claim | unlock => cases hc
      | hangup => rfl
  | @unsent peers event packet hfail =>
      have hsame := sendAsPad_silenced p.shared.wire env.send packet peers
      cases action with
      | claim | unlock => exact h.mono hsame id nofun
      | hangup =>
          rcases of_decide_eq_true hok with hsent | hs | hheld | hother
          · exact absurd hsent hfail
          · exact .of_unsilenced (hsame.trans hs)
          · exact .of_held hheld
          · exact fun _ => Or.inr (Or.inr hother)
  | notify =>
      cases action with
      | claim =>
          rcases of_decide_eq_true hok with hheld | hother
          · exact .of_held hheld
          · exact fun _ => Or.inr (Or.inr hother)
      | unlock => exact h.mono rfl id nofun
      | hangup => exact .of_unsilenced rfl

theorem elevator_lifted {commandId : String} {room : Option String} {pc pc' : ElevatorPc}
    {others : Prop} (hstep : ElevatorStep env p.shared commandId room pc a' pc')
    (h : LiftedBy p.shared (.elevator commandId room pc) others) :
    LiftedBy a' (.elevator commandId room pc') others := by
  cases hstep <;> exact h.mono rfl id nofun

theorem wire_lifted {pc pc' : WirePc} {others : Prop}
    (hstep : WireStep env p.shared pc a' pc') (h : LiftedBy p.shared (.wire pc) others) :
    LiftedBy a' (.wire pc') others := by
  cases hstep with
  | quiet hpc _ hpc' hq =>
      have hnot : (Task.wire pc).clearing = false := by
        cases pc <;> first | rfl | cases hpc
      refine h.mono ?_ (fun hheld => by rwa [hq.call]) fun hc => ?_
      · rcases hq.wire with hw | ⟨_, _, hw⟩
        · rw [hw]
        · rw [hw]
          rfl
      · rw [hnot] at hc
        cases hc
  | start hidle => exact h.mono rfl (fun hheld => absurd hheld (not_held_of_idle hidle)) nofun
  | answer hacc =>
      refine h.mono rfl (fun hheld => ?_) nofun
      have hring := ((CallMachine.accepts_padAnswer _).mp hacc).1
      rw [hheld.1] at hring
      cases hring
  | hangup => exact fun _ => Or.inr (Or.inl rfl)
  | hangupIdle hidle =>
      exact h.mono rfl (fun hheld => absurd hheld (not_held_of_idle hidle)) nofun
  | callEnd => exact .of_unsilenced rfl
  | publish => exact h.mono rfl id nofun

theorem step_lifted (hstep : t.step env p.shared = some (a', t'))
    (hok : silenceKeptBy p i env t = true) (h : LiftedBy p.shared t (clearedByOther p i)) :
    LiftedBy a' t' (clearedByOther p i) := by
  cases t with
  | command action commandId pc =>
      obtain ⟨pc', rfl, hs⟩ := step_command hstep
      exact command_lifted hs hok h
  | elevator commandId room pc =>
      obtain ⟨pc', rfl, hs⟩ := step_elevator hstep
      exact elevator_lifted hs h
  | wire pc =>
      obtain ⟨pc', rfl, hs⟩ := step_wire hstep
      exact wire_lifted hs h

end

/-! ## Whole runs -/

theorem act_silenced (a : Agent TapWire) (b : Background) :
    (b.act a).wire.silenced = a.wire.silenced := by
  cases b with
  | sendAsPad env payload => exact sendAsPad_silenced a.wire env.send payload a.peers
  | noteSender | setRoomIpIfUnset | learnAddress | pinMac | setMonitor | setCallSession
  | publish => rfl

theorem silenceInv_next {p q : AgentPool TapWire} {m : AgentMove} (h : SilenceInv p)
    (hok : SilenceKept p m) (hnext : (agentProgram TapWire).system.next p m = some q) :
    SilenceInv q := by
  rcases Program.next_cases hnext with
    ⟨l, rfl, -, rfl⟩ | ⟨i, env, t, a', t', rfl, ht, hstep, rfl⟩ | ⟨b, rfl, rfl⟩
  · intro hs
    rcases h hs with hheld | ⟨t, ht, hc⟩
    · exact Or.inl hheld
    · exact Or.inr ⟨t, List.mem_append_left _ ht, hc⟩
  · exact LiftedBy.silenceInv ht (step_lifted hstep (hok t ht) (h.liftedBy ht))
  · intro hs
    rw [show (agentProgram TapWire).outside b p.shared = b.act p.shared from rfl] at hs ⊢
    rw [act_silenced] at hs
    rw [act_call]
    exact h hs

/-- **The Pad is silenced only while the remote owner holds the call.** In every run from an
    Agent whose Pad is not silenced, in which no claim silences the Pad after its call
    ended and no remote hangup loses its `on_call_end`: whenever no handler is in progress
    and the Pad is silenced, the call is connected and owned remotely. -/
theorem pad_silenced_only_while_held (a : Agent TapWire) (moves : List AgentMove)
    (q : AgentPool TapWire) (hopen : a.wire.silenced = false)
    (hrun : (agentProgram TapWire).system.run (idlePool a) moves = some q)
    (hkept : (agentProgram TapWire).system.Meets SilenceKept (idlePool a) moves)
    (hquiet : Quiescent q) (hsilenced : q.shared.wire.silenced = true) :
    q.shared.call.heldRemotely := by
  have hinit : SilenceInv (idlePool a) := by
    intro hs
    rw [show (idlePool a).shared.wire.silenced = false from hopen] at hs
    cases hs
  have hinv : SilenceInv q :=
    System.run_induction_meets (fun _ _ _ => silenceInv_next) hinit hkept hrun
  rcases hinv hsilenced with hheld | ⟨t, ht, hc⟩
  · exact hheld
  · have hf := hquiet t ht
    rw [Task.not_finished_of_clearing hc] at hf
    cases hf

/-! ## The race -/

/-- A claim that runs alone silences the Pad while the remote owner holds the call. -/
theorem pad_silenced_by_claim :
    ∃ q ∈ (agentProgram TapWire).system.run (idlePool tapAgent)
        (callAlone 0 (fromDoor opRequest) 6 ++ callAlone 1 (.command .claim "c1" .lookup) 8),
      q.shared.wire.silenced = true ∧ q.shared.call.heldRemotely := by
  have hend : ∃ q ∈ (agentProgram TapWire).system.run (idlePool tapAgent)
      (callAlone 0 (fromDoor opRequest) 6 ++ callAlone 1 (.command .claim "c1" .lookup) 8),
      Quiescent q ∧ q.shared.wire.silenced = true := by decide +kernel
  obtain ⟨q, hq, hquiet, hsilenced⟩ := hend
  exact ⟨q, hq, hsilenced,
    pad_silenced_only_while_held _ _ q rfl hq (by decide +kernel) hquiet hsilenced⟩

/-- A claim is sent, the door hangs up before `on_remote_claim`, and the table is installed
    after `on_call_end`: no handler is in progress, no call is active, and the Pad stays
    silenced. -/
theorem hangup_overtakes_claim :
    ∃ q ∈ (agentProgram TapWire).system.run (idlePool tapAgent)
        (callAlone 0 (fromDoor opRequest) 6 ++ callAlone 1 (.command .claim "c1" .lookup) 5 ++
          callAlone 2 (fromDoor opHangup) 6 ++ List.replicate 3 (.step 1 { })),
      Quiescent q ∧ q.shared.wire.silenced = true ∧
      q.shared.call.machine.state.phase = .idle ∧ ¬ q.shared.call.heldRemotely := by
  decide +kernel

end Michoi
