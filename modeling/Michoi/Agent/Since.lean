/-
  The time the phase was entered (`since_ms`).

  Each handler writes the clock next to the machine, not in it. `Stamped` is what a handler
  owes: the clock is written exactly where the phase changes. All do so but the hangup on
  the wire, which writes it for an idle call too (`moved_stamped`, `moved_of_idleHangup`), and a
  door repeats its hangup. `since_exact_iff` says in which runs the time is right throughout.
-/
import Michoi.Agent.Command
import Michoi.Agent.Takeover
import Michoi.Lib.System

namespace Michoi

open Lib

/-! ## Sequential runs -/

/-- A step of a sequential run. -/
inductive AgentInput where
  | wire (env : Env) (side : Side) (raw : Bytes)
  | command (env : Env) (action : CallAction) (commandId : String)

/-- What the step reads from outside. -/
def AgentInput.env : AgentInput → Env
  | wire env _ _ => env
  | command env _ _ => env

variable {W : Type}

namespace Agent

/-- The phase that `state()` shows. -/
def phase (a : Agent W) : CallPhase := a.call.machine.state.phase

/-- `state().since_ms`. -/
def sinceMs (a : Agent W) : Option Nat := a.call.sinceMs

variable [Wire W]

def take (a : Agent W) : AgentInput → Agent W
  | .wire env side raw => a.onWire env side raw
  | .command env action commandId => (a.execute env action commandId).2

/-- The clock as the last step that changed the phase read it, after `entered`. -/
def enteredMs : Agent W → Option Nat → List AgentInput → Option Nat
  | _, entered, [] => entered
  | a, entered, i :: inputs =>
      (a.take i).enteredMs (if (a.take i).phase = a.phase then entered else some i.env.sinceMs)
        inputs

/-- The time is right after each step of the run. -/
def SinceExact (a : Agent W) (entered : Option Nat) (inputs : List AgentInput) : Prop :=
  ∀ before, before <+: inputs → (before.foldl take a).sinceMs = a.enteredMs entered before

omit [Wire W] in
/-- The message is a hangup that reaches an idle call. -/
def IdleHangup (a : Agent W) : AgentInput → Prop
  | .wire _ _ raw =>
      a.phase = .idle ∧ a.monitor = none ∧ a.callSession = none ∧ AcceptedHangup a raw
  | .command _ _ _ => False

omit [Wire W] in
/-- A hangup that reaches an idle call does so at the very time the phase was entered. -/
def HangsUpInTime (a : Agent W) (i : AgentInput) : Prop :=
  a.IdleHangup i → a.sinceMs = some i.env.sinceMs

end Agent

/-- The system of sequential runs. -/
def sequentialAgent (W : Type) [Wire W] : System (Agent W) AgentInput := .ofFun Agent.take

/-! ## What a handler writes -/

/-- The clock is written where the phase changes, and nowhere else. -/
def Stamped (env : Env) (c c' : Call) : Prop :=
  c'.sinceMs =
    if c'.machine.state.phase = c.machine.state.phase then c.sinceMs else some env.sinceMs

section

variable {a : Agent W} {env : Env} {c : Call}

theorem Stamped.same (env : Env) (c : Call) : Stamped env c c := (if_pos rfl).symm

theorem started_stamped (c : Call) (env : Env) : Stamped env c (c.started env).2 := by
  unfold Call.started
  split
  · exact .same env c
  · next hidle =>
      have hne : CallPhase.ringing ≠ c.machine.state.phase := by
        rw [not_not.mp hidle]
        decide
      exact (if_neg hne).symm

theorem padAnswered_stamped (c : Call) (env : Env) : Stamped env c (c.padAnswered env).2 := by
  unfold Call.padAnswered
  by_cases hok : c.machine.accepts .padAnswer
  · have hres : c.machine.padAnswer.1 = .ok () := hok
    have hphase : c.machine.padAnswer.2.state.phase = .connected := by
      rw [show c.machine.padAnswer.2 = _ from CallMachine.padAnswer_of_accepts _ hok]
    have hne : CallPhase.connected ≠ c.machine.state.phase := by
      rw [((CallMachine.accepts_padAnswer _).mp hok).1]
      decide
    dsimp only
    split
    · next machine heq =>
        rw [heq] at hphase
        exact (if_neg (by rw [hphase]; exact hne)).symm
    · next heq =>
        rw [heq] at hres
        cases hres
  · have hsame : c.machine.padAnswer.2 = c.machine := CallMachine.step_of_not_accepts _ _ hok
    dsimp only
    split
    · next heq => exact absurd (congrArg Prod.fst heq) hok
    · next machine heq =>
        rw [heq] at hsame
        obtain rfl : machine = c.machine := hsame
        exact .same env c

theorem wireHungUp_stamped (h : c.machine.state.phase ≠ .idle) (env : Env) :
    Stamped env c (c.wireHungUp env).2 := (if_neg h.symm).symm

theorem command_stamped (c : Call) (env : Env) (action : CallAction) (session : String)
    (e : Endpoints) : Stamped env c (c.command env action session e).2 := by
  by_cases h : c.admits env action
  · rw [Call.command_of_admits h]
    cases action with
    | claim =>
        have hne : CallPhase.connected ≠ c.machine.state.phase := by
          rw [(Call.admits_claim.mp h).1]
          decide
        unfold Stamped
        rw [Call.after_claim h]
        exact (if_neg hne).symm
    | unlock =>
        unfold Stamped
        rw [Call.after_unlock h]
        exact (if_pos rfl).symm
    | hangup => exact (if_neg (Ne.symm h)).symm
  · obtain ⟨error, heq⟩ := Call.command_of_not_admits h session e
    rw [heq]
    exact .same env c

/-! ## One step -/

theorem onMonitorMessage_call (a : Agent W) (env : Env) (m : Message) :
    (a.onMonitorMessage env m).call = a.call := by
  unfold Agent.onMonitorMessage
  split
  · split
    · exact feed_call ..
    · rfl
  · split
    · unfold Agent.stopMonitorNow
      split <;> rfl
    · rfl

theorem onOutboundMessage_call (a : Agent W) (env : Env) (m : Message) :
    (a.onOutboundMessage env m).call = a.call := by
  unfold Agent.onOutboundMessage
  split
  · unfold Agent.outboundAnswered
    split
    · rfl
    · split <;> rfl
  · split
    · split
      · exact feed_call ..
      · rfl
    · split
      · unfold Agent.hangupCallNow Agent.takeCallSession
        cases a.callSession <;> rfl
      · rfl

theorem onPadAnswer_call (a : Agent W) (env : Env) :
    (a.onPadAnswer env).call = (a.call.padAnswered env).2 := by
  unfold Agent.onPadAnswer
  split
  · next heq => rw [heq]; rfl
  · next heq => rw [heq]; rfl

theorem onCallStarted_call (a : Agent W) (env : Env) (e : Endpoints) :
    (a.onCallStarted env e).call = (a.call.started env).2 := by
  unfold Agent.onCallStarted
  split
  · next heq => rw [heq]; rfl
  · next heq => rw [heq]; rfl

variable [Wire W]

theorem deliver_call (a : Agent W) (env : Env) (action : CallAction) (commandId : String)
    (peers : Peers) (event : EventKind) (packet : Bytes) :
    (a.deliver env action commandId peers event packet).2.call = a.call := by
  unfold Agent.deliver
  split
  · next heq =>
      rw [← (Prod.mk.inj heq).2]
      cases action <;> rfl
  · next heq =>
      rw [← (Prod.mk.inj heq).2]
      rfl

theorem execute_stamped (a : Agent W) (env : Env) (action : CallAction) (commandId : String) :
    Stamped env a.call (a.execute env action commandId).2.call := by
  unfold Agent.execute
  split
  · exact .same env a.call
  · show Stamped env a.call (a.run env action commandId).2.call
    have hbuild : Stamped env a.call
        (a.build env action a.peers a.sessionString).2.call := by
      unfold Agent.build
      split
      · exact .same env a.call
      · exact command_stamped ..
    unfold Agent.run
    generalize a.build env action a.peers a.sessionString = built at hbuild ⊢
    obtain ⟨result, built⟩ := built
    cases result with
    | ok packed =>
        have hcall := deliver_call built env action commandId a.peers packed.1 packed.2
        show Stamped env a.call
          (built.deliver env action commandId a.peers packed.1 packed.2).2.call
        rw [hcall]
        exact hbuild
    | error error => exact hbuild

theorem onWireHangup_call (a : Agent W) (env : Env) (peers : Peers) :
    (a.onWireHangup env peers).call = (a.call.wireHungUp env).2 := by
  unfold Agent.onWireHangup
  split
  · next heq => rw [heq]; rfl
  · next heq => rw [heq]; rfl

/-- Every message but the hangup of an idle call. -/
theorem onWire_stamped {side : Side} {raw : Bytes} {a' : Agent W} (hw : OnWire a env side raw a')
    (h : ¬ a.IdleHangup (.wire env side raw)) : Stamped env a.call a'.call := by
  cases hw with
  | dropped | elevator | refused => exact .same env a.call
  | bootstrap =>
      have hcall : (a.onBootstrap env side).call = a.call := by
        unfold Agent.onBootstrap
        split
        · rfl
        · split <;> rfl
      rw [hcall]
      exact .same env a.call
  | monitored => exact (onMonitorMessage_call a env _).symm ▸ .same env a.call
  | outbound => exact (onOutboundMessage_call a env _).symm ▸ .same env a.call
  | @accepted m e hp hf he ha hm hc =>
      have hs := onSession_cases (a.withPeers (a.peers.withStations e)) env side m e
        (a.peers.withStations e)
      unfold Agent.onAccepted
      generalize (a.withPeers (a.peers.withStations e)).onSession env side m e _ = a' at hs ⊢
      cases hs with
      | ring =>
          rw [onCallStarted_call, ringReplied_call]
          exact started_stamped a.call env
      | padAnswer =>
          rw [onPadAnswer_call]
          exact padAnswered_stamped a.call env
      | padUnlock =>
          rw [onPadUnlock_call]
          exact .same env a.call
      | hangup hop =>
          rw [onWireHangup_call]
          exact wireHungUp_stamped
            (fun hidle => h ⟨hidle, hm, hc, m, e, hp, hf, hop, he, ha⟩) env
      | media =>
          rw [feed_call]
          exact .same env a.call
      | ignored => exact .same env a.call

theorem take_stamped {i : AgentInput} (h : ¬ a.IdleHangup i) :
    Stamped i.env a.call (a.take i).call := by
  cases i with
  | wire env side raw => exact onWire_stamped (a.onWire_cases env side raw) h
  | command env action commandId => exact execute_stamped a env action commandId

/-- The hangup of an idle call writes the clock, and the phase stays. -/
theorem take_of_idleHangup {i : AgentInput} (h : a.IdleHangup i) :
    (a.take i).sinceMs = some i.env.sinceMs ∧ (a.take i).phase = a.phase := by
  cases i with
  | command => exact h.elim
  | wire env side raw =>
      obtain ⟨hidle, hm, hc, m, e, hp, hf, hop, he, ha⟩ := h
      have htake : (a.onWire env side raw).call = (a.call.wireHungUp env).2 := by
        rw [a.onWire_of_session env side hm hc hp hf he, if_pos ha]
        unfold Agent.onAccepted Agent.onSession
        rw [hop, if_neg (by simp [opHangup, opRequest]), if_neg (by simp [opHangup, opAnswer]),
          if_neg (by simp [opHangup, opUnlock]), if_pos rfl, onWireHangup_call]
        rfl
      unfold Agent.sinceMs Agent.phase
      show (a.onWire env side raw).call.sinceMs = _ ∧
        (a.onWire env side raw).call.machine.state.phase = _
      rw [htake]
      exact ⟨rfl, hidle.symm⟩

/-- A time that is right stays right exactly where no hangup of an idle call is late. -/
theorem take_exact_iff {entered : Option Nat} (hright : a.sinceMs = entered) (i : AgentInput) :
    (a.take i).sinceMs =
        (if (a.take i).phase = a.phase then entered else some i.env.sinceMs) ↔
      a.HangsUpInTime i := by
  by_cases h : a.IdleHangup i
  · obtain ⟨hsince, hphase⟩ := take_of_idleHangup h
    rw [hsince, if_pos hphase, ← hright]
    exact ⟨fun heq _ => heq.symm, fun heq => (heq h).symm⟩
  · rw [← hright]
    exact iff_of_true (take_stamped h) fun hidle => absurd hidle h

/-! ## The run -/

/-- A run of one step more. -/
theorem sinceExact_cons {entered : Option Nat} {i : AgentInput} {inputs : List AgentInput} :
    a.SinceExact entered (i :: inputs) ↔ a.sinceMs = entered ∧ (a.take i).SinceExact
      (if (a.take i).phase = a.phase then entered else some i.env.sinceMs) inputs := by
  constructor
  · intro h
    refine ⟨h [] (List.nil_prefix), fun before hbefore => ?_⟩
    exact h (i :: before) (List.cons_prefix_cons.mpr ⟨rfl, hbefore⟩)
  · rintro ⟨hnow, hlater⟩ before hbefore
    cases before with
    | nil => exact hnow
    | cons j before =>
        obtain ⟨rfl, hrest⟩ := List.cons_prefix_cons.mp hbefore
        exact hlater before hrest

theorem sinceExact_iff_meets {entered : Option Nat} (hright : a.sinceMs = entered)
    (inputs : List AgentInput) :
    a.SinceExact entered inputs ↔ (sequentialAgent W).Meets Agent.HangsUpInTime a inputs := by
  induction inputs generalizing a entered with
  | nil =>
      refine iff_of_true (fun before hbefore => ?_) trivial
      rw [List.prefix_nil.mp hbefore]
      exact hright
  | cons i inputs ih =>
      have hmeets : (sequentialAgent W).Meets Agent.HangsUpInTime a (i :: inputs) ↔
          a.HangsUpInTime i ∧
            (sequentialAgent W).Meets Agent.HangsUpInTime (a.take i) inputs :=
        and_congr_right fun _ => ⟨fun h => h _ rfl, fun h t ht => Option.some.inj ht ▸ h⟩
      rw [sinceExact_cons, hmeets, and_iff_right hright]
      constructor
      · intro h
        have hstep := h [] List.nil_prefix
        exact ⟨(take_exact_iff hright i).mp hstep, (ih hstep).mp h⟩
      · rintro ⟨hok, hrest⟩
        exact (ih ((take_exact_iff hright i).mpr hok)).mpr hrest

/-- **When `since_ms` is the time the phase was entered.** In a sequential run of a new Agent,
    at every moment, exactly if every accepted hangup that reaches it on the wire while the call
    is idle reads the very time that it shows. -/
theorem since_exact_iff (wire : W) (peers : Peers) (cooldown : Nat) (strict : Bool)
    (history : MediaRing) (elevatorDoor : Option String) (inputs : List AgentInput) :
    (Agent.new wire peers cooldown strict history elevatorDoor).SinceExact none inputs ↔
      (sequentialAgent W).Meets Agent.HangsUpInTime
        (Agent.new wire peers cooldown strict history elevatorDoor) inputs :=
  sinceExact_iff_meets rfl inputs

/-- A door that ends its call hangs up three times. -/
def repeatedHangup : List AgentInput :=
  let hangup := (sessionControl opHangup .captured).toOption.getD []
  [.wire { sinceMs := 1 } .door ((sessionControl opRequest .captured).toOption.getD []),
    .wire { sinceMs := 2 } .door hangup, .wire { sinceMs := 3 } .door hangup,
    .wire { sinceMs := 4 } .door hangup]

/-- The second and the third hangup move the time on, though the call is idle by then. -/
theorem repeated_hangup_moves_since : ¬ tapAgent.SinceExact none repeatedHangup := by
  intro h
  exact absurd (h repeatedHangup (List.prefix_refl _)) (by decide +kernel)

end

end Michoi
