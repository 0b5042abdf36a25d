/-
  What the locked region of `execute` does to the call, said once: an admitted command is
  one operation of the call machine (`command_of_admits`), any other leaves the call alone
  (`command_of_not_admits`).
-/
import Michoi.Agent
import Michoi.State.Ownership

namespace Michoi

/-- The machine operation behind a command. -/
def CallAction.op (env : Env) : CallAction → Op
  | claim => .remoteAnswer
  | unlock => .unlock env.instant
  | hangup => .hangup

namespace Call

/-- The call after an admitted command. -/
def after (c : Call) (env : Env) (action : CallAction) : Call where
  machine := ((action.op env).step c.machine).2
  sinceMs := if action = .unlock then c.sinceMs else some env.sinceMs
  nextSession := c.nextSession

variable {c : Call} {env : Env} {action : CallAction}

theorem command_of_admits (h : c.admits env action) (session : String) (e : Endpoints) :
    c.command env action session e = (packed action session e, c.after env action) := by
  cases action with
  | claim =>
      have hok : (c.machine.remoteAnswer).1 = .ok () := h
      unfold command after
      dsimp only [CallAction.op, Op.step]
      split
      · next heq => rw [heq] at hok; cases hok
      · next heq => rw [heq]; rfl
  | unlock =>
      have hok : (c.machine.unlock env.instant).1 = .ok () := h
      unfold command after
      dsimp only [CallAction.op, Op.step]
      split
      · next heq => rw [heq] at hok; cases hok
      · next heq => rw [heq]; rfl
  | hangup =>
      unfold command
      exact if_neg h

theorem command_of_not_admits (h : ¬ c.admits env action) (session : String) (e : Endpoints) :
    ∃ error, c.command env action session e = (.error error, c) := by
  cases action with
  | claim =>
      have hm : (c.machine.remoteAnswer).2 = c.machine :=
        CallMachine.step_of_not_accepts c.machine .remoteAnswer h
      unfold command
      dsimp only
      split
      · next error machine heq =>
          rw [heq] at hm
          exact ⟨_, by rw [show machine = c.machine from hm]⟩
      · next heq => exact absurd (congrArg Prod.fst heq) h
  | unlock =>
      have hm : (c.machine.unlock env.instant).2 = c.machine :=
        CallMachine.step_of_not_accepts c.machine (.unlock env.instant) h
      unfold command
      dsimp only
      split
      · next error machine heq =>
          rw [heq] at hm
          exact ⟨_, by rw [show machine = c.machine from hm]⟩
      · next heq => exact absurd (congrArg Prod.fst heq) h
  | hangup =>
      unfold command
      exact ⟨.noCall, if_pos (Decidable.not_not.mp h)⟩

theorem admits_claim : c.admits env .claim ↔
    c.machine.state.phase = .ringing ∧ c.machine.state.owner ≠ .pad :=
  CallMachine.accepts_remoteAnswer c.machine

theorem after_claim (h : c.admits env .claim) :
    (c.after env .claim).machine =
      { c.machine with state := { c.machine.state with owner := .remote, phase := .connected } } :=
  CallMachine.remoteAnswer_of_accepts c.machine h

theorem after_unlock (h : c.admits env .unlock) :
    (c.after env .unlock).machine = { c.machine with
      lastUnlock := some env.instant
      state := { c.machine.state with unlocks := c.machine.state.unlocks + 1 } } :=
  CallMachine.unlock_of_accepts c.machine env.instant h

end Call

/-! ## What is to be sent -/

namespace Agent

variable {W : Type} {a : Agent W} {env : Env} {action : CallAction} {peers : Peers}
  {session : String} {e : Endpoints}

theorem build_of_no_door (h : peers.endpoints = none) :
    a.build env action peers session = (.error .noCall, a) := by
  unfold build
  rw [h]

theorem build_of_not_admits (h : ¬ a.call.admits env action) :
    ∃ error, a.build env action peers session = (.error error, a) := by
  cases he : peers.endpoints with
  | none => exact ⟨.noCall, build_of_no_door he⟩
  | some e =>
      obtain ⟨error, hc⟩ := Call.command_of_not_admits h session e
      refine ⟨error, ?_⟩
      unfold build
      simp only [he, hc]
      rfl

theorem build_of_not_packed {error : ProtocolError} (he : peers.endpoints = some e)
    (h : a.call.admits env action) (hp : sessionControl action.opcode e = .error error) :
    a.build env action peers session =
      (.error .agentOffline, a.withCall (a.call.after env action)) := by
  unfold build
  simp only [he, Call.command_of_admits h, packed, hp]

theorem build_of_packed {packet : Bytes} (he : peers.endpoints = some e)
    (h : a.call.admits env action) (hp : sessionControl action.opcode e = .ok packet) :
    a.build env action peers session =
      (.ok (action.event session, packet), a.withCall (a.call.after env action)) := by
  unfold build
  simp only [he, Call.command_of_admits h, packed, hp]

end Agent

end Michoi
