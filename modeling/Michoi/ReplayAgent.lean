/-
  The Agent that replays a capture (`replay_agent.rs`), as far as commands go: the call
  they change, the event log and the idempotency cache. The packet a command would send is
  encoded between the captured stations and dropped.

  Left out: the timeline that drives the call, and its media.
-/
import Michoi.Agent

namespace Michoi

/-- `replay_agent.rs`'s `CallInner`, without the names of the replayed stations. -/
structure ReplayCall where
  machine : CallMachine
  sinceMs : Option Nat
  deriving DecidableEq, Repr

/-- The locked region of `ReplayAgent::execute`: the event to push. -/
def ReplayCall.command (c : ReplayCall) (env : Env) (action : CallAction) (session : String) :
    Except CallError (Option EventKind) × ReplayCall :=
  match action with
  | .claim =>
      match c.machine.remoteAnswer with
      | (.ok (), machine) =>
          (.ok (some (.remoteAnswered session)), ⟨machine, some env.sinceMs⟩)
      | (.error error, machine) => (.error (.from error), { c with machine })
  | .unlock =>
      match c.machine.unlock env.instant with
      | (.ok (), machine) => (.ok (some (.unlocked session .remote)), { c with machine })
      | (.error error, machine) => (.error (.from error), { c with machine })
  | .hangup =>
      if c.machine.state.phase = .idle then (.error .noCall, c)
      else
        (.ok (some (.callEnded session "remote_hangup")),
          ⟨c.machine.hangup, some env.sinceMs⟩)

structure ReplayAgent where
  call : ReplayCall
  events : EventLog
  commands : CommandCache

namespace ReplayAgent

/-- `ReplayAgent::session_string`. -/
def sessionString (a : ReplayAgent) : String := toString a.call.machine.state.sessionId

/-- `execute` from its encoding to the end of its locked region. -/
def outcome (a : ReplayAgent) (env : Env) (action : CallAction) :
    Except CallError (Option EventKind) × ReplayAgent :=
  let encoded := (sessionControl action.opcode .captured).toBool
  let session := a.sessionString
  if !encoded then (.error .agentOffline, a)
  else
    let r := a.call.command env action session
    (r.1, { a with call := r.2 })

/-- `if let Some(event) = event { self.events.push(event) }`. -/
def publish (a : ReplayAgent) (env : Env) : Option EventKind → ReplayAgent
  | some event => { a with events := a.events.push env.eventMs event }
  | none => a

/-- `self.commands.store(&result)`. -/
def store (a : ReplayAgent) (result : CommandResult) : ReplayAgent :=
  { a with commands := a.commands.store result }

/-- `ReplayAgent::execute`. -/
def execute (a : ReplayAgent) (env : Env) (action : CallAction) (commandId : String) :
    CommandResult × ReplayAgent :=
  match a.commands.get commandId with
  | some replayed => (replayed, a)
  | none =>
      match a.outcome env action with
      | (.ok event, a) =>
          let result := CommandResult.accepted commandId
          (result, (a.publish env event).store result)
      | (.error error, a) =>
          let result := CommandResult.rejected commandId error
          (result, a.store result)

end ReplayAgent

end Michoi
