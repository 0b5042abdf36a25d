/-
  The software door station (`door_station.rs`), as far as commands go: the call they
  change, the event log, the idempotency cache, the callbacks they start and the flag that
  keeps the media loop going.

  Left out: the sink of the visitor's voice, which a hangup flushes.
-/
import Michoi.Agent

namespace Michoi

/-- `Callbacks`: shell commands invoked on call events. -/
structure Callbacks where
  onAnswer : Option String
  onUnlock : Option String
  onHangup : Option String
  deriving DecidableEq, Repr

/-- `door_station.rs`'s `CallInner`. -/
structure StationCall where
  machine : CallMachine
  sinceMs : Option Nat
  deriving DecidableEq, Repr

/-- What an admitted command hands on: the event, its name for the callback, and the
    callback's command. -/
structure Notice where
  event : EventKind
  kind : String
  callback : Option String
  deriving DecidableEq, Repr

/-- The locked region of `DoorStation::command`. -/
def StationCall.command (c : StationCall) (env : Env) (callbacks : Callbacks)
    (action : CallAction) (session : String) :
    Except CallError (Option Notice) × StationCall :=
  match action with
  | .claim =>
      match c.machine.remoteAnswer with
      | (.ok (), machine) =>
          (.ok (some ⟨.remoteAnswered session, "answer", callbacks.onAnswer⟩),
            ⟨machine, some env.sinceMs⟩)
      | (.error error, machine) => (.error (.from error), { c with machine })
  | .unlock =>
      match c.machine.unlock env.instant with
      | (.ok (), machine) =>
          (.ok (some ⟨.unlocked session .remote, "unlock", callbacks.onUnlock⟩),
            { c with machine })
      | (.error error, machine) => (.error (.from error), { c with machine })
  | .hangup =>
      if c.machine.state.phase = .idle then (.error .noCall, c)
      else
        (.ok (some ⟨.callEnded session "remote_hangup", "hangup", callbacks.onHangup⟩),
          ⟨c.machine.hangup, some env.sinceMs⟩)

/-- A callback that was started: the shell command with `DOOR_EVENT` and `DOOR_SESSION`. -/
structure Hook where
  command : String
  event : String
  session : String
  deriving DecidableEq, Repr

structure DoorStation where
  callbacks : Callbacks
  call : StationCall
  events : EventLog
  commands : CommandCache
  streaming : Bool
  hooks : List Hook

namespace DoorStation

/-- `DoorStation::session_string`. -/
def sessionString (d : DoorStation) : String := toString d.call.machine.state.sessionId

/-- `DoorStation::run_callback`. -/
def runCallback (d : DoorStation) (event : String) : Option String → DoorStation
  | none => d
  | some command => { d with hooks := d.hooks ++ [⟨command, event, d.sessionString⟩] }

/-- What `command` does with the notice of an admitted command. -/
def announce (d : DoorStation) (env : Env) : Option Notice → DoorStation
  | none => d
  | some ⟨event, kind, callback⟩ =>
      let ended := match event with
        | .callEnded .. => true
        | _ => false
      let d := { d with events := d.events.push env.eventMs event }.runCallback kind callback
      if ended then { d with streaming := false } else d

/-- `self.commands.store(&result)`. -/
def store (d : DoorStation) (result : CommandResult) : DoorStation :=
  { d with commands := d.commands.store result }

/-- `DoorStation::command`. -/
def command (d : DoorStation) (env : Env) (action : CallAction) (commandId : String) :
    CommandResult × DoorStation :=
  match d.commands.get commandId with
  | some replayed => (replayed, d)
  | none =>
      match d.call.command env d.callbacks action d.sessionString with
      | (.ok notice, call) =>
          let result := CommandResult.accepted commandId
          (result, ({ d with call }.announce env notice).store result)
      | (.error error, call) =>
          let result := CommandResult.rejected commandId error
          (result, { d with call }.store result)

end DoorStation

end Michoi
