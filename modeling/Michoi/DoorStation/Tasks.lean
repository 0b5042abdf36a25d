/-
  The software door station with all that runs on it: rings, hangups at the console,
  commands, and the media loops that rings spawn.

  As in `Task`, a program counter says where a thread stands, and a step is one atomic piece
  of the source: a region under the `call` lock, an access to the `streaming` flag, an event
  push, a callback. A ring that spawns a media loop goes on as that loop.

  Left out: the frames and the audio that a loop sends, and the sink of the visitor's voice.
-/
import Michoi.DoorStation
import Michoi.Lib.Pool

namespace Michoi

open Lib

/-- What `ring` reads of `DoorStationConfig`. -/
structure DoorStationConfig where
  doorId : String
  roomId : String

/-- What the threads read from outside. -/
structure StationEnv extends Env where
  /-- `now_ms()` for the number of a session. -/
  sessionMs : Nat := 0

/-- Where `ring` stands. -/
inductive RingPc where
  | transition
  | readSession
  | push (session : String)
  | swap
  | spawn
  | done
  deriving DecidableEq, Repr

/-- Where `hangup_local` stands. -/
inductive HangupLocalPc where
  | transition
  | clear (active : Bool)
  | readSession
  | push (session : String)
  | callback
  | done
  deriving DecidableEq, Repr

/-- Where `command` stands. -/
inductive StationCommandPc where
  | lookup
  | readSession
  | transition (session : String)
  | push (notice : Notice)
  | callback (notice : Notice)
  | clear
  | store (result : CommandResult)
  | done (result : CommandResult)
  deriving DecidableEq, Repr

/-- Where a media loop stands. -/
inductive LoopPc where
  | check
  | wait
  | stopped
  deriving DecidableEq, Repr

inductive StationTask where
  | ring (pc : RingPc)
  | hangupLocal (reason : String) (pc : HangupLocalPc)
  | command (action : CallAction) (commandId : String) (pc : StationCommandPc)
  | mediaLoop (pc : LoopPc)
  deriving DecidableEq, Repr

/-- The event ends the call. -/
def EventKind.ends : EventKind → Bool
  | .callEnded .. => true
  | _ => false

namespace DoorStation

def setStreaming (d : DoorStation) (streaming : Bool) : DoorStation := { d with streaming }

def publish (d : DoorStation) (env : StationEnv) (event : EventKind) : DoorStation :=
  { d with events := d.events.push env.eventMs event }

/-- The first locked region of `ring`, from `Idle`. -/
def startCall (d : DoorStation) (env : StationEnv) : DoorStation :=
  { d with call := ⟨d.call.machine.startCall (max env.sessionMs 1), some env.sinceMs⟩ }

/-- The locked region of `hangup_local`. -/
def hangUp (d : DoorStation) (env : StationEnv) : DoorStation :=
  { d with call := ⟨d.call.machine.hangup, some env.sinceMs⟩ }

/-- One step of `ring`; a loop that it spawns is what it goes on as. -/
def ringStep (config : DoorStationConfig) (env : StationEnv) (d : DoorStation) :
    RingPc → Option (DoorStation × StationTask)
  | .transition =>
      if d.call.machine.state.phase ≠ .idle then some (d, .ring .done)
      else some (d.startCall env, .ring .readSession)
  | .readSession => some (d, .ring (.push d.sessionString))
  | .push session =>
      some (d.publish env (.callStarted session config.doorId config.roomId), .ring .swap)
  | .swap =>
      some (d.setStreaming true, .ring (if d.streaming then .done else .spawn))
  | .spawn => some (d, .mediaLoop .check)
  | .done => none

/-- One step of `hangup_local`. -/
def hangupLocalStep (env : StationEnv) (d : DoorStation) (reason : String) :
    HangupLocalPc → Option (DoorStation × HangupLocalPc)
  | .transition => some (d.hangUp env, .clear (decide (d.call.machine.state.phase ≠ .idle)))
  | .clear active => some (d.setStreaming false, if active then .readSession else .done)
  | .readSession => some (d, .push d.sessionString)
  | .push session => some (d.publish env (.callEnded session reason), .callback)
  | .callback => some (d.runCallback "hangup" d.callbacks.onHangup, .done)
  | .done => none

/-- One step of `command`. -/
def commandStep (env : StationEnv) (d : DoorStation) (action : CallAction) (commandId : String) :
    StationCommandPc → Option (DoorStation × StationCommandPc)
  | .lookup =>
      match d.commands.get commandId with
      | some replayed => some (d, .done replayed)
      | none => some (d, .readSession)
  | .readSession => some (d, .transition d.sessionString)
  | .transition session =>
      match d.call.command env.toEnv d.callbacks action session with
      | (.ok (some notice), call) => some ({ d with call }, .push notice)
      | (.ok none, call) => some ({ d with call }, .store (.accepted commandId))
      | (.error error, call) => some ({ d with call }, .store (.rejected commandId error))
  | .push notice => some (d.publish env notice.event, .callback notice)
  | .callback notice =>
      some (d.runCallback notice.kind notice.callback,
        if notice.event.ends then .clear else .store (.accepted commandId))
  | .clear => some (d.setStreaming false, .store (.accepted commandId))
  | .store result => some (d.store result, .done result)
  | .done _ => none

/-- One step of `media_loop`. -/
def loopStep (d : DoorStation) : LoopPc → Option LoopPc
  | .check => some (if d.streaming then .wait else .stopped)
  | .wait => some .check
  | .stopped => none

end DoorStation

namespace StationTask

/-- One step of a thread. -/
def step (config : DoorStationConfig) (env : StationEnv) (d : DoorStation) :
    StationTask → Option (DoorStation × StationTask)
  | ring pc => d.ringStep config env pc
  | hangupLocal reason pc =>
      (d.hangupLocalStep env reason pc).map fun r => (r.1, hangupLocal reason r.2)
  | command action commandId pc =>
      (d.commandStep env action commandId pc).map fun r => (r.1, command action commandId r.2)
  | mediaLoop pc => (d.loopStep pc).map fun pc => (d, mediaLoop pc)

/-- The operation has just been called. -/
def fresh : StationTask → Bool
  | ring .transition => true
  | hangupLocal _ .transition => true
  | command _ _ .lookup => true
  | _ => false

/-- An operation has been called and has not returned. -/
def inProgress : StationTask → Bool
  | ring .done => false
  | hangupLocal _ .done => false
  | command _ _ (.done _) => false
  | mediaLoop _ => false
  | _ => true

/-- A media loop that was spawned and has not stopped. -/
def looping : StationTask → Bool
  | mediaLoop .stopped => false
  | mediaLoop _ => true
  | _ => false

end StationTask

/-- The door station with all its threads. Operations may be called at any time. -/
def stationProgram (config : DoorStationConfig) :
    Program DoorStation StationTask StationEnv Empty where
  mayStart _ t := t.fresh
  step := StationTask.step config
  outside := nofun

abbrev StationPool := Pool DoorStation StationTask

abbrev StationMove := Move StationTask StationEnv Empty

/-- `DoorStation::from_capture`: no call, no loop. -/
def DoorStation.opened (callbacks : Callbacks) (cooldown : Nat) : DoorStation where
  callbacks := callbacks
  call := ⟨.withPolicy cooldown false, none⟩
  events := .new 256
  commands := .new 256
  streaming := false
  hooks := []

/-! ## A command alone -/

/-- **A command that nothing interrupts** does what `DoorStation::command` says. -/
theorem DoorStation.command_alone (config : DoorStationConfig) (env : StationEnv)
    (d : DoorStation) (action : CallAction) (commandId : String) :
    Alone (stationProgram config) env d (.command action commandId .lookup)
      (d.command env.toEnv action commandId).2
      (.command action commandId (.done (d.command env.toEnv action commandId).1)) := by
  cases hcached : d.commands.get commandId with
  | some replayed =>
      have hcommand : d.command env.toEnv action commandId = (replayed, d) := by
        simp [DoorStation.command, hcached]
      rw [hcommand]
      refine .step ?_ .refl
      simp [stationProgram, StationTask.step, commandStep, hcached]
  | none =>
      have hlookup : (stationProgram config).step env d (.command action commandId .lookup) =
          some (d, .command action commandId .readSession) := by
        simp [stationProgram, StationTask.step, commandStep, hcached]
      refine .step hlookup (.step rfl ?_)
      rcases hregion : d.call.command env.toEnv d.callbacks action d.sessionString with
        ⟨error | notice, call⟩
      · have hcommand : d.command env.toEnv action commandId =
            (.rejected commandId error, { d with call }.store (.rejected commandId error)) := by
          simp [DoorStation.command, hcached, hregion]
        rw [hcommand]
        have hstep : (stationProgram config).step env d
            (.command action commandId (.transition d.sessionString)) = some ({ d with call },
              .command action commandId (.store (.rejected commandId error))) := by
          simp [stationProgram, StationTask.step, commandStep, hregion]
        exact .step hstep (.step rfl .refl)
      · have hcommand : d.command env.toEnv action commandId =
            (.accepted commandId,
              ({ d with call }.announce env.toEnv notice).store (.accepted commandId)) := by
          simp [DoorStation.command, hcached, hregion]
        rw [hcommand]
        cases notice with
        | none =>
            have hstep : (stationProgram config).step env d
                (.command action commandId (.transition d.sessionString)) =
                some ({ d with call },
                  .command action commandId (.store (.accepted commandId))) := by
              simp [stationProgram, StationTask.step, commandStep, hregion]
            exact .step hstep (.step rfl .refl)
        | some notice =>
            have hstep : (stationProgram config).step env d
                (.command action commandId (.transition d.sessionString)) =
                some ({ d with call }, .command action commandId (.push notice)) := by
              simp [stationProgram, StationTask.step, commandStep, hregion]
            refine .step hstep (.step rfl ?_)
            obtain ⟨event, kind, callback⟩ := notice
            cases event with
            | callEnded => exact .step rfl (.step rfl (.step rfl .refl))
            | _ => exact .step rfl (.step rfl .refl)

end Michoi
