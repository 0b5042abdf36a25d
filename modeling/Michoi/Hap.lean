/-
  The HomeKit controller (`hap.rs`): a lock and a momentary switch, each with a task that polls
  what HomeKit has written and drives the Agent with commands of its own.

  The accessory is behind one lock, and each region under it is one step. HomeKit writes the
  two characteristics that it may write, the lock's target and the switch. A command of the
  controller is one more handler of the household, and its task waits until it has returned.

  Left out: the doorbell, pairing, the server and its storage, a characteristic that is missing
  or cannot be read (the accessory has them all, and none has a callback), and log lines.
-/
import Michoi.Household.Requests

namespace Michoi

open Lib

/-- `LOCK_SECURED`. -/
def lockSecured : UInt8 := 1

/-- `LOCK_UNSECURED`. -/
def lockUnsecured : UInt8 := 0

/-- The characteristics of `IntercomAccessory` that the two tasks use. -/
structure Accessory where
  lockCurrent : UInt8
  lockTarget : UInt8
  power : Bool
  deriving DecidableEq, Repr

/-- What the controller asks the Agent for. -/
inductive HapKind where
  | claim | unlock | elevator
  deriving DecidableEq, Repr

def HapKind.name : HapKind → String
  | claim => "claim"
  | unlock => "unlock"
  | elevator => "elevator"

/-- The handler that the Agent runs for it. -/
def HapKind.task (commandId : String) : HapKind → Task
  | claim => .command .claim commandId .lookup
  | unlock => .command .unlock commandId .lookup
  | elevator => .elevator commandId none .lookup

/-- The id that `next_id` makes of a number. -/
def hapId (kind : HapKind) (n : UInt32) : String := "hap-" ++ kind.name ++ "-" ++ toString n.toNat

/-- Where the task of the lock stands. -/
inductive LockPc where
  | poll (last : UInt8)
  | claim
  | claiming (place : Nat)
  | unlock
  | unlocking (place : Nat)
  | tell (ok : Bool)
  /-- The lock shows what came of it, for a while if it is open. -/
  | relock
  deriving DecidableEq, Repr

/-- Where the task of the switch stands. -/
inductive SwitchPc where
  | poll (last : Bool)
  | call
  | calling (place : Nat)
  | reset
  deriving DecidableEq, Repr

/-- The controller, and the household whose Agent it drives. -/
structure HomeKit (W : Type) where
  accessory : Accessory
  lock : LockPc
  switch : SwitchPc
  /-- `cmd_seq`. -/
  seq : UInt32
  house : HousePool W

namespace HomeKit

variable {W : Type}

/-- `serve`, when its tasks start. -/
def start (house : HousePool W) : HomeKit W where
  accessory := { lockCurrent := lockSecured, lockTarget := lockSecured, power := false }
  lock := .poll lockSecured
  switch := .poll false
  seq := 1
  house := house

/-- A command to the Agent under a new id. -/
def call (s : HomeKit W) (kind : HapKind) : HomeKit W :=
  { s with
    seq := s.seq + 1
    house := ⟨s.house.shared, s.house.threads ++ [.agent (kind.task (hapId kind s.seq))]⟩ }

/-- What the command at a place has returned. -/
def resultAt (s : HomeKit W) (place : Nat) : Option CommandResult :=
  (s.house.threads[place]?).bind HouseTask.result

/-- `set_lock_states`. -/
def setLockStates (s : HomeKit W) (current target : UInt8) : HomeKit W :=
  { s with accessory := { s.accessory with lockCurrent := current, lockTarget := target } }

/-- `set_switch`. -/
def setSwitch (s : HomeKit W) (on : Bool) : HomeKit W :=
  { s with accessory := { s.accessory with power := on } }

/-- One step of the task of the lock. -/
def lockStep (s : HomeKit W) : Option (HomeKit W) :=
  match s.lock with
  | .poll last =>
      let current := s.accessory.lockTarget
      if current = last then some s
      else if current ≠ lockUnsecured then some { s with lock := .poll current }
      else some { s with lock := .claim }
  | .claim => some { s.call .claim with lock := .claiming s.house.threads.length }
  -- Claiming fails where nothing rings; it is the unlock that counts.
  | .claiming place => (s.resultAt place).map fun _ => { s with lock := .unlock }
  | .unlock => some { s.call .unlock with lock := .unlocking s.house.threads.length }
  | .unlocking place => (s.resultAt place).map fun r => { s with lock := .tell r.ok }
  | .tell ok =>
      some { s.setLockStates (if ok then lockUnsecured else lockSecured) lockUnsecured with
        lock := .relock }
  | .relock => some { s.setLockStates lockSecured lockSecured with lock := .poll lockSecured }

/-- One step of the task of the switch. -/
def switchStep (s : HomeKit W) : Option (HomeKit W) :=
  match s.switch with
  | .poll last =>
      let on := s.accessory.power
      if on && !last then some { s with switch := .call } else some { s with switch := .poll on }
  | .call => some { s.call .elevator with switch := .calling s.house.threads.length }
  | .calling place => (s.resultAt place).map fun _ => { s with switch := .reset }
  | .reset => some { s.setSwitch false with switch := .poll false }

end HomeKit

/-- One move of the household, of HomeKit, or of one of the two tasks. -/
inductive HomeKitMove where
  | house (m : HouseMove)
  /-- HomeKit writes the lock's target. -/
  | write (target : UInt8)
  /-- HomeKit writes the switch. -/
  | flip (on : Bool)
  | lock
  | switch

/-- All interleavings. -/
def homeKitSystem (mode : AgentMode) (W : Type) [Wire W] : System (HomeKit W) HomeKitMove where
  next s
    | .house m => ((houseProgram mode W).system.next s.house m).map fun house => { s with house }
    | .write target => some { s with accessory := { s.accessory with lockTarget := target } }
    | .flip on => some (s.setSwitch on)
    | .lock => s.lockStep
    | .switch => s.switchStep

end Michoi
