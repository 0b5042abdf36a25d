/-
  The call state machine (`state.rs`): which side owns the call at the door, and
  when the door may be opened.

  Times (`Instant`, `Duration`) are nanoseconds as `Nat`. `Instant::duration_since`
  saturates at zero, and so does subtraction on `Nat`. Session ids and counters are
  `u64` in the source; the counters here only grow by one, so they are `Nat`.

  Each method takes the machine and returns what the source returns next to the
  machine it leaves behind, also on the error paths.
-/
import Mathlib.Data.List.Infix

namespace Michoi

inductive CallPhase where
  | idle | ringing | connected | ending
  deriving DecidableEq, Repr

inductive Owner where
  | none | pad | remote
  deriving DecidableEq, Repr

inductive StateError where
  | notRinging | padOwnsCall | unlockNotAllowed | unlockCooldown
  deriving DecidableEq, Repr

structure PublicCallState where
  sessionId : Nat
  phase : CallPhase
  owner : Owner
  videoFrames : Nat
  doorAudioPackets : Nat
  unlocks : Nat
  deriving DecidableEq, Repr

structure CallMachine where
  state : PublicCallState
  unlockCooldown : Nat
  /-- When set, unlock is only accepted while the remote owner holds the call. -/
  unlockRequiresAnswer : Bool
  lastUnlock : Option Nat
  deriving DecidableEq, Repr

/-- What a fallible method of the machine returns. -/
abbrev StateResult := Except StateError Unit

namespace CallMachine

/-- `CallMachine::with_policy`. -/
def withPolicy (unlockCooldown : Nat) (unlockRequiresAnswer : Bool) : CallMachine where
  state := {
    sessionId := 0, phase := .idle, owner := .none
    videoFrames := 0, doorAudioPackets := 0, unlocks := 0 }
  unlockCooldown := unlockCooldown
  unlockRequiresAnswer := unlockRequiresAnswer
  lastUnlock := none

/-- `CallMachine::new`. -/
def new (unlockCooldown : Nat) : CallMachine :=
  withPolicy unlockCooldown false

/-- `CallMachine::start_call`. -/
def startCall (m : CallMachine) (sessionId : Nat) : CallMachine :=
  { m with
    state := {
      sessionId := sessionId, phase := .ringing, owner := .none
      videoFrames := 0, doorAudioPackets := 0, unlocks := 0 }
    lastUnlock := none }

/-- `CallMachine::pad_answer`. -/
def padAnswer (m : CallMachine) : StateResult × CallMachine :=
  if m.state.phase ≠ .ringing then (.error .notRinging, m)
  else if m.state.owner = .remote then (.error .notRinging, m)
  else (.ok (), { m with state := { m.state with owner := .pad, phase := .connected } })

/-- `CallMachine::remote_answer`. -/
def remoteAnswer (m : CallMachine) : StateResult × CallMachine :=
  if m.state.phase ≠ .ringing then (.error .notRinging, m)
  else if m.state.owner = .pad then (.error .padOwnsCall, m)
  else (.ok (), { m with state := { m.state with owner := .remote, phase := .connected } })

/-- The policy check at the head of `unlock`: under the strict rule only the remote
    owner of an answered call may unlock. -/
def mayUnlock (m : CallMachine) : Bool :=
  !(m.unlockRequiresAnswer &&
    (m.state.phase != .connected || m.state.owner != .remote))

/-- The cooldown check of `unlock`. -/
def coolingDown (m : CallMachine) (now : Nat) : Bool :=
  match m.lastUnlock with
  | some last => decide (now - last < m.unlockCooldown)
  | none => false

/-- `CallMachine::unlock`. -/
def unlock (m : CallMachine) (now : Nat) : StateResult × CallMachine :=
  if !m.mayUnlock then (.error .unlockNotAllowed, m)
  else if m.coolingDown now then (.error .unlockCooldown, m)
  else (.ok (), { m with
    lastUnlock := some now
    state := { m.state with unlocks := m.state.unlocks + 1 } })

/-- `CallMachine::video_frame`. -/
def videoFrame (m : CallMachine) : CallMachine :=
  { m with state := { m.state with videoFrames := m.state.videoFrames + 1 } }

/-- `CallMachine::door_audio`. -/
def doorAudio (m : CallMachine) : CallMachine :=
  { m with state := { m.state with doorAudioPackets := m.state.doorAudioPackets + 1 } }

/-- `CallMachine::hangup`. -/
def hangup (m : CallMachine) : CallMachine :=
  { m with
    state := { m.state with phase := .idle, owner := .none }
    lastUnlock := none }

/-- `CallMachine::remote_media_allowed`. -/
def remoteMediaAllowed (m : CallMachine) (sessionId : Nat) : Bool :=
  m.state.sessionId == sessionId && m.state.phase == .connected && m.state.owner == .remote

end CallMachine

/-! ## Operations and runs -/

/-- One call of a mutating method. -/
inductive Op where
  | startCall (sessionId : Nat)
  | padAnswer
  | remoteAnswer
  | unlock (now : Nat)
  | hangup
  | videoFrame
  | doorAudio
  deriving DecidableEq, Repr

namespace Op

/-- The method call: what it returns and the machine afterwards. -/
def step : Op → CallMachine → StateResult × CallMachine
  | startCall s, m => (.ok (), m.startCall s)
  | padAnswer, m => m.padAnswer
  | remoteAnswer, m => m.remoteAnswer
  | unlock now, m => m.unlock now
  | hangup, m => (.ok (), m.hangup)
  | videoFrame, m => (.ok (), m.videoFrame)
  | doorAudio, m => (.ok (), m.doorAudio)

def isStart : Op → Bool
  | startCall _ => true
  | _ => false

def isHangup : Op → Bool
  | hangup => true
  | _ => false

def isAnswer : Op → Bool
  | padAnswer => true
  | remoteAnswer => true
  | _ => false

/-- The two operations that forget the last unlock time. -/
def isReset (o : Op) : Bool := o.isStart || o.isHangup

/-- The time an `unlock` reads from the clock. -/
def unlockTime : Op → Option Nat
  | unlock now => some now
  | _ => none

end Op

namespace CallMachine

/-- The operation returns `Ok` at this machine. -/
def accepts (m : CallMachine) (o : Op) : Prop := (o.step m).1 = .ok ()

instance (m : CallMachine) (o : Op) : Decidable (m.accepts o) :=
  inferInstanceAs (Decidable (_ = _))

/-- The machine after a sequence of operations. -/
def run : CallMachine → List Op → CallMachine
  | m, [] => m
  | m, o :: ops => run (o.step m).2 ops

@[simp] theorem run_nil (m : CallMachine) : m.run [] = m := rfl

@[simp] theorem run_cons (m : CallMachine) (o : Op) (ops : List Op) :
    m.run (o :: ops) = (o.step m).2.run ops := rfl

@[simp] theorem run_append (m : CallMachine) (ops ops' : List Op) :
    m.run (ops ++ ops') = (m.run ops).run ops' := by
  induction ops generalizing m with
  | nil => rfl
  | cons o ops ih => exact ih _

end CallMachine

end Michoi
