/-
  What every backend sees of the Agent (`agent_api.rs`): events and their log, commands,
  their results and the idempotency cache.

  Sequence numbers are `u64` in the source and only grow by one, so they are `Nat`.
-/
import Michoi.Lib.Fifo
import Michoi.State

namespace Michoi

open Lib

/-! ## Events -/

/-- `EventKind`, without the snapshot and agent-error messages, which the Agent never
    pushes to its log. -/
inductive EventKind where
  | callStarted (sessionId doorId roomId : String)
  | padAnswered (sessionId : String)
  | remoteAnswered (sessionId : String)
  | unlocked (sessionId : String) (owner : Owner)
  | callEnded (sessionId reason : String)
  | monitorStarted (cameraId : String)
  | monitorStopped (cameraId reason : String)
  | elevatorCalled (roomId : String)
  | dialing (calleeId : String)
  | callConnected (calleeId : String)
  | callHungUp (calleeId reason : String)
  deriving DecidableEq, Repr

/-- The phase and owner a subscriber reads off a call event. -/
def EventKind.view : EventKind → Option (CallPhase × Owner)
  | callStarted .. => some (.ringing, .none)
  | padAnswered _ => some (.connected, .pad)
  | remoteAnswered _ => some (.connected, .remote)
  | callEnded .. => some (.idle, .none)
  | _ => none

structure Event where
  seq : Nat
  atMs : Nat
  kind : EventKind
  deriving DecidableEq, Repr

structure EventLog where
  events : List Event
  /-- A `u64` in the source: a log gets fewer than 2^64 events. -/
  nextSeq : Nat
  capacity : Nat
  deriving DecidableEq, Repr

namespace EventLog

/-- `EventLog::new`. -/
def new (capacity : Nat) : EventLog where
  events := []
  nextSeq := 1
  capacity := capacity

/-- `EventLog::push`, up to the broadcast. -/
def push (log : EventLog) (atMs : Nat) (kind : EventKind) : EventLog :=
  let event : Event := { seq := log.nextSeq, atMs, kind }
  let events := if log.events.length = log.capacity then log.events.tail else log.events
  { log with events := events ++ [event], nextSeq := log.nextSeq + 1 }

/-- `EventLog::recent`: the events after one, `none` where the next one fell out of the
    buffer. The sum wraps, as the release build's does. -/
def recent (log : EventLog) (after : UInt64) : Option (List Event) :=
  if log.nextSeq ≤ (after + 1).toNat then some []
  else
    match log.events.head? with
    | some oldest =>
        if oldest.seq ≤ (after + 1).toNat then
          some (log.events.filter fun e => after.toNat < e.seq)
        else none
    | none => none

@[simp] theorem push_nextSeq (log : EventLog) (atMs : Nat) (kind : EventKind) :
    (log.push atMs kind).nextSeq = log.nextSeq + 1 := rfl

end EventLog

/-! ## Commands -/

inductive CallAction where
  | claim | unlock | hangup
  deriving DecidableEq, Repr

/-- `CallError`, without the variant for requests that a mode does not support. -/
inductive CallError where
  | notRinging | padOwnsCall | unlockNotAllowed | unlockCooldown | noCall | agentOffline
  | calleeUnreachable
  deriving DecidableEq, Repr

/-- `impl From<StateError> for CallError`. -/
def CallError.from : StateError → CallError
  | .notRinging => .notRinging
  | .padOwnsCall => .padOwnsCall
  | .unlockNotAllowed => .unlockNotAllowed
  | .unlockCooldown => .unlockCooldown

structure CommandResult where
  commandId : String
  ok : Bool
  error : Option CallError
  replayed : Bool
  deriving DecidableEq, Repr

namespace CommandResult

/-- `CommandResult::ok`. -/
def accepted (commandId : String) : CommandResult where
  commandId := commandId
  ok := true
  error := none
  replayed := false

/-- `CommandResult::rejected`. -/
def rejected (commandId : String) (error : CallError) : CommandResult where
  commandId := commandId
  ok := false
  error := some error
  replayed := false

/-- The same result, flagged as replayed. -/
def replay (r : CommandResult) : CommandResult := { r with replayed := true }

/-- Two results that tell the client the same. -/
def Agrees (r r' : CommandResult) : Prop := r.ok = r'.ok ∧ r.error = r'.error

instance (r r' : CommandResult) : Decidable (r.Agrees r') :=
  inferInstanceAs (Decidable (_ ∧ _))

theorem Agrees.symm {r r' : CommandResult} (h : r.Agrees r') : r'.Agrees r :=
  ⟨h.1.symm, h.2.symm⟩

@[simp] theorem agrees_self (r : CommandResult) : r.Agrees r := ⟨rfl, rfl⟩

@[simp] theorem agrees_replay (r r' : CommandResult) : r.Agrees r'.replay ↔ r.Agrees r' :=
  Iff.rfl

end CommandResult

/-! ## The idempotency cache -/

/-- `CommandCache`: results by command id, and the ids oldest first. -/
structure CommandCache where
  results : AList fun _ : String => CommandResult
  queue : List String
  capacity : Nat

namespace CommandCache

/-- `CommandCache::new`. -/
def new (capacity : Nat) : CommandCache where
  results := ∅
  queue := []
  capacity := capacity

/-- `CommandCache::get`. -/
def get (c : CommandCache) (commandId : String) : Option CommandResult :=
  (c.results.lookup commandId).map CommandResult.replay

/-- The eviction at the head of `store`. -/
def makeRoom (c : CommandCache) : CommandCache :=
  if c.capacity ≤ c.results.keys.length then
    match c.queue with
    | oldest :: queue => { c with results := c.results.erase oldest, queue }
    | [] => c
  else c

/-- `CommandCache::store`. -/
def store (c : CommandCache) (result : CommandResult) : CommandCache :=
  let c := c.makeRoom
  { c with
    results := c.results.insert result.commandId result
    queue := c.queue ++ [result.commandId] }

@[simp] theorem store_capacity (c : CommandCache) (r : CommandResult) :
    (c.store r).capacity = c.capacity := by
  unfold store makeRoom
  dsimp only
  split
  · split <;> rfl
  · rfl

/-- A result is found under its own id right after it was stored. -/
theorem get_store_self (c : CommandCache) (r : CommandResult) :
    (c.store r).get r.commandId = some r.replay := by
  unfold get store
  simp

/-- What is found under another id was there before. -/
theorem get_of_get_store {c : CommandCache} {r r' : CommandResult} {commandId : String}
    (hne : commandId ≠ r.commandId) (h : (c.store r).get commandId = some r') :
    c.get commandId = some r' := by
  unfold get store at h
  dsimp only at h
  rw [AList.lookup_insert_ne hne] at h
  unfold makeRoom at h
  unfold get
  split at h
  · split at h
    · next oldest queue hq =>
        by_cases ho : commandId = oldest
        · subst ho
          simp at h
        · rwa [AList.lookup_erase_ne ho] at h
    · exact h
  · exact h

end CommandCache

end Michoi
