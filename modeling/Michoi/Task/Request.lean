/-
  Requests and the idempotency cache: what `execute` and `call_elevator_now` have in common.

  Both look their command id up, work, and store one result under that id. `RequestStep`
  is this protocol with everything else left out, and `request_step` shows that both
  handlers follow it. The receive loop and the other tasks never touch the cache
  (`wire_commands`, `act_commands`).
-/
import Michoi.Task.Frame

namespace Michoi

open Lib

namespace Task

/-- The command id of a request. -/
def request : Task → Option String
  | command _ commandId _ => some commandId
  | elevator commandId _ _ => some commandId
  | wire _ => none

/-- The request has not looked its id up yet. -/
def atLookup : Task → Bool
  | command _ _ .lookup => true
  | elevator _ _ .lookup => true
  | _ => false

/-- What a request has returned. -/
def result : Task → Option CommandResult
  | command _ _ (.done r) => some r
  | elevator _ _ (.done r) => some r
  | _ => none

/-- The request panicked before it did anything. -/
def panicked : Task → Bool
  | elevator _ _ .panicked => true
  | _ => false

/-- The result a request's next step stores. -/
def stores : Task → Option CommandResult
  | command _ _ (.store r) => some r
  | elevator _ _ (.store r) => some r
  | _ => none

/-- The request was not in the cache and has neither returned nor panicked. -/
def running (t : Task) : Bool :=
  t.request.isSome && !t.atLookup && t.result.isNone && !t.panicked

/-- The request has not done anything, and did not find its id in the cache. -/
def untouched (t : Task) : Bool := t.atLookup || t.panicked

/-- A request stores its result under its own id. -/
def Owned : Task → Prop
  | command _ commandId (.store r) => r.commandId = commandId
  | elevator commandId _ (.store r) => r.commandId = commandId
  | _ => True

theorem atLookup_cases {t : Task} (h : t.atLookup = true) :
    (∃ action commandId, t = .command action commandId .lookup) ∨
      ∃ commandId room, t = .elevator commandId room .lookup := by
  cases t with
  | command action commandId pc =>
      cases pc with
      | lookup => exact .inl ⟨action, commandId, rfl⟩
      | _ => cases h
  | elevator commandId room pc =>
      cases pc with
      | lookup => exact .inr ⟨commandId, room, rfl⟩
      | _ => cases h
  | wire => cases h

theorem owned_of_atLookup {t : Task} (h : t.atLookup = true) : t.Owned := by
  obtain ⟨_, _, rfl⟩ | ⟨_, _, rfl⟩ := atLookup_cases h
  · trivial
  · trivial

theorem not_untouched_of_running {t : Task} (h : t.running = true) : t.untouched = false := by
  unfold running at h
  unfold untouched
  simp only [Bool.and_eq_true, Bool.not_eq_true'] at h
  rw [h.1.1.2, h.2, Bool.or_false]

theorem not_atLookup_of_running {t : Task} (h : t.running = true) : t.atLookup = false :=
  (Bool.or_eq_false_iff.mp (not_untouched_of_running h)).1

theorem result_of_running {t : Task} (h : t.running = true) : t.result = none := by
  unfold running at h
  simp only [Bool.and_eq_true, Option.isNone_iff_eq_none] at h
  exact h.1.2

theorem result_of_atLookup {t : Task} (h : t.atLookup = true) : t.result = none := by
  obtain ⟨_, _, rfl⟩ | ⟨_, _, rfl⟩ := atLookup_cases h
  · rfl
  · rfl

theorem result_of_panicked {t : Task} (h : t.panicked = true) : t.result = none := by
  unfold panicked at h
  split at h
  · rfl
  · cases h

theorem result_of_untouched {t : Task} (h : t.untouched = true) : t.result = none :=
  (Bool.or_eq_true_iff.mp h).elim result_of_atLookup result_of_panicked

theorem untouched_of_atLookup {t : Task} (h : t.atLookup = true) : t.untouched = true := by
  unfold untouched
  rw [h, Bool.true_or]

theorem untouched_of_panicked {t : Task} (h : t.panicked = true) : t.untouched = true := by
  unfold untouched
  rw [h, Bool.or_true]

theorem not_finished_of_atLookup {t : Task} (h : t.atLookup = true) : t.finished = false := by
  obtain ⟨_, _, rfl⟩ | ⟨_, _, rfl⟩ := atLookup_cases h
  · rfl
  · rfl

theorem not_finished_of_running {t : Task} (h : t.running = true) : t.finished = false := by
  cases t with
  | command _ _ pc =>
      cases pc with
      | done => cases h
      | _ => rfl
  | elevator _ _ pc =>
      cases pc with
      | done | panicked => cases h
      | _ => rfl
  | wire => cases h

theorem stores_of_atLookup {t : Task} (h : t.atLookup = true) : t.stores = none := by
  obtain ⟨_, _, rfl⟩ | ⟨_, _, rfl⟩ := atLookup_cases h
  · rfl
  · rfl

theorem stores_of_no_request {t : Task} (h : t.request = none) : t.stores = none := by
  cases t with
  | command | elevator => cases h
  | wire => rfl

/-- A handler that was just called is a request at its lookup or a message. -/
theorem fresh_cases {t : Task} (h : t.fresh = true) :
    t.atLookup = true ∨ t.request = none := by
  cases t with
  | command _ _ pc =>
      cases pc with
      | lookup => exact Or.inl rfl
      | _ => cases h
  | elevator _ _ pc =>
      cases pc with
      | lookup => exact Or.inl rfl
      | _ => cases h
  | wire => exact Or.inr rfl

theorem owned_of_fresh {t : Task} (h : t.fresh = true) : t.Owned := by
  rcases fresh_cases h with hl | hn
  · exact owned_of_atLookup hl
  · cases t with
    | command | elevator => cases hn
    | wire => trivial

end Task

/-- One step of a request, from the cache's point of view. -/
inductive RequestStep (commandId : String) (c c' : CommandCache) (t t' : Task) : Prop where
  | hit {r} (h : c.get commandId = some r) (ht : t.atLookup = true)
      (ht' : t'.result = some r) (hc : c' = c)
  | miss (h : c.get commandId = none) (ht : t.atLookup = true) (ht' : t'.running = true)
      (hc : c' = c)
  | work (ht : t.running = true) (ht' : t'.running = true) (hs : t.stores = none) (hc : c' = c)
  | panic (ht : t.running = true) (ht' : t'.panicked = true) (hs : t.stores = none) (hc : c' = c)
  | store {r} (ht : t.running = true) (ht' : t'.result = some r) (hr : r.commandId = commandId)
      (hs : t.stores = some r) (hc : c' = c.store r)

section

variable {W : Type} [Wire W] {env : Env} {a a' : Agent W} {t t' : Task}

/-- Telling the wire leaves the cache alone. -/
@[simp] theorem notify_commands (a : Agent W) (env : Env) (action : CallAction) (peers : Peers) :
    (a.notify env action peers).commands = a.commands := by
  cases action <;> rfl

theorem request_step_command {action : CallAction} {commandId : String} {pc pc' : CommandPc}
    (h : CommandStep env a action commandId pc a' pc')
    (how : (Task.command action commandId pc).Owned) :
    (Task.command action commandId pc').Owned ∧
      RequestStep commandId a.commands a'.commands (.command action commandId pc)
        (.command action commandId pc') := by
  cases h with
  | replay hget => exact ⟨trivial, .hit hget rfl rfl rfl⟩
  | miss hget => exact ⟨trivial, .miss hget rfl rfl rfl⟩
  | store => exact ⟨trivial, .store rfl rfl how rfl rfl⟩
  | notify => exact ⟨trivial, .work rfl rfl rfl (notify_commands ..)⟩
  | refuse | unpacked | unsent | publish => exact ⟨rfl, .work rfl rfl rfl rfl⟩
  | readPeers | readSession | built | sent => exact ⟨trivial, .work rfl rfl rfl rfl⟩

omit [Wire W] in
theorem request_step_elevator {commandId : String} {room : Option String} {pc pc' : ElevatorPc}
    (h : ElevatorStep env a commandId room pc a' pc')
    (how : (Task.elevator commandId room pc).Owned) :
    (Task.elevator commandId room pc').Owned ∧
      RequestStep commandId a.commands a'.commands (.elevator commandId room pc)
        (.elevator commandId room pc') := by
  cases h with
  | replay hget => exact ⟨trivial, .hit hget rfl rfl rfl⟩
  | miss hget => exact ⟨trivial, .miss hget rfl rfl rfl⟩
  | store => exact ⟨trivial, .store rfl rfl how rfl rfl⟩
  | panic => exact ⟨trivial, .panic rfl rfl rfl rfl⟩
  | noDoor | unfired | timedOut | publish => exact ⟨rfl, .work rfl rfl rfl rfl⟩
  | readRoom | located | register | fired | acked => exact ⟨trivial, .work rfl rfl rfl rfl⟩

/-- **Every request follows the protocol of the cache.** -/
theorem request_step {commandId : String} (h : t.step env a = some (a', t'))
    (hid : t.request = some commandId) (how : t.Owned) :
    t'.request = some commandId ∧ t'.Owned ∧
      RequestStep commandId a.commands a'.commands t t' := by
  cases t with
  | command action id pc =>
      obtain ⟨pc', rfl, hs⟩ := step_command h
      cases hid
      exact ⟨rfl, request_step_command hs how⟩
  | elevator id room pc =>
      obtain ⟨pc', rfl, hs⟩ := step_elevator h
      cases hid
      exact ⟨rfl, request_step_elevator hs how⟩
  | wire => cases hid

/-- A message of the wire stays one, and never touches the cache. -/
theorem wire_commands (h : t.step env a = some (a', t')) (hid : t.request = none) :
    t'.request = none ∧ t'.Owned ∧ a'.commands = a.commands := by
  cases t with
  | command => cases hid
  | elevator => cases hid
  | wire pc =>
      obtain ⟨pc', rfl, hs⟩ := step_wire h
      refine ⟨rfl, trivial, ?_⟩
      cases hs with
      | quiet _ _ _ hq => exact hq.commands
      | start | answer | hangup | hangupIdle | callEnd | publish => rfl

/-- The other tasks never touch the cache. -/
theorem act_commands (a : Agent W) (b : Background) : (b.act a).commands = a.commands := by
  cases b <;> rfl

end

end Michoi
