/-
  A broadcast channel with a bounded buffer: each receiver gets the values sent after it
  subscribed, in the order they were sent. One that has fallen behind by more than the
  capacity is told so once, and goes on with the oldest value that is still there.

  A receiver is the number of values sent before the one it waits for. `recv_cases` is what
  one receive does to what it has still to get (`queue`), `queue_send` what a send does.
-/
import Mathlib.Data.List.Basic

namespace Lib

structure Broadcast (α : Type*) where
  capacity : Nat
  /-- Every value sent, oldest first. The last `capacity` of them are still there. -/
  sent : List α
  deriving DecidableEq, Repr

/-- What a receive finds. -/
inductive Received (α : Type*) where
  | value (a : α)
  | lagged
  | empty
  deriving DecidableEq, Repr

namespace Broadcast

variable {α : Type*}

def new (capacity : Nat) : Broadcast α where
  capacity := capacity
  sent := []

def send (c : Broadcast α) (a : α) : Broadcast α := { c with sent := c.sent ++ [a] }

/-- A new receiver. -/
def subscribe (c : Broadcast α) : Nat := c.sent.length

/-- The oldest value that is still there. -/
def oldest (c : Broadcast α) : Nat := c.sent.length - c.capacity

/-- One receive, and where the receiver stands after it. -/
def recv (c : Broadcast α) (next : Nat) : Received α × Nat :=
  if next < c.oldest then (.lagged, c.oldest)
  else
    match c.sent[next]? with
    | some a => (.value a, next + 1)
    | none => (.empty, next)

/-- What the receiver has still to get. -/
def queue (c : Broadcast α) (next : Nat) : List α := c.sent.drop next

variable {c : Broadcast α} {next : Nat}

@[simp] theorem send_sent (c : Broadcast α) (a : α) : (c.send a).sent = c.sent ++ [a] := rfl

/-- A new receiver has nothing to get. -/
@[simp] theorem queue_subscribe (c : Broadcast α) : c.queue c.subscribe = [] := List.drop_length

theorem queue_send (h : next ≤ c.sent.length) (a : α) :
    (c.send a).queue next = c.queue next ++ [a] :=
  List.drop_append_of_le_length h

/-- A receive takes the first value of the queue, or drops values that are no longer there,
    or finds nothing. -/
theorem recv_cases (c : Broadcast α) (next : Nat) :
    (∃ a, c.recv next = (.value a, next + 1) ∧ c.oldest ≤ next ∧
        c.queue next = a :: c.queue (next + 1)) ∨
      (c.recv next = (.lagged, c.oldest) ∧ next < c.oldest) ∨
      (c.recv next = (.empty, next) ∧ c.queue next = []) := by
  unfold recv
  split
  · next hlag => exact .inr (.inl ⟨rfl, hlag⟩)
  · next hlag =>
      cases hget : c.sent[next]? with
      | none => exact .inr (.inr ⟨rfl, List.drop_of_length_le (List.getElem?_eq_none_iff.mp hget)⟩)
      | some a =>
          obtain ⟨hlt, ha⟩ := List.getElem?_eq_some_iff.mp hget
          refine .inl ⟨a, rfl, Nat.not_lt.mp hlag, ?_⟩
          rw [queue, List.drop_eq_getElem_cons hlt, ha]
          rfl

end Broadcast

end Lib
