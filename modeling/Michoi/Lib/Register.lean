/-
  A register that some entries of a log write, and the readers of that log.

  A reader that has read `k` entries knows the register unless a later entry writes it
  (`Knows`). That is kept when the log grows (`Knows.push`) and when the reader goes on
  (`Knows.read`), holds of anyone who was told the value (`knows_self`), and says that a
  reader at the end of the log has the value (`Knows.done`). A reader that goes back to an
  earlier entry knows no less than it must there (`Knows.mono`).
-/
import Mathlib.Data.List.Basic

namespace Lib.Register

variable {α β : Type*}

/-- The register after one more entry. -/
def after (write : α → Option β) (b : β) (a : α) : β := (write a).getD b

variable (write : α → Option β)

/-- The register is where the log leaves it. -/
def Holds (log : List α) (value : β) : Prop :=
  ∃ start, log.foldl (after write) start = value

/-- What a reader with value `b` knows after `k` entries. -/
def Knows (log : List α) (value b : β) (k : Nat) : Prop :=
  (∀ a ∈ log.drop k, write a = none) → b = value

variable {write} {log : List α} {value b : β} {a : α} {k : Nat}

theorem holds_nil (value : β) : Holds write [] value := ⟨value, rfl⟩

theorem Holds.push (h : Holds write log value) (a : α) :
    Holds write (log ++ [a]) (after write value a) := by
  obtain ⟨start, rfl⟩ := h
  exact ⟨start, List.foldl_append⟩

/-- Entries that write nothing leave the register alone. -/
theorem foldl_of_quiet (h : ∀ a ∈ log, write a = none) (b : β) :
    log.foldl (after write) b = b := by
  induction log generalizing b with
  | nil => rfl
  | cons a log ih =>
      have ha := h a List.mem_cons_self
      have hb : after write b a = b := by
        unfold after
        rw [ha]
        rfl
      rw [List.foldl_cons, hb]
      exact ih (fun a' ha' => h a' (List.mem_cons_of_mem _ ha')) b

theorem knows_self (log : List α) (value : β) (k : Nat) : Knows write log value value k :=
  fun _ => rfl

theorem Knows.mono (h : Knows write log value b k) {k' : Nat} (hle : k' ≤ k) :
    Knows write log value b k' := by
  intro hquiet
  refine h fun a ha => hquiet a ?_
  exact (List.drop_sublist_drop_left log hle).subset ha

theorem Knows.push (h : Knows write log value b k) (hk : k ≤ log.length) (a : α) :
    Knows write (log ++ [a]) (after write value a) b k := by
  intro hquiet
  rw [List.drop_append_of_le_length hk] at hquiet
  have ha : write a = none := hquiet a (List.mem_append_right _ List.mem_cons_self)
  have hvalue : after write value a = value := by
    unfold after
    rw [ha]
    rfl
  rw [hvalue]
  exact h fun a' ha' => hquiet a' (List.mem_append_left _ ha')

/-- The last entry that writes is what the register holds. -/
theorem Holds.eq_of_last (h : Holds write log value) (hlog : log.drop k = a :: log.drop (k + 1))
    {v : β} (ha : write a = some v) (hquiet : ∀ a' ∈ log.drop (k + 1), write a' = none) :
    v = value := by
  obtain ⟨start, rfl⟩ := h
  rw [← List.take_append_drop k log, List.foldl_append, hlog, List.foldl_cons]
  have hwritten : after write ((log.take k).foldl (after write) start) a = v := by
    unfold after
    rw [ha]
    rfl
  rw [hwritten, foldl_of_quiet hquiet]

theorem Knows.read (h : Knows write log value b k) (hholds : Holds write log value)
    (hlog : log.drop k = a :: log.drop (k + 1)) :
    Knows write log value (after write b a) (k + 1) := by
  intro hquiet
  cases ha : write a with
  | some v =>
      have hv := hholds.eq_of_last hlog ha hquiet
      unfold after
      rw [ha]
      exact hv
  | none =>
      unfold after
      rw [ha]
      refine h fun a' ha' => ?_
      rw [hlog] at ha'
      obtain rfl | ha' := List.mem_cons.mp ha'
      · exact ha
      · exact hquiet a' ha'

theorem Knows.done (h : Knows write log value b k) (hk : log.length ≤ k) : b = value :=
  h fun a ha => by
    rw [List.drop_eq_nil_of_le hk] at ha
    cases ha

end Lib.Register
