/-
  What the threads of a pool gave, shared out among them.

  `SharedOut` says that everything given is, up to order, what the threads gave, each by its own
  account. A new thread has given nothing, and a step adds to the account of its thread what it
  gives.
-/
import Michoi.Lib.Pool
import Mathlib.Data.List.Forall2

namespace Lib

/-- What was given is the threads' shares, where `R` says what a thread may have given. -/
def SharedOut {L β : Type*} (R : L → List β → Prop) (ls : List L) (given : List β) : Prop :=
  ∃ shares, List.Forall₂ R ls shares ∧ given.Perm shares.flatten

namespace SharedOut

variable {L β : Type*} {R : L → List β → Prop} {ls : List L} {given : List β} {l l' : L} {i : Nat}

theorem nil : SharedOut R [] [] := ⟨[], .nil, .refl _⟩

theorem imp {R' : L → List β → Prop} (h : SharedOut R ls given)
    (himp : ∀ l share, R l share → R' l share) : SharedOut R' ls given := by
  obtain ⟨shares, hshares, hgiven⟩ := h
  exact ⟨shares, hshares.imp himp, hgiven⟩

theorem perm {given' : List β} (h : SharedOut R ls given) (hperm : given'.Perm given) :
    SharedOut R ls given' := by
  obtain ⟨shares, hshares, hgiven⟩ := h
  exact ⟨shares, hshares, hperm.trans hgiven⟩

/-- A new thread has given nothing. -/
theorem append (h : SharedOut R ls given) (hl : R l []) : SharedOut R (ls ++ [l]) given := by
  obtain ⟨shares, hshares, hgiven⟩ := h
  refine ⟨shares ++ [[]], List.rel_append hshares (.cons hl .nil), ?_⟩
  rw [List.flatten_append, List.flatten_singleton, List.append_nil]
  exact hgiven

/-- The thread at a place has a share, and the others keep theirs when it changes. -/
theorem forall₂_set {shares : List (List β)} (h : List.Forall₂ R ls shares)
    (hl : ls[i]? = some l) {more : List β} (hstep : ∀ share, R l share → R l' (share ++ more)) :
    ∃ shares', List.Forall₂ R (ls.set i l') shares' ∧
      (shares.flatten ++ more).Perm shares'.flatten := by
  induction h generalizing i with
  | nil => cases hl
  | @cons k share ls shares hk hrest ih =>
      cases i with
      | zero =>
          obtain rfl := Option.some.inj hl
          refine ⟨(share ++ more) :: shares, .cons (hstep share hk) hrest, ?_⟩
          rw [List.flatten_cons, List.flatten_cons, List.append_assoc, List.append_assoc]
          exact List.perm_append_comm.append_left share
      | succ i =>
          obtain ⟨shares', hshares', hperm⟩ := ih hl
          refine ⟨share :: shares', .cons hk hshares', ?_⟩
          rw [List.flatten_cons, List.flatten_cons, List.append_assoc]
          exact hperm.append_left share

/-- A step adds what it gives to the share of its thread. -/
theorem set (h : SharedOut R ls given) (hl : ls[i]? = some l) {more : List β}
    (hstep : ∀ share, R l share → R l' (share ++ more)) :
    SharedOut R (ls.set i l') (given ++ more) := by
  obtain ⟨shares, hshares, hgiven⟩ := h
  obtain ⟨shares', hshares', hperm⟩ := forall₂_set hshares hl hstep
  exact ⟨shares', hshares', (hgiven.append_right more).trans hperm⟩

end SharedOut

end Lib
