/-
  A buffer that is bounded by age and by size: a list of items, oldest first, that drops from
  the front what is older than a floor, and then what is too much for a budget.

  `keep` is both loops, `keep_suffix` that only the front is dropped. `dropped_iff` says of
  each item whether it is dropped, by its age and by what it and the items after it weigh.
-/
import Mathlib.Algebra.BigOperators.Group.List.Basic
import Mathlib.Algebra.Order.Ring.Nat
import Mathlib.Data.List.Basic

namespace Lib

variable {α : Type*} (size stamp : α → Nat)

/-- What the items of a list take together. -/
def weight (items : List α) : Nat := (items.map size).sum

/-- Drop from the front while there is more than the budget allows. -/
def shed (budget : Nat) : List α → List α
  | [] => []
  | x :: items => if weight size (x :: items) ≤ budget then x :: items else shed budget items

/-- Drop what is older than the floor, then what is too much. -/
def keep (floor budget : Nat) (items : List α) : List α :=
  shed size budget (items.dropWhile (stamp · < floor))

variable {size stamp}

/-! ## Weights -/

@[simp] theorem weight_nil : weight size [] = 0 := rfl

@[simp] theorem weight_cons (x : α) (items : List α) :
    weight size (x :: items) = size x + weight size items := by
  simp [weight]

@[simp] theorem weight_append (items items' : List α) :
    weight size (items ++ items') = weight size items + weight size items' := by
  simp [weight]

theorem weight_perm {items items' : List α} (h : items.Perm items') :
    weight size items = weight size items' := (h.map size).sum_eq

/-! ## The budget -/

theorem shed_suffix (budget : Nat) (items : List α) : shed size budget items <:+ items := by
  induction items with
  | nil => exact List.suffix_rfl
  | cons x items ih =>
      unfold shed
      split
      · exact List.suffix_rfl
      · exact ih.trans (List.suffix_cons x items)

theorem weight_shed_le (budget : Nat) (items : List α) :
    weight size (shed size budget items) ≤ budget := by
  induction items with
  | nil => exact Nat.zero_le budget
  | cons x items ih =>
      unfold shed
      split
      · next h => exact h
      · exact ih

theorem shed_of_le {budget : Nat} {items : List α} (h : weight size items ≤ budget) :
    shed size budget items = items := by
  cases items with
  | nil => rfl
  | cons x items => exact if_pos h

/-- An item goes when it and what is after it are too much. -/
theorem shed_dropped_iff (budget : Nat) (front : List α) (x : α) (rest : List α) :
    (shed size budget (front ++ x :: rest)).length ≤ rest.length ↔
      budget < weight size (x :: rest) := by
  induction front with
  | nil =>
      rw [List.nil_append]
      unfold shed
      split
      · next h => simp only [List.length_cons]; omega
      · next h =>
          have hle : (shed size budget rest).length ≤ rest.length :=
            (shed_suffix budget rest).length_le
          omega
  | cons y front ih =>
      rw [List.cons_append]
      unfold shed
      split
      · next h =>
          simp only [weight_cons, weight_append, List.length_cons, List.length_append] at h ⊢
          omega
      · exact ih

/-! ## Both bounds -/

theorem keep_suffix (floor budget : Nat) (items : List α) :
    keep size stamp floor budget items <:+ items :=
  (shed_suffix budget _).trans (List.dropWhile_suffix _)

theorem weight_keep_le (floor budget : Nat) (items : List α) :
    weight size (keep size stamp floor budget items) ≤ budget := weight_shed_le budget _

/-- The items are in the order of their stamps. -/
def Ordered (stamp : α → Nat) (items : List α) : Prop := items.Pairwise (stamp · ≤ stamp ·)

theorem Ordered.suffix {items items' : List α} (h : Ordered stamp items') (hs : items <:+ items') :
    Ordered stamp items := List.Pairwise.sublist hs.sublist h

/-- Of ordered items the ones that are left are all young enough. -/
theorem le_of_mem_dropWhile {floor : Nat} {items : List α} (h : Ordered stamp items) {x : α}
    (hx : x ∈ items.dropWhile (stamp · < floor)) : floor ≤ stamp x := by
  induction items with
  | nil => cases hx
  | cons y items ih =>
      obtain ⟨hy, hitems⟩ := List.pairwise_cons.mp h
      rw [List.dropWhile_cons] at hx
      split at hx
      · exact ih hitems hx
      · next hyoung =>
          have hfloor : floor ≤ stamp y := by simpa using hyoung
          rcases List.mem_cons.mp hx with rfl | hmem
          · exact hfloor
          · exact Nat.le_trans hfloor (hy x hmem)

theorem le_of_mem_keep {floor budget : Nat} {items : List α} (h : Ordered stamp items) {x : α}
    (hx : x ∈ keep size stamp floor budget items) : floor ≤ stamp x :=
  le_of_mem_dropWhile h ((shed_suffix budget _).subset hx)

/-- An old item takes all before it along. -/
theorem dropWhile_dropped_iff (floor : Nat) {front rest : List α} {x : α}
    (h : Ordered stamp (front ++ x :: rest)) :
    ((front ++ x :: rest).dropWhile (stamp · < floor)).length ≤ rest.length ↔
      stamp x < floor := by
  induction front with
  | nil =>
      rw [List.nil_append, List.dropWhile_cons]
      split
      · next hold =>
          have := (List.dropWhile_suffix (l := rest) (stamp · < floor)).length_le
          exact iff_of_true this (by simpa using hold)
      · next hyoung =>
          refine iff_of_false (by simp) (by simpa using hyoung)
  | cons y front ih =>
      obtain ⟨hy, hitems⟩ := List.pairwise_cons.mp h
      rw [List.cons_append, List.dropWhile_cons]
      split
      · exact ih hitems
      · next hyoung =>
          have hfloor : floor ≤ stamp y := by simpa using hyoung
          have hle := hy x (List.mem_append_right _ List.mem_cons_self)
          simp only [List.length_cons, List.length_append]
          omega

/-- **What is dropped**: the old, and what is too much with all that is after it. -/
theorem dropped_iff {floor budget : Nat} {front rest : List α} {x : α}
    (h : Ordered stamp (front ++ x :: rest)) :
    (keep size stamp floor budget (front ++ x :: rest)).length ≤ rest.length ↔
      stamp x < floor ∨ budget < weight size (x :: rest) := by
  have hage := dropWhile_dropped_iff floor h
  unfold keep
  obtain ⟨old, hold⟩ := List.dropWhile_suffix (l := front ++ x :: rest) (stamp · < floor)
  by_cases hlen : ((front ++ x :: rest).dropWhile (stamp · < floor)).length ≤ rest.length
  · have hle : (shed size budget ((front ++ x :: rest).dropWhile (stamp · < floor))).length ≤ _ :=
      (shed_suffix budget _).length_le
    exact iff_of_true (by omega) (.inl (hage.mp hlen))
  · rw [or_iff_right (fun hx => hlen (hage.mpr hx))]
    have hsuffix : x :: rest <:+ (front ++ x :: rest).dropWhile (stamp · < floor) :=
      List.suffix_of_suffix_length_le (List.suffix_append front _)
        (List.dropWhile_suffix _) (by simp only [List.length_cons]; omega)
    obtain ⟨young, hyoung⟩ := hsuffix
    rw [← hyoung]
    exact shed_dropped_iff budget young x rest

/-- What is dropped of ordered items is not younger than what is kept. -/
theorem dropped_le_kept {floor budget : Nat} {items dropped : List α} (h : Ordered stamp items)
    (hd : dropped ++ keep size stamp floor budget items = items) {x y : α} (hx : x ∈ dropped)
    (hy : y ∈ keep size stamp floor budget items) : stamp x ≤ stamp y := by
  unfold Ordered at h
  rw [← hd] at h
  exact (List.pairwise_append.mp h).2.2 x hx y hy

end Lib
