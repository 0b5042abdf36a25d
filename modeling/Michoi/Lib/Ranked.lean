/-
  The first answer in the order of a rank: a list is sorted, and the first of its elements
  that answers decides (`findSome?_mergeSort_eq_some_iff`).

  The order needs to be one on the elements of the list only.
-/
import Mathlib.Data.List.Sort

namespace Michoi.Ranked

variable {α β : Type}

/-- What ranks the elements of a list: `le` is a linear order on them. -/
structure Ranks (le : α → α → Bool) (l : List α) : Prop where
  trans : ∀ a ∈ l, ∀ b ∈ l, ∀ c ∈ l, le a b → le b c → le a c
  total : ∀ a ∈ l, ∀ b ∈ l, le a b ∨ le b a
  antisymm : ∀ a ∈ l, ∀ b ∈ l, le a b → le b a → a = b

variable {le : α → α → Bool} {l : List α}

/-- The sort of a list whose elements are ordered is sorted. -/
theorem Ranks.pairwise_mergeSort (h : Ranks le l) :
    (l.mergeSort le).Pairwise fun a b => le a b = true := by
  have hsort : l.mergeSort le =
      (l.attach.mergeSort fun a b => le a.1 b.1).map Subtype.val := by
    rw [List.map_mergeSort (s := le) (fun _ _ _ _ => rfl), List.attach_map_subtype_val]
  rw [hsort, List.pairwise_map]
  apply List.pairwise_mergeSort
  · intro a b c
    exact h.trans a.1 a.2 b.1 b.2 c.1 c.2
  · intro a b
    simpa using h.total a.1 a.2 b.1 b.2

/-- In a sorted list the first element that answers stands before all that would answer. -/
theorem exists_of_findSome?_eq_some {f : α → Option β} {b : β}
    (hsorted : l.Pairwise fun a b => le a b = true) (hrefl : ∀ a ∈ l, le a a)
    (h : l.findSome? f = some b) :
    ∃ a ∈ l, f a = some b ∧ ∀ a' ∈ l, (f a').isSome → le a a' := by
  obtain ⟨before, a, after, rfl, hfa, hbefore⟩ := List.findSome?_eq_some_iff.mp h
  have hafter := (List.pairwise_cons.mp (List.pairwise_append.mp hsorted).2.1).1
  refine ⟨a, by simp, hfa, fun a' ha' hanswers => ?_⟩
  rcases List.mem_append.mp ha' with hmem | hmem
  · rw [hbefore a' hmem] at hanswers
    cases hanswers
  · rcases List.mem_cons.mp hmem with rfl | hmem
    · exact hrefl a' (by simp)
    · exact hafter a' hmem

/-- **The answer is the one of the first in rank that has one.** -/
theorem findSome?_mergeSort_eq_some_iff (h : Ranks le l) {f : α → Option β} {b : β} :
    (l.mergeSort le).findSome? f = some b ↔
      ∃ a ∈ l, f a = some b ∧ ∀ a' ∈ l, (f a').isSome → le a a' := by
  have hrefl : ∀ a ∈ l.mergeSort le, le a a := fun a ha =>
    have ha := List.mem_mergeSort.mp ha
    (h.total a ha a ha).elim id id
  constructor
  · intro hfound
    obtain ⟨a, ha, hfa, hfirst⟩ :=
      exists_of_findSome?_eq_some h.pairwise_mergeSort hrefl hfound
    exact ⟨a, List.mem_mergeSort.mp ha, hfa, fun a' ha' =>
      hfirst a' (List.mem_mergeSort.mpr ha')⟩
  · rintro ⟨a, ha, hfa, hfirst⟩
    -- Some element answers, and there is only one first.
    have hsome : ((l.mergeSort le).findSome? f).isSome :=
      List.findSome?_isSome_iff.mpr ⟨a, List.mem_mergeSort.mpr ha, by simp [hfa]⟩
    obtain ⟨b', hb'⟩ := Option.isSome_iff_exists.mp hsome
    obtain ⟨a', ha', hfa', hfirst'⟩ := exists_of_findSome?_eq_some h.pairwise_mergeSort hrefl hb'
    have hmem' := List.mem_mergeSort.mp ha'
    have hsame : a = a' := h.antisymm a ha a' hmem' (hfirst a' hmem' (by simp [hfa']))
      (hfirst' a (List.mem_mergeSort.mpr ha) (by simp [hfa]))
    rw [hb', ← hfa', ← hsame, hfa]

end Michoi.Ranked
