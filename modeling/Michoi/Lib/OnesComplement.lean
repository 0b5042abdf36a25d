/-
  Sums in ones' complement.

  A word is a number up to `m`, which is all ones. A carry out of the word is added back at
  its end, so a sum is the plain sum modulo `m`, and it is `m` rather than zero unless every
  word is zero (`SumsTo`). Hence the complement of a sum, put in the place of a zero word,
  makes the sum all ones (`sum_complement`).
-/
import Mathlib.Algebra.Order.Ring.Nat
import Mathlib.Data.List.Basic

namespace Lib

namespace OnesComplement

/-- The sum of two words, with the carry added back. -/
def add (m a b : Nat) : Nat := if m < a + b then a + b - m else a + b

def sum (m : Nat) (xs : List Nat) : Nat := xs.foldl (add m) 0

variable {m a b : Nat} {xs before after : List Nat}

theorem add_le (ha : a ≤ m) (hb : b ≤ m) : add m a b ≤ m := by
  unfold add
  split <;> omega

theorem add_mod (m a b : Nat) : add m a b % m = (a + b) % m := by
  unfold add
  split
  · exact (Nat.mod_eq_sub_mod (by omega)).symm
  · rfl

theorem add_eq_zero_iff : add m a b = 0 ↔ a + b = 0 := by
  unfold add
  split <;> omega

/-- What a sum of words is, from a first word on. -/
structure SumsTo (m total sum : Nat) : Prop where
  le : sum ≤ m
  mod : sum % m = total % m
  zero : sum = 0 ↔ total = 0

theorem SumsTo.add {total : Nat} (h : SumsTo m total a) (hb : b ≤ m) :
    SumsTo m (total + b) (add m a b) where
  le := add_le h.le hb
  mod := by rw [add_mod, Nat.add_mod, h.mod, ← Nat.add_mod]
  zero := by
    have := h.zero
    rw [add_eq_zero_iff]
    omega

theorem sumsTo_foldl {total : Nat} (h : SumsTo m total a) (hxs : ∀ x ∈ xs, x ≤ m) :
    SumsTo m (total + xs.sum) (xs.foldl (OnesComplement.add m) a) := by
  induction xs generalizing total a with
  | nil => simpa using h
  | cons x xs ih =>
      have hnext := ih (h.add (hxs x List.mem_cons_self))
        fun y hy => hxs y (List.mem_cons_of_mem _ hy)
      rw [List.sum_cons, ← Nat.add_assoc]
      exact hnext

theorem sumsTo_sum (hxs : ∀ x ∈ xs, x ≤ m) : SumsTo m xs.sum (sum m xs) := by
  have hzero : SumsTo m 0 0 := ⟨Nat.zero_le m, rfl, Iff.rfl⟩
  simpa [sum] using sumsTo_foldl hzero hxs

/-- A word is known from what it is modulo `m`, but for zero. -/
theorem SumsTo.eq_ones {total : Nat} (h : SumsTo m total a) (hpos : 0 < total)
    (hmod : total % m = 0) : a = m := by
  have hle := h.le
  have hne : a ≠ 0 := fun hzero => by
    have := h.zero.mp hzero
    omega
  obtain ⟨k, rfl⟩ : m ∣ a := Nat.dvd_of_mod_eq_zero (h.mod.trans hmod)
  have hk : k ≠ 0 := fun hk => hne (by rw [hk, Nat.mul_zero])
  have hm : m * 1 ≤ m * k := Nat.mul_le_mul_left m (Nat.pos_of_ne_zero hk)
  omega

/-- **The complement of the sum makes it all ones**, put in the place of a zero word. -/
theorem sum_complement (hm : 0 < m) (hbefore : ∀ x ∈ before, x ≤ m) (hafter : ∀ x ∈ after, x ≤ m) :
    sum m (before ++ (m - sum m (before ++ 0 :: after)) :: after) = m := by
  have hwords : ∀ w ≤ m, ∀ x ∈ before ++ w :: after, x ≤ m := by
    intro w hw x hx
    rcases List.mem_append.mp hx with hx | hx
    · exact hbefore x hx
    · rcases List.mem_cons.mp hx with rfl | hx
      · exact hw
      · exact hafter x hx
  have hfirst := sumsTo_sum (hwords 0 (Nat.zero_le m))
  generalize hs : sum m (before ++ 0 :: after) = s at hfirst
  have htotal : (before ++ (m - s) :: after).sum = (before ++ 0 :: after).sum + (m - s) := by
    simp only [List.sum_append, List.sum_cons]
    omega
  have hsecond := sumsTo_sum (hwords (m - s) (Nat.sub_le m s))
  rw [htotal] at hsecond
  refine hsecond.eq_ones ?_ ?_
  · have hzero := hfirst.zero
    omega
  · -- The total is congruent to the sum, so together with its complement to `m`.
    rw [Nat.add_mod, ← hfirst.mod, ← Nat.add_mod, Nat.add_sub_cancel' hfirst.le, Nat.mod_self]

end OnesComplement

end Lib
