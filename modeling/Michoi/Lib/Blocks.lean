/-
  Cutting a stream into blocks of one length, with a buffer for what is left over.

  `Blocks n fed blocks rest`: the stream so far is some blocks of `n`, and the rest. A piece
  more goes to the rest, and a block is cut off the rest. Once the rest is shorter than a
  block, the blocks are all there are (`Blocks.flatten_eq`), however the stream came.
-/
import Mathlib.Data.List.Basic

namespace Lib

variable {α : Type*}

structure Blocks (n : Nat) (fed : List α) (blocks : List (List α)) (rest : List α) : Prop where
  sizes : ∀ block ∈ blocks, block.length = n
  whole : blocks.flatten ++ rest = fed

namespace Blocks

variable {n : Nat} {fed piece rest : List α} {blocks : List (List α)}

theorem nil : Blocks n ([] : List α) [] [] := ⟨nofun, rfl⟩

theorem feed (h : Blocks n fed blocks rest) (piece : List α) :
    Blocks n (fed ++ piece) blocks (rest ++ piece) where
  sizes := h.sizes
  whole := by rw [← List.append_assoc, h.whole]

theorem cut (h : Blocks n fed blocks rest) (hrest : n ≤ rest.length) :
    Blocks n fed (blocks ++ [rest.take n]) (rest.drop n) where
  sizes := by
    intro block hblock
    rcases List.mem_append.mp hblock with hblock | hblock
    · exact h.sizes block hblock
    · rw [List.mem_singleton.mp hblock, List.length_take, Nat.min_eq_left hrest]
  whole := by
    rw [List.flatten_append, List.flatten_singleton, List.append_assoc, List.take_append_drop,
      h.whole]

theorem length_flatten (h : Blocks n fed blocks rest) :
    blocks.flatten.length = n * blocks.length := by
  have hsizes := h.sizes
  clear h
  induction blocks with
  | nil => rfl
  | cons block blocks ih =>
      rw [List.flatten_cons, List.length_append, hsizes block List.mem_cons_self,
        ih fun b hb => hsizes b (List.mem_cons_of_mem _ hb), List.length_cons, Nat.mul_succ,
        Nat.add_comm]

/-- **The blocks are the stream**, up to the last whole block. -/
theorem flatten_eq (h : Blocks n fed blocks rest) (hrest : rest.length < n) :
    blocks.flatten = fed.take (n * (fed.length / n)) := by
  have hlength := h.length_flatten
  have hcount : fed.length / n = blocks.length := by
    rw [← h.whole, List.length_append, hlength]
    exact Nat.div_eq_of_lt_le (by rw [Nat.mul_comm]; omega)
      (by rw [Nat.succ_mul, Nat.mul_comm]; omega)
  rw [hcount, ← hlength, ← h.whole, List.take_left]

end Blocks

/-- Two streams that agree up to the last whole block of the longer one. -/
theorem take_blocks_eq {n : Nat} (hn : 0 < n) {common xs ys : List α} (hxs : common <+: xs)
    (hys : common <+: ys) (hle : xs.length ≤ ys.length)
    (hcommon : n * (ys.length / n) ≤ common.length) :
    xs.take (n * (xs.length / n)) = ys.take (n * (ys.length / n)) := by
  have hcount : xs.length / n = ys.length / n := by
    refine Nat.le_antisymm (Nat.div_le_div_right hle) ((Nat.le_div_iff_mul_le hn).mpr ?_)
    rw [Nat.mul_comm]
    exact Nat.le_trans hcommon hxs.length_le
  obtain ⟨more, rfl⟩ := hxs
  obtain ⟨more', rfl⟩ := hys
  rw [hcount, List.take_append_of_le_length hcommon, List.take_append_of_le_length hcommon]

end Lib
