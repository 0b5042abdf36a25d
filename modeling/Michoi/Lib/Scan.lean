/-
  Reading a list element by element up to a mark, with a limit on what is read.

  * `scan`: what was taken, mark included, and what is left.
  * `EndsFirst mark xs`: the mark ends `xs`, and no shorter prefix of it.
  * `scan_append`: such a list is read exactly, whatever follows it, unless it is too long.
  * `scan_found`: conversely, what was taken and what is left are the input.
  * `endsFirst_line`, `endsFirst_lines`: a line up to its end, and lines up to an empty one.
-/
import Mathlib.Data.List.Infix

namespace Lib

variable {α : Type*}

/-- How a scan ends: with the mark, over the limit, or at the end of the input. -/
inductive Scanned (α : Type*) where
  | found (taken rest : List α)
  | long
  | ended
  deriving DecidableEq, Repr

/-- The next elements are taken until what was taken ends with the mark; more than `limit`
    elements without it are too many. -/
def scan [DecidableEq α] (mark : List α) (limit : Nat) (taken : List α) : List α → Scanned α
  | [] => .ended
  | x :: rest =>
      if mark <:+ taken ++ [x] then .found (taken ++ [x]) rest
      else if limit < (taken ++ [x]).length then .long
      else scan mark limit (taken ++ [x]) rest

/-- The mark ends the list, and nothing before its end. -/
structure EndsFirst (mark xs : List α) : Prop where
  ends : mark <:+ xs
  first : ∀ ys, ys <+: xs → mark <:+ ys → ys = xs

section

variable [DecidableEq α] {mark taken xs rest : List α} {limit : Nat}

/-- What is left to take of a list that the mark ends first. -/
theorem scan_from (h : EndsFirst mark (taken ++ xs)) (hxs : xs ≠ [])
    (htaken : taken.length ≤ limit) :
    scan mark limit taken (xs ++ rest) =
      if (taken ++ xs).length ≤ limit + 1 then .found (taken ++ xs) rest else .long := by
  induction xs generalizing taken with
  | nil => exact absurd rfl hxs
  | cons x xs ih =>
      have hassoc : taken ++ x :: xs = taken ++ [x] ++ xs := by simp
      rw [List.cons_append, scan]
      cases xs with
      | nil => rw [if_pos h.ends, List.nil_append, if_pos (by simp; omega)]
      | cons y ys =>
          have hlater : ¬ mark <:+ taken ++ [x] := by
            intro hends
            have heq := h.first (taken ++ [x]) (by rw [hassoc]; exact List.prefix_append _ _) hends
            rw [hassoc] at heq
            simp at heq
          rw [if_neg hlater]
          by_cases hlong : limit < (taken ++ [x]).length
          · rw [if_pos hlong, if_neg]
            simp only [List.length_append, List.length_cons, List.length_nil] at hlong ⊢
            omega
          · rw [if_neg hlong, hassoc]
            exact ih (hassoc ▸ h) (by simp) (by omega)

/-- **A list that the mark ends first is read exactly**, within the limit. -/
theorem scan_append (h : EndsFirst mark xs) (hxs : xs ≠ []) (rest : List α) :
    scan mark limit [] (xs ++ rest) =
      if xs.length ≤ limit + 1 then .found xs rest else .long :=
  @scan_from α _ mark [] xs rest limit h hxs (Nat.zero_le _)

theorem scan_found {taken' rest' : List α} (h : scan mark limit taken xs = .found taken' rest') :
    taken' ++ rest' = taken ++ xs ∧ rest'.length < xs.length ∧ mark <:+ taken' := by
  induction xs generalizing taken with
  | nil => cases h
  | cons x xs ih =>
      rw [scan] at h
      split at h
      · next hends =>
          obtain ⟨rfl, rfl⟩ := Scanned.found.inj h
          exact ⟨by simp, by simp, hends⟩
      · split at h
        · cases h
        · obtain ⟨heq, hlt, hends⟩ := ih h
          exact ⟨by rw [heq]; simp, by rw [List.length_cons]; omega, hends⟩

/-- What breaks off before its mark is not read. -/
theorem scan_part {part taken' rest' : List α} (h : EndsFirst mark xs) (hpart : part <+: xs)
    (hne : part ≠ xs) : scan mark limit [] part ≠ .found taken' rest' := by
  intro hfound
  obtain ⟨heq, -, hends⟩ := scan_found hfound
  rw [List.nil_append] at heq
  have hin : taken' <+: part := heq ▸ List.prefix_append ..
  obtain rfl := h.first taken' (hin.trans hpart) hends
  exact hne (hpart.eq_of_length_le hin.length_le)

end

/-! ## Lines -/

section

variable {cr lf : α} {line : List α}

/-- A line is ended by its first line end. -/
theorem endsFirst_line (h : cr ∉ line) : EndsFirst [cr, lf] (line ++ [cr, lf]) := by
  refine ⟨List.suffix_append _ _, ?_⟩
  rintro ys hprefix ⟨before, rfl⟩
  obtain ⟨after, heq⟩ := hprefix
  have hat : (line ++ [cr, lf])[before.length]? = some cr := by
    rw [← heq]
    simp
  have hpos : line.length ≤ before.length := by
    by_contra hlt
    rw [List.getElem?_append_left (by omega)] at hat
    exact h (List.mem_of_getElem? hat)
  have hlen := congrArg List.length heq
  simp only [List.length_append, List.length_cons, List.length_nil] at hlen
  obtain rfl : after = [] := List.length_eq_zero_iff.mp (by omega)
  rw [List.append_nil] at heq
  exact heq

/-- The lines of a head, each with its end. -/
def headLines (cr lf : α) (lines : List (List α)) : List α :=
  lines.flatMap fun line => line ++ [cr, lf]

/-- In a head, two line ends next to each other are its end. -/
theorem length_of_blank_line {lines : List (List α)} (hne : cr ≠ lf)
    (hlines : ∀ line ∈ lines, cr ∉ line ∧ line ≠ []) {i : Nat}
    (h : (headLines cr lf lines ++ [cr, lf])[i]? = some cr)
    (h' : (headLines cr lf lines ++ [cr, lf])[i + 2]? = some cr) :
    i + 4 = (headLines cr lf lines ++ [cr, lf]).length := by
  induction lines generalizing i with
  | nil =>
      simp only [headLines, List.flatMap_nil, List.nil_append] at h h' ⊢
      rw [List.getElem?_eq_none (by simp)] at h'
      cases h'
  | cons line lines ih =>
      obtain ⟨hcr, -⟩ := hlines line List.mem_cons_self
      have hrest : headLines cr lf (line :: lines) ++ [cr, lf] =
          line ++ (cr :: lf :: (headLines cr lf lines ++ [cr, lf])) := by
        simp [headLines]
      rw [hrest] at h h' ⊢
      have hge : line.length ≤ i := by
        by_contra hlt
        rw [List.getElem?_append_left (by omega)] at h
        exact hcr (List.mem_of_getElem? h)
      rw [List.getElem?_append_right (by omega)] at h h'
      obtain ⟨k, rfl⟩ := Nat.exists_eq_add_of_le hge
      rw [Nat.add_sub_cancel_left] at h
      rw [show line.length + k + 2 - line.length = k + 2 by omega] at h'
      rw [List.length_append, List.length_cons, List.length_cons]
      match k with
      | 0 =>
          -- The next line would start with a line end, so there is none.
          cases lines with
          | nil => simp [headLines]
          | cons next lines =>
              obtain ⟨hcr', hnext⟩ := hlines next (by simp)
              obtain ⟨x, xs, rfl⟩ := List.exists_cons_of_ne_nil hnext
              simp [headLines] at h'
              exact absurd (h' ▸ List.mem_cons_self) hcr'
      | 1 => exact absurd (Option.some.inj h).symm hne
      | k + 2 =>
          have := ih (fun l hl => hlines l (List.mem_cons_of_mem _ hl)) (i := k) h h'
          omega

/-- The lines of a head are ended by its empty line. -/
theorem endsFirst_lines {lines : List (List α)} (hne : cr ≠ lf)
    (hlines : ∀ line ∈ lines, cr ∉ line ∧ line ≠ []) (hsome : lines ≠ []) :
    EndsFirst [cr, lf, cr, lf] (headLines cr lf lines ++ [cr, lf]) := by
  constructor
  · obtain ⟨front, last, rfl⟩ := List.eq_nil_or_concat lines |>.resolve_left hsome
    rw [List.concat_eq_append, headLines, List.flatMap_append]
    exact ⟨headLines cr lf front ++ last, by simp [headLines]⟩
  · rintro ys hprefix ⟨before, rfl⟩
    obtain ⟨after, heq⟩ := hprefix
    have hlen := length_of_blank_line hne hlines (i := before.length)
      (by rw [← heq]; simp) (by rw [← heq]; simp)
    have hlen' := congrArg List.length heq
    rw [← hlen] at hlen'
    simp only [List.length_append, List.length_cons, List.length_nil] at hlen'
    obtain rfl : after = [] := List.length_eq_zero_iff.mp (by omega)
    rw [List.append_nil] at heq
    exact heq

end

end Lib
