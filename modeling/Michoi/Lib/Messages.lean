/-
  A stream of messages, each a head of lines up to an empty one and a body whose length the
  head states.

  `readMessages_prefix`: of a stream that breaks off anywhere, a reader has the messages that
  came in whole, in order, whatever stands in their bodies.
-/
import Michoi.Lib.Scan

namespace Lib

variable {α : Type*}

structure Framed (α : Type*) where
  lines : List (List α)
  body : List α
  deriving DecidableEq, Repr

namespace Framed

def bytes (cr lf : α) (m : Framed α) : List α := headLines cr lf m.lines ++ [cr, lf] ++ m.body

/-- The lines are lines, and the head states the length of the body. -/
structure WellFormed (cr : α) (length : List (List α) → Option Nat) (m : Framed α) : Prop where
  lines : ∀ line ∈ m.lines, cr ∉ line ∧ line ≠ []
  length : length m.lines = some m.body.length

end Framed

section

variable [DecidableEq α] (cr lf : α)

/-- The lines up to an empty one, and what follows it. A line is some elements at least, so
    they bound the lines. -/
def readHead : Nat → List α → Option (List (List α) × List α)
  | 0, _ => none
  | n + 1, got =>
      match scan [cr, lf] got.length [] got with
      | .found line rest =>
          let line := line.take (line.length - 2)
          if line = [] then some ([], rest)
          else (readHead n rest).map fun r => (line :: r.1, r.2)
      | .long | .ended => none

/-- The first message, where it is whole, and what follows it. -/
def readMessage (length : List (List α) → Option Nat) (got : List α) :
    Option (Framed α × List α) :=
  (readHead cr lf got.length got).bind fun r =>
    (length r.1).bind fun n =>
      if r.2.length < n then none else some (⟨r.1, r.2.take n⟩, r.2.drop n)

/-- The messages that are whole. -/
def readMessages (length : List (List α) → Option Nat) : Nat → List α → List (Framed α)
  | 0, _ => []
  | n + 1, got =>
      match readMessage cr lf length got with
      | none => []
      | some (m, rest) => m :: readMessages length n rest

variable {cr lf}

theorem scan_line {line : List α} (hline : cr ∉ line) (rest : List α) :
    scan [cr, lf] (line ++ [cr, lf] ++ rest).length [] (line ++ [cr, lf] ++ rest) =
      .found (line ++ [cr, lf]) rest := by
  rw [scan_append (endsFirst_line hline) (by simp),
    if_pos (by simp only [List.length_append]; omega)]

omit [DecidableEq α] in
theorem take_line (line : List α) :
    (line ++ [cr, lf]).take ((line ++ [cr, lf]).length - 2) = line := by simp

/-- A head reads back, whatever follows it. -/
theorem readHead_append {lines : List (List α)} (h : ∀ line ∈ lines, cr ∉ line ∧ line ≠ [])
    (rest : List α) {n : Nat} (hn : lines.length < n) :
    readHead cr lf n (headLines cr lf lines ++ [cr, lf] ++ rest) = some (lines, rest) := by
  induction lines generalizing n with
  | nil =>
      obtain ⟨n, rfl⟩ := Nat.exists_eq_add_one_of_ne_zero (Nat.ne_of_gt hn)
      have hscan : scan [cr, lf] (([] : List α) ++ [cr, lf] ++ rest).length []
          (([] : List α) ++ [cr, lf] ++ rest) = .found ([] ++ [cr, lf]) rest :=
        scan_line List.not_mem_nil rest
      change readHead cr lf (n + 1) ([] ++ [cr, lf] ++ rest) = _
      rw [readHead, hscan]
      rfl
  | cons line lines ih =>
      obtain ⟨⟨hcr, hne⟩, hlines⟩ := List.forall_mem_cons.mp h
      obtain ⟨n, rfl⟩ := Nat.exists_eq_add_one_of_ne_zero (Nat.ne_of_gt (Nat.zero_lt_of_lt hn))
      have hsplit : headLines cr lf (line :: lines) ++ [cr, lf] ++ rest =
          line ++ [cr, lf] ++ (headLines cr lf lines ++ [cr, lf] ++ rest) := by
        simp [headLines]
      rw [hsplit, readHead, scan_line hcr]
      dsimp only
      rw [take_line, if_neg hne, ih hlines (Nat.lt_of_succ_lt_succ hn), Option.map_some]

/-- A head that breaks off is not read. -/
theorem readHead_part {lines : List (List α)} (h : ∀ line ∈ lines, cr ∉ line ∧ line ≠ [])
    {part : List α} (hpart : part <+: headLines cr lf lines ++ [cr, lf])
    (hne : part ≠ headLines cr lf lines ++ [cr, lf]) (n : Nat) : readHead cr lf n part = none := by
  induction lines generalizing n part with
  | nil =>
      cases n with
      | zero => rfl
      | succ n =>
          rw [readHead]
          split
          · next hfound =>
              exact absurd hfound (scan_part (endsFirst_line List.not_mem_nil) hpart hne)
          · rfl
          · rfl
  | cons line lines ih =>
      obtain ⟨⟨hcr, hline⟩, hlines⟩ := List.forall_mem_cons.mp h
      have hsplit : headLines cr lf (line :: lines) ++ [cr, lf] =
          line ++ [cr, lf] ++ (headLines cr lf lines ++ [cr, lf]) := by
        simp [headLines]
      rw [hsplit] at hpart hne
      cases n with
      | zero => rfl
      | succ n =>
          by_cases hfirst : line ++ [cr, lf] <+: part
          · obtain ⟨more, rfl⟩ := hfirst
            have hmore := (List.prefix_append_right_inj _).mp hpart
            rw [readHead, scan_line hcr]
            dsimp only
            rw [take_line, if_neg hline, ih hlines hmore (fun heq => hne (heq ▸ rfl)) n,
              Option.map_none]
          · have hin : part <+: line ++ [cr, lf] :=
              (List.prefix_or_prefix_of_prefix hpart (List.prefix_append ..)).resolve_right hfirst
            have hne' : part ≠ line ++ [cr, lf] := fun heq => hfirst (heq ▸ List.prefix_rfl)
            rw [readHead]
            split
            · next hfound => exact absurd hfound (scan_part (endsFirst_line hcr) hin hne')
            · rfl
            · rfl

omit [DecidableEq α] in
theorem length_lines_lt (lines : List (List α)) (rest : List α) :
    lines.length < (headLines cr lf lines ++ [cr, lf] ++ rest).length := by
  have hle : lines.length ≤ (headLines cr lf lines).length := by
    induction lines with
    | nil => exact Nat.le_refl 0
    | cons line lines ih =>
        simp only [headLines, List.flatMap_cons, List.length_append, List.length_cons] at ih ⊢
        omega
  simp only [List.length_append, List.length_cons]
  omega

variable {length : List (List α) → Option Nat}

/-- A whole message is read, and what follows it is left. -/
theorem readMessage_append {m : Framed α} (h : m.WellFormed cr length) (rest : List α) :
    readMessage cr lf length (m.bytes cr lf ++ rest) = some (m, rest) := by
  unfold readMessage Framed.bytes
  rw [List.append_assoc _ m.body rest, readHead_append h.lines _ (length_lines_lt ..),
    Option.bind_some, h.length, Option.bind_some, if_neg (by simp), List.take_left,
    List.drop_left]

/-- A message that breaks off is not read. -/
theorem readMessage_part {m : Framed α} (h : m.WellFormed cr length) {part : List α}
    (hpart : part <+: m.bytes cr lf) (hne : part ≠ m.bytes cr lf) :
    readMessage cr lf length part = none := by
  unfold Framed.bytes at hpart hne
  unfold readMessage
  by_cases hhead : headLines cr lf m.lines ++ [cr, lf] <+: part
  · obtain ⟨more, rfl⟩ := hhead
    have hmore := (List.prefix_append_right_inj _).mp hpart
    have hshort : more.length < m.body.length := by
      by_contra hlong
      exact hne (hmore.eq_of_length_le (Nat.le_of_not_lt hlong) ▸ rfl)
    rw [readHead_append h.lines _ (length_lines_lt ..), Option.bind_some, h.length,
      Option.bind_some, if_pos hshort]
  · have hin : part <+: headLines cr lf m.lines ++ [cr, lf] :=
      (List.prefix_or_prefix_of_prefix hpart (List.prefix_append ..)).resolve_right hhead
    have hne' : part ≠ headLines cr lf m.lines ++ [cr, lf] := fun heq =>
      hhead (heq ▸ List.prefix_rfl)
    rw [readHead_part h.lines hin hne', Option.bind_none]

/-- **A stream of messages that breaks off anywhere.** -/
theorem readMessages_prefix {messages : List (Framed α)}
    (h : ∀ m ∈ messages, m.WellFormed cr length) {got : List α}
    (hgot : got <+: messages.flatMap (Framed.bytes cr lf)) {n : Nat} (hn : got.length ≤ n) :
    readMessages cr lf length n got <+: messages ∧
      (got = messages.flatMap (Framed.bytes cr lf) →
        readMessages cr lf length n got = messages) := by
  induction messages generalizing n got with
  | nil =>
      obtain rfl := List.prefix_nil.mp hgot
      have hnone : readMessages cr lf length n [] = [] := by
        cases n <;> rfl
      rw [hnone]
      exact ⟨List.prefix_rfl, fun _ => rfl⟩
  | cons m messages ih =>
      obtain ⟨hm, hmessages⟩ := List.forall_mem_cons.mp h
      rw [List.flatMap_cons] at hgot ⊢
      by_cases hwhole : m.bytes cr lf <+: got
      · obtain ⟨more, rfl⟩ := hwhole
        have hmore := (List.prefix_append_right_inj _).mp hgot
        have hpos : 0 < (m.bytes cr lf).length := by
          simp only [Framed.bytes, List.length_append, List.length_cons]
          omega
        rw [List.length_append] at hn
        obtain ⟨n, rfl⟩ := Nat.exists_eq_add_one_of_ne_zero (show n ≠ 0 by omega)
        rw [readMessages, readMessage_append hm]
        obtain ⟨hupto, hall⟩ := ih hmessages hmore (show more.length ≤ n by omega)
        exact ⟨List.cons_prefix_cons.mpr ⟨rfl, hupto⟩,
          fun heq => congrArg (m :: ·) (hall (List.append_cancel_left heq))⟩
      · have hpart : got <+: m.bytes cr lf :=
          (List.prefix_or_prefix_of_prefix hgot (List.prefix_append ..)).resolve_right hwhole
        have hne : got ≠ m.bytes cr lf := fun heq => hwhole (heq ▸ List.prefix_rfl)
        have hnone : readMessages cr lf length n got = [] := by
          cases n with
          | zero => rfl
          | succ n => rw [readMessages, readMessage_part hm hpart hne]
        rw [hnone]
        exact ⟨List.nil_prefix, fun heq => absurd (heq ▸ List.prefix_append ..) hwhole⟩

end

end Lib
