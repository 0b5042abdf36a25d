/-
  Openings and closings that come in pairs, and a log that tells changes after they were
  made.

  * `InPairs`: each opening is closed before the next one, the last one perhaps not yet.
  * `ToldFirst`: the log tells the changes in their order, and those that are not told yet are
    in the hands of whoever made them, one each. `ToldFirst.tell` is the rule for a schedule:
    whoever tells while all others with something to tell have made their change after it
    tells the next one.
-/
import Michoi.Lib.Since
import Mathlib.Data.List.Induction
import Mathlib.Data.List.Nodup

namespace Lib

/-- Something is opened or closed. -/
inductive Bracket (κ : Type*) where
  | opened (k : κ)
  | closed (k : κ)
  deriving DecidableEq, Repr

namespace Bracket

variable {κ : Type*}

def pair (k : κ) : List (Bracket κ) := [opened k, closed k]

/-- What is open after it. -/
def open? : Bracket κ → Option κ
  | opened k => some k
  | closed _ => none

end Bracket

/-- Each opening is followed by its closing, but for the last one where something is open. -/
def InPairs {κ : Type*} (log : List (Bracket κ)) (current : Option κ) : Prop :=
  ∃ ks : List κ, log = ks.flatMap Bracket.pair ++ (current.map Bracket.opened).toList

namespace InPairs

variable {κ : Type*} {log log' : List (Bracket κ)} {k k' : κ} {current current' : Option κ}

theorem nil : InPairs ([] : List (Bracket κ)) none := ⟨[], rfl⟩

theorem opened (h : InPairs log none) (k : κ) : InPairs (log ++ [.opened k]) (some k) := by
  obtain ⟨ks, rfl⟩ := h
  exact ⟨ks, by simp⟩

theorem closed (h : InPairs log (some k)) : InPairs (log ++ [.closed k]) none := by
  obtain ⟨ks, rfl⟩ := h
  exact ⟨ks ++ [k], by simp [Bracket.pair]⟩

/-- The last entry says what is open. -/
theorem current_eq (h : InPairs log current) : current = log.getLast?.bind Bracket.open? := by
  obtain ⟨ks, rfl⟩ := h
  cases current with
  | some k => simp [Bracket.open?]
  | none =>
      induction ks using List.reverseRecOn with
      | nil => rfl
      | append_singleton ks k => simp [Bracket.pair, Bracket.open?]

theorem unique (h : InPairs log current) (h' : InPairs log current') : current = current' :=
  h.current_eq.trans h'.current_eq.symm

/-- Nothing is opened while something is open. -/
theorem not_reopened (h : InPairs log (some k)) : ¬ InPairs (log ++ [.opened k']) current := by
  intro hreopened
  obtain rfl : current = some k' := by
    rw [hreopened.current_eq, List.getLast?_concat]
    rfl
  obtain ⟨ks, heq⟩ := hreopened
  have hclosed : InPairs log none := ⟨ks, by simpa using heq⟩
  cases h.unique hclosed

/-- Nothing is closed while nothing is open. -/
theorem not_closed (h : InPairs log none) : ¬ InPairs (log ++ [.closed k']) current := by
  intro hclosed
  obtain rfl : current = none := by
    rw [hclosed.current_eq, List.getLast?_concat]
    rfl
  obtain ⟨ks, heq⟩ := hclosed
  cases ks using List.reverseRecOn with
  | nil => simp at heq
  | append_singleton ks k =>
      have hlast : log ++ [.closed k'] =
          (ks.flatMap Bracket.pair ++ [.opened k]) ++ [.closed k] := by
        simpa [Bracket.pair] using heq
      have hopened : InPairs log (some k) := ⟨ks, (List.append_inj' hlast rfl).1⟩
      cases h.unique hopened

/-- A log that is in pairs was so all along. -/
theorem of_prefix (h : InPairs log current) (hp : log' <+: log) :
    ∃ current', InPairs log' current' := by
  obtain ⟨ks, rfl⟩ := h
  induction ks generalizing log' with
  | nil =>
      cases current with
      | none =>
          rw [List.prefix_nil.mp hp]
          exact ⟨none, .nil⟩
      | some k =>
          rcases List.prefix_cons_iff.mp hp with rfl | ⟨rest, rfl, hrest⟩
          · exact ⟨none, .nil⟩
          · rw [List.prefix_nil.mp hrest]
            exact ⟨some k, .opened .nil k⟩
  | cons k ks ih =>
      rw [List.flatMap_cons, List.append_assoc] at hp
      rcases List.prefix_cons_iff.mp hp with rfl | ⟨fromClosed, rfl, hclosed⟩
      · exact ⟨none, .nil⟩
      rcases List.prefix_cons_iff.mp hclosed with rfl | ⟨rest, rfl, hrest⟩
      · exact ⟨some k, .opened .nil k⟩
      obtain ⟨current', js, rfl⟩ := ih hrest
      exact ⟨current', k :: js, rfl⟩

end InPairs

/-! ## A log that tells changes in turn -/

/-- The changes, with those who made them, are those told, followed by those that are still to
    be told, at most one for each who has made one. -/
def ToldFirst {ι β : Type*} (changes told : List (ι × β)) (pending : ι → Option β) : Prop :=
  ∃ rest, changes = told ++ rest ∧ (rest.map Prod.fst).Nodup ∧
    ∀ i b, (i, b) ∈ rest ↔ pending i = some b

namespace ToldFirst

variable {ι β : Type*} {changes told : List (ι × β)} {pending pending' : ι → Option β} {i : ι}
  {b : β}

theorem nil : ToldFirst ([] : List (ι × β)) [] fun _ => none :=
  ⟨[], rfl, List.nodup_nil, fun _ _ => iff_of_false List.not_mem_nil nofun⟩

theorem told_prefix (h : ToldFirst changes told pending) : told <+: changes := by
  obtain ⟨rest, rfl, -⟩ := h
  exact List.prefix_append told rest

/-- Where nothing is left to be told, all is told. -/
theorem told_eq (h : ToldFirst changes told pending) (hnone : ∀ i, pending i = none) :
    told = changes := by
  obtain ⟨rest, rfl, -, hmem⟩ := h
  cases rest with
  | nil => exact (List.append_nil told).symm
  | cons first rest =>
      have hfirst := (hmem first.1 first.2).mp List.mem_cons_self
      rw [hnone] at hfirst
      cases hfirst

theorem congr (h : ToldFirst changes told pending) (hp : ∀ i, pending' i = pending i) :
    ToldFirst changes told pending' := by
  obtain ⟨rest, rfl, hnodup, hmem⟩ := h
  exact ⟨rest, rfl, hnodup, fun i b => by rw [hp, hmem]⟩

/-- A change is made, and is still to be told. -/
theorem change (h : ToldFirst changes told pending) (hi : pending i = none)
    (hi' : pending' i = some b) (hother : ∀ j, j ≠ i → pending' j = pending j) :
    ToldFirst (changes ++ [(i, b)]) told pending' := by
  obtain ⟨rest, rfl, hnodup, hmem⟩ := h
  have hno : ∀ c, (i, c) ∉ rest := by
    intro c hc
    rw [(hmem i c).mp hc] at hi
    cases hi
  refine ⟨rest ++ [(i, b)], List.append_assoc .., ?_, fun j c => ?_⟩
  · rw [List.map_append]
    refine hnodup.append (List.nodup_singleton i) ?_
    intro j hj hji
    obtain ⟨⟨k, c⟩, hc, rfl⟩ := List.mem_map.mp hj
    obtain rfl : k = i := List.mem_singleton.mp hji
    exact hno c hc
  · rw [List.mem_append, List.mem_singleton]
    by_cases hj : j = i
    · subst hj
      rw [hi']
      constructor
      · rintro (hc | hc)
        · exact absurd hc (hno c)
        · rw [(Prod.mk.inj hc).2]
      · intro hc
        rw [Option.some.inj hc]
        exact .inr rfl
    · rw [hother j hj, hmem]
      exact or_iff_left fun he => hj (Prod.mk.inj he).1

/-- Whoever tells while all others with something to tell have made their change later tells
    the earliest change that is not told yet. -/
theorem tell [DecidableEq ι] (h : ToldFirst changes told pending) (hi : pending i = some b)
    (hi' : pending' i = none) (hother : ∀ j, j ≠ i → pending' j = pending j)
    (hlater : ∀ j, j ≠ i → pending j ≠ none → j ∈ notedAfter i (changes.map Prod.fst)) :
    ToldFirst changes (told ++ [(i, b)]) pending' := by
  obtain ⟨rest, rfl, hnodup, hmem⟩ := h
  obtain ⟨before, after, rfl⟩ := List.append_of_mem ((hmem i b).mpr hi)
  rw [List.map_append, List.map_cons] at hnodup
  obtain ⟨-, hafter, hdisj⟩ := List.nodup_append.mp hnodup
  have hsince : notedAfter i ((told ++ (before ++ (i, b) :: after)).map Prod.fst) =
      (after.map Prod.fst).reverse := by
    rw [← List.append_assoc, List.map_append, List.map_cons]
    exact notedAfter_append_mark (List.nodup_cons.mp hafter).1
  -- A change before this one is another's, who would have made it later.
  have hnil : before = [] := by
    rw [List.eq_nil_iff_forall_not_mem]
    rintro ⟨j, c⟩ hj
    have hin : j ∈ before.map Prod.fst := List.mem_map_of_mem hj
    have hji : j ≠ i := hdisj j hin i List.mem_cons_self
    have hpending : pending j = some c := (hmem j c).mp (List.mem_append_left _ hj)
    have hlate := hlater j hji (by rw [hpending]; nofun)
    rw [hsince, List.mem_reverse] at hlate
    exact hdisj j hin j (List.mem_cons_of_mem _ hlate) rfl
  subst hnil
  refine ⟨after, by rw [List.nil_append, List.append_cons], (List.nodup_cons.mp hafter).2,
    fun j c => ?_⟩
  have hold := hmem j c
  rw [List.nil_append, List.mem_cons] at hold
  by_cases hj : j = i
  · subst hj
    rw [hi']
    refine iff_of_false (fun hc => ?_) nofun
    exact (List.nodup_cons.mp hafter).1 (List.mem_map.mpr ⟨_, hc, rfl⟩)
  · rw [hother j hj, ← hold]
    exact (or_iff_right fun he => hj (Prod.mk.inj he).1).symm

end ToldFirst

end Lib
