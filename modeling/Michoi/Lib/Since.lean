/-
  What was noted since a mark.

  A thread that looks at a shared state and acts on it later acts on what may be gone. In a
  run that keeps notes (`System.withHistory`), the look is a mark among them, and
  `notedAfter` is what was noted after the last one.

  * `HeldSince`: what held at the mark holds still, or something was noted since that ended
    it. `HeldSince.append` keeps it over a step, whoever takes it; `HeldSince.holds` uses it
    where nothing was noted that could have ended it.
-/
import Mathlib.Data.List.TakeWhile

namespace Lib

variable {ν : Type*} [DecidableEq ν]

/-- What was noted after the last such mark, latest first. -/
def notedAfter (mark : ν) (notes : List ν) : List ν := notes.reverse.takeWhile (· != mark)

variable {mark n : ν} {notes new : List ν}

theorem notedAfter_append (h : mark ∉ new) : notedAfter mark (notes ++ new) =
    new.reverse ++ notedAfter mark notes := by
  unfold notedAfter
  rw [List.reverse_append, List.takeWhile_append_of_pos]
  intro k hk
  exact bne_iff_ne.mpr fun he => h (he ▸ List.mem_reverse.mp hk)

theorem notedAfter_append_mark (h : mark ∉ new) :
    notedAfter mark (notes ++ mark :: new) = new.reverse := by
  rw [List.append_cons, notedAfter_append h]
  unfold notedAfter
  rw [List.reverse_append, List.reverse_singleton, List.singleton_append, List.takeWhile_cons,
    if_neg (by simp), List.append_nil]

/-- What held at the last mark holds still, or a note since the mark says how it was lost. -/
def HeldSince (P : Prop) (mark : ν) (lost : ν → Prop) (notes : List ν) : Prop :=
  mark ∈ notes → P ∨ ∃ n ∈ notedAfter mark notes, lost n

namespace HeldSince

variable {P P' : Prop} {lost : ν → Prop}

theorem nil : HeldSince P mark lost [] := nofun

theorem append (h : HeldSince P mark lost notes) (hmark : mark ∈ new → P')
    (hkeep : P → P' ∨ ∃ n ∈ new, lost n) : HeldSince P' mark lost (notes ++ new) := by
  intro hin
  by_cases hnew : mark ∈ new
  · exact .inl (hmark hnew)
  rw [notedAfter_append hnew]
  rcases h ((List.mem_append.mp hin).resolve_right hnew) with hP | ⟨n, hn, hlost⟩
  · rcases hkeep hP with hP' | ⟨n, hn, hlost⟩
    · exact .inl hP'
    · exact .inr ⟨n, List.mem_append_left _ (List.mem_reverse.mpr hn), hlost⟩
  · exact .inr ⟨n, List.mem_append_right _ hn, hlost⟩

theorem holds (h : HeldSince P mark lost notes) (hmark : mark ∈ notes)
    (hno : ∀ n ∈ notedAfter mark notes, ¬ lost n) : P :=
  (h hmark).resolve_right fun ⟨n, hn, hlost⟩ => hno n hn hlost

end HeldSince

end Lib
