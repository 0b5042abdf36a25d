/-
  Slots that are pinned once their value is known: from then on they never change.

  `Pinned known x y` says that going from `x` to `y` respects this. It is a preorder, so
  a slot that every step respects is respected by every run (`System.foldl_rel`).
-/
import Mathlib.Data.Option.Basic

namespace Lib

variable {α : Type*} {known : α → Prop} {x y z : α}

/-- If the value before is known, the value after is the same. -/
def Pinned (known : α → Prop) (x y : α) : Prop := known x → y = x

namespace Pinned

theorem refl (x : α) : Pinned known x x := fun _ => rfl

theorem of_eq (h : y = x) : Pinned known x y := fun _ => h

/-- A slot whose value is not known yet may be written. -/
theorem of_unknown (h : ¬ known x) : Pinned known x y := fun hx => absurd hx h

theorem trans (h : Pinned known x y) (h' : Pinned known y z) : Pinned known x z := by
  intro hx
  obtain rfl := h hx
  exact h' hx

end Pinned

end Lib
