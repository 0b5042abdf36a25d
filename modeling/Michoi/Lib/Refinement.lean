/-
  Refinement of a step relation by a system: under an invariant, each step of the system is a
  step between the images of its states, or leaves the image as it is. Then so is each run
  (`run_refines`), and what the abstract steps keep holds of the images of the states of the
  run (`run_refines_invariant`).
-/
import Michoi.Lib.System
import Mathlib.Logic.Relation

namespace Lib.System

variable {σ α τ : Type*} {M : System σ α} {inv : σ → Prop} {ok : α → Prop} {f : σ → τ}
  {r : τ → τ → Prop}

/-- Each step from a state with the invariant keeps it, and is an abstract step or none. -/
structure Refines (M : System σ α) (inv : σ → Prop) (ok : α → Prop) (f : σ → τ)
    (r : τ → τ → Prop) : Prop where
  keeps : ∀ s a t, inv s → ok a → M.next s a = some t → inv t
  step : ∀ s a t, inv s → ok a → M.next s a = some t → f t = f s ∨ r (f s) (f t)

/-- A run is a sequence of abstract steps. -/
theorem run_refines (h : Refines M inv ok f r) {s t : σ} {as : List α} (hs : inv s)
    (hok : ∀ a ∈ as, ok a) (hrun : M.run s as = some t) :
    inv t ∧ Relation.ReflTransGen r (f s) (f t) := by
  induction as generalizing s with
  | nil =>
      obtain rfl := Option.some.inj hrun
      exact ⟨hs, .refl⟩
  | cons a as ih =>
      obtain ⟨u, hu, hrest⟩ := exists_of_run_cons hrun
      have ha := hok a List.mem_cons_self
      obtain ⟨ht, hpath⟩ := ih (h.keeps s a u hs ha hu)
        (fun b hb => hok b (List.mem_cons_of_mem a hb)) hrest
      refine ⟨ht, ?_⟩
      rcases h.step s a u hs ha hu with hsame | hstep
      · exact hsame ▸ hpath
      · exact .head hstep hpath

/-- What the abstract steps keep. -/
theorem invariant_of_path {P : τ → Prop} (hstep : ∀ x y, P x → r x y → P y) {x y : τ} (hx : P x)
    (h : Relation.ReflTransGen r x y) : P y := by
  induction h with
  | refl => exact hx
  | tail _ hlast ih => exact hstep _ _ ih hlast

/-- Where the abstract steps are those of a system, it reaches what the run leads to. -/
theorem run_refines_reaches {β : Type*} {N : System τ β}
    (h : Refines M inv ok f fun x y => ∃ b, N.next x b = some y) {s t : σ} {as : List α}
    (hs : inv s) (hok : ∀ a ∈ as, ok a) (hrun : M.run s as = some t) : N.Reaches (f s) (f t) :=
  invariant_of_path (fun _ _ hx ⟨_, hb⟩ => hx.trans (.single hb)) (.refl _)
    (run_refines h hs hok hrun).2

theorem run_refines_invariant (h : Refines M inv ok f r) {P : τ → Prop}
    (hstep : ∀ x y, P x → r x y → P y) {s t : σ} {as : List α} (hs : inv s)
    (hok : ∀ a ∈ as, ok a) (hP : P (f s)) (hrun : M.run s as = some t) : P (f t) :=
  invariant_of_path hstep hP (run_refines h hs hok hrun).2

end Lib.System
