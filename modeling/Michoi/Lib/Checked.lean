/-
  Computations that may panic: indexing, slicing, unwrapping, subtracting and looping, each
  with the check that the machine makes.

  * `bind_eq_ok_iff`: what a sequence of two fallible computations returns.
  * `index_of_lt`, `slice_of_le`, `dropTo_of_le`, `sub_of_le`, `toArray_of_length`: what a
    checked operation gives where its check holds.
  * `Yields x post`: `x` returns, and what it returns meets the postcondition. One rule for a
    sequence (`Yields.bind`) and one for each operation.
  * `Yields.loop`: the rule for a loop with an invariant and a measure, which also bounds its
    rounds.
-/
import Mathlib.Data.List.Basic

namespace Lib

universe u

/-! ## Sequences -/

section Except

variable {ε : Type*} {α β : Type u}

@[simp] theorem ok_bind (a : α) (f : α → Except ε β) : (Except.ok a >>= f) = f a := rfl

@[simp] theorem error_bind (e : ε) (f : α → Except ε β) :
    (Except.error e >>= f) = .error e := rfl

theorem bind_eq_ok_iff {x : Except ε α} {f : α → Except ε β} {b : β} :
    (x >>= f) = .ok b ↔ ∃ a, x = .ok a ∧ f a = .ok b := by
  cases x with
  | error e => simp
  | ok a => simp

end Except

/-! ## Checked operations -/

/-- Why a computation panics, or that it never returns. -/
inductive Panic where
  | outOfBounds | badRange | unwrapped | spins | overflow
  deriving DecidableEq, Repr

abbrev Checked := Except Panic

namespace Checked

variable {α β σ : Type u}

/-- `xs[i]`. -/
def index (xs : List α) (i : Nat) : Checked α :=
  match xs[i]? with
  | some x => .ok x
  | none => .error .outOfBounds

/-- `&xs[i..j]`. -/
def slice (xs : List α) (i j : Nat) : Checked (List α) :=
  if i ≤ j ∧ j ≤ xs.length then .ok ((xs.take j).drop i) else .error .badRange

/-- `&xs[i..]`. -/
def dropTo (xs : List α) (i : Nat) : Checked (List α) :=
  if i ≤ xs.length then .ok (xs.drop i) else .error .badRange

/-- `x.unwrap()`. -/
def unwrap : Option α → Checked α
  | some x => .ok x
  | none => .error .unwrapped

/-- A conversion of a slice to an array of `n` elements, unwrapped. -/
def toArray (n : Nat) (xs : List α) : Checked (Vector α n) :=
  unwrap (if h : xs.length = n then some ⟨xs.toArray, h⟩ else none)

/-- A subtraction of unsigned integers. -/
def sub (a b : Nat) : Checked Nat := if b ≤ a then .ok (a - b) else .error .overflow

/-- A loop of at most so many rounds: each goes on with a new state or returns. -/
def loop (step : σ → Checked (σ ⊕ β)) : Nat → σ → Checked β
  | 0, _ => .error .spins
  | rounds + 1, s => do
      match ← step s with
      | .inl s => loop step rounds s
      | .inr b => return b

theorem index_of_lt {xs : List α} {i : Nat} (h : i < xs.length) (d : α) :
    index xs i = .ok (xs.getD i d) := by
  unfold index
  rw [List.getElem?_eq_getElem h, List.getD_eq_getElem?_getD, List.getElem?_eq_getElem h]
  rfl

theorem slice_of_le {xs : List α} {i j : Nat} (h : i ≤ j) (hj : j ≤ xs.length) :
    slice xs i j = .ok ((xs.take j).drop i) := if_pos ⟨h, hj⟩

theorem dropTo_of_le {xs : List α} {i : Nat} (h : i ≤ xs.length) :
    dropTo xs i = .ok (xs.drop i) := if_pos h

theorem sub_of_le {a b : Nat} (h : b ≤ a) : sub a b = .ok (a - b) := if_pos h

theorem toArray_of_length {xs : List α} {n : Nat} (h : xs.length = n) :
    toArray n xs = .ok ⟨xs.toArray, h⟩ := by
  unfold toArray
  rw [dif_pos h]
  rfl

/-! ## Postconditions -/

/-- The computation returns, and what it returns meets the postcondition. -/
def Yields (x : Checked α) (post : α → Prop) : Prop := ∃ a, x = .ok a ∧ post a

/-- The computation returns. -/
abbrev Returns (x : Checked α) : Prop := Yields x fun _ => True

namespace Yields

variable {post : α → Prop} {post' : β → Prop}

theorem ok {a : α} (h : post a) : Yields (.ok a) post := ⟨a, rfl, h⟩

theorem bind {x : Checked α} {f : α → Checked β} (hx : Yields x post)
    (hf : ∀ a, post a → Yields (f a) post') : Yields (x >>= f) post' := by
  obtain ⟨a, rfl, ha⟩ := hx
  exact hf a ha

theorem index {xs : List α} {i : Nat} (h : i < xs.length) :
    Yields (index xs i) fun x => xs[i]? = some x := by
  unfold Checked.index
  rw [List.getElem?_eq_getElem h]
  exact ok rfl

theorem slice {xs : List α} {i j : Nat} (h : i ≤ j) (hj : j ≤ xs.length) :
    Yields (slice xs i j) fun ys => ys = (xs.take j).drop i ∧ ys.length = j - i := by
  refine ⟨_, slice_of_le h hj, rfl, ?_⟩
  rw [List.length_drop, List.length_take]
  omega

theorem dropTo {xs : List α} {i : Nat} (h : i ≤ xs.length) :
    Yields (dropTo xs i) fun ys => ys = xs.drop i ∧ ys.length = xs.length - i :=
  ⟨_, dropTo_of_le h, rfl, List.length_drop⟩

theorem toArray {xs : List α} {n : Nat} (h : xs.length = n) :
    Yields (toArray n xs) fun v => v.toList = xs :=
  ⟨_, toArray_of_length h, rfl⟩

/-- What a round leaves: a state that keeps the invariant and is smaller, or the result. -/
def AfterRound (inv : σ → Prop) (μ : σ → Nat) (post' : β → Prop) (s : σ) : σ ⊕ β → Prop
  | .inl s' => inv s' ∧ μ s' < μ s
  | .inr b => post' b

/-- The rule for loops. -/
theorem loop {step : σ → Checked (σ ⊕ β)} (inv : σ → Prop) (μ : σ → Nat)
    (hstep : ∀ s, inv s → Yields (step s) (AfterRound inv μ post' s))
    {rounds : Nat} {s : σ} (hs : inv s) (hrounds : μ s < rounds) :
    Yields (loop step rounds s) post' := by
  induction rounds generalizing s with
  | zero => omega
  | succ rounds ih =>
      unfold Checked.loop
      refine (hstep s hs).bind fun r hr => ?_
      cases r with
      | inl s' => exact ih hr.1 (by have := hr.2; omega)
      | inr b => exact ok hr

end Yields

end Checked

end Lib
