/-
  Pools of threads over one shared state.

  A program says when a thread may start, what one atomic step of a thread does, and what
  the world outside the pool may do. `Program.system` is the step system of all
  interleavings. Threads stay in the pool when they are finished, so a thread is known by
  its place.

  `next_cases` is the one inversion lemma; the lemmas after it say what a step leaves of
  a property of all threads or of some thread.
-/
import Michoi.Lib.System
import Mathlib.Data.List.Basic
import Mathlib.Data.List.GetD

namespace Lib

structure Pool (S L : Type*) where
  shared : S
  threads : List L
  deriving Repr

/-- One move of a pool: a new thread, one atomic step of a thread under what it reads
    from its environment, or something that happens outside. -/
inductive Move (L E B : Type*) where
  | start (l : L)
  | step (i : Nat) (e : E)
  | outside (b : B)

structure Program (S L E B : Type*) where
  mayStart : List L → L → Bool
  step : E → S → L → Option (S × L)
  outside : B → S → S

namespace Program

variable {S L E B : Type*} (P : Program S L E B)

/-- One step of the thread at place `i`. -/
def stepAt (p : Pool S L) (i : Nat) (e : E) : Option (Pool S L) :=
  (p.threads[i]?).bind fun l =>
    (P.step e p.shared l).map fun r => ⟨r.1, p.threads.set i r.2⟩

def next (p : Pool S L) : Move L E B → Option (Pool S L)
  | .start l => if P.mayStart p.threads l then some ⟨p.shared, p.threads ++ [l]⟩ else none
  | .step i e => P.stepAt p i e
  | .outside b => some ⟨P.outside b p.shared, p.threads⟩

/-- All interleavings of the program. -/
def system : System (Pool S L) (Move L E B) where
  next := P.next

variable {P}

theorem stepAt_eq_some {p q : Pool S L} {i : Nat} {e : E} (h : P.stepAt p i e = some q) :
    ∃ l s l', p.threads[i]? = some l ∧ P.step e p.shared l = some (s, l') ∧
      q = ⟨s, p.threads.set i l'⟩ := by
  obtain ⟨l, hl, hr⟩ := Option.bind_eq_some_iff.mp h
  obtain ⟨⟨s, l'⟩, hs, rfl⟩ := Option.map_eq_some_iff.mp hr
  exact ⟨l, s, l', hl, hs, rfl⟩

/-- Everything a move can do. -/
theorem next_cases {p q : Pool S L} {m : Move L E B} (h : P.system.next p m = some q) :
    (∃ l, m = .start l ∧ P.mayStart p.threads l = true ∧ q = ⟨p.shared, p.threads ++ [l]⟩) ∨
      (∃ i e l s l', m = .step i e ∧ p.threads[i]? = some l ∧
        P.step e p.shared l = some (s, l') ∧ q = ⟨s, p.threads.set i l'⟩) ∨
      (∃ b, m = .outside b ∧ q = ⟨P.outside b p.shared, p.threads⟩) := by
  cases m with
  | start l =>
      left
      change (if P.mayStart p.threads l then _ else _) = _ at h
      split at h
      · next hm => exact ⟨l, rfl, hm, (Option.some.inj h).symm⟩
      · cases h
  | step i e =>
      obtain ⟨l, s, l', hl, hs, hq⟩ := stepAt_eq_some h
      exact Or.inr (Or.inl ⟨i, e, l, s, l', rfl, hl, hs, hq⟩)
  | outside b => exact Or.inr (Or.inr ⟨b, rfl, (Option.some.inj h).symm⟩)

theorem next_start {p : Pool S L} {l : L} (h : P.mayStart p.threads l = true) :
    P.system.next p (.start l) = some ⟨p.shared, p.threads ++ [l]⟩ := if_pos h

theorem next_step {p : Pool S L} {i : Nat} {e : E} {l l' : L} {s : S}
    (hl : p.threads[i]? = some l) (hs : P.step e p.shared l = some (s, l')) :
    P.system.next p (.step i e) = some ⟨s, p.threads.set i l'⟩ := by
  change P.stepAt p i e = _
  unfold stepAt
  rw [hl, Option.bind_some, hs, Option.map_some]

end Program

/-! ## One thread alone -/

/-- The thread gets from one state to another in steps of its own, under one environment. -/
inductive Alone {S L E B : Type*} (P : Program S L E B) (e : E) : S → L → S → L → Prop where
  | refl {s l} : Alone P e s l s l
  | step {s l s' l' s'' l''} (h : P.step e s l = some (s', l')) (rest : Alone P e s' l' s'' l'') :
      Alone P e s l s'' l''

namespace Alone

variable {S L E B : Type*} {P : Program S L E B} {e : E} {s s' : S} {l l' : L}

theorem trans {s'' : S} {l'' : L} (h : Alone P e s l s' l') (h' : Alone P e s' l' s'' l'') :
    Alone P e s l s'' l'' := by
  induction h with
  | refl => exact h'
  | step hstep _ ih => exact .step hstep (ih h')

theorem one (h : P.step e s l = some (s', l')) : Alone P e s l s' l' := .step h .refl

/-- What a thread does alone is a run of the pool, whatever the other threads are. -/
theorem exists_run (h : Alone P e s l s' l') (threads : List L) {i : Nat}
    (hl : threads[i]? = some l) :
    ∃ n, P.system.run ⟨s, threads⟩ (List.replicate n (.step i e)) =
      some ⟨s', threads.set i l'⟩ := by
  induction h generalizing threads with
  | refl =>
      obtain ⟨hi, rfl⟩ := List.getElem?_eq_some_iff.mp hl
      exact ⟨0, congrArg (fun ls => some (Pool.mk _ ls)) (List.set_getElem_self hi).symm⟩
  | @step s l s₁ l₁ s₂ l₂ hstep _ ih =>
      have hi : i < threads.length := (List.getElem?_eq_some_iff.mp hl).1
      obtain ⟨n, hn⟩ := ih (threads.set i l₁) (by simp [hi])
      refine ⟨n + 1, ?_⟩
      have hfirst : P.system.next ⟨s, threads⟩ (.step i e) = some ⟨s₁, threads.set i l₁⟩ :=
        Program.next_step hl hstep
      rw [List.replicate_succ, System.run_cons, hfirst, Option.bind_some, hn, List.set_set]

theorem reaches (h : Alone P e s l s' l') (threads : List L) {i : Nat}
    (hl : threads[i]? = some l) : P.system.Reaches ⟨s, threads⟩ ⟨s', threads.set i l'⟩ :=
  (h.exists_run threads hl).imp' _ fun _ hn => hn

end Alone

/-! ## The threads after a step -/

section Threads

variable {L : Type*} {ls : List L} {i : Nat} {l l' : L}

/-- The thread that stepped is at its place, the others are where they were. -/
theorem getElem?_set_cases {j : Nat} {k : L} (h : (ls.set i l')[j]? = some k) :
    (j = i ∧ k = l') ∨ (j ≠ i ∧ ls[j]? = some k) := by
  rw [List.getElem?_set] at h
  split at h
  · next hij =>
      split at h
      · exact Or.inl ⟨hij.symm, (Option.some.inj h).symm⟩
      · cases h
  · next hij => exact Or.inr ⟨fun e => hij e.symm, h⟩

theorem getElem?_set_self (h : ls[i]? = some l) : (ls.set i l')[i]? = some l' := by
  obtain ⟨hi, -⟩ := List.getElem?_eq_some_iff.mp h
  simp [hi]

theorem getElem?_set_other {j : Nat} (h : j ≠ i) : (ls.set i l')[j]? = ls[j]? :=
  List.getElem?_set_ne (Ne.symm h)

theorem getElem?_append_cases {j : Nat} {k : L} (h : (ls ++ [l])[j]? = some k) :
    (j = ls.length ∧ k = l) ∨ ls[j]? = some k := by
  rw [List.getElem?_append] at h
  split at h
  · exact Or.inr h
  · rw [List.getElem?_singleton] at h
    split at h
    · exact Or.inl ⟨by omega, (Option.some.inj h).symm⟩
    · cases h

theorem getElem?_append_of_some {j : Nat} {k : L} (h : ls[j]? = some k) :
    (ls ++ [l])[j]? = some k := by
  rw [List.getElem?_append_left (List.getElem?_eq_some_iff.mp h).1]
  exact h

/-- What is read off the threads changes by what is read off the one that stepped. -/
theorem filterMap_set_perm {β : Type*} (f : L → Option β) (hl : ls[i]? = some l) :
    ((f l).toList ++ (ls.set i l').filterMap f).Perm ((f l').toList ++ ls.filterMap f) := by
  simp only [List.filterMap_eq_flatMap_toList]
  induction ls generalizing i with
  | nil => cases hl
  | cons k ls ih =>
      cases i with
      | zero =>
          obtain rfl := Option.some.inj hl
          exact List.perm_append_comm_assoc ..
      | succ i =>
          have hrest := (ih hl).append_left (f k).toList
          exact (List.perm_append_comm_assoc ..).trans
            (hrest.trans (List.perm_append_comm_assoc ..))

/-- A step that leaves what is read off its thread. -/
theorem flatMap_set_same {β : Type*} {f : L → List β} (hl : ls[i]? = some l)
    (hf : f l' = f l) : (ls.set i l').flatMap f = ls.flatMap f := by
  induction ls generalizing i with
  | nil => cases hl
  | cons k ls ih =>
      cases i with
      | zero =>
          obtain rfl := Option.some.inj hl
          rw [List.set_cons_zero, List.flatMap_cons, List.flatMap_cons, hf]
      | succ i => rw [List.set_cons_succ, List.flatMap_cons, List.flatMap_cons, ih hl]

/-- Where only one thread has anything to read off. -/
theorem flatMap_alone {β : Type*} {f : L → List β} (hl : ls[i]? = some l)
    (hother : ∀ (j : Nat) k, j ≠ i → ls[j]? = some k → f k = []) : ls.flatMap f = f l := by
  induction ls generalizing i with
  | nil => cases hl
  | cons k ls ih =>
      rw [List.flatMap_cons]
      cases i with
      | zero =>
          obtain rfl := Option.some.inj hl
          have hrest : ls.flatMap f = [] := by
            rw [List.flatMap_eq_nil_iff]
            intro m hm
            obtain ⟨j, hj⟩ := List.mem_iff_getElem?.mp hm
            exact hother (j + 1) m (Nat.succ_ne_zero j) hj
          rw [hrest, List.append_nil]
      | succ i =>
          rw [hother 0 k (Nat.succ_ne_zero i).symm rfl, List.nil_append]
          exact ih hl fun j m hj hm => hother (j + 1) m (fun h => hj (Nat.succ.inj h)) hm

/-- Some thread other than the one at place `i` has the property. -/
def OtherThread (Q : L → Prop) (ls : List L) (i : Nat) : Prop :=
  ∃ j k, j ≠ i ∧ ls[j]? = some k ∧ Q k

theorem OtherThread.exists_set {Q : L → Prop} (h : OtherThread Q ls i) :
    ∃ k ∈ ls.set i l', Q k := by
  obtain ⟨j, k, hj, hk, hQ⟩ := h
  exact ⟨k, List.mem_of_getElem? ((getElem?_set_other hj).trans hk), hQ⟩

/-- A thread with the property is the one at place `i` or another one. -/
theorem exists_cases {Q : L → Prop} (h : ∃ k ∈ ls, Q k) (hl : ls[i]? = some l) :
    Q l ∨ OtherThread Q ls i := by
  obtain ⟨k, hk, hQ⟩ := h
  obtain ⟨j, hj⟩ := List.mem_iff_getElem?.mp hk
  by_cases hji : j = i
  · subst hji
    rw [hl] at hj
    exact Or.inl (Option.some.inj hj ▸ hQ)
  · exact Or.inr ⟨j, k, hji, hj, hQ⟩

/-- A thread with the property is there after a step that does not take it from it. -/
theorem exists_set {Q : L → Prop} (h : ∃ k ∈ ls, Q k) (hl : ls[i]? = some l)
    (hkeep : Q l → Q l') : ∃ k ∈ ls.set i l', Q k := by
  rcases exists_cases h hl with hQ | hother
  · exact ⟨l', List.mem_of_getElem? (getElem?_set_self hl), hkeep hQ⟩
  · exact hother.exists_set

/-- At most one thread has the property. -/
def AtMostOne (Q : L → Prop) (ls : List L) : Prop :=
  ∀ (i j : Nat) (k k' : L), ls[i]? = some k → ls[j]? = some k' → Q k → Q k' → i = j

namespace AtMostOne

variable {Q : L → Prop}

theorem nil : AtMostOne Q [] := fun i _ _ _ hk => by simp at hk

theorem eq (h : AtMostOne Q ls) {k k' : L} (hk : k ∈ ls) (hk' : k' ∈ ls) (hQ : Q k)
    (hQ' : Q k') : k = k' := by
  obtain ⟨i, hi⟩ := List.mem_iff_getElem?.mp hk
  obtain ⟨j, hj⟩ := List.mem_iff_getElem?.mp hk'
  obtain rfl := h i j k k' hi hj hQ hQ'
  exact Option.some.inj (hi.symm.trans hj)

theorem append (h : AtMostOne Q ls) (hl : Q l → ∀ k ∈ ls, ¬ Q k) : AtMostOne Q (ls ++ [l]) := by
  intro i j k k' hk hk' hQ hQ'
  rcases getElem?_append_cases hk with ⟨hi, rfl⟩ | hk₁
  · rcases getElem?_append_cases hk' with ⟨hj, -⟩ | hk₁'
    · exact hi.trans hj.symm
    · exact absurd hQ' (hl hQ k' (List.mem_of_getElem? hk₁'))
  · rcases getElem?_append_cases hk' with ⟨-, rfl⟩ | hk₁'
    · exact absurd hQ (hl hQ' k (List.mem_of_getElem? hk₁))
    · exact h i j k k' hk₁ hk₁' hQ hQ'

/-- A step that does not give the thread the property. -/
theorem set (h : AtMostOne Q ls) (hl : ls[i]? = some l) (hback : Q l' → Q l) :
    AtMostOne Q (ls.set i l') := by
  have hbefore : ∀ (j : Nat) (k : L), (ls.set i l')[j]? = some k → Q k →
      ∃ k₀, ls[j]? = some k₀ ∧ Q k₀ := by
    intro j k hk hQ
    rcases getElem?_set_cases hk with ⟨rfl, rfl⟩ | ⟨-, hk⟩
    · exact ⟨l, hl, hback hQ⟩
    · exact ⟨k, hk, hQ⟩
  intro j j' k k' hk hk' hQ hQ'
  obtain ⟨k₀, hk₀, hQ₀⟩ := hbefore j k hk hQ
  obtain ⟨k₀', hk₀', hQ₀'⟩ := hbefore j' k' hk' hQ'
  exact h j j' k₀ k₀' hk₀ hk₀' hQ₀ hQ₀'

/-- There was at most one before a step that does not take the property from its thread. -/
theorem of_set (h : AtMostOne Q (ls.set i l')) (hl : ls[i]? = some l) (hto : Q l → Q l') :
    AtMostOne Q ls := by
  have hafter : ∀ (j : Nat) (k : L), ls[j]? = some k → Q k →
      ∃ k₁, (ls.set i l')[j]? = some k₁ ∧ Q k₁ := by
    intro j k hk hQ
    by_cases hj : j = i
    · subst hj
      obtain rfl := Option.some.inj (hl.symm.trans hk)
      exact ⟨l', getElem?_set_self hl, hto hQ⟩
    · exact ⟨k, (getElem?_set_other hj).trans hk, hQ⟩
  intro j j' k k' hk hk' hQ hQ'
  obtain ⟨k₁, hk₁, hQ₁⟩ := hafter j k hk hQ
  obtain ⟨k₁', hk₁', hQ₁'⟩ := hafter j' k' hk' hQ'
  exact h j j' k₁ k₁' hk₁ hk₁' hQ₁ hQ₁'

theorem of_append {ls' : List L} (h : AtMostOne Q (ls ++ ls')) : AtMostOne Q ls := by
  intro j j' k k' hk hk' hQ hQ'
  have hleft {j : Nat} {k : L} (hk : ls[j]? = some k) : (ls ++ ls')[j]? = some k := by
    rw [List.getElem?_append_left (List.getElem?_eq_some_iff.mp hk).1, hk]
  exact h j j' k k' (hleft hk) (hleft hk') hQ hQ'

/-- A step by which the only thread gets the property. -/
theorem enter (hno : ∀ k ∈ ls, ¬ Q k) : AtMostOne Q (ls.set i l') := by
  have hat : ∀ (j : Nat) (k : L), (ls.set i l')[j]? = some k → Q k → j = i := by
    intro j k hk hQ
    rcases getElem?_set_cases hk with ⟨hj, -⟩ | ⟨-, hk⟩
    · exact hj
    · exact absurd hQ (hno k (List.mem_of_getElem? hk))
  intro j j' k k' hk hk' hQ hQ'
  exact (hat j k hk hQ).trans (hat j' k' hk' hQ').symm

end AtMostOne

instance (Q : L → Prop) [DecidablePred Q] (ls : List L) (i : Nat) :
    Decidable (OtherThread Q ls i) :=
  decidable_of_iff (∃ j ∈ List.range ls.length, j ≠ i ∧ ∃ k ∈ ls[j]?, Q k) <| by
    constructor
    · rintro ⟨j, -, hj, k, hk, hQ⟩
      exact ⟨j, k, hj, hk, hQ⟩
    · rintro ⟨j, k, hj, hk, hQ⟩
      obtain ⟨hlt, -⟩ := List.getElem?_eq_some_iff.mp hk
      exact ⟨j, List.mem_range.mpr hlt, hj, k, hk, hQ⟩

end Threads

end Lib
