/-
  Step systems: a guarded, executable step function, its runs, and the rules that carry
  a property of one step to a whole run.

  * `Reaches`: some moves lead from one state to another.
  * `run_induction`: a property that every step keeps holds at the end of a run.
  * `run_induction_meets`: the same for runs whose steps all meet a condition, and
    `Meets.of_invariant` for what follows from that condition at each step;
    `invariant_iff_meets` where the condition is exact.
  * `run_rel`: a preorder that contains every step contains every run.
  * `foldl_rel`: the same for a step that is always enabled.
  * `withHistory`: history variables. A run may write down a note at each step; the
    steps it can take stay the same (`run_withHistory`), and
    `run_induction_noted` is the invariant rule for a state with its notes.
-/
import Mathlib.Data.Option.Basic

namespace Lib

/-- A state type with a step that is `none` where the move is not enabled. -/
structure System (σ α : Type*) where
  next : σ → α → Option σ

namespace System

variable {σ α ν : Type*} (M : System σ α)

/-- The state after a list of moves, if each of them was enabled. -/
def run : σ → List α → Option σ
  | s, [] => some s
  | s, a :: as => (M.next s a).bind fun t => run t as

@[simp] theorem run_nil (s : σ) : M.run s [] = some s := rfl

@[simp] theorem run_cons (s : σ) (a : α) (as : List α) :
    M.run s (a :: as) = (M.next s a).bind fun t => M.run t as := rfl

theorem run_append (s : σ) (as bs : List α) :
    M.run s (as ++ bs) = (M.run s as).bind fun t => M.run t bs := by
  induction as generalizing s with
  | nil => rfl
  | cons a as ih =>
      simp only [List.cons_append, run_cons, Option.bind_assoc]
      congr 1
      funext t
      exact ih t

variable {M}

/-- A run of at least one move starts with one step. -/
theorem exists_of_run_cons {s t : σ} {a : α} {as : List α}
    (h : M.run s (a :: as) = some t) : ∃ u, M.next s a = some u ∧ M.run u as = some t :=
  Option.bind_eq_some_iff.mp h

theorem run_cons_of_next {s t : σ} {a : α} (as : List α) (h : M.next s a = some t) :
    M.run s (a :: as) = M.run t as := by
  rw [run_cons, h, Option.bind_some]

/-- A run of two parts passes through a state between them. -/
theorem exists_of_run_append {s t : σ} {as bs : List α} (h : M.run s (as ++ bs) = some t) :
    ∃ u, M.run s as = some u ∧ M.run u bs = some t := by
  rw [run_append] at h
  exact Option.bind_eq_some_iff.mp h

/-- One more step at the end of a run. -/
theorem run_snoc {s t u : σ} {as : List α} {a : α} (h : M.run s as = some t)
    (hn : M.next t a = some u) : M.run s (as ++ [a]) = some u := by
  rw [run_append, h, Option.bind_some, run_cons, hn, Option.bind_some, run_nil]

variable (M) in
/-- Some moves lead from one state to the other. -/
def Reaches (s t : σ) : Prop := ∃ as, M.run s as = some t

namespace Reaches

theorem refl (s : σ) : M.Reaches s s := ⟨[], rfl⟩

theorem trans {s t u : σ} (hst : M.Reaches s t) (htu : M.Reaches t u) : M.Reaches s u := by
  obtain ⟨as, has⟩ := hst
  obtain ⟨bs, hbs⟩ := htu
  exact ⟨as ++ bs, by rw [run_append, has, Option.bind_some, hbs]⟩

theorem single {s t : σ} {a : α} (h : M.next s a = some t) : M.Reaches s t :=
  ⟨[a], run_cons_of_next [] h⟩

end Reaches

/-! ## From one step to a run -/

/-- The invariant rule. -/
theorem run_induction {P : σ → Prop} (hstep : ∀ s a t, P s → M.next s a = some t → P t)
    {s t : σ} {as : List α} (hs : P s) (h : M.run s as = some t) : P t := by
  induction as generalizing s with
  | nil => exact Option.some_injective _ h ▸ hs
  | cons a as ih =>
      obtain ⟨u, hu, ht⟩ := exists_of_run_cons h
      exact ih (hstep s a u hs hu) ht

/-- The rule for a preorder that contains every step. -/
theorem run_rel {r : σ → σ → Prop} (hrefl : ∀ s, r s s)
    (htrans : ∀ s t u, r s t → r t u → r s u) (hstep : ∀ s a t, M.next s a = some t → r s t)
    {s t : σ} {as : List α} (h : M.run s as = some t) : r s t :=
  run_induction (fun _ a _ hr hn => htrans _ _ _ hr (hstep _ a _ hn)) (hrefl s) h

/-- The system of a step that is always enabled. -/
def ofFun (f : σ → α → σ) : System σ α where
  next s a := some (f s a)

theorem run_ofFun (f : σ → α → σ) (s : σ) (as : List α) :
    (ofFun f).run s as = some (as.foldl f s) := by
  induction as generalizing s with
  | nil => rfl
  | cons a as ih => exact ih (f s a)

theorem foldl_rel {r : σ → σ → Prop} {f : σ → α → σ} (hrefl : ∀ s, r s s)
    (htrans : ∀ s t u, r s t → r t u → r s u) (hstep : ∀ s a, r s (f s a))
    (s : σ) (as : List α) : r s (as.foldl f s) := by
  refine run_rel hrefl htrans (fun s a t h => ?_) (run_ofFun f s as)
  obtain rfl : f s a = t := Option.some.inj h
  exact hstep s a

variable (M)

/-- Every step of the run meets the condition, at the state it is taken from. -/
def Meets (ok : σ → α → Prop) : σ → List α → Prop
  | _, [] => True
  | s, a :: as => ok s a ∧ ∀ t, M.next s a = some t → Meets ok t as

instance decidableMeets (ok : σ → α → Prop) [∀ s a, Decidable (ok s a)] :
    ∀ s as, Decidable (M.Meets ok s as)
  | _, [] => isTrue trivial
  | s, a :: as =>
      have : Decidable (∀ t, M.next s a = some t → M.Meets ok t as) :=
        match M.next s a with
        | none => isTrue fun _ ht => nomatch ht
        | some u =>
            have := decidableMeets ok u as
            decidable_of_iff (M.Meets ok u as)
              ⟨fun hu _ ht => Option.some.inj ht ▸ hu, fun ht => ht u rfl⟩
      inferInstanceAs (Decidable (_ ∧ _))

variable {M}

/-- A condition of every step is one of every run. -/
theorem meets_of_forall {ok : σ → α → Prop} (h : ∀ s a, ok s a) (s : σ) (as : List α) :
    M.Meets ok s as := by
  induction as generalizing s with
  | nil => trivial
  | cons a as ih => exact ⟨h s a, fun t _ => ih t⟩

/-- A condition on the moves alone. -/
theorem meets_of_mem {ok : α → Prop} {as : List α} (h : ∀ a ∈ as, ok a) (s : σ) :
    M.Meets (fun _ a => ok a) s as := by
  induction as generalizing s with
  | nil => trivial
  | cons a as ih =>
      exact ⟨h a List.mem_cons_self, fun t _ => ih (fun b hb => h b (List.mem_cons_of_mem _ hb)) t⟩

/-- The second part of a run meets what the whole run meets. -/
theorem Meets.suffix {ok : σ → α → Prop} {s t : σ} {as bs : List α}
    (h : M.Meets ok s (as ++ bs)) (hrun : M.run s as = some t) : M.Meets ok t bs := by
  induction as generalizing s with
  | nil => exact Option.some_injective _ hrun ▸ h
  | cons a as ih =>
      obtain ⟨u, hu, ht⟩ := exists_of_run_cons hrun
      exact ih (h.2 u hu) ht

theorem Meets.prefix {ok : σ → α → Prop} {s : σ} {as bs : List α}
    (h : M.Meets ok s (as ++ bs)) : M.Meets ok s as := by
  induction as generalizing s with
  | nil => trivial
  | cons a as ih => exact ⟨h.1, fun u hu => ih (h.2 u hu)⟩

theorem Meets.and {ok ok' : σ → α → Prop} {s : σ} {as : List α} (h : M.Meets ok s as)
    (h' : M.Meets ok' s as) : M.Meets (fun s a => ok s a ∧ ok' s a) s as := by
  induction as generalizing s with
  | nil => trivial
  | cons a as ih => exact ⟨⟨h.1, h'.1⟩, fun u hu => ih (h.2 u hu) (h'.2 u hu)⟩

/-- The invariant rule for runs whose steps all meet a condition. -/
theorem run_induction_meets {P : σ → Prop} {ok : σ → α → Prop}
    (hstep : ∀ s a t, P s → ok s a → M.next s a = some t → P t)
    {s t : σ} {as : List α} (hs : P s) (hok : M.Meets ok s as)
    (h : M.run s as = some t) : P t := by
  induction as generalizing s with
  | nil => exact Option.some_injective _ h ▸ hs
  | cons a as ih =>
      obtain ⟨u, hu, ht⟩ := exists_of_run_cons h
      exact ih (hstep s a u hs hok.1 hu) (hok.2 u hu) ht

/-- The invariant rule for a state and the moves that led to it. -/
theorem run_induction_past {P : List α → σ → Prop} {ok : σ → α → Prop}
    (hstep : ∀ past s a t, P past s → ok s a → M.next s a = some t → P (past ++ [a]) t)
    {past : List α} {s t : σ} {as : List α} (hs : P past s) (hok : M.Meets ok s as)
    (h : M.run s as = some t) : P (past ++ as) t := by
  induction as generalizing past s with
  | nil => exact Option.some_injective _ h ▸ (List.append_nil past).symm ▸ hs
  | cons a as ih =>
      obtain ⟨u, hu, ht⟩ := exists_of_run_cons h
      rw [List.append_cons]
      exact ih (hstep past s a u hs hok.1 hu) (hok.2 u hu) ht

/-- A step condition that follows, at the invariant, from another one. -/
theorem Meets.of_invariant {I : σ → Prop} {ok P : σ → α → Prop}
    (hstep : ∀ s a t, I s → ok s a → M.next s a = some t → I t)
    (hP : ∀ s a, I s → ok s a → P s a) {s : σ} {as : List α} (hs : I s)
    (h : M.Meets ok s as) : M.Meets P s as := by
  induction as generalizing s with
  | nil => trivial
  | cons a as ih =>
      exact ⟨hP s a hs h.1, fun t ht => ih (hstep s a t hs h.1 ht) (h.2 t ht)⟩

/-- Where a step that fails the condition spoils the invariant for good, the runs that end in
    it are those whose steps all meet the condition. -/
theorem invariant_iff_meets {I B : σ → Prop} {ok : σ → α → Prop}
    (hkeep : ∀ s a t, I s → ok s a → M.next s a = some t → I t)
    (hspoil : ∀ s a t, I s → ¬ ok s a → M.next s a = some t → B t)
    (hstay : ∀ s a t, B s → M.next s a = some t → B t) (hdisj : ∀ s, I s → ¬ B s)
    {s t : σ} {as : List α} (hs : I s) (h : M.run s as = some t) : I t ↔ M.Meets ok s as := by
  refine ⟨fun ht => ?_, fun hok => run_induction_meets hkeep hs hok h⟩
  induction as generalizing s with
  | nil => trivial
  | cons a as ih =>
      obtain ⟨u, hu, hrest⟩ := exists_of_run_cons h
      have hok : ok s a := by
        by_contra hno
        exact hdisj t ht (run_induction hstay (hspoil s a u hs hno hu) hrest)
      refine ⟨hok, fun v hv => ?_⟩
      obtain rfl := Option.some.inj (hu.symm.trans hv)
      exact ih (hkeep s a u hs hok hu) hrest

variable (M)

/-! ## History variables -/

/-- The system that writes down, next to each state, what its steps noted. -/
def withHistory (note : σ → α → σ → List ν) : System (σ × List ν) α where
  next s a := (M.next s.1 a).map fun t => (t, s.2 ++ note s.1 a t)

variable {M}

theorem next_withHistory {note : σ → α → σ → List ν} {s t : σ × List ν} {a : α} :
    (M.withHistory note).next s a = some t ↔
      M.next s.1 a = some t.1 ∧ t.2 = s.2 ++ note s.1 a t.1 := by
  constructor
  · intro h
    obtain ⟨u, hu, rfl⟩ := Option.map_eq_some_iff.mp h
    exact ⟨hu, rfl⟩
  · rintro ⟨hn, ht⟩
    exact Option.map_eq_some_iff.mpr ⟨t.1, hn, Prod.ext rfl ht.symm⟩

/-- Notes change nothing: the same moves are enabled and lead to the same states. -/
theorem run_withHistory (note : σ → α → σ → List ν) (s : σ) (h : List ν) (as : List α) :
    ((M.withHistory note).run (s, h) as).map Prod.fst = M.run s as := by
  induction as generalizing s h with
  | nil => rfl
  | cons a as ih =>
      have hnext : (M.withHistory note).next (s, h) a =
          (M.next s a).map fun t => (t, h ++ note s a t) := rfl
      rw [run_cons, run_cons, hnext]
      cases M.next s a with
      | none => rfl
      | some u => exact ih u _

/-- So every run is the run of some notes. -/
theorem exists_run_withHistory {note : σ → α → σ → List ν} {s t : σ} (h : List ν) {as : List α}
    (hrun : M.run s as = some t) : ∃ h', (M.withHistory note).run (s, h) as = some (t, h') := by
  rw [← M.run_withHistory note s h] at hrun
  obtain ⟨⟨u, h'⟩, hu, rfl⟩ := Option.map_eq_some_iff.mp hrun
  exact ⟨h', hu⟩

/-- The invariant rule for a state and the notes so far, in runs whose steps all meet a
    condition. -/
theorem run_induction_noted {note : σ → α → σ → List ν} {P : σ → List ν → Prop}
    {ok : σ → α → Prop}
    (hstep : ∀ s a t h, P s h → ok s a → M.next s a = some t → P t (h ++ note s a t))
    {s t : σ} {h h' : List ν} {as : List α} (hs : P s h)
    (hok : (M.withHistory note).Meets (fun u a => ok u.1 a) (s, h) as)
    (hrun : (M.withHistory note).run (s, h) as = some (t, h')) : P t h' := by
  refine run_induction_meets (P := fun u : σ × List ν => P u.1 u.2) (fun u a v hu ha hn => ?_)
    hs hok hrun
  obtain ⟨hnext, hnotes⟩ := next_withHistory.mp hn
  rw [hnotes]
  exact hstep u.1 a v.1 u.2 hu ha hnext

/-- What all notes of a run have, where it is decided step by step, at the invariant. -/
theorem forall_notes_iff_meets {note : σ → α → σ → List ν} {I : σ → Prop} {P : ν → Prop}
    {ok : σ → α → Prop} (hinv : ∀ s a t, I s → M.next s a = some t → I t)
    (hnote : ∀ s a t, I s → M.next s a = some t → ((∀ n ∈ note s a t, P n) ↔ ok s a))
    {s t : σ} {h h' : List ν} {as : List α} (hs : I s)
    (hrun : (M.withHistory note).run (s, h) as = some (t, h')) :
    (∀ n ∈ h', P n) ↔ (∀ n ∈ h, P n) ∧ M.Meets ok s as := by
  induction as generalizing s h with
  | nil =>
      obtain ⟨-, rfl⟩ := Prod.mk.inj (Option.some.inj hrun)
      exact (and_iff_left trivial).symm
  | cons a as ih =>
      obtain ⟨⟨u, notes⟩, hnext, hrest⟩ := exists_of_run_cons hrun
      obtain ⟨hn, hnotes⟩ := next_withHistory.mp hnext
      dsimp only at hn hnotes
      subst hnotes
      have hmeets : M.Meets ok s (a :: as) ↔ ok s a ∧ M.Meets ok u as :=
        and_congr_right fun _ => ⟨fun hall => hall u hn, fun hu v hv =>
          Option.some.inj (hn.symm.trans hv) ▸ hu⟩
      rw [ih (hinv s a u hs hn) hrest, hmeets, List.forall_mem_append, hnote s a u hs hn, and_assoc]

/-- What is read off one more note. -/
theorem filterMap_snoc {β : Type*} (f : ν → Option β) (notes : List ν) (n : ν) :
    (notes ++ [n]).filterMap f = notes.filterMap f ++ (f n).toList := by
  rw [List.filterMap_append]
  cases hf : f n with
  | none => rw [List.filterMap_cons_none hf]; rfl
  | some b => rw [List.filterMap_cons_some hf]; rfl

end System

end Lib
