/-
  The unlock cooldown over whole runs of the machine.

  `unlock` compares with one timestamp, and `start_call` and `hangup` both forget it.
  So two accepted unlocks are a cooldown apart when neither lies between them
  (`unlocks_apart_of_no_reset`), and a ring or a hangup in between can let the second
  one through at once (`unlocks_not_spaced`).

  `unlocks_spaced_iff` says exactly which runs keep the rate: those in which a ring or
  hangup never forgets a timestamp that a later unlock call would still have met.
-/
import Michoi.State.Ownership

namespace Michoi

open CallMachine

/-- The times the `unlock` calls of a run read from the clock, in order. -/
def unlockTimes (ops : List Op) : List Nat := ops.filterMap Op.unlockTime

/-- The clock never goes back from one `unlock` call to the next. -/
def ClockMonotone (ops : List Op) : Prop := (unlockTimes ops).Pairwise (· ≤ ·)

instance (ops : List Op) : Decidable (ClockMonotone ops) :=
  inferInstanceAs (Decidable ((unlockTimes ops).Pairwise (· ≤ ·)))

/-- Any two unlocks that return `Ok` are at least the cooldown apart. -/
def UnlocksSpaced (m : CallMachine) (ops : List Op) : Prop :=
  ∀ (p₁ : List Op) (t₁ : Nat) (p₂ : List Op) (t₂ : Nat) (p₃ : List Op),
    ops = p₁ ++ .unlock t₁ :: (p₂ ++ .unlock t₂ :: p₃) →
      (m.run p₁).accepts (.unlock t₁) →
        (m.run (p₁ ++ .unlock t₁ :: p₂)).accepts (.unlock t₂) →
          t₁ + m.unlockCooldown ≤ t₂

/-- Where a ring or a hangup finds a last unlock time, every later unlock call that the
    policy lets through comes when that time's cooldown is over. -/
def ResetsSpent (m : CallMachine) (ops : List Op) : Prop :=
  ∀ (p₁ : List Op) (r : Op) (p₂ : List Op) (t : Nat) (p₃ : List Op) (last : Nat),
    ops = p₁ ++ r :: (p₂ ++ .unlock t :: p₃) → r.isReset = true →
      (m.run p₁).lastUnlock = some last →
        (m.run (p₁ ++ r :: p₂)).mayUnlock = true →
          last + m.unlockCooldown ≤ t

/-! ## The times of a run -/

theorem unlockTimes_append (ops ops' : List Op) :
    unlockTimes (ops ++ ops') = unlockTimes ops ++ unlockTimes ops' :=
  List.filterMap_append

theorem unlockTimes_unlock (t : Nat) (ops : List Op) :
    unlockTimes (.unlock t :: ops) = t :: unlockTimes ops := rfl

/-- After an unlock call every later call reads at least its time. -/
theorem ClockMonotone.le_after (p₁ : List Op) (t : Nat) (p₂ : List Op)
    (h : ClockMonotone (p₁ ++ .unlock t :: p₂)) : ∀ t' ∈ unlockTimes p₂, t ≤ t' := by
  rw [ClockMonotone, unlockTimes_append, unlockTimes_unlock, List.pairwise_append] at h
  exact (List.pairwise_cons.mp h.2.1).1

theorem ClockMonotone.before_le (p₁ : List Op) (t : Nat) (p₂ : List Op)
    (h : ClockMonotone (p₁ ++ .unlock t :: p₂)) : ∀ t' ∈ unlockTimes p₁, t' ≤ t := by
  rw [ClockMonotone, unlockTimes_append, unlockTimes_unlock, List.pairwise_append] at h
  exact fun t' ht' => h.2.2 t' ht' t List.mem_cons_self

/-- The first ring or hangup of a run that has one. -/
theorem exists_first_reset (ops : List Op) (h : ∃ o ∈ ops, o.isReset = true) :
    ∃ q r q', ops = q ++ r :: q' ∧ r.isReset = true ∧ ∀ o ∈ q, o.isReset = false := by
  obtain ⟨r, hr⟩ := Option.isSome_iff_exists.mp (List.find?_isSome.mpr h)
  obtain ⟨hreset, q, q', he, hq⟩ := List.find?_eq_some_iff_append.mp hr
  exact ⟨q, r, q', he, hreset, by simpa using hq⟩

theorem mem_unlockTimes_middle (p₁ : List Op) (t : Nat) (p₂ : List Op) :
    t ∈ unlockTimes (p₁ ++ .unlock t :: p₂) := by
  simp [unlockTimes_append, unlockTimes_unlock]

/-! ## The timestamp along a run -/

namespace CallMachine

theorem step_cooldown (m : CallMachine) (o : Op) :
    (o.step m).2.unlockCooldown = m.unlockCooldown :=
  congrArg Prod.fst (m.step_settings o)

theorem run_cooldown (m : CallMachine) (ops : List Op) :
    (m.run ops).unlockCooldown = m.unlockCooldown :=
  congrArg Prod.fst (m.run_settings ops)

/-- The timestamp changes by an accepted unlock and by the two operations that forget
    it, and by nothing else. -/
theorem step_lastUnlock (m : CallMachine) (o : Op) :
    (o.isReset = true ∧ (o.step m).2.lastUnlock = none) ∨
      (∃ now, o = .unlock now ∧ m.accepts o ∧ (o.step m).2.lastUnlock = some now) ∨
      (o.isReset = false ∧ (o.step m).2.lastUnlock = m.lastUnlock) := by
  by_cases hok : m.accepts o
  · cases o with
    | startCall | hangup => exact Or.inl ⟨rfl, rfl⟩
    | unlock now =>
        right; left
        exact ⟨now, rfl, hok, by rw [unlock_of_accepts m now hok]⟩
    | padAnswer => rw [padAnswer_of_accepts m hok]; exact Or.inr (Or.inr ⟨rfl, rfl⟩)
    | remoteAnswer => rw [remoteAnswer_of_accepts m hok]; exact Or.inr (Or.inr ⟨rfl, rfl⟩)
    | videoFrame | doorAudio => exact Or.inr (Or.inr ⟨rfl, rfl⟩)
  · right; right
    rw [step_of_not_accepts m o hok]
    cases o with
    | startCall | hangup => exact absurd rfl hok
    | unlock | padAnswer | remoteAnswer | videoFrame | doorAudio => exact ⟨rfl, rfl⟩

/-- A timestamp that is not the machine's first one was written by an accepted unlock. -/
theorem exists_unlock_of_lastUnlock (m : CallMachine) (hm : m.lastUnlock = none)
    (ops : List Op) (t : Nat) (h : (m.run ops).lastUnlock = some t) :
    ∃ q₁ q₂ : List Op, ops = q₁ ++ .unlock t :: q₂ ∧ (m.run q₁).accepts (.unlock t) := by
  induction ops using List.reverseRecOn with
  | nil =>
      rw [run_nil, hm] at h
      cases h
  | append_singleton ops o ih =>
      rw [run_append, run_cons, run_nil] at h
      rcases step_lastUnlock (m.run ops) o with ⟨-, hn⟩ | ⟨now, rfl, hok, hs⟩ | ⟨-, hk⟩
      · rw [hn] at h
        cases h
      · rw [hs] at h
        cases h
        exact ⟨ops, [], rfl, hok⟩
      · obtain ⟨q₁, q₂, rfl, hok⟩ := ih (hk ▸ h)
        exact ⟨q₁, q₂ ++ [o], by simp, hok⟩

/-- Without a ring or hangup a timestamp is never lost, only replaced by the time of a
    later unlock. -/
theorem run_lastUnlock_of_no_reset (m : CallMachine) (t : Nat) (ops : List Op)
    (h : m.lastUnlock = some t) (hr : ∀ o ∈ ops, o.isReset = false) :
    ∃ t', (m.run ops).lastUnlock = some t' ∧ (t' = t ∨ t' ∈ unlockTimes ops) := by
  induction ops using List.reverseRecOn with
  | nil => exact ⟨t, h, Or.inl rfl⟩
  | append_singleton ops o ih =>
      obtain ⟨t', h', ht'⟩ := ih fun o' ho' => hr o' (List.mem_append_left _ ho')
      rw [run_append, run_cons, run_nil, unlockTimes_append]
      rcases step_lastUnlock (m.run ops) o with ⟨hreset, -⟩ | ⟨now, rfl, -, hs⟩ | ⟨-, hk⟩
      · have := hr o (by simp)
        rw [hreset] at this
        cases this
      · exact ⟨now, hs, Or.inr (by simp [unlockTimes, Op.unlockTime])⟩
      · exact ⟨t', hk.trans h', ht'.imp_right (List.mem_append_left _)⟩

/-- An unlock that the policy lets through is either accepted or still cooling down from
    the timestamp. -/
theorem accepts_or_cooling (m : CallMachine) (t : Nat) (h : m.mayUnlock = true) :
    m.accepts (.unlock t) ∨ ∃ last, m.lastUnlock = some last ∧ t - last < m.unlockCooldown := by
  rw [accepts_unlock]
  cases hl : m.lastUnlock with
  | none => exact Or.inl ⟨h, by simp [coolingDown, hl]⟩
  | some last =>
      by_cases hc : t - last < m.unlockCooldown
      · exact Or.inr ⟨last, rfl, hc⟩
      · exact Or.inl ⟨h, by simpa [coolingDown, hl] using hc⟩

/-- An accepted unlock finds the cooldown of the timestamp over. -/
theorem cooldown_over (m : CallMachine) (t last : Nat) (h : m.accepts (.unlock t))
    (hl : m.lastUnlock = some last) (hle : last ≤ t) : last + m.unlockCooldown ≤ t := by
  have hc := ((accepts_unlock m t).mp h).2
  simp only [coolingDown, hl, decide_eq_false_iff_not] at hc
  omega

end CallMachine

/-! ## Spacing -/

/-- The rate the machine keeps by itself: two accepted unlocks with no ring and no
    hangup between them are a cooldown apart. -/
theorem unlocks_apart_of_no_reset (m : CallMachine) (p₁ : List Op) (t₁ : Nat)
    (p₂ : List Op) (t₂ : Nat) (p₃ : List Op)
    (hclock : ClockMonotone (p₁ ++ .unlock t₁ :: (p₂ ++ .unlock t₂ :: p₃)))
    (hreset : ∀ o ∈ p₂, o.isReset = false) (h₁ : (m.run p₁).accepts (.unlock t₁))
    (h₂ : (m.run (p₁ ++ .unlock t₁ :: p₂)).accepts (.unlock t₂)) :
    t₁ + m.unlockCooldown ≤ t₂ := by
  have hset : ((Op.unlock t₁).step (m.run p₁)).2.lastUnlock = some t₁ := by
    rw [unlock_of_accepts _ t₁ h₁]
  obtain ⟨t, hl, ht⟩ := run_lastUnlock_of_no_reset _ t₁ p₂ hset hreset
  rw [run_append, run_cons] at h₂
  -- the timestamp is `t₁` or the time of an unlock in `p₂`
  have hle₁ : t₁ ≤ t := by
    rcases ht with rfl | ht
    · exact Nat.le_refl t
    · exact hclock.le_after p₁ t₁ _ t (by
        rw [unlockTimes_append]
        exact List.mem_append_left _ ht)
  have hle₂ : t ≤ t₂ := by
    rcases ht with rfl | ht
    · exact hclock.le_after p₁ t _ t₂ (mem_unlockTimes_middle p₂ t₂ p₃)
    · refine ClockMonotone.before_le (p₁ ++ .unlock t₁ :: p₂) t₂ p₃ ?_ t ?_
      · simpa using hclock
      · rw [unlockTimes_append, unlockTimes_unlock]
        exact List.mem_append_right _ (List.mem_cons_of_mem t₁ ht)
  have hover := cooldown_over _ t₂ t h₂ hl hle₂
  rw [run_cooldown, step_cooldown, run_cooldown] at hover
  omega

/-- A run that keeps its timestamps until they are spent keeps the rate. -/
theorem spaced_of_resetsSpent (m : CallMachine) (ops : List Op) (hclock : ClockMonotone ops)
    (h : ResetsSpent m ops) : UnlocksSpaced m ops := by
  intro p₁ t₁ p₂ t₂ p₃ he h₁ h₂
  subst he
  by_cases hreset : ∀ o ∈ p₂, o.isReset = false
  · exact unlocks_apart_of_no_reset m p₁ t₁ p₂ t₂ p₃ hclock hreset h₁ h₂
  · -- the first ring or hangup after the first unlock finds its time or a later one
    obtain ⟨q, r, q', rfl, hr, hq⟩ := exists_first_reset p₂ (by simpa using hreset)
    have hset : ((Op.unlock t₁).step (m.run p₁)).2.lastUnlock = some t₁ := by
      rw [unlock_of_accepts _ t₁ h₁]
    obtain ⟨t, hl, ht⟩ := run_lastUnlock_of_no_reset _ t₁ q hset hq
    have hle : t₁ ≤ t := by
      rcases ht with rfl | ht
      · exact Nat.le_refl t
      · refine hclock.le_after p₁ t₁ _ t ?_
        rw [unlockTimes_append, unlockTimes_append]
        exact List.mem_append_left _ (List.mem_append_left _ ht)
    have hspent := h (p₁ ++ .unlock t₁ :: q) r q' t₂ p₃ t (by simp) hr
      (by rw [run_append, run_cons]; exact hl)
      (by
        have hmay := ((accepts_unlock _ t₂).mp h₂).1
        simpa using hmay)
    omega

/-- A run from a machine without a timestamp that keeps the rate has spent every
    timestamp it forgets. -/
theorem resetsSpent_of_spaced (m : CallMachine) (hm : m.lastUnlock = none) (ops : List Op)
    (hclock : ClockMonotone ops) (h : UnlocksSpaced m ops) : ResetsSpent m ops := by
  intro p₁ r p₂ t p₃ last he hr hl hmay
  subst he
  obtain ⟨q₁, q₂, rfl, hlast⟩ := exists_unlock_of_lastUnlock m hm p₁ last hl
  rcases accepts_or_cooling _ t hmay with hok | ⟨last', hl', hcool⟩
  · refine h q₁ last (q₂ ++ r :: p₂) t p₃ (by simp) hlast ?_
    simpa using hok
  · -- the call is refused: an unlock after the reset started the cooldown it met
    have hnone : (m.run (q₁ ++ .unlock last :: q₂ ++ [r])).lastUnlock = none := by
      rw [run_append, run_cons, run_nil]
      rcases step_lastUnlock (m.run (q₁ ++ .unlock last :: q₂)) r with
        ⟨-, hn⟩ | ⟨now, rfl, -, -⟩ | ⟨hn, -⟩
      · exact hn
      · cases hr
      · rw [hn] at hr
        cases hr
    rw [show q₁ ++ .unlock last :: q₂ ++ r :: p₂ = (q₁ ++ .unlock last :: q₂ ++ [r]) ++ p₂ by simp,
      run_append] at hl'
    obtain ⟨r₁, r₂, rfl, hlast'⟩ := exists_unlock_of_lastUnlock _ hnone p₂ last' hl'
    have hapart := h q₁ last (q₂ ++ r :: r₁) last' (r₂ ++ .unlock t :: p₃) (by simp) hlast
      (by rw [← run_append] at hlast'; simpa using hlast')
    have hle : last' ≤ t :=
      ClockMonotone.le_after (q₁ ++ .unlock last :: q₂ ++ r :: r₁) last' (r₂ ++ .unlock t :: p₃)
        (by simpa using hclock) t (mem_unlockTimes_middle r₂ t p₃)
    omega

/-- **The unlock rate over whole runs.** From a new machine, with a clock that never goes
    back, any two accepted unlocks are a cooldown apart if and only if every timestamp a
    ring or hangup forgets was spent for the unlock calls after it. -/
theorem unlocks_spaced_iff (cooldown : Nat) (policy : Bool) (ops : List Op)
    (hclock : ClockMonotone ops) :
    UnlocksSpaced (withPolicy cooldown policy) ops ↔
      ResetsSpent (withPolicy cooldown policy) ops :=
  ⟨resetsSpent_of_spaced _ rfl ops hclock, spaced_of_resetsSpent _ ops hclock⟩

/-- A ring between two unlocks, one cooldown apart. -/
theorem unlocks_spaced_iff_ring_between :
    ClockMonotone [.unlock 0, .startCall 1, .unlock 1000000000] ∧
      (UnlocksSpaced (withPolicy 1000000000 false)
          [.unlock 0, .startCall 1, .unlock 1000000000] ↔
        ResetsSpent (withPolicy 1000000000 false)
          [.unlock 0, .startCall 1, .unlock 1000000000]) :=
  ⟨by decide, unlocks_spaced_iff _ _ _ (by decide)⟩

/-- A hangup between two unlocks at one instant: both are accepted although the cooldown
    is a second. -/
theorem unlocks_not_spaced :
    ClockMonotone [.unlock 0, .hangup, .unlock 0] ∧
      ¬ UnlocksSpaced (withPolicy 1000000000 false) [.unlock 0, .hangup, .unlock 0] := by
  refine ⟨by decide, fun h => ?_⟩
  have hle := h [] 0 [.hangup] 0 [] rfl (by decide) (by decide)
  exact absurd hle (by decide)

end Michoi
