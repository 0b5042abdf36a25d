/-
  Who owns the call, over whole runs of the machine.

  * `first_answer_wins`: from a new machine, whatever the cooldown and the policy, the
    first answer of a call owns it until the next hangup or ring.
  * `strict_authority`: under the strict policy an unlock or remote media goes back to
    a remote answer of the call that is still up.

  Both rest on one invariant, `Consistent` (there is an owner exactly while the call is
  connected), and on what a run without rings can do to the phase: a call that is not
  ringing does not ring again (`run_not_ringing`), an answered call stays with its owner
  until a hangup (`run_connected`), and a ringing call keeps ringing exactly as long as
  nobody answers or hangs up (`run_ringing_iff`).
-/
import Michoi.State
import Mathlib.Data.List.Induction

namespace Michoi

namespace CallMachine

/-! ## What one operation does -/

theorem accepts_padAnswer (m : CallMachine) :
    m.accepts .padAnswer ↔ m.state.phase = .ringing ∧ m.state.owner ≠ .remote := by
  simp only [accepts, Op.step, padAnswer]
  split
  · simp_all
  · split <;> simp_all

theorem accepts_remoteAnswer (m : CallMachine) :
    m.accepts .remoteAnswer ↔ m.state.phase = .ringing ∧ m.state.owner ≠ .pad := by
  simp only [accepts, Op.step, remoteAnswer]
  split
  · simp_all
  · split <;> simp_all

theorem accepts_unlock (m : CallMachine) (now : Nat) :
    m.accepts (.unlock now) ↔ m.mayUnlock = true ∧ m.coolingDown now = false := by
  simp only [accepts, Op.step, unlock]
  split
  · simp_all
  · split <;> simp_all

/-- An operation that fails leaves the machine as it was. -/
theorem step_of_not_accepts (m : CallMachine) (o : Op) (h : ¬ m.accepts o) :
    (o.step m).2 = m := by
  cases o with
  | padAnswer =>
      simp only [accepts, Op.step, padAnswer] at h ⊢
      split
      · rfl
      · split <;> simp_all
  | remoteAnswer =>
      simp only [accepts, Op.step, remoteAnswer] at h ⊢
      split
      · rfl
      · split <;> simp_all
  | unlock now =>
      simp only [accepts, Op.step, unlock] at h ⊢
      split
      · rfl
      · split <;> simp_all
  | startCall | hangup | videoFrame | doorAudio => exact absurd rfl h

theorem padAnswer_of_accepts (m : CallMachine) (h : m.accepts .padAnswer) :
    (Op.padAnswer.step m).2 =
      { m with state := { m.state with owner := .pad, phase := .connected } } := by
  have ⟨hp, ho⟩ := (accepts_padAnswer m).mp h
  simp [Op.step, padAnswer, hp, ho]

theorem remoteAnswer_of_accepts (m : CallMachine) (h : m.accepts .remoteAnswer) :
    (Op.remoteAnswer.step m).2 =
      { m with state := { m.state with owner := .remote, phase := .connected } } := by
  have ⟨hp, ho⟩ := (accepts_remoteAnswer m).mp h
  simp [Op.step, remoteAnswer, hp, ho]

theorem unlock_of_accepts (m : CallMachine) (now : Nat) (h : m.accepts (.unlock now)) :
    ((Op.unlock now).step m).2 = { m with
      lastUnlock := some now
      state := { m.state with unlocks := m.state.unlocks + 1 } } := by
  have ⟨hp, ho⟩ := (accepts_unlock m now).mp h
  simp [Op.step, unlock, hp, ho]

/-- An operation that neither answers, hangs up nor rings keeps the call as it is. -/
theorem step_quiet (m : CallMachine) (o : Op) (ha : o.isAnswer = false)
    (hs : o.isStart = false) (hh : o.isHangup = false) :
    (o.step m).2.state.phase = m.state.phase ∧ (o.step m).2.state.owner = m.state.owner ∧
      (o.step m).2.state.sessionId = m.state.sessionId := by
  cases o with
  | unlock now =>
      simp only [Op.step, unlock]
      split
      · exact ⟨rfl, rfl, rfl⟩
      · split <;> exact ⟨rfl, rfl, rfl⟩
  | videoFrame | doorAudio => exact ⟨rfl, rfl, rfl⟩
  | startCall s => simp [Op.isStart] at hs
  | hangup => simp [Op.isHangup] at hh
  | padAnswer | remoteAnswer => simp [Op.isAnswer] at ha

/-- The owner an answer gives the call. -/
def answerOwner : Op → Owner
  | .padAnswer => .pad
  | .remoteAnswer => .remote
  | _ => .none

/-- An answer that is accepted connects the call to its owner and keeps the session. -/
theorem step_answer (m : CallMachine) (o : Op) (ha : o.isAnswer = true) (h : m.accepts o) :
    (o.step m).2.state.phase = .connected ∧ (o.step m).2.state.owner = answerOwner o ∧
      (o.step m).2.state.sessionId = m.state.sessionId := by
  cases o with
  | padAnswer => rw [padAnswer_of_accepts m h]; exact ⟨rfl, rfl, rfl⟩
  | remoteAnswer => rw [remoteAnswer_of_accepts m h]; exact ⟨rfl, rfl, rfl⟩
  | startCall | unlock | hangup | videoFrame | doorAudio => simp [Op.isAnswer] at ha

theorem phase_of_accepts_answer (m : CallMachine) (o : Op) (ha : o.isAnswer = true)
    (h : m.accepts o) : m.state.phase = .ringing := by
  cases o with
  | padAnswer => exact ((accepts_padAnswer m).mp h).1
  | remoteAnswer => exact ((accepts_remoteAnswer m).mp h).1
  | startCall | unlock | hangup | videoFrame | doorAudio => simp [Op.isAnswer] at ha

/-! ## The invariant -/

/-- There is an owner exactly while the call is connected. -/
def Consistent (m : CallMachine) : Prop :=
  m.state.owner = .none ↔ m.state.phase ≠ .connected

theorem consistent_withPolicy (cooldown : Nat) (policy : Bool) :
    (withPolicy cooldown policy).Consistent := by
  simp [Consistent, withPolicy]

theorem consistent_step (m : CallMachine) (o : Op) (h : m.Consistent) :
    (o.step m).2.Consistent := by
  by_cases hok : m.accepts o
  · cases o with
    | startCall s => simp [Consistent, Op.step, startCall]
    | padAnswer => rw [padAnswer_of_accepts m hok]; simp [Consistent]
    | remoteAnswer => rw [remoteAnswer_of_accepts m hok]; simp [Consistent]
    | unlock now => rw [unlock_of_accepts m now hok]; exact h
    | hangup => simp [Consistent, Op.step, hangup]
    | videoFrame | doorAudio => exact h
  · rw [step_of_not_accepts m o hok]
    exact h

theorem consistent_run (m : CallMachine) (ops : List Op) (h : m.Consistent) :
    (m.run ops).Consistent := by
  induction ops generalizing m with
  | nil => exact h
  | cons o ops ih => exact ih _ (consistent_step m o h)

theorem Consistent.owner_of_ringing {m : CallMachine} (hm : m.Consistent)
    (hr : m.state.phase = .ringing) : m.state.owner = .none :=
  Iff.mpr hm (by rw [hr]; decide)

/-- While the call rings nobody owns it, so both answers are open. -/
theorem Consistent.accepts_answer_iff {m : CallMachine} (h : m.Consistent) (o : Op)
    (ha : o.isAnswer = true) : m.accepts o ↔ m.state.phase = .ringing := by
  refine ⟨phase_of_accepts_answer m o ha, fun hr => ?_⟩
  have hn := h.owner_of_ringing hr
  cases o with
  | padAnswer => simp [accepts_padAnswer, hr, hn]
  | remoteAnswer => simp [accepts_remoteAnswer, hr, hn]
  | startCall | unlock | hangup | videoFrame | doorAudio => simp [Op.isAnswer] at ha

/-! ## Runs without a new ring -/

/-- A call that is not ringing does not ring again before the next ring. -/
theorem run_not_ringing (m : CallMachine) (ops : List Op) (h : m.state.phase ≠ .ringing)
    (hs : ∀ o ∈ ops, o.isStart = false) : (m.run ops).state.phase ≠ .ringing := by
  induction ops generalizing m with
  | nil => exact h
  | cons o ops ih =>
      have hso := hs o List.mem_cons_self
      refine ih _ ?_ fun o' ho' => hs o' (List.mem_cons_of_mem o ho')
      by_cases ha : o.isAnswer = true
      · rw [step_of_not_accepts m o fun hok => h (phase_of_accepts_answer m o ha hok)]
        exact h
      · by_cases hh : o.isHangup = true
        · cases o <;> simp_all [Op.isHangup, Op.step, hangup]
        · rw [(step_quiet m o (by simpa using ha) hso (by simpa using hh)).1]
          exact h

/-- A connected call keeps its owner and session before the next hangup or ring. -/
theorem run_connected (m : CallMachine) (ops : List Op) (h : m.state.phase = .connected)
    (hs : ∀ o ∈ ops, o.isStart = false ∧ o.isHangup = false) :
    (m.run ops).state.phase = .connected ∧ (m.run ops).state.owner = m.state.owner ∧
      (m.run ops).state.sessionId = m.state.sessionId := by
  induction ops generalizing m with
  | nil => exact ⟨h, rfl, rfl⟩
  | cons o ops ih =>
      have ⟨hso, hho⟩ := hs o List.mem_cons_self
      have hrest := fun o' ho' => hs o' (List.mem_cons_of_mem o ho')
      have hkeep : (o.step m).2.state.phase = m.state.phase ∧
          (o.step m).2.state.owner = m.state.owner ∧
          (o.step m).2.state.sessionId = m.state.sessionId := by
        by_cases ha : o.isAnswer = true
        · rw [step_of_not_accepts m o]
          · exact ⟨rfl, rfl, rfl⟩
          · intro hok
            have hr := phase_of_accepts_answer m o ha hok
            rw [h] at hr
            cases hr
        · exact step_quiet m o (by simpa using ha) hso hho
      have ⟨h1, h2, h3⟩ := ih _ (hkeep.1.trans h) hrest
      exact ⟨h1, h2.trans hkeep.2.1, h3.trans hkeep.2.2⟩

/-- Without a ring the session id stays. -/
theorem run_sessionId (m : CallMachine) (ops : List Op) (hs : ∀ o ∈ ops, o.isStart = false) :
    (m.run ops).state.sessionId = m.state.sessionId := by
  induction ops generalizing m with
  | nil => rfl
  | cons o ops ih =>
      have hso := hs o List.mem_cons_self
      refine (ih _ fun o' ho' => hs o' (List.mem_cons_of_mem o ho')).trans ?_
      by_cases hok : m.accepts o
      · cases o with
        | startCall s => simp [Op.isStart] at hso
        | padAnswer => rw [padAnswer_of_accepts m hok]
        | remoteAnswer => rw [remoteAnswer_of_accepts m hok]
        | unlock now => rw [unlock_of_accepts m now hok]
        | hangup | videoFrame | doorAudio => rfl
      · rw [step_of_not_accepts m o hok]

/-- A ringing call keeps ringing exactly as long as nobody answers or hangs up. -/
theorem run_ringing_iff (m : CallMachine) (ops : List Op) (hc : m.Consistent)
    (h : m.state.phase = .ringing) (hs : ∀ o ∈ ops, o.isStart = false) :
    (m.run ops).state.phase = .ringing ↔
      ∀ o ∈ ops, o.isAnswer = false ∧ o.isHangup = false := by
  induction ops generalizing m with
  | nil => simp [h]
  | cons o ops ih =>
      have hso := hs o List.mem_cons_self
      have hrest := fun o' ho' => hs o' (List.mem_cons_of_mem o ho')
      rw [List.forall_mem_cons, run_cons]
      by_cases ha : o.isAnswer = true
      · have hcon := (step_answer m o ha ((hc.accepts_answer_iff o ha).mpr h)).1
        have hnot := run_not_ringing (o.step m).2 ops (by rw [hcon]; decide) hrest
        simp [ha, hnot]
      · by_cases hh : o.isHangup = true
        · have hidle : (o.step m).2.state.phase = .idle := by
            cases o <;> simp_all [Op.isHangup, Op.step, hangup]
          have hnot := run_not_ringing (o.step m).2 ops (by rw [hidle]; decide) hrest
          simp [hh, hnot]
        · have hq := step_quiet m o (by simpa using ha) hso (by simpa using hh)
          rw [ih _ (consistent_step m o hc) (hq.1.trans h) hrest]
          simp [ha, hh]

end CallMachine

/-! ## First answer wins -/

open CallMachine

/-- The arbitration rule between the physical Pad and the backends, for the runs that
    start at `m`. `pre` is the run so far, a call is a `startCall` and what follows it. -/
structure FirstAnswerWins (m : CallMachine) : Prop where
  /-- Within a call an answer returns `Ok` exactly when it is the first answer
      attempted and no hangup came before it. -/
  accepted_iff : ∀ (pre : List Op) (s : Nat) (mid : List Op) (a : Op),
    (∀ o ∈ mid, o.isStart = false) → a.isAnswer = true →
      ((m.run (pre ++ .startCall s :: mid)).accepts a ↔
        ∀ o ∈ mid, o.isAnswer = false ∧ o.isHangup = false)
  /-- Two answers of one call do not both return `Ok`. -/
  at_most_one : ∀ (pre : List Op) (s : Nat) (mid : List Op) (a : Op) (mid' : List Op) (b : Op),
    (∀ o ∈ mid ++ a :: mid', o.isStart = false) → a.isAnswer = true → b.isAnswer = true →
      (m.run (pre ++ .startCall s :: mid)).accepts a →
        ¬ (m.run (pre ++ .startCall s :: (mid ++ a :: mid'))).accepts b
  /-- From an accepted answer on the call is connected to that side until the next
      hangup or ring. -/
  owner_stays : ∀ (pre : List Op) (a : Op) (post : List Op),
    a.isAnswer = true → (m.run pre).accepts a →
      (∀ o ∈ post, o.isStart = false ∧ o.isHangup = false) →
        (m.run (pre ++ a :: post)).state.phase = .connected ∧
          (m.run (pre ++ a :: post)).state.owner = answerOwner a
  /-- After a hangup no answer succeeds before the next ring. -/
  none_after_hangup : ∀ (pre mid : List Op) (a : Op),
    (∀ o ∈ mid, o.isStart = false) → a.isAnswer = true →
      ¬ (m.run (pre ++ .hangup :: mid)).accepts a
  owner_none_iff : ∀ ops : List Op,
    (m.run ops).state.owner = .none ↔ (m.run ops).state.phase ≠ .connected
  /-- Past its phase check `remote_answer` never finds the Pad as owner, so it never
      returns `PadOwnsCall`. -/
  pad_owns_unreached : ∀ ops : List Op,
    ((m.run ops).state.phase = .ringing → (m.run ops).state.owner ≠ .pad) ∧
      (m.run ops).remoteAnswer.1 ≠ .error .padOwnsCall
  /-- Past its phase check `pad_answer` never finds the remote side as owner. -/
  remote_owner_unreached : ∀ ops : List Op,
    (m.run ops).state.phase = .ringing → (m.run ops).state.owner ≠ .remote

theorem Consistent.accepted_iff {m : CallMachine} (hm : m.Consistent) (pre : List Op) (s : Nat)
    (mid : List Op) (a : Op) (hs : ∀ o ∈ mid, o.isStart = false) (ha : a.isAnswer = true) :
    (m.run (pre ++ .startCall s :: mid)).accepts a ↔
      ∀ o ∈ mid, o.isAnswer = false ∧ o.isHangup = false := by
  have hc := consistent_run m (pre ++ .startCall s :: mid) hm
  rw [hc.accepts_answer_iff a ha]
  simp only [run_append, run_cons, Op.step]
  refine run_ringing_iff _ mid ?_ rfl hs
  exact consistent_step _ (.startCall s) (consistent_run m pre hm)

theorem Consistent.firstAnswerWins {m : CallMachine} (hm : m.Consistent) :
    FirstAnswerWins m where
  accepted_iff := Consistent.accepted_iff hm
  at_most_one := by
    intro pre s mid a mid' b hs ha hb _ hok
    have hall := (Consistent.accepted_iff hm pre s (mid ++ a :: mid') b hs hb).mp hok
    have hquiet := (hall a (by simp)).1
    rw [ha] at hquiet
    cases hquiet
  owner_stays := by
    intro pre a post ha hok hpost
    have hans := step_answer (m.run pre) a ha hok
    have hrun := run_connected _ post hans.1 hpost
    rw [run_append, run_cons]
    exact ⟨hrun.1, hrun.2.1.trans hans.2.1⟩
  none_after_hangup := by
    intro pre mid a hs ha hok
    have hr := phase_of_accepts_answer _ a ha hok
    rw [run_append, run_cons] at hr
    exact run_not_ringing _ mid (by simp [Op.step, hangup]) hs hr
  owner_none_iff := fun ops => consistent_run m ops hm
  pad_owns_unreached := by
    intro ops
    have hc := consistent_run m ops hm
    have hno : (m.run ops).state.phase = .ringing → (m.run ops).state.owner ≠ .pad := by
      intro hr
      rw [Consistent.owner_of_ringing hc hr]
      decide
    refine ⟨hno, ?_⟩
    unfold remoteAnswer
    split
    · simp
    · next hr =>
        rw [if_neg (hno (not_not.mp hr))]
        simp
  remote_owner_unreached := by
    intro ops hr
    rw [Consistent.owner_of_ringing (consistent_run m ops hm) hr]
    decide

/-- **First answer wins.** Whatever the cooldown and the policy, in every run of a new
    machine the first answer of a call owns it. -/
theorem first_answer_wins (cooldown : Nat) (policy : Bool) :
    FirstAnswerWins (withPolicy cooldown policy) :=
  Consistent.firstAnswerWins (consistent_withPolicy cooldown policy)

/-! ## Authority under the strict policy -/

namespace CallMachine

/-- The machine's settings. -/
def settings (m : CallMachine) : Nat × Bool := (m.unlockCooldown, m.unlockRequiresAnswer)

theorem step_settings (m : CallMachine) (o : Op) : (o.step m).2.settings = m.settings := by
  by_cases hok : m.accepts o
  · cases o with
    | padAnswer => rw [padAnswer_of_accepts m hok]; rfl
    | remoteAnswer => rw [remoteAnswer_of_accepts m hok]; rfl
    | unlock now => rw [unlock_of_accepts m now hok]; rfl
    | startCall | hangup | videoFrame | doorAudio => rfl
  · rw [step_of_not_accepts m o hok]

theorem run_settings (m : CallMachine) (ops : List Op) : (m.run ops).settings = m.settings := by
  induction ops generalizing m with
  | nil => rfl
  | cons o ops ih => exact (ih _).trans (step_settings m o)

theorem run_policy (m : CallMachine) (ops : List Op) :
    (m.run ops).unlockRequiresAnswer = m.unlockRequiresAnswer :=
  congrArg Prod.snd (m.run_settings ops)

/-- The remote side answered the call of the last ring of `ops` and nobody has hung up
    since; `s` is that ring's session id. -/
def RemoteHolds (m : CallMachine) (ops : List Op) (s : Nat) : Prop :=
  ∃ p₁ p₂ p₃ : List Op, ops = p₁ ++ .startCall s :: (p₂ ++ .remoteAnswer :: p₃) ∧
    (∀ o ∈ p₂, o.isStart = false) ∧ (∀ o ∈ p₃, o.isStart = false ∧ o.isHangup = false) ∧
    (m.run (p₁ ++ .startCall s :: p₂)).accepts .remoteAnswer

theorem RemoteHolds.append {m : CallMachine} {ops : List Op} {s : Nat} (h : m.RemoteHolds ops s)
    (o : Op) (hs : o.isStart = false) (hh : o.isHangup = false) :
    m.RemoteHolds (ops ++ [o]) s := by
  obtain ⟨p₁, p₂, p₃, rfl, h₂, h₃, hok⟩ := h
  refine ⟨p₁, p₂, p₃ ++ [o], by simp, h₂, ?_, hok⟩
  intro o' ho'
  rcases List.mem_append.mp ho' with ho' | ho'
  · exact h₃ o' ho'
  · rw [List.mem_singleton.mp ho']
    exact ⟨hs, hh⟩

/-- A machine that is not idle holds the session of its last ring. -/
theorem exists_last_start (m : CallMachine) (hm : m.state.phase = .idle) (ops : List Op)
    (h : (m.run ops).state.phase ≠ .idle) :
    ∃ p₁ p₂ : List Op, ops = p₁ ++ .startCall (m.run ops).state.sessionId :: p₂ ∧
      ∀ o ∈ p₂, o.isStart = false := by
  induction ops using List.reverseRecOn with
  | nil => exact absurd hm h
  | append_singleton ops o ih =>
      rw [run_append] at h
      by_cases hs : o.isStart = true
      · cases o with
        | startCall s => exact ⟨ops, [], by simp [Op.step, startCall], by simp⟩
        | padAnswer | remoteAnswer | unlock | hangup | videoFrame | doorAudio =>
            simp [Op.isStart] at hs
      · have hs' : o.isStart = false := by simpa using hs
        have hid := run_sessionId (m.run ops) [o] (by simpa using hs')
        have hne : (m.run ops).state.phase ≠ .idle := by
          intro hi
          apply h
          by_cases ha : o.isAnswer = true
          · rw [run_cons, step_of_not_accepts _ o]
            · exact hi
            · intro hok
              rw [phase_of_accepts_answer _ o ha hok] at hi
              cases hi
          · by_cases hh : o.isHangup = true
            · cases o <;> simp_all [Op.isHangup, Op.step, hangup]
            · exact (step_quiet _ o (by simpa using ha) hs' (by simpa using hh)).1.trans hi
        obtain ⟨p₁, p₂, he, hp⟩ := ih hne
        refine ⟨p₁, p₂ ++ [o], ?_, ?_⟩
        · rw [run_append, hid]
          calc ops ++ [o] = (p₁ ++ .startCall (m.run ops).state.sessionId :: p₂) ++ [o] := by
                rw [← he]
            _ = p₁ ++ .startCall (m.run ops).state.sessionId :: (p₂ ++ [o]) := by simp
        · intro o' ho'
          rcases List.mem_append.mp ho' with ho' | ho'
          · exact hp o' ho'
          · rw [List.mem_singleton.mp ho']
            exact hs'

/-- From an idle machine, the remote side owns the connected call exactly when it
    answered it. -/
theorem remoteHolds_iff (m : CallMachine) (hm : m.state.phase = .idle) (ops : List Op) (s : Nat) :
    m.RemoteHolds ops s ↔ (m.run ops).state.phase = .connected ∧
      (m.run ops).state.owner = .remote ∧ (m.run ops).state.sessionId = s := by
  constructor
  · rintro ⟨p₁, p₂, p₃, rfl, h₂, h₃, hok⟩
    have hans := step_answer _ .remoteAnswer rfl hok
    have hrun := run_connected _ p₃ hans.1 h₃
    have hid : (m.run (p₁ ++ .startCall s :: p₂)).state.sessionId = s := by
      rw [run_append, run_cons, run_sessionId _ p₂ h₂]
      rfl
    have he : p₁ ++ .startCall s :: (p₂ ++ .remoteAnswer :: p₃) =
        (p₁ ++ .startCall s :: p₂) ++ .remoteAnswer :: p₃ := by simp
    rw [he, run_append, run_cons]
    exact ⟨hrun.1, hrun.2.1.trans hans.2.1, (hrun.2.2.trans hans.2.2).trans hid⟩
  · induction ops using List.reverseRecOn with
    | nil =>
        rintro ⟨hp, -, -⟩
        rw [run_nil, hm] at hp
        cases hp
    | append_singleton ops o ih =>
        rw [run_append]
        intro h
        by_cases ha : o = .remoteAnswer ∧ (m.run ops).accepts o
        · -- this very step is the answer: the call it answers is the last ring's
          obtain ⟨rfl, hok⟩ := ha
          have hr := phase_of_accepts_answer _ .remoteAnswer rfl hok
          obtain ⟨p₁, p₂, he, hp⟩ := exists_last_start m hm ops (by rw [hr]; decide)
          have hid := (step_answer _ .remoteAnswer rfl hok).2.2
          rw [show (m.run ops).state.sessionId = s from hid ▸ h.2.2] at he
          refine ⟨p₁, p₂, [], ?_, hp, by simp, ?_⟩
          · simp [he]
          · rw [← he]
            exact hok
        · -- any other step has the call from the state before it
          have hs : o.isStart = false := by
            cases o <;> simp_all [Op.isStart, Op.step, startCall]
          have hh : o.isHangup = false := by
            cases o <;> simp_all [Op.isHangup, Op.step, hangup]
          refine RemoteHolds.append (ih ?_) o hs hh
          by_cases hok : (m.run ops).accepts o
          · have hq : o.isAnswer = false := by
              cases o with
              | padAnswer =>
                  rw [run_cons, padAnswer_of_accepts _ hok] at h
                  cases h.2.1
              | remoteAnswer => exact absurd ⟨rfl, hok⟩ ha
              | startCall | unlock | hangup | videoFrame | doorAudio => rfl
            have hk := step_quiet (m.run ops) o hq hs hh
            exact ⟨hk.1 ▸ h.1, hk.2.1 ▸ h.2.1, hk.2.2 ▸ h.2.2⟩
          · rw [run_cons, step_of_not_accepts _ o hok] at h
            exact h

end CallMachine

/-- What the strict policy promises, for the runs that start at `m`. -/
structure StrictAuthority (m : CallMachine) : Prop where
  /-- An unlock that returns `Ok` comes after a remote answer of the same call. -/
  unlock_authorized : ∀ (pre : List Op) (now : Nat), (m.run pre).accepts (.unlock now) →
    ∃ p₁ p₂ : List Op, pre = p₁ ++ .remoteAnswer :: p₂ ∧ (m.run p₁).accepts .remoteAnswer ∧
      ∀ o ∈ p₂, o.isStart = false ∧ o.isHangup = false
  /-- Remote media is allowed for a session exactly while the remote side holds the call
      of the last ring, and that ring was the session's. -/
  media_iff : ∀ (pre : List Op) (s : Nat),
    (m.run pre).remoteMediaAllowed s = true ↔ m.RemoteHolds pre s

/-- **Strict policy authority.** -/
theorem strict_authority (cooldown : Nat) :
    StrictAuthority (withPolicy cooldown true) where
  unlock_authorized := by
    intro pre now hok
    have hmay := ((accepts_unlock _ now).mp hok).1
    have hpol : ((withPolicy cooldown true).run pre).unlockRequiresAnswer = true :=
      run_policy _ pre
    have hholds : (withPolicy cooldown true).RemoteHolds pre
        ((withPolicy cooldown true).run pre).state.sessionId := by
      rw [remoteHolds_iff _ rfl]
      simpa [mayUnlock, hpol] using hmay
    obtain ⟨p₁, p₂, p₃, he, -, h₃, hans⟩ := hholds
    exact ⟨p₁ ++ .startCall _ :: p₂, p₃, by simpa using he, hans, h₃⟩
  media_iff := by
    intro pre s
    rw [remoteHolds_iff _ rfl]
    simp [remoteMediaAllowed, and_comm, and_assoc, and_left_comm]

end Michoi
