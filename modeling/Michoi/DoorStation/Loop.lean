/-
  One media loop for each call of the software door station.

  The `streaming` flag stands for the loop. It does so as long as a ring that finds it
  cleared finds no old loop, and it is not cleared under a call whose ring has set it
  (`Orderly`). `LoopKept` is what every such step keeps (`loopKept_next`), and `OneLoop` what
  follows from it in every state. `quick_ring` and `late_clear` are runs that lack one of the two.
-/
import Michoi.DoorStation.Tasks

namespace Michoi

open Lib

namespace StationTask

/-- A media loop that is running, or that a ring is about to spawn. -/
def bound : StationTask → Bool
  | ring .spawn => true
  | t => t.looping

/-- A ring that has started its call and not yet set the flag. -/
def beforeSwap : StationTask → Bool
  | ring .readSession => true
  | ring (.push _) => true
  | ring .swap => true
  | _ => false

end StationTask

/-! ## What a step does -/

/-- What a step does to the flag, the call and the loops. -/
inductive StationStep (d d' : DoorStation) : StationTask → StationTask → Prop where
  | quiet {t t'} (hflag : d'.streaming = d.streaming)
      (hcall : d'.call.machine.state.phase ≠ .idle → d.call.machine.state.phase ≠ .idle)
      (hbound : t'.bound = t.bound) (hbefore : t'.beforeSwap = t.beforeSwap) :
      StationStep d d' t t'
  | rang (hflag : d'.streaming = d.streaming) :
      StationStep d d' (.ring .transition) (.ring .readSession)
  | swapped (hflag : d.streaming = true) (hflag' : d'.streaming = true) :
      StationStep d d' (.ring .swap) (.ring .done)
  | lit (hflag : d.streaming = false) (hflag' : d'.streaming = true) :
      StationStep d d' (.ring .swap) (.ring .spawn)
  | cleared {t t'} (ht : (∃ reason active, t = .hangupLocal reason (.clear active)) ∨
        ∃ action commandId, t = .command action commandId .clear)
      (hflag : d'.streaming = false)
      (hcall : d'.call.machine.state.phase = d.call.machine.state.phase)
      (hbound : t'.bound = false) (hbefore : t'.beforeSwap = false) : StationStep d d' t t'
  | stopped (hflag : d.streaming = false) (hsame : d' = d) :
      StationStep d d' (.mediaLoop .check) (.mediaLoop .stopped)

/-- A command ends a call or leaves it a call, and starts none. -/
theorem StationCall.command_phase (c : StationCall) (env : Env) (callbacks : Callbacks)
    (action : CallAction) (session : String)
    (h : (c.command env callbacks action session).2.machine.state.phase ≠ .idle) :
    c.machine.state.phase ≠ .idle := by
  intro hidle
  apply h
  cases action with
  | claim => simp [StationCall.command, CallMachine.remoteAnswer, hidle]
  | unlock =>
      unfold StationCall.command CallMachine.unlock
      dsimp only
      split
      · next heq =>
          split at heq
          · cases heq
          · split at heq
            · cases heq
            · cases heq
              exact hidle
      · next heq =>
          split at heq
          · cases heq
            exact hidle
          · split at heq
            · cases heq
              exact hidle
            · cases heq
  | hangup => simp [StationCall.command, hidle]

section

variable {config : DoorStationConfig} {env : StationEnv} {d d' : DoorStation} {t t' : StationTask}

theorem ringStep_cases {pc : RingPc}
    (h : (.ring pc : StationTask).step config env d = some (d', t')) :
    StationStep d d' (.ring pc) t' := by
  cases pc with
  | transition =>
      simp only [StationTask.step, DoorStation.ringStep] at h
      split at h
      · cases h
        exact .quiet rfl id rfl rfl
      · cases h
        exact .rang rfl
  | swap =>
      simp only [StationTask.step, DoorStation.ringStep] at h
      cases hflag : d.streaming with
      | true =>
          rw [hflag] at h
          cases h
          exact .swapped hflag rfl
      | false =>
          rw [hflag] at h
          cases h
          exact .lit hflag rfl
  | done => cases h
  | _ =>
      cases h
      exact .quiet rfl id rfl rfl

theorem hangupLocalStep_cases {reason : String} {pc : HangupLocalPc}
    (h : (.hangupLocal reason pc : StationTask).step config env d = some (d', t')) :
    StationStep d d' (.hangupLocal reason pc) t' := by
  cases pc with
  | transition =>
      cases h
      exact .quiet rfl (fun hphase => absurd rfl hphase) rfl rfl
  | clear active =>
      cases h
      exact .cleared (.inl ⟨reason, active, rfl⟩) rfl rfl rfl rfl
  | callback =>
      cases h
      refine .quiet ?_ ?_ rfl rfl <;> cases d.callbacks.onHangup <;>
        simp [DoorStation.runCallback]
  | done => cases h
  | _ =>
      cases h
      exact .quiet rfl id rfl rfl

theorem stationCommandStep_cases {action : CallAction} {commandId : String} {pc : StationCommandPc}
    (h : (.command action commandId pc : StationTask).step config env d = some (d', t')) :
    StationStep d d' (.command action commandId pc) t' := by
  cases pc with
  | lookup =>
      simp only [StationTask.step, DoorStation.commandStep] at h
      split at h <;> cases h <;> exact .quiet rfl id rfl rfl
  | transition session =>
      have hphase := d.call.command_phase env.toEnv d.callbacks action session
      simp only [StationTask.step, DoorStation.commandStep] at h
      split at h <;> next heq =>
        cases h
        exact .quiet rfl (fun hnew => hphase (by rw [heq]; exact hnew)) rfl rfl
  | callback notice =>
      cases h
      refine .quiet ?_ ?_ ?_ ?_
      · cases notice.callback <;> rfl
      · cases notice.callback <;> exact id
      · dsimp only
        split <;> rfl
      · dsimp only
        split <;> rfl
  | clear =>
      cases h
      exact .cleared (.inr ⟨action, commandId, rfl⟩) rfl rfl rfl rfl
  | done => cases h
  | _ =>
      cases h
      exact .quiet rfl id rfl rfl

theorem loopStep_cases {pc : LoopPc}
    (h : (.mediaLoop pc : StationTask).step config env d = some (d', t')) :
    StationStep d d' (.mediaLoop pc) t' := by
  cases pc with
  | check =>
      simp only [StationTask.step, DoorStation.loopStep] at h
      cases hflag : d.streaming with
      | true =>
          rw [hflag] at h
          cases h
          exact .quiet rfl id rfl rfl
      | false =>
          rw [hflag] at h
          cases h
          exact .stopped hflag rfl
  | wait =>
      cases h
      exact .quiet rfl id rfl rfl
  | stopped => cases h

theorem stationStep_cases (h : t.step config env d = some (d', t')) : StationStep d d' t t' := by
  cases t with
  | ring pc => exact ringStep_cases h
  | hangupLocal reason pc => exact hangupLocalStep_cases h
  | command action commandId pc => exact stationCommandStep_cases h
  | mediaLoop pc => exact loopStep_cases h

end

/-! ## One loop -/

/-- A ring that finds the flag cleared finds no loop that still runs, nor a ring that is
    about to spawn one. The flag is cleared while there is no call, or before some ring has
    set it. -/
def StationTask.Orderly (p : StationPool) : StationTask → Prop
  | ring .swap => p.shared.streaming = false → ∀ t ∈ p.threads, t.bound = false
  | hangupLocal _ (.clear _) | command _ _ .clear =>
      p.shared.call.machine.state.phase = .idle ∨ ∃ t ∈ p.threads, t.beforeSwap = true
  | _ => True

/-- The step keeps the flag true to the loop. -/
def Orderly (p : StationPool) : StationMove → Prop
  | .step i _ => ∀ t ∈ p.threads[i]?, t.Orderly p
  | _ => True

instance (p : StationPool) (t : StationTask) : Decidable (t.Orderly p) := by
  unfold StationTask.Orderly
  split <;> infer_instance

instance (p : StationPool) : ∀ m, Decidable (Orderly p m)
  | .step _ _ => inferInstanceAs (Decidable (∀ _ ∈ _, _))
  | .start _ => inferInstanceAs (Decidable True)
  | .outside _ => inferInstanceAs (Decidable True)

/-- At most one media loop is running, and where no operation is in progress a call has
    one, with the flag set. -/
structure OneLoop (p : StationPool) : Prop where
  atMost : AtMostOne (fun t => t.looping = true) p.threads
  exactly : (∀ t ∈ p.threads, t.inProgress = false) →
    p.shared.call.machine.state.phase ≠ .idle →
    p.shared.streaming = true ∧ ∃! i : Nat, ∃ t, p.threads[i]? = some t ∧ t.looping = true

/-- The flag stands for the loop, and a call without the flag has a ring that will set it. -/
structure LoopKept (p : StationPool) : Prop where
  atMost : AtMostOne (fun t => t.bound = true) p.threads
  lit : p.shared.streaming = true → ∃ t ∈ p.threads, t.bound = true
  covered : p.shared.call.machine.state.phase ≠ .idle →
    p.shared.streaming = true ∨ ∃ t ∈ p.threads, t.beforeSwap = true

theorem loopKept_opened (callbacks : Callbacks) (cooldown : Nat) :
    LoopKept ⟨DoorStation.opened callbacks cooldown, []⟩ where
  atMost := .nil
  lit h := nomatch h
  covered h := absurd rfl h

theorem loopKept_start {p : StationPool} {t : StationTask} (hp : LoopKept p) (hfresh : t.fresh = true) :
    LoopKept ⟨p.shared, p.threads ++ [t]⟩ := by
  have hbound : ¬ t.bound = true := by
    cases t with
    | ring pc =>
        cases pc with
        | transition => exact Bool.false_ne_true
        | _ => cases hfresh
    | hangupLocal => exact Bool.false_ne_true
    | command => exact Bool.false_ne_true
    | mediaLoop => cases hfresh
  refine ⟨hp.atMost.append fun h => absurd h hbound, fun h => ?_, fun h => ?_⟩
  · obtain ⟨u, hu, hb⟩ := hp.lit h
    exact ⟨u, List.mem_append_left _ hu, hb⟩
  · refine (hp.covered h).imp_right ?_
    rintro ⟨u, hu, hb⟩
    exact ⟨u, List.mem_append_left _ hu, hb⟩

theorem loopKept_step {p : StationPool} {d : DoorStation} {t t' : StationTask} {i : Nat}
    (hp : LoopKept p) (ht : p.threads[i]? = some t) (horderly : t.Orderly p)
    (hs : StationStep p.shared d t t') : LoopKept ⟨d, p.threads.set i t'⟩ := by
  have hmem := List.mem_of_getElem? ht
  have hmem' : t' ∈ p.threads.set i t' := List.mem_of_getElem? (getElem?_set_self ht)
  cases hs with
  | quiet hflag hcall hbound hbefore =>
      refine ⟨hp.atMost.set ht fun h => hbound ▸ h, fun h => ?_, fun h => ?_⟩
      · exact exists_set (hp.lit (hflag ▸ h)) ht fun hb => hbound.trans hb
      · rcases hp.covered (hcall h) with hlit | hring
        · exact .inl (hflag.trans hlit)
        · exact .inr (exists_set hring ht fun hb => hbefore.trans hb)
  | rang hflag =>
      refine ⟨hp.atMost.set ht (fun h => nomatch h), fun h => ?_, fun _ => .inr ⟨_, hmem', rfl⟩⟩
      exact exists_set (hp.lit (hflag ▸ h)) ht fun hb => nomatch hb
  | swapped hflag hflag' =>
      refine ⟨hp.atMost.set ht (fun h => nomatch h), fun _ => ?_, fun _ => .inl hflag'⟩
      exact exists_set (hp.lit hflag) ht fun hb => nomatch hb
  | lit hflag hflag' =>
      -- No loop is left of an earlier call, so the new one is the only one.
      have hno : ∀ u ∈ p.threads, ¬ u.bound = true := fun u hu =>
        Bool.eq_false_iff.mp (horderly hflag u hu)
      exact ⟨.enter hno, fun _ => ⟨_, hmem', rfl⟩, fun _ => .inl hflag'⟩
  | cleared htask hflag hcall hbound hbefore =>
      have hidle : p.shared.call.machine.state.phase = .idle ∨
          ∃ u ∈ p.threads, u.beforeSwap = true := by
        rcases htask with ⟨_, _, rfl⟩ | ⟨_, _, rfl⟩ <;> exact horderly
      have hnot : t.beforeSwap = false := by
        rcases htask with ⟨_, _, rfl⟩ | ⟨_, _, rfl⟩ <;> rfl
      refine ⟨hp.atMost.set ht fun h => ?_, fun h => ?_, fun h => ?_⟩
      · exact absurd (hbound.symm.trans h) Bool.false_ne_true
      · exact absurd (hflag.symm.trans h) Bool.false_ne_true
      · have hring := hidle.resolve_left (hcall ▸ h)
        exact .inr (exists_set hring ht fun hb => absurd (hnot.symm.trans hb) Bool.false_ne_true)
  | stopped hflag hsame =>
      subst hsame
      refine ⟨hp.atMost.set ht (fun h => nomatch h), fun h => ?_, fun h => ?_⟩
      · exact absurd (hflag.symm.trans h) Bool.false_ne_true
      · exact (hp.covered h).imp_right fun hring => exists_set hring ht fun hb => nomatch hb

theorem loopKept_next {config : DoorStationConfig} {p q : StationPool} {m : StationMove}
    (hp : LoopKept p) (ho : Orderly p m) (h : (stationProgram config).system.next p m = some q) :
    LoopKept q := by
  rcases Program.next_cases h with ⟨t, rfl, hfresh, rfl⟩ | ⟨i, env, t, d, t', rfl, ht, hs, rfl⟩ |
    ⟨b, rfl, rfl⟩
  · exact loopKept_start hp hfresh
  · exact loopKept_step hp ht (ho t ht) (stationStep_cases hs)
  · exact b.elim

/-- Where no operation is in progress, a thread that is bound to run a loop runs it. -/
theorem looping_of_bound {t : StationTask} (hb : t.bound = true) (hp : t.inProgress = false) :
    t.looping = true := by
  cases t with
  | ring pc =>
      cases pc with
      | spawn => cases hp
      | _ => cases hb
  | hangupLocal => cases hb
  | command => cases hb
  | mediaLoop => exact hb

theorem bound_of_looping {t : StationTask} (h : t.looping = true) : t.bound = true := by
  cases t with
  | ring => cases h
  | hangupLocal => cases h
  | command => cases h
  | mediaLoop => exact h

theorem inProgress_of_beforeSwap {t : StationTask} (h : t.beforeSwap = true) :
    t.inProgress = true := by
  cases t with
  | ring pc =>
      cases pc with
      | readSession | push | swap => rfl
      | _ => cases h
  | hangupLocal => cases h
  | command => cases h
  | mediaLoop => cases h

theorem LoopKept.oneLoop {p : StationPool} (hp : LoopKept p) : OneLoop p := by
  have hatMost : AtMostOne (fun t => t.looping = true) p.threads :=
    fun i j k k' hk hk' hQ hQ' =>
      hp.atMost i j k k' hk hk' (bound_of_looping hQ) (bound_of_looping hQ')
  refine ⟨hatMost, fun hquiet hcall => ?_⟩
  have hlit : p.shared.streaming = true := by
    rcases hp.covered hcall with hlit | ⟨t, ht, hbefore⟩
    · exact hlit
    · exact absurd ((hquiet t ht).symm.trans (inProgress_of_beforeSwap hbefore))
        Bool.false_ne_true
  obtain ⟨t, ht, hbound⟩ := hp.lit hlit
  obtain ⟨i, hi⟩ := List.mem_iff_getElem?.mp ht
  have hlooping := looping_of_bound hbound (hquiet t ht)
  refine ⟨hlit, i, ⟨t, hi, hlooping⟩, ?_⟩
  rintro j ⟨u, hj, hu⟩
  exact hatMost j i u t hj hi hu hlooping

/-- **One media loop for each call**, in every run whose steps are all orderly. -/
theorem one_loop (config : DoorStationConfig) (callbacks : Callbacks) (cooldown : Nat)
    {moves : List StationMove} {p : StationPool}
    (horderly : (stationProgram config).system.Meets Orderly
      ⟨.opened callbacks cooldown, []⟩ moves)
    (h : (stationProgram config).system.run ⟨.opened callbacks cooldown, []⟩ moves = some p) :
    OneLoop p :=
  (System.run_induction_meets (fun _ _ _ hp ho hn => loopKept_next hp ho hn)
    (loopKept_opened callbacks cooldown) horderly h).oneLoop

/-! ## Runs -/

/-- An operation is called at a place and takes so many steps. -/
def callStation (i : Nat) (t : StationTask) (n : Nat) : List StationMove :=
  .start t :: List.replicate n (.step i { })

def silentStation : StationPool := ⟨.opened ⟨none, none, none⟩ 1000000000, []⟩

def someStation : DoorStationConfig := ⟨"M00000000000", "S00000000000"⟩

/-- Ring, hang up, ring again after the loop has stopped. -/
def ringAgain : List StationMove :=
  callStation 0 (.ring .transition) 5 ++ callStation 1 (.hangupLocal "operator" .transition) 5 ++
    [.step 0 { }] ++ callStation 2 (.ring .transition) 5

theorem one_loop_again : ∃ p,
    (stationProgram someStation).system.run silentStation ringAgain = some p ∧ OneLoop p ∧
      p.threads = [.mediaLoop .stopped, .hangupLocal "operator" .done, .mediaLoop .check] := by
  have hend : ((stationProgram someStation).system.run silentStation ringAgain).map
      (fun p => p.threads) =
        some [.mediaLoop .stopped, .hangupLocal "operator" .done, .mediaLoop .check] := by
    decide +kernel
  obtain ⟨p, hrun, hthreads⟩ := Option.map_eq_some_iff.mp hend
  exact ⟨p, hrun, one_loop someStation _ _ (by decide +kernel) hrun, hthreads⟩

/-- Ring, hang up, ring again before the loop has looked at the flag. -/
def quickRing : List StationMove :=
  callStation 0 (.ring .transition) 6 ++ callStation 1 (.hangupLocal "operator" .transition) 5 ++
    callStation 2 (.ring .transition) 5

/-- A hangup is overtaken by the next ring, and then clears its flag. -/
def lateClear : List StationMove :=
  callStation 0 (.ring .transition) 5 ++ callStation 1 (.hangupLocal "operator" .transition) 1 ++
    callStation 2 (.ring .transition) 4 ++ List.replicate 4 (.step 1 { }) ++ [.step 0 { }]

/-- Two loops run, or a call has none, where no operation is in progress. -/
theorem two_loops_or_none :
    (∃ p, (stationProgram someStation).system.run silentStation quickRing = some p ∧
      p.threads = [.mediaLoop .wait, .hangupLocal "operator" .done, .mediaLoop .check] ∧
      ¬ OneLoop p) ∧
    ∃ p, (stationProgram someStation).system.run silentStation lateClear = some p ∧
      p.threads = [.mediaLoop .stopped, .hangupLocal "operator" .done, .ring .done] ∧
      p.shared.call.machine.state.phase = .ringing ∧ ¬ OneLoop p := by
  constructor
  · have hend : ((stationProgram someStation).system.run silentStation quickRing).map
        (fun p => p.threads) =
          some [.mediaLoop .wait, .hangupLocal "operator" .done, .mediaLoop .check] := by
      decide +kernel
    obtain ⟨p, hrun, hthreads⟩ := Option.map_eq_some_iff.mp hend
    refine ⟨p, hrun, hthreads, fun h => ?_⟩
    have hsame := h.atMost 0 2 _ _ (by rw [hthreads]; rfl) (by rw [hthreads]; rfl) rfl rfl
    exact absurd hsame (by decide)
  · have hend : ((stationProgram someStation).system.run silentStation lateClear).map
        (fun p => (p.threads, p.shared.call.machine.state.phase)) =
          some ([.mediaLoop .stopped, .hangupLocal "operator" .done, .ring .done], .ringing) := by
      decide +kernel
    obtain ⟨p, hrun, hboth⟩ := Option.map_eq_some_iff.mp hend
    obtain ⟨hthreads, hphase⟩ := Prod.mk.inj hboth
    refine ⟨p, hrun, hthreads, hphase, fun h => ?_⟩
    obtain ⟨_, i, ⟨t, hi, hlooping⟩, _⟩ := h.exactly (by rw [hthreads]; decide)
      (by rw [hphase]; decide)
    have hmem := List.mem_of_getElem? hi
    rw [hthreads] at hmem
    simp only [List.mem_cons, List.not_mem_nil, or_false] at hmem
    rcases hmem with rfl | rfl | rfl <;> cases hlooping

end Michoi
