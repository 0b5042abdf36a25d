/-
  What a finished monitor cleans up.

  The task of a monitor takes whatever handle is in the slot when its session is over. So
  when a camera replaces another, the task of the first takes the handle of the second, which
  ends the second as well (`first_camera_ends_second`). `monitor_cleans_only_itself` is the
  condition under which it does not: a handle goes into the slot only when no other task
  serves a monitor. `cleanup_reaches_later_monitor` says that this is needed: when a handle
  goes in beside such a task, that task can take it.

  The invariant is `Tidy`: at most one task serves a monitor, and the handle in the slot is
  that task's.
-/
import Michoi.Household.Slots

namespace Michoi

open Lib

variable {W : Type}

/-! ## Only its own handle -/

/-- The notes of a move. -/
def monitorNotes (p : HousePool W) (m : HouseMove) (q : HousePool W) : List MonitorNote :=
  match m with
  | .step i _ =>
      (p.threads[i]?).elim [] fun t =>
        (q.threads[i]?).elim [] fun t' => t.monitorNotes p.shared t'
  | _ => []

theorem monitorNotes_step {p : HousePool W} {i : Nat} {env : HouseEnv} {t t' : HouseTask}
    {h' : Household W} (ht : p.threads[i]? = some t) :
    monitorNotes p (.step i env) ⟨h', p.threads.set i t'⟩ = t.monitorNotes p.shared t' := by
  unfold monitorNotes
  dsimp only
  rw [ht, Option.elim_some, getElem?_set_self ht, Option.elim_some]

/-- The monitor is active: its handle is in the slot, its signal was not sent, and a task
    runs its session. -/
structure Active (p : HousePool W) (m : MonitorHandle) : Prop where
  slot : p.shared.agent.monitor = some m
  signal : m.cancel ∉ p.shared.agent.cancelled
  task : ∃ t ∈ p.threads, t.watching = some m.cancel

/-- A cleanup finds no other monitor's handle; a monitor that was started is active, unless it
    was stopped or replaced or its session ended. -/
structure CleansOnlyItself (p : HousePool W) (notes : List MonitorNote) : Prop where
  cleaned : ∀ signal found, .cleaned signal found ∈ notes → ∀ other ∈ found, other = signal
  active : ∀ m, .installed m ∈ notes → .stopped m ∉ notes → .replaced m ∉ notes →
    .ended m.cancel ∉ notes → Active p m

/-- The next step of `start_monitor` sets its handle. -/
def HouseTask.installs : HouseTask → Bool
  | startMonitor _ (.install _) => true
  | _ => false

/-- A handle goes into the slot when no task serves a monitor. -/
def InstallsAlone (p : HousePool W) : HouseMove → Prop
  | .step i _ => ∀ t ∈ p.threads[i]?, t.installs = true → ∀ u ∈ p.threads, u.viewing = none
  | _ => True

instance (p : HousePool W) : ∀ m, Decidable (InstallsAlone p m)
  | .step _ _ => inferInstanceAs (Decidable (∀ _ ∈ _, _ → _))
  | .start _ => inferInstanceAs (Decidable True)
  | .outside _ => inferInstanceAs (Decidable True)

/-! ## One step -/

section

variable {h h' : Household W} {t t' : HouseTask} {threads : List HouseTask} {i : Nat}

/-- Only setting a handle makes a task serve a monitor. -/
theorem SlotStep.viewing_back (hs : SlotStep h t h' t') (hno : t.installs = false)
    (hv : t'.viewing ≠ none) : t.viewing ≠ none := by
  cases hs with
  | kept _ hv' => rw [← hv']; exact hv
  | ended hw => rw [HouseTask.viewing_of_watching hw]; exact Option.some_ne_none _
  | told => exact Option.some_ne_none _
  | stopped _ ht' | hungUp _ ht' | answered _ ht' => exact absurd ht'.viewing hv
  | installed => cases hno
  | cleaned | numbered | dialed => exact absurd rfl hv

/-- The handle in the slot was there before, or is the task's own. -/
theorem SlotStep.monitor_own (hs : SlotStep h t h' t') {m : MonitorHandle}
    (hm : m ∈ h'.agent.monitor) :
    m ∈ h.agent.monitor ∧ (∀ signal, t.viewing = some signal → t'.viewing = some signal) ∨
      t'.viewing = some m.cancel := by
  cases hs with
  | kept hs hv => exact .inl ⟨hs.monitor ▸ hm, fun signal h => hv.trans h⟩
  | ended hw =>
      exact .inl ⟨hm, fun signal h => (HouseTask.viewing_of_watching hw).symm.trans h⟩
  | told => exact .inl ⟨hm, fun signal h => h⟩
  | stopped =>
      rw [Household.withAgent_agent, stopMonitorNow_monitor] at hm
      cases hm
  | installed =>
      obtain rfl := Option.some.inj hm
      exact .inr rfl
  | cleaned => cases hm
  | hungUp ht =>
      refine .inl ⟨takeCallSession_monitor h.agent ▸ hm, fun signal h => ?_⟩
      exact nomatch ht.viewing.symm.trans h
  | @answered _ _ env hpc =>
      refine .inl ⟨outboundAnswered_monitor h.agent env ▸ hm, fun signal h => ?_⟩
      exact nomatch (HouseTask.bystander_of_wirePc hpc).viewing.symm.trans h
  | numbered | dialed => exact .inl ⟨hm, fun signal h => nomatch h⟩

/-- Only a task that serves a monitor cleans up, and it finds what is in the slot. -/
theorem SlotStep.viewing_of_cleaned (hs : SlotStep h t h' t') {signal : Nat}
    {found : Option Nat} (hin : .cleaned signal found ∈ t.monitorNotes h t') :
    t.viewing = some signal ∧ found = h.agent.monitor.map MonitorHandle.cancel := by
  cases hs with
  | kept _ _ _ _ hn | ended _ hn | hungUp _ _ hn | answered _ _ hn => simp [hn] at hin
  | stopped _ _ hn =>
      rw [hn] at hin
      obtain ⟨m, -, heq⟩ := mem_map_toList.mp hin
      cases heq
  | installed =>
      rcases List.mem_append.mp hin with hin | hin
      · obtain ⟨m, -, heq⟩ := mem_map_toList.mp hin
        cases heq
      · cases List.mem_singleton.mp hin
  | cleaned =>
      cases List.mem_singleton.mp hin
      exact ⟨rfl, rfl⟩
  | told | numbered | dialed => cases hin

/-- A monitor is active when its handle is set. -/
theorem SlotStep.active_of_installed (hs : SlotStep h t h' t')
    (hapart : SignalsApart ⟨h, threads⟩) (ht : threads[i]? = some t) {m : MonitorHandle}
    (hin : .installed m ∈ t.monitorNotes h t') : Active ⟨h', threads.set i t'⟩ m := by
  cases hs with
  | kept _ _ _ _ hn | ended _ hn | hungUp _ _ hn | answered _ _ hn => simp [hn] at hin
  | stopped _ _ hn =>
      rw [hn] at hin
      obtain ⟨m, -, heq⟩ := mem_map_toList.mp hin
      cases heq
  | @installed cameraId camera =>
      rcases List.mem_append.mp hin with hin | hin
      · obtain ⟨m, -, heq⟩ := mem_map_toList.mp hin
        cases heq
      · cases List.mem_singleton.mp hin
        refine ⟨rfl, fun hc => ?_, _, List.mem_of_getElem? (getElem?_set_self ht), rfl⟩
        rcases mem_append_toList hc with hc | ⟨old, hold, heq⟩
        · exact Nat.lt_irrefl _ (hapart.cancelled _ hc)
        · exact Nat.ne_of_lt (hapart.monitor old hold) heq
  | cleaned => cases List.mem_singleton.mp hin
  | told | numbered | dialed => cases hin

/-- The one task that serves a monitor runs the session of the active one. -/
theorem Active.watching {m : MonitorHandle} (ha : Active ⟨h, threads⟩ m)
    (hone : AtMostOne (fun t => t.viewing ≠ none) threads) (ht : t ∈ threads)
    (hv : t.viewing ≠ none) : t.watching = some m.cancel := by
  obtain ⟨u, hu, hw⟩ := ha.task
  have hvu := HouseTask.viewing_of_watching hw
  obtain rfl : t = u := hone.eq ht hu hv fun hno => nomatch hvu.symm.trans hno
  exact hw

/-- The active monitor stays active, or a note says why not. -/
theorem Active.step {m : MonitorHandle} (ha : Active ⟨h, threads⟩ m)
    (hone : AtMostOne (fun t => t.viewing ≠ none) threads) (hapart : SignalsApart ⟨h, threads⟩)
    (ht : threads[i]? = some t) (hs : SlotStep h t h' t') :
    Active ⟨h', threads.set i t'⟩ m ∨ .stopped m ∈ t.monitorNotes h t' ∨
      .replaced m ∈ t.monitorNotes h t' ∨ .ended m.cancel ∈ t.monitorNotes h t' := by
  have hmem : t ∈ threads := List.mem_of_getElem? ht
  have hcall : ∀ c ∈ h.agent.callSession, c.cancel ≠ m.cancel := fun c hc heq =>
    hapart.apart m ha.slot (.inl ⟨c, hc, heq⟩)
  -- A task that runs no session is not the active monitor's.
  have htask : t.viewing = none → ∃ u ∈ threads.set i t', u.watching = some m.cancel :=
    fun hno => exists_set ha.task ht fun hw =>
      nomatch (HouseTask.viewing_of_watching hw).symm.trans hno
  cases hs with
  | kept hs _ hw =>
      exact .inl ⟨hs.monitor.trans ha.slot, hs.cancelled ▸ ha.signal,
        exists_set ha.task ht fun h => hw.trans h⟩
  | ended hw hn =>
      have hv := HouseTask.viewing_of_watching hw
      have hm := ha.watching hone hmem fun hno => nomatch hv.symm.trans hno
      obtain rfl := Option.some.inj (hw.symm.trans hm)
      rw [hn]
      exact .inr (.inr (.inr (List.mem_singleton.mpr rfl)))
  | told hc =>
      obtain rfl := Option.some.inj (ha.watching hone hmem (Option.some_ne_none _))
      exact absurd hc ha.signal
  | stopped _ _ hn =>
      rw [hn, ha.slot]
      exact .inr (.inl (List.mem_singleton.mpr rfl))
  | installed =>
      refine .inr (.inr (.inl (List.mem_append_left _ ?_)))
      rw [ha.slot]
      exact List.mem_singleton.mpr rfl
  | cleaned => exact nomatch ha.watching hone hmem (Option.some_ne_none _)
  | hungUp hb =>
      refine .inl ⟨(takeCallSession_monitor _).trans ha.slot, fun hc => ?_, htask hb.viewing⟩
      rw [Household.withAgent_agent, takeCallSession_cancelled] at hc
      rcases mem_append_toList hc with hc | ⟨c, hc, heq⟩
      · exact ha.signal hc
      · exact hcall c hc heq
  | answered hpc =>
      refine .inl ⟨(outboundAnswered_monitor ..).trans ha.slot, ?_,
        htask (HouseTask.bystander_of_wirePc hpc).viewing⟩
      rw [Household.withAgent_agent, outboundAnswered_cancelled]
      exact ha.signal
  | numbered => exact .inl ⟨ha.slot, ha.signal, htask rfl⟩
  | dialed =>
      refine .inl ⟨ha.slot, fun hc => ?_, htask rfl⟩
      rcases mem_append_toList hc with hc | ⟨c, hc, heq⟩
      · exact ha.signal hc
      · exact hcall c hc heq

end

/-! ## A run -/

/-- At most one task serves a monitor, and the handle in the slot is that task's. -/
structure Tidy (p : HousePool W) (notes : List MonitorNote) : Prop
    extends CleansOnlyItself p notes where
  apart : SignalsApart p
  one : AtMostOne (fun t => t.viewing ≠ none) p.threads
  owned : ∀ m ∈ p.shared.agent.monitor, ∃ t ∈ p.threads, t.viewing = some m.cancel

namespace Tidy

variable {p : HousePool W} {notes : List MonitorNote}

/-- A change of the Agent that leaves its slots. -/
theorem same {a : Agent W} (hp : Tidy p notes) (hs : SameSlots p.shared.agent a) :
    Tidy ⟨p.shared.withAgent a, p.threads⟩ notes where
  cleaned := hp.cleaned
  active m hin hstop hrep hend :=
    have ha := hp.active m hin hstop hrep hend
    ⟨hs.monitor.trans ha.slot, hs.cancelled ▸ ha.signal, ha.task⟩
  apart := hp.apart.same hs
  one := hp.one
  owned m hm := hp.owned m (hs.monitor ▸ hm)

theorem start {t : HouseTask} (hp : Tidy p notes) (ht : t.fresh = true) :
    Tidy ⟨p.shared, p.threads ++ [t]⟩ notes where
  cleaned := hp.cleaned
  active m hin hstop hrep hend :=
    have ha := hp.active m hin hstop hrep hend
    have ⟨u, hu, hw⟩ := ha.task
    ⟨ha.slot, ha.signal, u, List.mem_append_left _ hu, hw⟩
  apart := hp.apart.start ht
  one := hp.one.append fun hv => absurd (HouseTask.bystander_of_fresh ht).viewing hv
  owned m hm :=
    have ⟨u, hu, hv⟩ := hp.owned m hm
    ⟨u, List.mem_append_left _ hu, hv⟩

/-- A cleanup finds the handle of its own monitor, if any. -/
theorem found {t : HouseTask} {signal other : Nat} (hp : Tidy p notes) (ht : t ∈ p.threads)
    (hv : t.viewing = some signal)
    (hm : p.shared.agent.monitor.map MonitorHandle.cancel = some other) : other = signal := by
  obtain ⟨m, hslot, rfl⟩ := Option.map_eq_some_iff.mp hm
  obtain ⟨u, hu, hvu⟩ := hp.owned m hslot
  obtain rfl : t = u := hp.one.eq ht hu (fun hno => nomatch hv.symm.trans hno)
    fun hno => nomatch hvu.symm.trans hno
  exact Option.some.inj (hvu.symm.trans hv)

theorem step {h' : Household W} {t t' : HouseTask} {i : Nat} (hp : Tidy p notes)
    (ht : p.threads[i]? = some t) (hs : SlotStep p.shared t h' t')
    (halone : t.installs = true → ∀ u ∈ p.threads, u.viewing = none) :
    Tidy ⟨h', p.threads.set i t'⟩ (notes ++ t.monitorNotes p.shared t') where
  cleaned signal found hin other hother := by
    rcases List.mem_append.mp hin with hin | hin
    · exact hp.cleaned signal found hin other hother
    · obtain ⟨hv, rfl⟩ := hs.viewing_of_cleaned hin
      exact hp.found (List.mem_of_getElem? ht) hv hother
  active m hin hstop hrep hend := by
    rw [List.mem_append, not_or] at hstop hrep hend
    rcases List.mem_append.mp hin with hin | hin
    · have ha := hp.active m hin hstop.1 hrep.1 hend.1
      rcases ha.step hp.one hp.apart ht hs with ha | hno | hno | hno
      · exact ha
      · exact absurd hno hstop.2
      · exact absurd hno hrep.2
      · exact absurd hno hend.2
    · exact hs.active_of_installed hp.apart ht hin
  apart := hp.apart.step ht hs
  one := by
    cases hinst : t.installs with
    | false => exact hp.one.set ht (hs.viewing_back hinst)
    | true => exact .enter fun u hu hv => hv (halone hinst u hu)
  owned m hm := by
    rcases hs.monitor_own hm with ⟨hm, hkeep⟩ | hv
    · exact exists_set (hp.owned m hm) ht (hkeep m.cancel)
    · exact ⟨t', List.mem_of_getElem? (getElem?_set_self ht), hv⟩

variable [Wire W]

theorem next {mode : AgentMode} {m : HouseMove} {q : HousePool W} (hp : Tidy p notes)
    (hok : InstallsAlone p m) (hq : (houseProgram mode W).system.next p m = some q) :
    Tidy q (notes ++ monitorNotes p m q) := by
  rcases Program.next_cases hq with
    ⟨t, rfl, hmay, rfl⟩ | ⟨i, env, t, h', t', rfl, ht, hstep, rfl⟩ | ⟨l, rfl, rfl⟩
  · rw [show monitorNotes p (.start t) _ = [] from rfl, List.append_nil]
    exact hp.start (HouseTask.fresh_of_mayStart hmay)
  · rw [monitorNotes_step ht]
    exact hp.step ht (house_slots (houseStep_cases hstep)) (hok t ht)
  · rw [show monitorNotes p (.outside l) _ = [] from rfl, List.append_nil]
    cases mode with
    | pad => exact hp
    | tap => exact hp.same (learning_slots p.shared.agent l).2

end Tidy

variable [Wire W]

/-- **A finished monitor cleans up only itself**, and a monitor that was started stays active
    until it is stopped or replaced or its session ends, in every run in which a handle goes
    into the slot only when no task serves a monitor. -/
theorem monitor_cleans_only_itself (mode : AgentMode) (wire : W) (peers : Peers)
    (cooldown : Nat) (policy : Bool) (history : MediaRing) (elevatorDoor : Option String)
    (moves : List HouseMove) (p : HousePool W) (notes : List MonitorNote)
    (hrun : ((houseProgram mode W).system.withHistory monitorNotes).run
      (idleHouse (.new wire peers cooldown policy history elevatorDoor), []) moves =
        some (p, notes))
    (halone : ((houseProgram mode W).system.withHistory monitorNotes).Meets
      (fun s m => InstallsAlone s.1 m)
      (idleHouse (.new wire peers cooldown policy history elevatorDoor), []) moves) :
    CleansOnlyItself p notes := by
  have hinit : Tidy (idleHouse (.new wire peers cooldown policy history elevatorDoor)) [] :=
    { cleaned := fun _ _ hin => absurd hin List.not_mem_nil
      active := fun _ hin => absurd hin List.not_mem_nil
      apart := .init wire peers cooldown policy history elevatorDoor
      one := .nil
      owned := fun _ hm => nomatch hm }
  have htidy : Tidy p notes := by
    refine System.run_induction_noted (P := Tidy) (fun p m q notes h hok hq => ?_) hinit
      halone hrun
    exact h.next hok hq
  exact htidy.toCleansOnlyItself

/-- The second camera's handle goes in when the task of the first has cleaned up. -/
theorem second_camera_after_cleanup : ∃ moves p notes,
    ((houseProgram .tap TapWire).system.withHistory monitorNotes).run
        (idleHouse tapAgent, []) moves = some (p, notes) ∧
      (.cleaned 0 none ∈ notes ∧ .installed ⟨⟨"M00000000002", ⟨192, 168, 124, 3⟩⟩, 1⟩ ∈ notes) ∧
      CleansOnlyItself p notes := by
  let moves := serve 0 (.startMonitor "M00000000001" .check) 8 ++
    serve 1 (.startMonitor "M00000000002" .check) 3 ++
    List.replicate 4 (.step 0 found) ++ List.replicate 5 (.step 1 found)
  have hmeets : ((houseProgram .tap TapWire).system.withHistory monitorNotes).Meets
      (fun s m => InstallsAlone s.1 m) (idleHouse tapAgent, []) moves := by
    decide +kernel
  have hnotes : (((houseProgram .tap TapWire).system.withHistory monitorNotes).run
      (idleHouse tapAgent, []) moves).map (fun s => decide (.cleaned 0 none ∈ s.2 ∧
        .installed ⟨⟨"M00000000002", ⟨192, 168, 124, 3⟩⟩, 1⟩ ∈ s.2)) = some true := by
    decide +kernel
  obtain ⟨⟨p, notes⟩, hrun, hin⟩ := Option.map_eq_some_iff.mp hnotes
  exact ⟨moves, p, notes, hrun, of_decide_eq_true hin,
    monitor_cleans_only_itself .tap tapWire _ 5000 false (.new 0 0) none moves p notes hrun hmeets⟩

/-- A second camera replaces the first: the task of the first then takes the handle of the
    second, whose session is over as well. -/
theorem first_camera_ends_second : ∃ moves p notes,
    ((houseProgram .tap TapWire).system.withHistory monitorNotes).run
        (idleHouse tapAgent, []) moves = some (p, notes) ∧
      (1 ∈ p.shared.agent.cancelled ∧ p.shared.agent.monitor = none) ∧
      ¬ CleansOnlyItself p notes := by
  let moves := serve 0 (.startMonitor "M00000000001" .check) 8 ++
    serve 1 (.startMonitor "M00000000002" .check) 8 ++ List.replicate 3 (.step 0 found)
  have hnotes : (((houseProgram .tap TapWire).system.withHistory monitorNotes).run
      (idleHouse tapAgent, []) moves).map (fun s => decide
        ((1 ∈ s.1.shared.agent.cancelled ∧ s.1.shared.agent.monitor = none) ∧
          .cleaned 0 (some 1) ∈ s.2)) = some true := by
    decide +kernel
  obtain ⟨⟨p, notes⟩, hrun, hin⟩ := Option.map_eq_some_iff.mp hnotes
  obtain ⟨hgone, hcleaned⟩ := of_decide_eq_true hin
  refine ⟨moves, p, notes, hrun, hgone, fun hno => ?_⟩
  have hone : 1 = 0 := hno.cleaned 0 _ hcleaned 1 rfl
  cases hone

/-! ## When a handle goes in beside another task -/

/-- A task knows a number that was given; while its session runs, its signal was sent or its
    handle is in the slot. -/
structure Followed (p : HousePool W) : Prop where
  given : ∀ t ∈ p.threads, ∀ signal, t.viewing = some signal → signal < p.shared.nextSignal
  watched : ∀ t ∈ p.threads, ∀ signal, t.watching = some signal →
    signal ∈ p.shared.agent.cancelled ∨ ∃ m ∈ p.shared.agent.monitor, m.cancel = signal

section

variable {h h' : Household W} {t t' : HouseTask}

omit [Wire W]

theorem SlotStep.viewing_given (hs : SlotStep h t h' t') {signal : Nat}
    (hv : t'.viewing = some signal) : t.viewing = some signal ∨
      signal = h.nextSignal ∧ h'.nextSignal = h.nextSignal + 1 := by
  cases hs with
  | kept _ hv' => exact .inl (hv' ▸ hv)
  | ended hw => exact .inl (hv ▸ HouseTask.viewing_of_watching hw)
  | told => exact .inl hv
  | stopped _ ht' | hungUp _ ht' | answered _ ht' => exact nomatch ht'.viewing.symm.trans hv
  | installed => exact .inr ⟨(Option.some.inj hv).symm, rfl⟩
  | cleaned | numbered | dialed => cases hv

theorem SlotStep.watching_followed (hs : SlotStep h t h' t') {signal : Nat}
    (hw : t'.watching = some signal) : t.watching = some signal ∨
      ∃ m ∈ h'.agent.monitor, m.cancel = signal := by
  cases hs with
  | kept _ _ hw' => exact .inl (hw' ▸ hw)
  | stopped _ ht' | hungUp _ ht' | answered _ ht' => exact nomatch ht'.watching.symm.trans hw
  | installed => exact .inr ⟨_, rfl, Option.some.inj hw⟩
  | ended | told | cleaned | numbered | dialed => cases hw

/-- A handle that leaves the slot ends its monitor, and a signal stays sent. -/
theorem SlotStep.followed (hs : SlotStep h t h' t') {signal : Nat}
    (hf : signal ∈ h.agent.cancelled ∨ ∃ m ∈ h.agent.monitor, m.cancel = signal) :
    signal ∈ h'.agent.cancelled ∨ ∃ m ∈ h'.agent.monitor, m.cancel = signal := by
  have hdrop : signal ∈ h.agent.cancelled ++
      (h.agent.monitor.map MonitorHandle.cancel).toList := by
    rcases hf with hc | ⟨m, hm, rfl⟩
    · exact List.mem_append_left _ hc
    · exact List.mem_append_right _ (mem_map_toList.mpr ⟨m, hm, rfl⟩)
  cases hs with
  | kept hs => rw [hs.cancelled, hs.monitor]; exact hf
  | stopped => exact .inl (stopMonitorNow_cancelled h.agent ▸ hdrop)
  | installed | cleaned => exact .inl hdrop
  | hungUp =>
      rw [Household.withAgent_agent, takeCallSession_cancelled, takeCallSession_monitor]
      exact hf.imp_left (List.mem_append_left _)
  | answered =>
      rw [Household.withAgent_agent, outboundAnswered_cancelled, outboundAnswered_monitor]
      exact hf
  | dialed => exact hf.imp_left (List.mem_append_left _)
  | ended | told | numbered => exact hf

end

/-- On its own the task comes to the cleanup of its monitor, and leaves the slot until then. -/
def ComesToCleanup (mode : AgentMode) (h : Household W) (t : HouseTask) (signal : Nat) : Prop :=
  ∃ h' cameraId camera reason, Alone (houseProgram mode W) found h t h'
    (.startMonitor cameraId (.cleanup signal camera reason)) ∧
      h'.agent.monitor = h.agent.monitor

namespace ComesToCleanup

variable {mode : AgentMode} {h h₁ : Household W} {t t₁ : HouseTask} {signal : Nat}

theorem step (hs : t.step found h = some (h₁, t₁)) (hm : h₁.agent.monitor = h.agent.monitor)
    (hrest : ComesToCleanup mode h₁ t₁ signal) : ComesToCleanup mode h t signal := by
  obtain ⟨h', cameraId, camera, reason, halone, hmon⟩ := hrest
  exact ⟨h', cameraId, camera, reason, .step hs halone, hmon.trans hm⟩

variable {cameraId : String} {camera : Station}

theorem cleanup {reason : String} :
    ComesToCleanup mode h (.startMonitor cameraId (.cleanup signal camera reason)) signal :=
  ⟨h, cameraId, camera, reason, .refl, rfl⟩

theorem bye {block : Bytes} :
    ComesToCleanup mode h (.startMonitor cameraId (.bye signal camera block)) signal :=
  .step rfl rfl cleanup

theorem watch {block : Bytes} (hc : signal ∈ h.agent.cancelled) :
    ComesToCleanup mode h (.startMonitor cameraId (.watch signal camera block)) signal := by
  have hs : (HouseTask.startMonitor cameraId (.watch signal camera block)).step found h =
      some (h, .startMonitor cameraId (.bye signal camera block)) := by
    unfold HouseTask.step monitorStep
    dsimp only
    rw [if_neg (show ¬ found.tick = true from Bool.false_ne_true), if_pos hc]
    rfl
  exact .step hs rfl bye

theorem request {block packet : Bytes} (hc : signal ∈ h.agent.cancelled) :
    ComesToCleanup mode h (.startMonitor cameraId (.request signal camera block packet))
      signal := by
  refine .step rfl rfl (watch ?_)
  exact hc

theorem identify {ourIp : Ipv4Addr} (hc : signal ∈ h.agent.cancelled) :
    ComesToCleanup mode h (.startMonitor cameraId (.identify signal camera ourIp)) signal := by
  obtain ⟨r, hr⟩ :
      ∃ r, monitorStep found h cameraId (.identify signal camera ourIp) = some r := by
    unfold monitorStep
    dsimp only
    split <;> exact ⟨_, rfl⟩
  have hs : (HouseTask.startMonitor cameraId (.identify signal camera ourIp)).step found h =
      some (r.1, .startMonitor cameraId r.2) :=
    Option.map_eq_some_iff.mpr ⟨r, hr, rfl⟩
  obtain ⟨h₁, pc'⟩ := r
  cases monitorStep_cases hr with
  | unpacked => exact .step hs rfl cleanup
  | packed => exact .step hs rfl (request hc)

theorem connect (hc : signal ∈ h.agent.cancelled) :
    ComesToCleanup mode h (.startMonitor cameraId (.connect signal camera)) signal :=
  .step rfl rfl (identify hc)

theorem publish (hc : signal ∈ h.agent.cancelled) :
    ComesToCleanup mode h (.startMonitor cameraId (.publish signal camera)) signal := by
  refine .step rfl rfl (connect ?_)
  exact hc

/-- The task of a monitor whose signal was sent, or whose session is over. -/
theorem of_viewing (hv : t.viewing = some signal)
    (hc : t.watching = some signal → signal ∈ h.agent.cancelled) :
    ComesToCleanup mode h t signal := by
  unfold HouseTask.viewing at hv
  split at hv
  · cases hv
    exact bye
  · cases hv
    exact cleanup
  · have hsent := hc hv
    unfold HouseTask.watching at hv
    split at hv <;> cases hv
    · exact publish hsent
    · exact connect hsent
    · exact identify hsent
    · exact request hsent
    · exact watch hsent

end ComesToCleanup

namespace Followed

variable {p : HousePool W}

omit [Wire W] in
theorem step {h' : Household W} {t t' : HouseTask} {i : Nat} (hp : Followed p)
    (ht : p.threads[i]? = some t) (hs : SlotStep p.shared t h' t') :
    Followed ⟨h', p.threads.set i t'⟩ := by
  have hmem : t ∈ p.threads := List.mem_of_getElem? ht
  refine ⟨fun u hu signal hv => ?_, fun u hu signal hw => ?_⟩
  · rcases List.mem_or_eq_of_mem_set hu with hu | rfl
    · exact Nat.lt_of_lt_of_le (hp.given u hu signal hv) hs.nextSignal_le
    · rcases hs.viewing_given hv with hv | ⟨rfl, hnext⟩
      · exact Nat.lt_of_lt_of_le (hp.given t hmem signal hv) hs.nextSignal_le
      · rw [hnext]
        exact Nat.lt_succ_self _
  · rcases List.mem_or_eq_of_mem_set hu with hu | rfl
    · exact hs.followed (hp.watched u hu signal hw)
    · rcases hs.watching_followed hw with hw | hm
      · exact hs.followed (hp.watched t hmem signal hw)
      · exact .inr hm

theorem next {mode : AgentMode} {m : HouseMove} {q : HousePool W} (hp : Followed p)
    (hq : (houseProgram mode W).system.next p m = some q) : Followed q := by
  rcases Program.next_cases hq with
    ⟨t, rfl, hmay, rfl⟩ | ⟨i, env, t, h', t', rfl, ht, hstep, rfl⟩ | ⟨l, rfl, rfl⟩
  · have hb := HouseTask.bystander_of_fresh (HouseTask.fresh_of_mayStart hmay)
    refine ⟨fun u hu signal hv => ?_, fun u hu signal hw => ?_⟩
    · rcases List.mem_append.mp hu with hu | hu
      · exact hp.given u hu signal hv
      · obtain rfl := List.mem_singleton.mp hu
        exact nomatch hb.viewing.symm.trans hv
    · rcases List.mem_append.mp hu with hu | hu
      · exact hp.watched u hu signal hw
      · obtain rfl := List.mem_singleton.mp hu
        exact nomatch hb.watching.symm.trans hw
  · exact hp.step ht (house_slots (houseStep_cases hstep))
  · cases mode with
    | pad => exact hp
    | tap =>
        have hsame := (learning_slots p.shared.agent l).2
        refine ⟨hp.given, fun u hu signal hw => ?_⟩
        have hwatched := hp.watched u hu signal hw
        rw [← hsame.cancelled, ← hsame.monitor] at hwatched
        exact hwatched

omit [Wire W] in
theorem init (wire : W) (peers : Peers) (cooldown : Nat) (policy : Bool) (history : MediaRing)
    (elevatorDoor : Option String) :
    Followed (idleHouse (.new wire peers cooldown policy history elevatorDoor)) :=
  ⟨fun _ hu => (nomatch hu), fun _ hu => (nomatch hu)⟩

end Followed

/-- A task that goes on alone to its cleanup finds what was in the slot. -/
theorem ComesToCleanup.exists_run {mode : AgentMode} {h : Household W} {u : HouseTask}
    {signal : Nat} (hcomes : ComesToCleanup mode h u signal) {m : MonitorHandle}
    (hm : h.agent.monitor = some m) (threads : List HouseTask) {j : Nat}
    (hj : threads[j]? = some u) (notes : List MonitorNote) :
    ∃ moves q notes', ((houseProgram mode W).system.withHistory monitorNotes).run
      (⟨h, threads⟩, notes) moves = some (q, notes') ∧
        .cleaned signal (some m.cancel) ∈ notes' := by
  obtain ⟨h', cameraId, camera, reason, halone, hslot⟩ := hcomes
  let threads' := threads.set j (.startMonitor cameraId (.cleanup signal camera reason))
  have hj' : threads'[j]? = some (.startMonitor cameraId (.cleanup signal camera reason)) :=
    getElem?_set_self hj
  obtain ⟨n, hn⟩ := halone.exists_run threads hj
  obtain ⟨notes₁, hnoted⟩ :
      ∃ notes₁, ((houseProgram mode W).system.withHistory monitorNotes).run (⟨h, threads⟩, notes)
        (List.replicate n (.step j found)) = some (⟨h', threads'⟩, notes₁) :=
    System.exists_run_withHistory notes hn
  let q : HousePool W :=
    ⟨h'.dropMonitor, threads'.set j (.startMonitor cameraId (.stopped camera reason))⟩
  have hclean : (houseProgram mode W).system.next ⟨h', threads'⟩ (.step j found) = some q :=
    Program.next_step hj' rfl
  have hnote : monitorNotes ⟨h', threads'⟩ (.step j found) q =
      [.cleaned signal (some m.cancel)] := by
    rw [monitorNotes_step hj']
    unfold HouseTask.monitorNotes
    rw [hslot, hm]
    rfl
  have hlast : ((houseProgram mode W).system.withHistory monitorNotes).next
      (⟨h', threads'⟩, notes₁) (.step j found) =
        some (q, notes₁ ++ [.cleaned signal (some m.cancel)]) :=
    System.next_withHistory.mpr ⟨hclean, congrArg (notes₁ ++ ·) hnote.symm⟩
  exact ⟨_, q, _, System.run_snoc hnoted hlast,
    List.mem_append_right _ (List.mem_singleton.mpr rfl)⟩

omit [Wire W] in
/-- When a new handle goes in, the signal of any other session is a sent one. -/
theorem Followed.sent_of_installed {p : HousePool W} (hp : Followed p) {u : HouseTask}
    (hu : u ∈ p.threads) {signal : Nat} (hw : u.watching = some signal) (camera : Station) :
    signal ∈ (p.shared.installMonitor camera).agent.cancelled := by
  have hstep : SlotStep p.shared (.startMonitor "" (.install camera))
      (p.shared.installMonitor camera) _ := .installed
  rcases hstep.followed (hp.watched u hu signal hw) with hc | ⟨m, hm, heq⟩
  · exact hc
  · obtain rfl := Option.some.inj hm
    exact absurd heq (Nat.ne_of_gt (hp.given u hu signal (HouseTask.viewing_of_watching hw)))

/-- A handle that goes into the slot beside a task that serves another monitor is within that
    task's reach: if it goes on alone, its cleanup finds the new handle. -/
theorem cleanup_reaches_later_monitor (mode : AgentMode) (wire : W) (peers : Peers)
    (cooldown : Nat) (policy : Bool) (history : MediaRing) (elevatorDoor : Option String)
    (moves : List HouseMove) (p : HousePool W) (notes : List MonitorNote)
    (hrun : (houseProgram mode W).system.run
      (idleHouse (.new wire peers cooldown policy history elevatorDoor)) moves = some p)
    {i j : Nat} {cameraId : String} {camera : Station} {u : HouseTask} {signal : Nat}
    (hi : p.threads[i]? = some (.startMonitor cameraId (.install camera)))
    (hj : p.threads[j]? = some u) (hv : u.viewing = some signal) :
    ∃ moves' q notes', ((houseProgram mode W).system.withHistory monitorNotes).run (p, notes)
      (.step i found :: moves') = some (q, notes') ∧ ¬ CleansOnlyItself q notes' := by
  have hp : Followed p := System.run_induction (P := Followed) (fun _ _ _ hp hq => hp.next hq)
    (.init wire peers cooldown policy history elevatorDoor) hrun
  have hu : u ∈ p.threads := List.mem_of_getElem? hj
  have hne : j ≠ i := by
    rintro rfl
    rw [hi] at hj
    cases hj
    cases hv
  let p₁ : HousePool W := ⟨p.shared.installMonitor camera,
    p.threads.set i (.startMonitor cameraId (.publish p.shared.nextSignal camera))⟩
  have hinst : (houseProgram mode W).system.next p (.step i found) = some p₁ :=
    Program.next_step hi rfl
  have hcomes : ComesToCleanup mode (p.shared.installMonitor camera) u signal :=
    .of_viewing hv fun hw => hp.sent_of_installed hu hw camera
  obtain ⟨moves', q, notes', hnoted, hin⟩ :=
    hcomes.exists_run rfl p₁.threads ((getElem?_set_other hne).trans hj)
      (notes ++ monitorNotes p (.step i found) p₁)
  refine ⟨moves', q, notes', ?_, fun hno => ?_⟩
  · exact (System.run_cons_of_next _ (System.next_withHistory.mpr ⟨hinst, rfl⟩)).trans hnoted
  · exact Nat.ne_of_gt (hp.given u hu signal hv) (hno.cleaned signal _ hin _ rfl)

end Michoi
