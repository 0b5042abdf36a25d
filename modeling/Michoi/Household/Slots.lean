/-
  The slots of the monitor and of the outbound call, and the numbers in them.

  `SlotStep` is what a step of a household can do to the two slots, to the signals that were
  sent and to the tasks that serve a session; everything else a step does is `kept`. A task
  that serves a monitor is known by its signal: `viewing` up to its cleanup, `watching` while
  its session runs; `dialing` is the same for an outbound call.

  `signals_apart` holds of every run: no number is given twice, so no monitor shares its
  signal with a call.
-/
import Michoi.Household.Frame

namespace Michoi

open Lib

variable {W : Type}

/-! ## Who serves what -/

namespace HouseTask

/-- The monitor whose session the task runs. -/
def watching : HouseTask → Option Nat
  | startMonitor _ (.publish signal _) => some signal
  | startMonitor _ (.connect signal _) => some signal
  | startMonitor _ (.identify signal _ _) => some signal
  | startMonitor _ (.request signal _ _ _) => some signal
  | startMonitor _ (.watch signal _ _) => some signal
  | _ => none

/-- The monitor that the task serves: it has not cleaned up yet. -/
def viewing : HouseTask → Option Nat
  | startMonitor _ (.bye signal _ _) => some signal
  | startMonitor _ (.cleanup signal _ _) => some signal
  | t => t.watching

/-- The outbound call that the task sets up or serves. -/
def dialing : HouseTask → Option Nat
  | dial _ (.identify signal _ _) => some signal
  | dial _ (.setup signal _ _) => some signal
  | dial _ (.install signal _) => some signal
  | dial _ (.publish signal _) => some signal
  | dial _ (.watch signal _) => some signal
  | dial _ (.bye signal _) => some signal
  | _ => none

/-- The next step is `stop_monitor_now`. -/
def stops : HouseTask → Bool
  | startMonitor _ (.replace _) => true
  | stopMonitor .take => true
  | t => t.wirePc == some .stopMonitor

/-- The task serves no session. -/
structure Bystander (t : HouseTask) : Prop where
  viewing : t.viewing = none
  dialing : t.dialing = none

theorem viewing_of_watching {t : HouseTask} {signal : Nat} (h : t.watching = some signal) :
    t.viewing = some signal := by
  unfold watching at h
  split at h <;> first | exact h | cases h

theorem Bystander.watching {t : HouseTask} (h : t.Bystander) : t.watching = none := by
  cases hw : t.watching with
  | none => rfl
  | some => exact nomatch (viewing_of_watching hw).symm.trans h.viewing

theorem bystander_of_wirePc {t : HouseTask} {pc : WirePc} (h : t.wirePc = some pc) :
    t.Bystander := by
  unfold wirePc at h
  split at h
  · exact ⟨rfl, rfl⟩
  · exact ⟨rfl, rfl⟩
  · cases h

theorem stops_of_wirePc {t : HouseTask} (h : t.wirePc = some .stopMonitor) :
    t.stops = true := by
  cases t with
  | agent | datagram => exact beq_iff_eq.mpr h
  | _ => cases h

theorem bystander_of_fresh {t : HouseTask} (h : t.fresh = true) : t.Bystander := by
  unfold fresh at h
  split at h <;> first | exact ⟨rfl, rfl⟩ | cases h

end HouseTask

/-! ## What is noted of the monitors -/

inductive MonitorNote where
  /-- `start_monitor` set its handle. -/
  | installed (handle : MonitorHandle)
  /-- This handle was in the slot when another one was set. -/
  | replaced (handle : MonitorHandle)
  /-- `stop_monitor_now` took this handle. -/
  | stopped (handle : MonitorHandle)
  /-- The session returned without having been stopped. -/
  | ended (signal : Nat)
  /-- A task cleaned up, with the signal that it found in the slot. -/
  | cleaned (signal : Nat) (found : Option Nat)
  deriving DecidableEq, Repr

/-- The notes of a step of a handler. -/
def HouseTask.monitorNotes (h : Household W) : HouseTask → HouseTask → List MonitorNote
  | startMonitor _ (.install camera), _ =>
      (h.agent.monitor.map .replaced).toList ++
        [.installed { camera, cancel := h.nextSignal }]
  | startMonitor _ (.cleanup signal _ _), _ =>
      [.cleaned signal (h.agent.monitor.map MonitorHandle.cancel)]
  | t, startMonitor _ (.cleanup ..) => (t.watching.map .ended).toList
  | t, _ => if t.stops then (h.agent.monitor.map .stopped).toList else []

theorem HouseTask.monitorNotes_of_wirePc (h : Household W) {t t' : HouseTask} {pc pc' : WirePc}
    (ht : t.wirePc = some pc) (ht' : t'.wirePc = some pc') : t.monitorNotes h t' =
      if pc = .stopMonitor then (h.agent.monitor.map .stopped).toList else [] := by
  have hnotes : t.monitorNotes h t' =
      if t.stops then (h.agent.monitor.map .stopped).toList else [] := by
    cases t with
    | agent | datagram => cases t' with
      | agent | datagram => rfl
      | _ => cases ht'
    | _ => cases ht
  rw [hnotes]
  refine if_congr ⟨fun hs => ?_, fun hpc => stops_of_wirePc (hpc ▸ ht)⟩ rfl rfl
  cases t with
  | agent | datagram => exact Option.some.inj (ht.symm.trans (beq_iff_eq.mp hs))
  | _ => cases ht

/-! ## One step -/

/-- Neither slot has changed, no signal was sent, and no number was given. -/
structure KeepsSlots (h h' : Household W) : Prop extends SameSlots h.agent h'.agent where
  nextSignal : h'.nextSignal = h.nextSignal

/-- What a step can do to the slots. -/
inductive SlotStep (h : Household W) : HouseTask → Household W → HouseTask → Prop where
  /-- The slots stay, and no task comes to serve another session. -/
  | kept {t h' t'} (hs : KeepsSlots h h') (hv : t'.viewing = t.viewing)
      (hw : t'.watching = t.watching)
      (hd : ∀ signal, t'.dialing = some signal → t.dialing = some signal)
      (hn : t.monitorNotes h t' = []) : SlotStep h t h' t'
  /-- A session ends without having been stopped. -/
  | ended {cameraId pc signal camera reason}
      (hw : (HouseTask.startMonitor cameraId pc).watching = some signal)
      (hn : (HouseTask.startMonitor cameraId pc).monitorNotes h
        (.startMonitor cameraId (.cleanup signal camera reason)) = [.ended signal]) :
      SlotStep h (.startMonitor cameraId pc) h
        (.startMonitor cameraId (.cleanup signal camera reason))
  /-- A session finds out that it was stopped. -/
  | told {cameraId signal camera block} (hc : signal ∈ h.agent.cancelled) :
      SlotStep h (.startMonitor cameraId (.watch signal camera block)) h
        (.startMonitor cameraId (.bye signal camera block))
  | stopped {t t'} (ht : t.Bystander) (ht' : t'.Bystander)
      (hn : t.monitorNotes h t' = (h.agent.monitor.map .stopped).toList) :
      SlotStep h t (h.withAgent h.agent.stopMonitorNow) t'
  | installed {cameraId camera} :
      SlotStep h (.startMonitor cameraId (.install camera)) (h.installMonitor camera)
        (.startMonitor cameraId (.publish h.nextSignal camera))
  | cleaned {cameraId signal camera reason} :
      SlotStep h (.startMonitor cameraId (.cleanup signal camera reason)) h.dropMonitor
        (.startMonitor cameraId (.stopped camera reason))
  | hungUp {t t'} (ht : t.Bystander) (ht' : t'.Bystander) (hn : t.monitorNotes h t' = []) :
      SlotStep h t (h.withAgent h.agent.takeCallSession.2) t'
  | answered {t t' env} (hpc : t.wirePc = some .outboundAnswered) (ht' : t'.Bystander)
      (hn : t.monitorNotes h t' = []) :
      SlotStep h t (h.withAgent (h.agent.outboundAnswered env)) t'
  | numbered {calleeId callee ourIp} :
      SlotStep h (.dial calleeId (.connect callee)) { h with nextSignal := h.nextSignal + 1 }
        (.dial calleeId (.identify h.nextSignal callee ourIp))
  | dialed {calleeId signal e} :
      SlotStep h (.dial calleeId (.install signal e)) (h.installCall signal e)
        (.dial calleeId (.publish signal e))

section

variable {env : HouseEnv} {h h' : Household W} {t t' : HouseTask}

/-- A step of a task that serves no session and leaves the slots. -/
theorem SlotStep.of_bystander (ht : t.Bystander) (ht' : t'.Bystander) (hs : KeepsSlots h h')
    (hn : t.monitorNotes h t' = []) : SlotStep h t h' t' :=
  .kept hs (ht'.viewing.trans ht.viewing.symm) (ht'.watching.trans ht.watching.symm)
    (fun signal hd => by rw [ht'.dialing] at hd; cases hd) hn

variable [Wire W]

theorem house_slots (hs : HouseStep env h t h' t') : SlotStep h t h' t' := by
  cases hs with
  | @wire _ _ pc _ _ ht ht' hw =>
      have hb := HouseTask.bystander_of_wirePc ht
      have hb' := HouseTask.bystander_of_wirePc ht'
      have hn := HouseTask.monitorNotes_of_wirePc h ht ht'
      by_cases hstop : pc = .stopMonitor
      · subst hstop
        cases hw
        exact .stopped hb hb' hn
      · rw [if_neg hstop] at hn
        rcases wireStep_slots hw with hw | ⟨rfl, -⟩ | ⟨rfl, rfl⟩ | ⟨rfl, rfl⟩
        · exact .of_bystander hb hb' ⟨hw, rfl⟩ hn
        · exact absurd rfl hstop
        · exact .answered ht hb' hn
        · exact .hungUp hb hb' hn
  | command hs => exact .of_bystander ⟨rfl, rfl⟩ ⟨rfl, rfl⟩ ⟨commandStep_slots hs, rfl⟩ rfl
  | elevator hs => exact .of_bystander ⟨rfl, rfl⟩ ⟨rfl, rfl⟩ ⟨elevatorStep_slots hs, rfl⟩ rfl
  | monitor hs =>
      cases hs with
      | replace => exact .stopped ⟨rfl, rfl⟩ ⟨rfl, rfl⟩ rfl
      | install => exact .installed
      | unconnected | unpacked => exact .ended rfl rfl
      | cancelled hc => exact .told hc
      | cleanup => exact .cleaned
      | _ => exact .kept ⟨⟨rfl, rfl, rfl⟩, rfl⟩ rfl rfl (fun _ hd => nomatch hd) rfl
  | stop => exact .stopped ⟨rfl, rfl⟩ ⟨rfl, rfl⟩ rfl
  | dial hd =>
      cases hd with
      | connected => exact .numbered
      | install => exact .dialed
      | _ => exact .kept ⟨⟨rfl, rfl, rfl⟩, rfl⟩ rfl rfl (fun _ hd => by cases hd <;> rfl) rfl
  | hangup hh =>
      cases hh with
      | take => exact .hungUp ⟨rfl, rfl⟩ ⟨rfl, rfl⟩ rfl
      | _ => exact .of_bystander ⟨rfl, rfl⟩ ⟨rfl, rfl⟩ ⟨⟨rfl, rfl, rfl⟩, rfl⟩ rfl
  | talk ht =>
      cases ht <;> exact .of_bystander ⟨rfl, rfl⟩ ⟨rfl, rfl⟩ ⟨⟨rfl, rfl, rfl⟩, rfl⟩ rfl
  | video hv =>
      cases hv <;> exact .of_bystander ⟨rfl, rfl⟩ ⟨rfl, rfl⟩ ⟨⟨rfl, rfl, rfl⟩, rfl⟩ rfl
  | keepalive hk =>
      cases hk <;> exact .of_bystander ⟨rfl, rfl⟩ ⟨rfl, rfl⟩ ⟨⟨rfl, rfl, rfl⟩, rfl⟩ rfl
  | datagram hd =>
      cases hd <;> exact .of_bystander ⟨rfl, rfl⟩ ⟨rfl, rfl⟩ ⟨⟨rfl, rfl, rfl⟩, rfl⟩ rfl

end

/-! ## The numbers of a run -/

/-- The number belongs to an outbound call, one that is set or one that a task sets up or
    serves. -/
def CallSignal (h : Household W) (threads : List HouseTask) (signal : Nat) : Prop :=
  (∃ c ∈ h.agent.callSession, c.cancel = signal) ∨ ∃ t ∈ threads, t.dialing = some signal

/-- No number was given twice: what is in use is below the next number, and the monitor
    shares its number with no call. -/
structure SignalsApart (p : HousePool W) : Prop where
  cancelled : ∀ signal ∈ p.shared.agent.cancelled, signal < p.shared.nextSignal
  monitor : ∀ m ∈ p.shared.agent.monitor, m.cancel < p.shared.nextSignal
  call : ∀ signal, CallSignal p.shared p.threads signal → signal < p.shared.nextSignal
  apart : ∀ m ∈ p.shared.agent.monitor, ¬ CallSignal p.shared p.threads m.cancel

section

variable {h h' : Household W} {t t' : HouseTask} {threads : List HouseTask} {i : Nat}

theorem SlotStep.nextSignal_le (hs : SlotStep h t h' t') : h.nextSignal ≤ h'.nextSignal := by
  cases hs with
  | kept hs => exact hs.nextSignal.ge
  | installed | numbered => exact Nat.le_succ _
  | _ => exact Nat.le_refl _

/-- The monitor in the slot was there before, or has a new number. -/
theorem SlotStep.monitor (hs : SlotStep h t h' t') {m : MonitorHandle}
    (hm : m ∈ h'.agent.monitor) : m ∈ h.agent.monitor ∨
      m.cancel = h.nextSignal ∧ h'.nextSignal = h.nextSignal + 1 := by
  cases hs with
  | kept hs => exact .inl (hs.monitor ▸ hm)
  | stopped =>
      rw [Household.withAgent_agent, stopMonitorNow_monitor] at hm
      cases hm
  | installed =>
      obtain rfl := Option.some.inj hm
      exact .inr ⟨rfl, rfl⟩
  | cleaned => cases hm
  | hungUp => exact .inl (takeCallSession_monitor h.agent ▸ hm)
  | @answered _ _ env => exact .inl (outboundAnswered_monitor h.agent env ▸ hm)
  | ended | told | numbered | dialed => exact .inl hm

/-- The call in the slot was there before, or a task has just set it up. -/
theorem SlotStep.call (hs : SlotStep h t h' t') {c : CallHandle}
    (hc : c ∈ h'.agent.callSession) :
    (∃ c₀ ∈ h.agent.callSession, c₀.cancel = c.cancel) ∨ t.dialing = some c.cancel := by
  cases hs with
  | kept hs => exact .inl ⟨c, hs.callSession ▸ hc, rfl⟩
  | stopped => exact .inl ⟨c, stopMonitorNow_callSession h.agent ▸ hc, rfl⟩
  | hungUp =>
      rw [Household.withAgent_agent, takeCallSession_callSession] at hc
      cases hc
  | answered => exact .inl (outboundAnswered_handle hc)
  | dialed =>
      obtain rfl := Option.some.inj hc
      exact .inr rfl
  | ended | told | installed | cleaned | numbered => exact .inl ⟨c, hc, rfl⟩

/-- A task serves the call it served before, or one with a new number. -/
theorem SlotStep.dialing (hs : SlotStep h t h' t') {signal : Nat}
    (hd : t'.dialing = some signal) : t.dialing = some signal ∨
      signal = h.nextSignal ∧ h'.nextSignal = h.nextSignal + 1 ∧
        h'.agent.monitor = h.agent.monitor := by
  cases hs with
  | kept _ _ _ hback => exact .inl (hback signal hd)
  | stopped _ ht' | hungUp _ ht' | answered _ ht' => rw [ht'.dialing] at hd; cases hd
  | ended | told | installed | cleaned => cases hd
  | numbered =>
      obtain rfl := Option.some.inj hd
      exact .inr ⟨rfl, rfl, rfl⟩
  | dialed => exact .inl hd

/-- A number of a call was one before, or is new. -/
theorem SlotStep.callSignal (hs : SlotStep h t h' t') (ht : threads[i]? = some t) {signal : Nat}
    (hc : CallSignal h' (threads.set i t') signal) : CallSignal h threads signal ∨
      signal = h.nextSignal ∧ h'.nextSignal = h.nextSignal + 1 ∧
        h'.agent.monitor = h.agent.monitor := by
  have hmem : t ∈ threads := List.mem_of_getElem? ht
  rcases hc with ⟨c, hc, rfl⟩ | ⟨u, hu, hd⟩
  · rcases hs.call hc with hc₀ | hd
    · exact .inl (.inl hc₀)
    · exact .inl (.inr ⟨t, hmem, hd⟩)
  · rcases List.mem_or_eq_of_mem_set hu with hu | rfl
    · exact .inl (.inr ⟨u, hu, hd⟩)
    · rcases hs.dialing hd with hd | hnew
      · exact .inl (.inr ⟨t, hmem, hd⟩)
      · exact .inr hnew

theorem mem_map_toList {α β : Type} {o : Option α} {f : α → β} {b : β} :
    b ∈ (o.map f).toList ↔ ∃ x ∈ o, f x = b := Option.mem_toList.trans Option.map_eq_some_iff

theorem mem_append_toList {α : Type} {l : List Nat} {o : Option α} {f : α → Nat} {n : Nat}
    (h : n ∈ l ++ (o.map f).toList) : n ∈ l ∨ ∃ x ∈ o, f x = n := by
  rcases List.mem_append.mp h with h | h
  · exact .inl h
  · exact .inr (mem_map_toList.mp h)

/-- A signal was sent before, or its handle was taken or dropped. -/
theorem SlotStep.cancelled (hs : SlotStep h t h' t') {signal : Nat}
    (hc : signal ∈ h'.agent.cancelled) : signal ∈ h.agent.cancelled ∨
      (∃ m ∈ h.agent.monitor, m.cancel = signal) ∨
        ∃ c ∈ h.agent.callSession, c.cancel = signal := by
  cases hs with
  | kept hs => exact .inl (hs.cancelled ▸ hc)
  | stopped =>
      rw [Household.withAgent_agent, stopMonitorNow_cancelled] at hc
      exact (mem_append_toList hc).imp_right .inl
  | installed | cleaned => exact (mem_append_toList hc).imp_right .inl
  | hungUp =>
      rw [Household.withAgent_agent, takeCallSession_cancelled] at hc
      exact (mem_append_toList hc).imp_right .inr
  | @answered _ _ env => exact .inl (outboundAnswered_cancelled h.agent env ▸ hc)
  | dialed => exact (mem_append_toList hc).imp_right .inr
  | ended | told | numbered => exact .inl hc

end

namespace SignalsApart

theorem init (wire : W) (peers : Peers) (cooldown : Nat) (policy : Bool) (history : MediaRing)
    (elevatorDoor : Option String) :
    SignalsApart (idleHouse (.new wire peers cooldown policy history elevatorDoor)) := by
  refine ⟨fun _ hc => (nomatch hc), fun _ hm => (nomatch hm), ?_, fun _ hm => (nomatch hm)⟩
  rintro signal (⟨c, hc, -⟩ | ⟨t, ht, -⟩)
  · cases hc
  · cases ht

variable {p : HousePool W}

theorem step {h' : Household W} {t t' : HouseTask} {i : Nat} (hp : SignalsApart p)
    (ht : p.threads[i]? = some t) (hs : SlotStep p.shared t h' t') :
    SignalsApart ⟨h', p.threads.set i t'⟩ := by
  have hle := hs.nextSignal_le
  constructor
  · intro signal hc
    rcases hs.cancelled hc with hc₀ | ⟨m, hm, rfl⟩ | ⟨c, hc₀, rfl⟩
    · exact Nat.lt_of_lt_of_le (hp.cancelled signal hc₀) hle
    · exact Nat.lt_of_lt_of_le (hp.monitor m hm) hle
    · exact Nat.lt_of_lt_of_le (hp.call _ (.inl ⟨c, hc₀, rfl⟩)) hle
  · intro m hm
    rcases hs.monitor hm with hm | ⟨hnew, hnext⟩
    · exact Nat.lt_of_lt_of_le (hp.monitor m hm) hle
    · rw [hnext, hnew]
      exact Nat.lt_succ_self _
  · intro signal hc
    rcases hs.callSignal ht hc with hc | ⟨rfl, hnext, -⟩
    · exact Nat.lt_of_lt_of_le (hp.call signal hc) hle
    · rw [hnext]
      exact Nat.lt_succ_self _
  · intro m hm hc
    rcases hs.callSignal ht hc with hc | ⟨hnew, -, hsame⟩
    · rcases hs.monitor hm with hm | ⟨hnew, -⟩
      · exact hp.apart m hm hc
      · exact Nat.lt_irrefl _ (hnew ▸ hp.call _ hc)
    · rw [hsame] at hm
      exact Nat.lt_irrefl _ (hnew ▸ hp.monitor m hm)

theorem start {t : HouseTask} (hp : SignalsApart p) (ht : t.fresh = true) :
    SignalsApart ⟨p.shared, p.threads ++ [t]⟩ := by
  have hback : ∀ signal, CallSignal p.shared (p.threads ++ [t]) signal →
      CallSignal p.shared p.threads signal := by
    rintro signal (hc | ⟨u, hu, hd⟩)
    · exact .inl hc
    · rcases List.mem_append.mp hu with hu | hu
      · exact .inr ⟨u, hu, hd⟩
      · obtain rfl := List.mem_singleton.mp hu
        rw [(HouseTask.bystander_of_fresh ht).dialing] at hd
        cases hd
  exact ⟨hp.cancelled, hp.monitor, fun signal hc => hp.call signal (hback signal hc),
    fun m hm hc => hp.apart m hm (hback _ hc)⟩

/-- A change of the Agent that leaves its slots. -/
theorem same {a : Agent W} (hp : SignalsApart p) (hs : SameSlots p.shared.agent a) :
    SignalsApart ⟨p.shared.withAgent a, p.threads⟩ := by
  have hback : ∀ signal, CallSignal (p.shared.withAgent a) p.threads signal →
      CallSignal p.shared p.threads signal := by
    rintro signal (⟨c, hc, hcancel⟩ | hd)
    · exact .inl ⟨c, hs.callSession ▸ hc, hcancel⟩
    · exact .inr hd
  exact ⟨fun signal hc => hp.cancelled signal (hs.cancelled ▸ hc),
    fun m hm => hp.monitor m (hs.monitor ▸ hm), fun signal hc => hp.call signal (hback signal hc),
    fun m hm hc => hp.apart m (hs.monitor ▸ hm) (hback _ hc)⟩

end SignalsApart

end Michoi
