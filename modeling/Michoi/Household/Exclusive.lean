/-
  At most one session at a time.

  `start_monitor_now`, `dial_now` and `on_wire` look at the other sessions before they
  await discovery or hand on a message, and set their own after it; `start_monitor_now`
  never looks at the outbound call. So two sessions can be open at once
  (`monitor_beside_a_call`).

  A look that finds a session closed is noted, and so is the opening of a session.
  `sawClosed_step` is what the guards of the source give: whoever comes to open a session
  has found the others closed, but for the outbound call of `start_monitor_now`.
  `looks_held` says for how long: until somebody opens that session. So
  `one_session_at_a_time` holds of every run in which nobody opens a session of another
  kind between a handler's look and the step that sets its own.
-/
import Michoi.Agent.Datagram
import Michoi.Household.Slots
import Michoi.Lib.Since
import Michoi.Task.History

namespace Michoi

open Lib

variable {W : Type}

/-- How many sessions are open: an incoming call, a monitor, an outbound call. -/
def Agent.sessions (a : Agent W) : Nat :=
  (if a.call.machine.state.phase = .idle then 0 else 1) + a.ownSessions

/-- The kinds of sessions. -/
inductive Session where
  | incoming | monitor | outbound
  deriving DecidableEq, Repr

def Session.others : Session → List Session
  | incoming => [.monitor, .outbound]
  | monitor => [.incoming, .outbound]
  | outbound => [.incoming, .monitor]

/-- No session of the kind is open. -/
def Agent.Closed (a : Agent W) : Session → Prop
  | .incoming => a.call.machine.state.phase = .idle
  | .monitor => a.monitor = none
  | .outbound => a.callSession = none

instance (a : Agent W) : ∀ s, Decidable (a.Closed s)
  | .incoming => inferInstanceAs (Decidable (_ = _))
  | .monitor => inferInstanceAs (Decidable (_ = _))
  | .outbound => inferInstanceAs (Decidable (_ = _))

/-! ## Looks and openings -/

namespace WirePc

def isRing : WirePc → Bool
  | ringStart _ => true
  | _ => false

/-- The sessions that the next step of `on_wire` looks at. -/
def looksAt : WirePc → List Session
  | received _ _ => [.monitor]
  | outboundCheck _ _ => [.outbound]
  | _ => []

/-- The sessions that `on_wire` has found closed on its way to `on_call_started`, which looks
    at the call itself. -/
def sawClosed : WirePc → List Session
  | outboundCheck _ message => if message.isSessionLike then [.monitor] else []
  | accept _ _ _ => [.monitor, .outbound]
  | ringReply _ _ _ => [.monitor, .outbound]
  | ringStart _ => [.monitor, .outbound]
  | _ => []

end WirePc

namespace HouseTask

/-- The sessions that the next step looks at. `start_monitor_now` is put down as looking at the
    outbound call where it looks at the machine, though it does not ask. -/
def looksAt : HouseTask → List Session
  | startMonitor _ .check => [.incoming, .outbound]
  | dial _ .checkIdle => [.incoming]
  | dial _ .checkSlots => [.monitor, .outbound]
  | t => t.wirePc.elim [] WirePc.looksAt

/-- The sessions that the handler has found closed on its way to open its own. -/
def sawClosed : HouseTask → List Session
  | startMonitor _ .resolve => [.incoming]
  | startMonitor _ (.replace _) => [.incoming]
  | startMonitor _ (.install _) => [.incoming]
  | dial _ .checkSlots => [.incoming]
  | dial _ .expand => [.incoming, .monitor, .outbound]
  | dial _ (.resolve _) => [.incoming, .monitor, .outbound]
  | dial _ (.connect _) => [.incoming, .monitor, .outbound]
  | dial _ (.identify _ _ _) => [.incoming, .monitor, .outbound]
  | dial _ (.setup _ _ _) => [.incoming, .monitor, .outbound]
  | dial _ (.install _ _) => [.incoming, .monitor, .outbound]
  | t => t.wirePc.elim [] WirePc.sawClosed

/-- The session that the next step opens. -/
def opens (a : Agent W) : HouseTask → Option Session
  | startMonitor _ (.install _) => some .monitor
  | dial _ (.install _ _) => some .outbound
  | t =>
      if t.wirePc.any WirePc.isRing ∧ a.call.machine.state.phase = .idle then some .incoming
      else none

end HouseTask

inductive SessionNote where
  /-- The handler looked, and the session was closed. -/
  | looked (thread : Nat) (session : Session)
  | opened (session : Session)
  deriving DecidableEq, Repr

def SessionNote.opening : SessionNote → Option Session
  | opened s => some s
  | _ => none

/-- The notes of a step of the handler at place `i`. -/
def HouseTask.sessionNotes (i : Nat) (a : Agent W) (t : HouseTask) : List SessionNote :=
  (t.looksAt.filter fun s => decide (a.Closed s)).map (.looked i) ++
    (t.opens a).toList.map .opened

/-- The notes of a move. -/
def sessionNotes (p : HousePool W) (m : HouseMove) (_ : HousePool W) : List SessionNote :=
  match m with
  | .step i _ => (p.threads[i]?).elim [] (HouseTask.sessionNotes i p.shared.agent)
  | _ => []

/-- All interleavings, with what they note of the sessions. -/
def sessionsNoted (mode : AgentMode) (W : Type) [Wire W] :
    System (HousePool W × List SessionNote) HouseMove :=
  (houseProgram mode W).system.withHistory sessionNotes

/-- Whoever opens a session: nobody has opened one of another kind since the handler looked for
    it. And no outbound call was set where `start_monitor_now` checked: the look that it leaves
    out. -/
def OpensUndisturbed (u : HousePool W × List SessionNote) : HouseMove → Prop
  | .step i _ => ∀ t ∈ u.1.threads[i]?, ∀ s ∈ t.opens u.1.shared.agent,
      (∀ other ∈ s.others, .opened other ∉ notedAfter (.looked i other) u.2) ∧
        (s = .monitor → .looked i .outbound ∈ u.2)
  | _ => True

instance (u : HousePool W × List SessionNote) : ∀ m, Decidable (OpensUndisturbed u m)
  | .step i _ => inferInstanceAs (Decidable (∀ t ∈ u.1.threads[i]?,
      ∀ s ∈ t.opens u.1.shared.agent,
        (∀ other ∈ s.others, .opened other ∉ notedAfter (.looked i other) u.2) ∧
          (s = .monitor → .looked i .outbound ∈ u.2)))
  | .start _ => isTrue trivial
  | .outside _ => isTrue trivial

/-! ## Which steps open a session -/

/-- Only `start_call` leaves Idle. -/
theorem idle_step {m : CallMachine} {o : Op} (ho : o.isStart = false)
    (hm : m.state.phase = .idle) : (o.step m).2.state.phase = .idle := by
  cases o with
  | startCall => cases ho
  | padAnswer =>
      rw [CallMachine.step_of_not_accepts m .padAnswer fun h => ?_]
      · exact hm
      · have hring := ((CallMachine.accepts_padAnswer m).mp h).1
        rw [hm] at hring
        cases hring
  | remoteAnswer =>
      rw [CallMachine.step_of_not_accepts m .remoteAnswer fun h => ?_]
      · exact hm
      · have hring := ((CallMachine.accepts_remoteAnswer m).mp h).1
        rw [hm] at hring
        cases hring
  | unlock now =>
      simp only [Op.step, CallMachine.unlock]
      split
      · exact hm
      · split <;> exact hm
  | hangup => rfl
  | videoFrame | doorAudio => exact hm

section

variable {env : Env} {a a' : Agent W} [Wire W]

theorem commandStep_idle {action : CallAction} {commandId : String} {pc pc' : CommandPc}
    (hs : CommandStep env a action commandId pc a' pc')
    (hi : a.call.machine.state.phase = .idle) : a'.call.machine.state.phase = .idle := by
  have hafter : (a.call.after env action).machine.state.phase = .idle :=
    idle_step (op_not_start env action) hi
  cases hs with
  | unpacked | built => exact hafter
  | notify =>
      unfold Agent.notify
      cases action <;> exact hi
  | _ => exact hi

omit [Wire W] in
theorem elevatorStep_idle {commandId : String} {room : Option String} {pc pc' : ElevatorPc}
    (hs : ElevatorStep env a commandId room pc a' pc')
    (hi : a.call.machine.state.phase = .idle) : a'.call.machine.state.phase = .idle := by
  cases hs <;> exact hi

theorem wireStep_idle {pc pc' : WirePc} (hs : wireStep env a pc = some (a', pc'))
    (hi : a.call.machine.state.phase = .idle) (hno : ∀ e, pc ≠ .ringStart e) :
    a'.call.machine.state.phase = .idle := by
  cases wireStep_cases hs with
  | quiet _ _ _ h => rw [h.call]; exact hi
  | start => exact absurd rfl (hno _)
  | answer h =>
      have hring := (CallMachine.accepts_padAnswer _).mp h
      rw [hi] at hring
      cases hring.1
  | hangup | hangupIdle => rfl
  | callEnd | publish => exact hi

end

section

variable {env : HouseEnv} {h h' : Household W} {t t' : HouseTask}

/-- An empty monitor slot stays empty, but for a `start_monitor` that installs. -/
theorem house_monitor (hs : SlotStep h t h' t') (hm : h.agent.monitor = none)
    (hno : ∀ id camera, t ≠ .startMonitor id (.install camera)) : h'.agent.monitor = none := by
  cases hs with
  | kept hs => exact hs.monitor.trans hm
  | stopped => exact stopMonitorNow_monitor _
  | installed => exact absurd rfl (hno _ _)
  | cleaned => rfl
  | hungUp => exact (takeCallSession_monitor _).trans hm
  | answered => exact (outboundAnswered_monitor ..).trans hm
  | ended | told | numbered | dialed => exact hm

/-- An empty call slot stays empty, but for a `dial` that installs. -/
theorem house_callSession (hs : SlotStep h t h' t') (hc : h.agent.callSession = none)
    (hno : ∀ id signal e, t ≠ .dial id (.install signal e)) : h'.agent.callSession = none := by
  cases hs with
  | kept hs => exact hs.callSession.trans hc
  | stopped => exact (stopMonitorNow_callSession _).trans hc
  | hungUp => exact takeCallSession_callSession _
  | answered => exact outboundAnswered_none _ hc
  | dialed => exact absurd rfl (hno _ _ _)
  | ended | told | installed | cleaned | numbered => exact hc

variable [Wire W]

/-- An idle call stays idle, but for a ring. -/
theorem house_idle (hs : HouseStep env h t h' t')
    (hi : h.agent.call.machine.state.phase = .idle)
    (hno : ∀ e, t.wirePc ≠ some (.ringStart e)) :
    h'.agent.call.machine.state.phase = .idle := by
  cases hs with
  | wire ht _ hw =>
      exact wireStep_idle hw hi fun e he => hno e (ht.trans (congrArg some he))
  | command hc => exact commandStep_idle hc hi
  | elevator hc => exact elevatorStep_idle hc hi
  | monitor hm =>
      cases hm with
      | replace => rw [Household.withAgent_agent, stopMonitorNow_call]; exact hi
      | _ => exact hi
  | stop => rw [Household.withAgent_agent, stopMonitorNow_call]; exact hi
  | dial hd => cases hd <;> exact hi
  | hangup hh =>
      cases hh with
      | take => rw [Household.withAgent_agent, takeCallSession_call]; exact hi
      | _ => exact hi
  | talk ht => cases ht <;> exact hi
  | video hv => cases hv <;> exact hi
  | keepalive hk => cases hk <;> exact hi
  | datagram hd => cases hd <;> exact hi

/-! ## One step -/

/-- A session that is closed stays closed, but for the step that opens it. -/
theorem closed_step (hs : HouseStep env h t h' t') {s : Session} (hc : h.agent.Closed s)
    (hno : t.opens h.agent ≠ some s) : h'.agent.Closed s := by
  cases s with
  | incoming =>
      refine house_idle hs hc fun e he => hno ?_
      cases t with
      | agent | datagram => exact if_pos ⟨by rw [he]; rfl, hc⟩
      | _ => cases he
  | monitor => exact house_monitor (house_slots hs) hc fun _ _ ht => hno (ht ▸ rfl)
  | outbound => exact house_callSession (house_slots hs) hc fun _ _ _ ht => hno (ht ▸ rfl)

omit [Wire W] in
theorem sessions_le (hkeep : ∀ s, h.agent.Closed s → h'.agent.Closed s) :
    h'.agent.sessions ≤ h.agent.sessions := by
  have hle : ∀ {p q : Prop} [Decidable p] [Decidable q], (p → q) →
      (if q then 0 else 1) ≤ if p then 0 else 1 := by
    intro p q _ _ hpq
    by_cases hp : p
    · rw [if_pos hp, if_pos (hpq hp)]
    · rw [if_neg hp]
      split <;> omega
  have hslot : ∀ {α : Type} {x y : Option α}, (x = none → y = none) →
      (if y.isSome then 1 else 0) ≤ if x.isSome then 1 else 0 := by
    intro α x y hxy
    cases x with
    | none => rw [hxy rfl]
    | some => cases y <;> simp
  unfold Agent.sessions Agent.ownSessions
  exact Nat.add_le_add (hle (hkeep .incoming))
    (Nat.add_le_add (hslot (hkeep .monitor)) (hslot (hkeep .outbound)))

omit [Wire W] in
theorem sessions_le_one {a : Agent W} {s : Session} (hc : ∀ other ∈ s.others, a.Closed other) :
    a.sessions ≤ 1 := by
  have hidle : Session.incoming ∈ s.others → a.call.machine.state.phase = .idle := hc .incoming
  have hm : Session.monitor ∈ s.others → a.monitor = none := hc .monitor
  have ho : Session.outbound ∈ s.others → a.callSession = none := hc .outbound
  unfold Agent.sessions Agent.ownSessions
  cases s with
  | incoming =>
      rw [hm (by decide), ho (by decide)]
      split <;> simp
  | monitor =>
      rw [hidle (by decide), ho (by decide)]
      cases a.monitor <;> simp
  | outbound =>
      rw [hidle (by decide), hm (by decide)]
      cases a.callSession <;> simp

theorem Session.ne_of_mem_others {s other : Session} (h : other ∈ s.others) : s ≠ other := by
  cases s <;> cases other <;> first | decide | exact absurd h (by decide)

/-- A session that is opened while the others are closed is the only one. -/
theorem sessions_step (hs : HouseStep env h t h' t') (h1 : h.agent.sessions ≤ 1)
    (hopen : ∀ s ∈ t.opens h.agent, ∀ other ∈ s.others, h.agent.Closed other) :
    h'.agent.sessions ≤ 1 := by
  cases ho : t.opens h.agent with
  | none =>
      refine Nat.le_trans (sessions_le fun s hc => closed_step hs hc ?_) h1
      rw [ho]
      nofun
  | some s =>
      refine sessions_le_one fun other hother => closed_step hs (hopen s ho other hother) ?_
      rw [ho]
      exact fun he => Session.ne_of_mem_others hother (Option.some.inj he)

end

/-! ## What the guards find -/

section

variable {a a' : Agent W} {t t' : HouseTask} {pc pc' : WirePc}

theorem HouseTask.looksAt_of_wirePc (ht : t.wirePc = some pc) : t.looksAt = pc.looksAt := by
  cases t with
  | agent | datagram => exact congrArg (fun o => o.elim [] WirePc.looksAt) ht
  | _ => cases ht

theorem HouseTask.sawClosed_of_wirePc (ht : t.wirePc = some pc) :
    t.sawClosed = pc.sawClosed := by
  cases t with
  | agent | datagram => exact congrArg (fun o => o.elim [] WirePc.sawClosed) ht
  | _ => cases ht

theorem WirePc.media_sawClosed (m : Message) : (media m).sawClosed = [] := by
  unfold media
  split <;> rfl

/-- Past the monitor branch with a message that it would have taken, there is no monitor. -/
theorem WirePc.route_sawClosed {side : Side} {m : Message} {s : Session}
    (h : s ∈ (route a.monitor.isSome side m).sawClosed) : s = .monitor ∧ a.monitor = none := by
  unfold route at h
  split at h
  · split at h
    · rw [media_sawClosed] at h
      cases h
    · split at h <;> cases h
  · next hno =>
      change s ∈ if m.isSessionLike then [Session.monitor] else [] at h
      split at h
      · next hlike =>
          rw [hlike, Bool.and_true] at hno
          exact ⟨List.mem_singleton.mp h, Option.not_isSome_iff_eq_none.mp hno⟩
      · cases h

/-- Past the outbound branch with a session message, there is no outbound call; and the message
    is one that the monitor branch would have taken. -/
theorem WirePc.routeCall_sawClosed {side : Side} {m : Message} {s : Session}
    (h : s ∈ (routeCall a.callSession.isSome side m).sawClosed) :
    s ∈ (outboundCheck side m).sawClosed ∨ (s = .outbound ∧ a.callSession = none) := by
  unfold routeCall at h
  split at h
  · split at h
    · cases h
    · split at h
      · rw [media_sawClosed] at h
        cases h
      · split at h <;> cases h
  · next hno =>
      split at h
      · cases h
      split at h
      · cases h
      · next hfamily =>
          have hlike : m.isSessionLike = true := by
            unfold Message.isSessionLike
            rw [beq_iff_eq.mpr (not_not.mp hfamily), Bool.true_or]
          split at h
          · cases h
          · rw [hlike, Bool.and_true] at hno
            rcases List.mem_cons.mp h with rfl | h
            · left
              change Session.monitor ∈ if m.isSessionLike then [Session.monitor] else []
              rw [if_pos hlike]
              exact List.mem_cons_self
            · exact .inr ⟨List.mem_singleton.mp h, Option.not_isSome_iff_eq_none.mp hno⟩

theorem WirePc.session_sawClosed {side : Side} {m : Message} {e : Endpoints} {peers : Peers}
    {s : Session} (h : s ∈ (session side m e peers).sawClosed) :
    s ∈ (accept side m e).sawClosed := by
  unfold session at h
  split at h
  · split at h <;> exact h
  split at h
  · cases h
  split at h
  · cases h
  split at h
  · cases h
  split at h
  · rw [media_sawClosed] at h
    cases h
  · cases h

variable [Wire W]

theorem wireStep_sawClosed {env : Env} (hs : wireStep env a pc = some (a', pc')) :
    ∀ s ∈ pc'.sawClosed, s ∈ pc.sawClosed ∨ (s ∈ pc.looksAt ∧ a.Closed s) := by
  intro s h
  cases pc with
  | received side raw =>
      unfold wireStep at hs
      dsimp only at hs
      split at hs
      · cases hs; cases h
      · split at hs
        · cases hs
          split at h <;> cases h
        · cases hs
          obtain ⟨rfl, hm⟩ := WirePc.route_sawClosed h
          exact .inr ⟨List.mem_cons_self, hm⟩
  | outboundCheck side message =>
      cases hs
      refine (WirePc.routeCall_sawClosed h).imp_right ?_
      rintro ⟨rfl, hc⟩
      exact ⟨List.mem_cons_self, hc⟩
  | accept side message e =>
      unfold wireStep at hs
      dsimp only at hs
      split at hs
      · cases hs; cases h
      · cases hs
        exact .inl (WirePc.session_sawClosed h)
  | ringReply => cases hs; exact .inl h
  | done => cases hs
  | bootstrap | outboundHangup | ringStart | padAnswer | padUnlock | hangup =>
      unfold wireStep at hs
      dsimp only at hs
      split at hs <;> cases hs <;> cases h
  | _ => cases hs; cases h

/-- A handler comes to have found a session closed by looking at it, and only so. -/
theorem sawClosed_step {env : HouseEnv} {h h' : Household W} (hs : HouseStep env h t h' t') :
    ∀ s ∈ t'.sawClosed, s ∈ t.sawClosed ∨ (s ∈ t.looksAt ∧ h.agent.Closed s) := by
  intro s hin
  cases hs with
  | wire ht ht' hw =>
      rw [HouseTask.sawClosed_of_wirePc ht'] at hin
      rw [HouseTask.sawClosed_of_wirePc ht, HouseTask.looksAt_of_wirePc ht]
      exact wireStep_sawClosed hw s hin
  | monitor hm =>
      cases hm with
      | idle hp =>
          obtain rfl := List.mem_singleton.mp hin
          exact .inr ⟨List.mem_cons_self, hp⟩
      | resolved | replace => exact .inl hin
      | _ => cases hin
  | dial hd =>
      cases hd with
      | idle hp =>
          obtain rfl := List.mem_singleton.mp hin
          exact .inr ⟨List.mem_cons_self, hp⟩
      | free hm hc =>
          rcases List.mem_cons.mp hin with rfl | hin
          · exact .inl List.mem_cons_self
          · refine .inr ⟨hin, ?_⟩
            rcases List.mem_pair.mp hin with rfl | rfl
            · exact hm
            · exact hc
      | expanded | resolved | connected | identify | setup | setUp => exact .inl hin
      | _ => cases hin
  | @datagram _ _ _ _ pc' hd =>
      cases hd with
      | received hpc =>
          rcases hpc with ⟨_, -, rfl⟩ | ⟨-, rfl⟩ <;> cases hin
      | _ => cases hin
  | _ => cases hin

/-- The three steps that open a session. -/
inductive Opening : HouseTask → Session → Prop where
  | monitor {cameraId camera} : Opening (.startMonitor cameraId (.install camera)) .monitor
  | outbound {calleeId signal e} : Opening (.dial calleeId (.install signal e)) .outbound
  | incoming {t e} (hpc : t.wirePc = some (.ringStart e)) : Opening t .incoming

omit [Wire W] in
theorem opening_of_opens {s : Session} (ho : t.opens a = some s) : Opening t s := by
  unfold HouseTask.opens at ho
  split at ho
  · obtain rfl := Option.some.inj ho
    exact .monitor
  · obtain rfl := Option.some.inj ho
    exact .outbound
  · split at ho
    · next hring =>
        obtain rfl := Option.some.inj ho
        obtain ⟨pc, hpc, hisRing⟩ := (Option.any_eq_true _ _).mp hring.1
        cases pc with
        | ringStart => exact .incoming hpc
        | _ => cases hisRing
    · cases ho

/-- Whoever opens a session has found the others closed; only `start_monitor_now` has not
    looked at the outbound call. -/
theorem Opening.sawClosed {s : Session} (ho : Opening t s) :
    ∀ other ∈ s.others, other ∈ t.sawClosed ∨ (s = .monitor ∧ other = .outbound) := by
  intro other hother
  cases ho with
  | monitor =>
      rcases List.mem_pair.mp hother with rfl | rfl
      · exact .inl List.mem_cons_self
      · exact .inr ⟨rfl, rfl⟩
  | outbound =>
      rcases List.mem_pair.mp hother with rfl | rfl
      · exact .inl List.mem_cons_self
      · exact .inl (List.mem_cons_of_mem _ List.mem_cons_self)
  | incoming hpc =>
      left
      rw [HouseTask.sawClosed_of_wirePc hpc]
      exact hother

/-- The step that opens a session looks at no other one. -/
theorem Opening.looksAt {s : Session} (ho : Opening t s) : t.looksAt = [] := by
  cases ho with
  | monitor | outbound => rfl
  | incoming hpc => exact HouseTask.looksAt_of_wirePc hpc

end

/-! ## Whole runs -/

section

variable [Wire W] {mode : AgentMode} {p q : HousePool W} {notes notes' : List SessionNote}
  {m : HouseMove}

omit [Wire W] in
theorem sawClosed_of_fresh {t : HouseTask} (h : t.fresh = true) : t.sawClosed = [] := by
  unfold HouseTask.fresh at h
  split at h <;> first | rfl | cases h | skip
  next t =>
    cases t with
    | wire pc =>
        cases pc with
        | received => rfl
        | _ => cases h
    | _ => rfl

omit [Wire W] in
theorem looked_mem_sessionNotes {a : Agent W} {t : HouseTask} {i j : Nat} {s : Session} :
    .looked j s ∈ t.sessionNotes i a ↔ j = i ∧ s ∈ t.looksAt ∧ a.Closed s := by
  unfold HouseTask.sessionNotes
  rw [List.mem_append, List.mem_map, List.mem_map]
  constructor
  · rintro (⟨k, hk, he⟩ | ⟨k, -, he⟩)
    · obtain ⟨rfl, rfl⟩ := SessionNote.looked.inj he
      obtain ⟨hlook, hc⟩ := List.mem_filter.mp hk
      exact ⟨rfl, hlook, of_decide_eq_true hc⟩
    · cases he
  · rintro ⟨rfl, hlook, hc⟩
    exact .inl ⟨s, List.mem_filter.mpr ⟨hlook, decide_eq_true hc⟩, rfl⟩

omit [Wire W] in
theorem opened_mem_sessionNotes {a : Agent W} {t : HouseTask} {i : Nat} {s : Session}
    (ho : t.opens a = some s) : .opened s ∈ t.sessionNotes i a := by
  unfold HouseTask.sessionNotes
  rw [ho]
  exact List.mem_append_right _ List.mem_cons_self

/-- What holds at every point of a run in which nobody is disturbed. -/
structure SessionsApart (p : HousePool W) (notes : List SessionNote) : Prop where
  few : p.shared.agent.sessions ≤ 1
  looked : ∀ i t, p.threads[i]? = some t → ∀ s ∈ t.sawClosed, .looked i s ∈ notes
  held : ∀ i s, HeldSince (p.shared.agent.Closed s) (.looked i s) (· = .opened s) notes

omit [Wire W] in
/-- An undisturbed handler that opens a session finds the others closed. -/
theorem SessionsApart.othersClosed {i : Nat} {t : HouseTask} (h : SessionsApart p notes)
    {env : HouseEnv} (hok : OpensUndisturbed (p, notes) (.step i env))
    (ht : p.threads[i]? = some t) {s : Session} (ho : t.opens p.shared.agent = some s) :
    ∀ other ∈ s.others, p.shared.agent.Closed other := by
  intro other hother
  obtain ⟨hundisturbed, hcall⟩ := hok t ht s ho
  refine (h.held i other).holds ?_ fun n hn he => hundisturbed other hother (he ▸ hn)
  rcases (opening_of_opens ho).sawClosed other hother with hsaw | ⟨rfl, rfl⟩
  · exact h.looked i t ht other hsaw
  · exact hcall rfl

/-- What a handler found closed is closed until somebody opens it. -/
theorem looks_held {env : HouseEnv} {h h' : Household W} {t t' : HouseTask} {i j : Nat}
    {s : Session} (hs : HouseStep env h t h' t')
    (hheld : HeldSince (h.agent.Closed s) (.looked j s) (· = .opened s) notes) :
    HeldSince (h'.agent.Closed s) (.looked j s) (· = .opened s)
      (notes ++ t.sessionNotes i h.agent) := by
  refine hheld.append (fun hmark => ?_) fun hc => ?_
  · obtain ⟨rfl, hlook, hc⟩ := looked_mem_sessionNotes.mp hmark
    refine closed_step hs hc fun ho => ?_
    rw [(opening_of_opens ho).looksAt] at hlook
    cases hlook
  · by_cases ho : t.opens h.agent = some s
    · exact .inr ⟨_, opened_mem_sessionNotes ho, rfl⟩
    · exact .inl (closed_step hs hc ho)

omit [Wire W] in
theorem learning_closed (a : Agent W) (l : Learning) (s : Session) :
    (l.act a).Closed s ↔ a.Closed s := by
  obtain ⟨hcall, hslots⟩ := learning_slots a l
  unfold Agent.Closed
  rw [hcall, hslots.monitor, hslots.callSession]

theorem SessionsApart.next (h : SessionsApart p notes) (hok : OpensUndisturbed (p, notes) m)
    (hn : (sessionsNoted mode W).next (p, notes) m = some (q, notes')) :
    SessionsApart q notes' := by
  obtain ⟨hq, hnotes⟩ := System.next_withHistory.mp hn
  dsimp only at hq hnotes
  subst hnotes
  rcases Program.next_cases hq with
    ⟨t, rfl, hstart, rfl⟩ | ⟨i, env, t, h', t', rfl, ht, hstep, rfl⟩ | ⟨l, rfl, rfl⟩
  · refine ⟨h.few, fun j u hu s hin => ?_, fun j s => ?_⟩
    · rw [show sessionNotes p (.start t) _ = [] from rfl, List.append_nil]
      rcases getElem?_append_cases hu with ⟨-, rfl⟩ | hu
      · rw [sawClosed_of_fresh (HouseTask.fresh_of_mayStart hstart)] at hin
        cases hin
      · exact h.looked j u hu s hin
    · rw [show sessionNotes p (.start t) _ = [] from rfl, List.append_nil]
      exact h.held j s
  · have hs := houseStep_cases hstep
    have hnotes : ∀ q, sessionNotes p (.step i env) q = t.sessionNotes i p.shared.agent := by
      intro q
      unfold sessionNotes
      dsimp only
      rw [ht]
      rfl
    rw [hnotes]
    refine ⟨sessions_step hs h.few fun s ho => h.othersClosed hok ht ho, fun j u hu s hin => ?_,
      fun j s => looks_held hs (h.held j s)⟩
    rcases getElem?_set_cases hu with ⟨rfl, rfl⟩ | ⟨-, hu⟩
    · rcases sawClosed_step hs s hin with hsaw | ⟨hlook, hc⟩
      · exact List.mem_append_left _ (h.looked j t ht s hsaw)
      · exact List.mem_append_right _ (looked_mem_sessionNotes.mpr ⟨rfl, hlook, hc⟩)
    · exact List.mem_append_left _ (h.looked j u hu s hin)
  · have hclosed : ∀ s, p.shared.agent.Closed s ↔
        (((houseProgram mode W).outside l p.shared).agent).Closed s := by
      intro s
      cases mode with
      | pad => rfl
      | tap => exact (learning_closed _ l s).symm
    rw [show sessionNotes p (.outside l) _ = [] from rfl, List.append_nil]
    refine ⟨Nat.le_trans (sessions_le fun s => (hclosed s).mp) h.few, h.looked, fun j s => ?_⟩
    exact fun hin => (h.held j s hin).imp_left (hclosed s).mp

/-- **At most one session at a time**, in every state of a run in which nobody opens a session
    of another kind between the look of a handler and the step that sets its own, and no
    outbound call is set where `start_monitor_now` checks. -/
theorem one_session_at_a_time (mode : AgentMode) (wire : W) (peers : Peers) (cooldown : Nat)
    (policy : Bool) (history : MediaRing) (elevatorDoor : Option String)
    (moves : List HouseMove) (p : HousePool W) (notes : List SessionNote)
    (hrun : (sessionsNoted mode W).run
      (idleHouse (.new wire peers cooldown policy history elevatorDoor), []) moves =
        some (p, notes))
    (hopen : (sessionsNoted mode W).Meets OpensUndisturbed
      (idleHouse (.new wire peers cooldown policy history elevatorDoor), []) moves) :
    p.shared.agent.sessions ≤ 1 := by
  have hinit : SessionsApart
      (idleHouse (.new wire peers cooldown policy history elevatorDoor)) [] := by
    refine ⟨?_, fun i t ht => ?_, fun i s => .nil⟩
    · simp [idleHouse, Household.new, Agent.sessions, Agent.ownSessions, Agent.new,
        CallMachine.withPolicy]
    · simp [idleHouse] at ht
  exact (System.run_induction_meets
    (P := fun u : HousePool W × List SessionNote => SessionsApart u.1 u.2)
    (fun _ _ _ h hok hn => h.next hok hn) hinit hopen hrun).few

end

/-- A camera is viewed and stopped again, a station is called and hung up, and the door
    rings. -/
theorem sessions_in_turn : ∃ p notes,
    (sessionsNoted .tap TapWire).run (idleHouse tapAgent, [])
        (serve 0 (.startMonitor "M00000000001" .check) 5 ++ serve 1 (.stopMonitor .take) 1 ++
          serve 2 (.dial "S00000000001" .checkIdle) 14 ++ serve 3 (.hangupCall .take) 2 ++
          serve 4 (.agent (fromDoor opRequest)) 5) = some (p, notes) ∧
      notes.filterMap SessionNote.opening = [.monitor, .outbound, .incoming] ∧
      p.shared.agent.sessions ≤ 1 := by
  have hmeets : (sessionsNoted .tap TapWire).Meets OpensUndisturbed (idleHouse tapAgent, [])
      (serve 0 (.startMonitor "M00000000001" .check) 5 ++ serve 1 (.stopMonitor .take) 1 ++
        serve 2 (.dial "S00000000001" .checkIdle) 14 ++ serve 3 (.hangupCall .take) 2 ++
        serve 4 (.agent (fromDoor opRequest)) 5) := by
    decide +kernel
  have hend : ((sessionsNoted .tap TapWire).run (idleHouse tapAgent, [])
      (serve 0 (.startMonitor "M00000000001" .check) 5 ++ serve 1 (.stopMonitor .take) 1 ++
        serve 2 (.dial "S00000000001" .checkIdle) 14 ++ serve 3 (.hangupCall .take) 2 ++
        serve 4 (.agent (fromDoor opRequest)) 5)).map
          (fun u => u.2.filterMap SessionNote.opening) =
      some [.monitor, .outbound, .incoming] := by
    decide +kernel
  obtain ⟨⟨p, notes⟩, hrun, hopened⟩ := Option.map_eq_some_iff.mp hend
  exact ⟨p, notes, hrun, hopened,
    one_session_at_a_time .tap tapWire _ 5000 false (.new 0 0) none _ p notes hrun hmeets⟩

/-- A station is called, and then a camera viewed: `start_monitor_now` does not look at the
    outbound call. -/
theorem monitor_beside_a_call : ∃ moves p,
    (houseProgram .tap TapWire).system.run (idleHouse tapAgent) moves = some p ∧
      ¬ p.shared.agent.sessions ≤ 1 := by
  have hboth : ((houseProgram .tap TapWire).system.run (idleHouse tapAgent)
      (serve 0 (.dial "S00000000001" .checkIdle) 14 ++
        serve 1 (.startMonitor "M00000000001" .check) 4)).map
          (fun p => p.shared.agent.sessions) = some 2 := by
    decide +kernel
  obtain ⟨p, hp, h2⟩ := Option.map_eq_some_iff.mp hboth
  exact ⟨_, p, hp, by rw [h2]; decide⟩

end Michoi
