/-
  Outbound calls in the event log.

  `dial_now` sets its handle and then pushes `Dialing`, `hangup_call_now` takes the handle
  and then pushes `CallHungUp`: two steps each, with the steps of other tasks between them
  (`hangup_overtakes_dial`). And `dial_now` looks at the slot before it awaits discovery and
  the socket, so that two dials can overlap (`dials_overlap`).

  `calls_in_pairs`: the log has the calls in pairs in every run with two things of its
  schedule. No dial sets its handle between the look of another one and that one's own, and
  nobody pushes an event of a call while another task is behind with an earlier one.
  What a handler pushes is the change it made (`house_calls`), and the guard of `dial_now`
  finds the slot empty (`sawClosed_step`).
-/
import Michoi.Household.Exclusive
import Michoi.Lib.Brackets

namespace Michoi

open Lib

/-! ## What the log says of outbound calls -/

/-- The opening or the closing of an outbound call that an event tells. -/
def EventKind.outbound : EventKind → Option (Bracket String)
  | dialing calleeId => some (.opened calleeId)
  | callHungUp calleeId _ => some (.closed calleeId)
  | _ => none

/-- The opening or the closing that a handler of the wire has still to push. -/
def WirePc.unlogged (pc : WirePc) : Option (Bracket String) := pc.pending.bind EventKind.outbound

namespace HouseTask

/-- The opening or the closing that the next step pushes. -/
def telling : HouseTask → Option (Bracket String)
  | dial _ (.publish _ e) => some (.opened e.room.id)
  | hangupCall (.publish callee) => some (.closed callee.id)
  | agent (.wire (.publish event)) => event.outbound
  | datagram _ _ (.onWire (.publish event) _) => event.outbound
  | _ => none

/-- The opening or the closing that the handler has still to push. -/
def unlogged : HouseTask → Option (Bracket String)
  | dial _ (.publish _ e) => some (.opened e.room.id)
  | hangupCall (.publish callee) => some (.closed callee.id)
  | t => t.wirePc.bind WirePc.unlogged

/-- The event that a command goes on with. -/
def commandEvent : HouseTask → Option EventKind
  | agent (.command _ _ (.send _ event _)) => some event
  | agent (.command _ _ (.notify _ event)) => some event
  | agent (.command _ _ (.publish event)) => some event
  | _ => none

/-- No command tells of outbound calls. -/
def Plain (t : HouseTask) : Prop := ∀ event ∈ t.commandEvent, event.outbound = none

end HouseTask

variable {W : Type}

/-- Whom the outbound call calls. -/
def Agent.callee (a : Agent W) : Option String := a.callSession.map fun c => c.callee.id

/-- What the next step does to the slot of the outbound call. -/
def HouseTask.callChange (a : Agent W) : HouseTask → Option (Bracket String)
  | dial _ (.install _ e) => some (.opened e.room.id)
  | hangupCall .take => a.callee.map .closed
  | t => if t.wirePc = some .outboundHangup then a.callee.map .closed else none

/-- What is noted of the outbound calls, and of the log. -/
inductive OutboundNote where
  /-- The handler looked at the slot, and it was empty. -/
  | looked (thread : Nat)
  | changed (thread : Nat) (change : Bracket String)
  | pushed (thread : Nat) (event : Event)
  deriving DecidableEq, Repr

namespace OutboundNote

def change : OutboundNote → Option (Nat × Bracket String)
  | changed thread change => some (thread, change)
  | _ => none

def event : OutboundNote → Option Event
  | pushed _ event => some event
  | _ => none

def told : OutboundNote → Option (Nat × Bracket String)
  | pushed thread event => event.kind.outbound.map fun b => (thread, b)
  | _ => none

/-- A dial set its handle. -/
def isOpening : OutboundNote → Bool
  | changed _ (.opened _) => true
  | _ => false

end OutboundNote

/-- The changes of the slot, in their order, with the handlers that made them. -/
def callChanges (notes : List OutboundNote) : List (Nat × Bracket String) :=
  notes.filterMap OutboundNote.change

/-- The events pushed. -/
def callEvents (notes : List OutboundNote) : List Event := notes.filterMap OutboundNote.event

/-- What the handlers told of outbound calls. -/
def callTellings (notes : List OutboundNote) : List (Nat × Bracket String) :=
  notes.filterMap OutboundNote.told

/-- What the events say of outbound calls. -/
def callLog (events : List Event) : List (Bracket String) :=
  events.filterMap fun event => event.kind.outbound

/-- The handler at place `i` looks at the slot of the outbound call and finds it empty. -/
def HouseTask.lookNotes (i : Nat) (a : Agent W) (t : HouseTask) : List OutboundNote :=
  if .outbound ∈ t.looksAt ∧ a.Closed .outbound then [.looked i] else []

/-- What the handler at place `i` changes and pushes in a step. -/
def HouseTask.callNotes (i : Nat) (a a' : Agent W) (t : HouseTask) : List OutboundNote :=
  (t.callChange a).toList.map (.changed i) ++
    ((pushedBy (some i) a.events a'.events).filterMap Note.event).map (.pushed i)

/-- The notes of a move. -/
def outboundNotes (p : HousePool W) (m : HouseMove) (q : HousePool W) : List OutboundNote :=
  match m with
  | .step i _ => (p.threads[i]?).elim [] fun t =>
      t.lookNotes i p.shared.agent ++ t.callNotes i p.shared.agent q.shared.agent
  | _ => []

/-- All interleavings, with what they note of the outbound calls. -/
def callsNoted (mode : AgentMode) (W : Type) [Wire W] :
    System (HousePool W × List OutboundNote) HouseMove :=
  (houseProgram mode W).system.withHistory outboundNotes

/-- No dial has set its handle since the one that sets its handle now looked at the slot. -/
def DialsUndisturbed (s : HousePool W × List OutboundNote) : HouseMove → Prop
  | .step i _ => ∀ t ∈ s.1.threads[i]?, t.opens s.1.shared.agent = some .outbound →
      ∀ n ∈ notedAfter (.looked i) s.2, n.isOpening = false
  | _ => True

instance (s : HousePool W × List OutboundNote) : ∀ m, Decidable (DialsUndisturbed s m)
  | .step i _ => inferInstanceAs (Decidable (∀ t ∈ s.1.threads[i]?,
      t.opens s.1.shared.agent = some .outbound →
        ∀ n ∈ notedAfter (.looked i) s.2, n.isOpening = false))
  | .start _ => isTrue trivial
  | .outside _ => isTrue trivial

/-- Whoever else has still to push an event of an outbound call changed the slot after the
    handler at `i` did. -/
def OthersLater (p : HousePool W) (notes : List OutboundNote) (i : Nat) : Prop :=
  ∀ j ∈ List.range p.threads.length, j ≠ i → ∀ t ∈ p.threads[j]?, t.unlogged ≠ none →
    j ∈ notedAfter i ((callChanges notes).map Prod.fst)

instance (p : HousePool W) (notes : List OutboundNote) (i : Nat) :
    Decidable (OthersLater p notes i) :=
  inferInstanceAs (Decidable (∀ j ∈ List.range p.threads.length, j ≠ i →
    ∀ t ∈ p.threads[j]?, t.unlogged ≠ none → j ∈ notedAfter i ((callChanges notes).map Prod.fst)))

/-- Nobody pushes an event of an outbound call while another task is behind with an earlier
    one. -/
def PushesInTurn (s : HousePool W × List OutboundNote) : HouseMove → Prop
  | .step i _ => ∀ t ∈ s.1.threads[i]?, t.telling ≠ none → OthersLater s.1 s.2 i
  | _ => True

instance (s : HousePool W × List OutboundNote) : ∀ m, Decidable (PushesInTurn s m)
  | .step i _ => inferInstanceAs (Decidable (∀ t ∈ s.1.threads[i]?, t.telling ≠ none →
      OthersLater s.1 s.2 i))
  | .start _ => isTrue trivial
  | .outside _ => isTrue trivial

/-- No handler stands between its change of the slot and its event. -/
def CallsLogged (p : HousePool W) : Prop := ∀ t ∈ p.threads, t.unlogged = none

instance (p : HousePool W) : Decidable (CallsLogged p) :=
  inferInstanceAs (Decidable (∀ t ∈ p.threads, _))

/-- The outbound calls open and close in pairs in the log. -/
structure CallsPaired (p : HousePool W) (notes : List OutboundNote) : Prop where
  log : Keeps p.shared.agent.events (callEvents notes)
  pairs : ∃ current, InPairs (callLog (callEvents notes)) current
  current : CallsLogged p → InPairs (callLog (callEvents notes)) p.shared.agent.callee

/-! ## One step -/

/-- What a step does to the outbound call and to the log. -/
inductive CallStep (i : Nat) (env : HouseEnv) (a a' : Agent W) (t t' : HouseTask) :
    List OutboundNote → Prop where
  | quiet (hchange : t.callChange a = none) (hc : a'.callee = a.callee)
      (hlog : a'.events = a.events) (hu : t'.unlogged = t.unlogged) : CallStep i env a a' t t' []
  | opened {k} (hchange : t.callChange a = some (.opened k)) (hc : a'.callee = some k)
      (hlog : a'.events = a.events) (hu : t.unlogged = none)
      (hu' : t'.unlogged = some (.opened k)) : CallStep i env a a' t t' [.changed i (.opened k)]
  | closed {k} (hchange : t.callChange a = some (.closed k)) (hc : a.callee = some k)
      (hc' : a'.callee = none) (hlog : a'.events = a.events) (hu : t.unlogged = none)
      (hu' : t'.unlogged = some (.closed k)) : CallStep i env a a' t t' [.changed i (.closed k)]
  | pushed {kind} (hchange : t.callChange a = none) (hc : a'.callee = a.callee)
      (hlog : a'.events = a.events.push env.eventMs kind) (hu : t.unlogged = kind.outbound)
      (htell : t.telling = kind.outbound) (hu' : t'.unlogged = none) :
      CallStep i env a a' t t' [.pushed i ⟨a.events.nextSeq, env.eventMs, kind⟩]

section

variable {i : Nat} {env : HouseEnv} {a a' : Agent W} {t t' : HouseTask}

theorem callNotes_of_log {change : Option (Bracket String)} (hchange : t.callChange a = change)
    (hlog : a'.events = a.events) : t.callNotes i a a' = change.toList.map (.changed i) := by
  unfold HouseTask.callNotes
  rw [hchange, hlog, pushedBy_self]
  exact List.append_nil _

theorem call_quiet (hchange : t.callChange a = none) (hc : a'.callee = a.callee)
    (hlog : a'.events = a.events) (hu : t'.unlogged = t.unlogged) :
    CallStep i env a a' t t' (t.callNotes i a a') := by
  rw [callNotes_of_log hchange hlog]
  exact .quiet hchange hc hlog hu

theorem call_pushed {kind : EventKind} (hchange : t.callChange a = none)
    (hc : a'.callee = a.callee) (hlog : a'.events = a.events.push env.eventMs kind)
    (hu : t.unlogged = kind.outbound) (htell : t.telling = kind.outbound)
    (hu' : t'.unlogged = none) : CallStep i env a a' t t' (t.callNotes i a a') := by
  unfold HouseTask.callNotes
  rw [hchange, hlog, pushedBy_push]
  exact .pushed hchange hc hlog hu htell hu'

theorem call_opened {k : String} (hchange : t.callChange a = some (.opened k))
    (hc : a'.callee = some k) (hlog : a'.events = a.events) (hu : t.unlogged = none)
    (hu' : t'.unlogged = some (.opened k)) : CallStep i env a a' t t' (t.callNotes i a a') := by
  rw [callNotes_of_log hchange hlog]
  exact .opened hchange hc hlog hu hu'

theorem call_closed {k : String} (hchange : t.callChange a = a.callee.map .closed)
    (hc : a.callee = some k) (hc' : a'.callee = none) (hlog : a'.events = a.events)
    (hu : t.unlogged = none) (hu' : t'.unlogged = some (.closed k)) :
    CallStep i env a a' t t' (t.callNotes i a a') := by
  rw [hc] at hchange
  rw [callNotes_of_log hchange hlog]
  exact .closed hchange hc hc' hlog hu hu'

end

/-! ### Messages of the wire -/

section

variable [Wire W] {env : Env} {a a' : Agent W}

/-- What a step of `on_wire` does to the outbound call and to the log. -/
inductive OutboundStep (env : Env) (a : Agent W) : WirePc → Agent W → WirePc → Prop where
  | quiet {pc a' pc'} (hc : a'.callSession = a.callSession) (hlog : a'.events = a.events)
      (hno : pc ≠ .outboundHangup) (hu : pc'.unlogged = pc.unlogged) : OutboundStep env a pc a' pc'
  | answered : OutboundStep env a .outboundAnswered (a.outboundAnswered env) .done
  | nothing (hc : a.callSession = none) : OutboundStep env a .outboundHangup a .done
  | hungUp {c} (hc : a.callSession = some c) :
      OutboundStep env a .outboundHangup a.takeCallSession.2
        (.publish (.callHungUp c.callee.id "callee_hangup"))
  | publish {event} : OutboundStep env a (.publish event) (a.publish env event) .done

theorem WirePc.unlogged_of_pending {pc : WirePc} (h : pc.pending = none) : pc.unlogged = none := by
  unfold unlogged
  rw [h]
  rfl

theorem wireStep_calls {pc pc' : WirePc} (hs : wireStep env a pc = some (a', pc')) :
    OutboundStep env a pc a' pc' := by
  cases pc with
  | publish => cases hs; exact .publish
  | callEnd => cases hs; exact .quiet rfl rfl nofun rfl
  | outboundAnswered => cases hs; exact .answered
  | outboundHangup =>
      cases hc : a.callSession with
      | none =>
          have hnone : OutboundStep env a .outboundHangup a .done := .nothing hc
          unfold wireStep Agent.takeCallSession at hs
          rw [hc] at hs
          cases hs
          exact hnone
      | some c =>
          have htake : OutboundStep env a .outboundHangup a.takeCallSession.2
              (.publish (.callHungUp c.callee.id "callee_hangup")) := .hungUp hc
          unfold wireStep at hs
          unfold Agent.takeCallSession at hs htake
          rw [hc] at hs htake
          cases hs
          exact htake
  | stopMonitor =>
      cases hs
      refine .quiet (stopMonitorNow_callSession a) ?_ nofun rfl
      unfold Agent.stopMonitorNow
      split <;> rfl
  | feed media =>
      cases hs
      unfold Agent.feed
      split
      · exact .quiet rfl rfl nofun rfl
      · split <;> exact .quiet rfl rfl nofun rfl
  | received side raw =>
      unfold wireStep at hs
      dsimp only at hs
      split at hs
      · cases hs; exact .quiet rfl rfl nofun rfl
      · next message _ =>
          split at hs
          · cases hs
            exact .quiet rfl rfl nofun (by split <;> rfl)
          · cases hs
            exact .quiet rfl rfl nofun
              (WirePc.unlogged_of_pending (WirePc.route_pending _ side message))
  | outboundCheck side message =>
      cases hs
      exact .quiet rfl rfl nofun
        (WirePc.unlogged_of_pending (WirePc.routeCall_pending _ side message))
  | accept side message e =>
      unfold wireStep Agent.acceptEndpoints at hs
      dsimp only at hs
      split at hs <;> next heq =>
        obtain ⟨-, rfl⟩ := Prod.mk.inj heq
        cases hs
        first
          | exact .quiet rfl rfl nofun rfl
          | exact .quiet rfl rfl nofun
              (WirePc.unlogged_of_pending (WirePc.session_pending side message e _))
  | bootstrapReply | ringReply | wakeElevator =>
      cases hs
      exact .quiet rfl rfl nofun rfl
  | bootstrap | padUnlock | ringStart | padAnswer | hangup =>
      unfold wireStep at hs
      dsimp only at hs
      split at hs <;> cases hs <;> exact .quiet rfl rfl nofun rfl
  | done => cases hs

end

/-! ### Any handler -/

section

variable {a : Agent W} {t : HouseTask} {pc : WirePc}

theorem HouseTask.unlogged_of_wirePc (ht : t.wirePc = some pc) : t.unlogged = pc.unlogged := by
  cases t with
  | agent | datagram => exact (congrArg (Option.bind · WirePc.unlogged) ht).trans rfl
  | _ => cases ht

theorem HouseTask.telling_of_wirePc {event : EventKind} (ht : t.wirePc = some (.publish event)) :
    t.telling = event.outbound := by
  unfold wirePc at ht
  split at ht
  · rw [Option.some.inj ht]
    rfl
  · rw [Option.some.inj ht]
    rfl
  · cases ht

theorem HouseTask.callChange_of_wirePc (ht : t.wirePc = some pc) :
    t.callChange a = if pc = .outboundHangup then a.callee.map .closed else none := by
  have hchange : t.callChange a =
      if t.wirePc = some .outboundHangup then a.callee.map .closed else none := by
    cases t with
    | agent | datagram => rfl
    | _ => cases ht
  rw [hchange, ht]
  exact if_congr (Option.some_inj) rfl rfl

theorem outboundAnswered_callee (a : Agent W) (env : Env) :
    (a.outboundAnswered env).callee = a.callee := by
  unfold Agent.outboundAnswered
  split
  · rfl
  · next handle hc =>
      split
      · rfl
      · exact (congrArg (Option.map fun c : CallHandle => c.callee.id) hc).symm

/-- The first answer is the only one that is told. -/
theorem outboundAnswered_events (a : Agent W) (env : Env) :
    (a.outboundAnswered env).events = a.events ∨ ∃ calleeId,
      (a.outboundAnswered env).events = a.events.push env.eventMs (.callConnected calleeId) := by
  unfold Agent.outboundAnswered
  split
  · exact .inl rfl
  · split
    · exact .inl rfl
    · exact .inr ⟨_, rfl⟩

theorem callee_of_callSession {a' : Agent W} (hc : a'.callSession = a.callSession) :
    a'.callee = a.callee := congrArg (Option.map fun c : CallHandle => c.callee.id) hc

theorem takeCallSession_callee (a : Agent W) : a.takeCallSession.2.callee = none :=
  congrArg (Option.map fun c : CallHandle => c.callee.id) (takeCallSession_callSession a)

theorem takeCallSession_events (a : Agent W) : a.takeCallSession.2.events = a.events := by
  unfold Agent.takeCallSession
  split <;> rfl

theorem stopMonitorNow_events (a : Agent W) : a.stopMonitorNow.events = a.events := by
  unfold Agent.stopMonitorNow
  split <;> rfl

end

section

variable [Wire W] {i : Nat} {env : HouseEnv} {h h' : Household W} {t t' : HouseTask}

omit [Wire W] in
theorem wire_calls {a' : Agent W} {pc pc' : WirePc} (ht : t.wirePc = some pc)
    (ht' : t'.wirePc = some pc') (hs : OutboundStep env.toEnv h.agent pc a' pc') :
    CallStep i env h.agent a' t t' (t.callNotes i h.agent a') := by
  have hchange := HouseTask.callChange_of_wirePc (a := h.agent) ht
  have hu := HouseTask.unlogged_of_wirePc ht
  have hu' := HouseTask.unlogged_of_wirePc ht'
  cases hs with
  | quiet hc hlog hno hsame =>
      rw [if_neg hno] at hchange
      exact call_quiet hchange (callee_of_callSession hc) hlog (hu'.trans (hsame.trans hu.symm))
  | answered =>
      rw [if_neg nofun] at hchange
      have hcallee := outboundAnswered_callee h.agent env.toEnv
      rcases outboundAnswered_events h.agent env.toEnv with hlog | ⟨calleeId, hlog⟩
      · exact call_quiet hchange hcallee hlog (hu'.trans hu.symm)
      · have htell : t.telling = none := by
          cases t with
          | agent t => cases t with
            | wire => cases ht; rfl
            | _ => cases ht
          | datagram sender payload pc => cases pc with
            | onWire => cases ht; rfl
            | _ => cases ht
          | _ => cases ht
        exact call_pushed hchange hcallee hlog hu htell hu'
  | nothing hc =>
      have hcallee : h.agent.callee = none := by
        unfold Agent.callee
        rw [hc]
        rfl
      rw [if_pos rfl, hcallee] at hchange
      exact call_quiet hchange rfl rfl (hu'.trans hu.symm)
  | hungUp hc =>
      rw [if_pos rfl] at hchange
      exact call_closed hchange (congrArg _ hc) (takeCallSession_callee _)
        (takeCallSession_events _) hu hu'
  | publish =>
      rw [if_neg nofun] at hchange
      exact call_pushed hchange rfl rfl hu (HouseTask.telling_of_wirePc ht) hu'

/-- **What a step does to the outbound call and to the log.** -/
theorem house_calls (hs : HouseStep env h t h' t') (hplain : t.Plain) :
    CallStep i env h.agent h'.agent t t' (t.callNotes i h.agent h'.agent) := by
  cases hs with
  | wire ht ht' hw => exact wire_calls ht ht' (wireStep_calls hw)
  | command hc =>
      have hslots := callee_of_callSession (commandStep_slots hc).callSession
      cases hc with
      | publish => exact call_pushed rfl hslots rfl (hplain _ rfl).symm (hplain _ rfl).symm rfl
      | notify => exact call_quiet rfl hslots (notify_events ..) rfl
      | _ => exact call_quiet rfl hslots rfl rfl
  | elevator he =>
      cases he with
      | publish => exact call_pushed rfl rfl rfl rfl rfl rfl
      | _ => exact call_quiet rfl rfl rfl rfl
  | monitor hm =>
      cases hm with
      | replace =>
          exact call_quiet rfl (callee_of_callSession (stopMonitorNow_callSession _))
            (stopMonitorNow_events _) rfl
      | publish | stopped => exact call_pushed rfl rfl rfl rfl rfl rfl
      | _ => exact call_quiet rfl rfl rfl rfl
  | stop =>
      exact call_quiet rfl (callee_of_callSession (stopMonitorNow_callSession _))
        (stopMonitorNow_events _) rfl
  | dial hd =>
      cases hd with
      | install => exact call_opened rfl rfl rfl rfl rfl
      | publish => exact call_pushed rfl rfl rfl rfl rfl rfl
      | _ => exact call_quiet rfl rfl rfl rfl
  | hangup hh =>
      cases hh with
      | nothing hc =>
          exact call_quiet (congrArg (fun c => (Option.map _ c).map _) hc) rfl rfl rfl
      | take hc =>
          exact call_closed rfl (congrArg _ hc) (takeCallSession_callee _)
            (takeCallSession_events _) rfl rfl
      | publish => exact call_pushed rfl rfl rfl rfl rfl rfl
  | talk ht => cases ht <;> exact call_quiet rfl rfl rfl rfl
  | video hv => cases hv <;> exact call_quiet rfl rfl rfl rfl
  | keepalive hk => cases hk <;> exact call_quiet rfl rfl rfl rfl
  | datagram hd =>
      cases hd with
      | received hpc =>
          rcases hpc with ⟨ip, -, rfl⟩ | ⟨-, rfl⟩ <;> exact call_quiet rfl rfl rfl rfl
      | _ => exact call_quiet rfl rfl rfl rfl

/-- A command goes on with an event of its own. -/
theorem HouseTask.Plain.step (hs : HouseStep env h t h' t') (hplain : t.Plain) : t'.Plain := by
  cases hs with
  | wire _ ht' =>
      cases t' with
      | agent t' => cases t' with
        | wire => exact nofun
        | _ => cases ht'
      | datagram => exact nofun
      | _ => cases ht'
  | @command action _ _ _ _ hc =>
      cases hc with
      | built =>
          rintro event ⟨⟩
          cases action <;> rfl
      | sent | notify => exact hplain
      | _ => exact nofun
  | _ => exact nofun

omit [Wire W] in
theorem HouseTask.plain_of_fresh (ht : t.fresh = true) : t.Plain ∧ t.unlogged = none := by
  unfold fresh at ht
  split at ht
  · next t =>
      cases t with
      | command action commandId pc =>
          cases pc with
          | lookup => exact ⟨nofun, rfl⟩
          | _ => cases ht
      | elevator => exact ⟨nofun, rfl⟩
      | wire pc =>
          cases pc with
          | received => exact ⟨nofun, rfl⟩
          | _ => cases ht
  all_goals first | exact ⟨nofun, rfl⟩ | cases ht

end

/-! ## The notes of a run -/

section

variable {i : Nat} {env : HouseEnv} {a a' : Agent W} {t t' : HouseTask}
  {notes new : List OutboundNote} {threads : List HouseTask}

theorem callChanges_append (notes new : List OutboundNote) :
    callChanges (notes ++ new) = callChanges notes ++ callChanges new := List.filterMap_append

theorem callTellings_append (notes new : List OutboundNote) :
    callTellings (notes ++ new) = callTellings notes ++ callTellings new := List.filterMap_append

theorem callEvents_append (notes new : List OutboundNote) :
    callEvents (notes ++ new) = callEvents notes ++ callEvents new := List.filterMap_append

/-- The log says what the handlers told. -/
theorem callLog_callEvents (notes : List OutboundNote) :
    callLog (callEvents notes) = (callTellings notes).map Prod.snd := by
  unfold callLog callEvents callTellings
  rw [List.filterMap_filterMap, List.map_filterMap]
  congr 1
  funext n
  cases n with
  | pushed i event =>
      change event.kind.outbound = (event.kind.outbound.map fun b => (i, b)).map Prod.snd
      rw [Option.map_map]
      exact Option.map_id'.symm
  | _ => rfl

theorem callChanges_lookNotes (a : Agent W) (t : HouseTask) :
    callChanges (notes ++ t.lookNotes i a) = callChanges notes := by
  rw [callChanges_append]
  unfold HouseTask.lookNotes
  split <;> exact List.append_nil _

theorem callTellings_lookNotes (a : Agent W) (t : HouseTask) :
    callTellings (notes ++ t.lookNotes i a) = callTellings notes := by
  rw [callTellings_append]
  unfold HouseTask.lookNotes
  split <;> exact List.append_nil _

theorem callEvents_lookNotes (a : Agent W) (t : HouseTask) :
    callEvents (notes ++ t.lookNotes i a) = callEvents notes := by
  rw [callEvents_append]
  unfold HouseTask.lookNotes
  split <;> exact List.append_nil _

/-- Only `dial_now` opens an outbound call. -/
theorem opens_of_callChange {k : String} (hchange : t.callChange a = some (.opened k)) :
    t.opens a = some .outbound := by
  unfold HouseTask.callChange at hchange
  split at hchange
  · rfl
  · cases hc : a.callee <;> rw [hc] at hchange <;> cases hchange
  · split at hchange
    · cases hc : a.callee <;> rw [hc] at hchange <;> cases hchange
    · cases hchange

/-- And it notes that it did. -/
theorem opening_mem_callNotes (i : Nat) (a' : Agent W) (ho : t.opens a = some .outbound) :
    ∃ n ∈ t.callNotes i a a', n.isOpening = true := by
  cases opening_of_opens ho with
  | @outbound calleeId signal e =>
      exact ⟨.changed i (.opened e.room.id), List.mem_append_left _ List.mem_cons_self, rfl⟩

theorem looked_mem_notes {j : Nat} (hj : .looked j ∈ t.lookNotes i a ++ t.callNotes i a a') :
    j = i ∧ .outbound ∈ t.looksAt ∧ a.Closed .outbound := by
  rcases List.mem_append.mp hj with hj | hj
  · unfold HouseTask.lookNotes at hj
    split at hj
    · next hfound => exact ⟨OutboundNote.looked.inj (List.mem_singleton.mp hj), hfound⟩
    · cases hj
  · rcases List.mem_append.mp hj with hj | hj
    · obtain ⟨_, _, he⟩ := List.mem_map.mp hj
      cases he
    · obtain ⟨_, _, he⟩ := List.mem_map.mp hj
      cases he

/-- The changes stay in pairs, where a dial finds the slot empty. -/
theorem CallStep.pairs (hs : CallStep i env a a' t t' new)
    (h : InPairs ((callChanges notes).map Prod.snd) a.callee)
    (hfree : t.opens a = some .outbound → a.callee = none) :
    InPairs ((callChanges (notes ++ new)).map Prod.snd) a'.callee := by
  rw [callChanges_append, List.map_append]
  cases hs with
  | quiet _ hc | pushed _ hc =>
      rw [hc]
      exact (List.append_nil _).symm ▸ h
  | @opened k hchange hc =>
      rw [hfree (opens_of_callChange hchange)] at h
      rw [hc]
      exact h.opened k
  | closed _ hc hc' =>
      rw [hc] at h
      rw [hc']
      exact h.closed

/-- What the handler at some place has still to push. -/
def unloggedAt (threads : List HouseTask) (j : Nat) : Option (Bracket String) :=
  (threads[j]?).bind HouseTask.unlogged

theorem unloggedAt_self (ht : threads[i]? = some t) : unloggedAt threads i = t.unlogged :=
  congrArg (Option.bind · HouseTask.unlogged) ht

theorem unloggedAt_other {j : Nat} (hj : j ≠ i) :
    unloggedAt (threads.set i t') j = unloggedAt threads j :=
  congrArg (Option.bind · HouseTask.unlogged) (getElem?_set_other hj)

theorem unloggedAt_same (ht : threads[i]? = some t) (hu : t'.unlogged = t.unlogged) (j : Nat) :
    unloggedAt (threads.set i t') j = unloggedAt threads j := by
  by_cases hj : j = i
  · subst hj
    rw [unloggedAt_self (getElem?_set_self ht), unloggedAt_self ht, hu]
  · exact unloggedAt_other hj

/-- The log tells the changes in their order, where each handler pushes in its turn. -/
theorem CallStep.toldFirst {p : HousePool W} (hs : CallStep i env a a' t t' new)
    (ht : p.threads[i]? = some t)
    (h : ToldFirst (callChanges notes) (callTellings notes) (unloggedAt p.threads))
    (hturn : t.telling ≠ none → OthersLater p notes i) :
    ToldFirst (callChanges (notes ++ new)) (callTellings (notes ++ new))
      (unloggedAt (p.threads.set i t')) := by
  have hself := unloggedAt_self ht
  have ht' : (p.threads.set i t')[i]? = some t' := getElem?_set_self ht
  have hself' := unloggedAt_self ht'
  rw [callChanges_append, callTellings_append]
  cases hs with
  | quiet _ _ _ hu =>
      rw [show callChanges [] = [] from rfl, show callTellings [] = [] from rfl, List.append_nil,
        List.append_nil]
      exact h.congr (unloggedAt_same ht hu)
  | opened _ _ _ hu hu' | closed _ _ _ _ hu hu' =>
      rw [show callTellings [.changed i _] = [] from rfl, List.append_nil]
      exact h.change (hself.trans hu) (hself'.trans hu') fun _ => unloggedAt_other
  | @pushed kind _ _ _ hu htell hu' =>
      rw [show callChanges [.pushed i _] = [] from rfl, List.append_nil]
      rw [htell] at hturn
      cases hk : kind.outbound with
      | none =>
          have htold : callTellings [.pushed i ⟨a.events.nextSeq, env.eventMs, kind⟩] = [] := by
            simp [callTellings, OutboundNote.told, hk]
          rw [htold, List.append_nil]
          exact h.congr (unloggedAt_same ht (hu'.trans (hu.trans hk).symm))
      | some b =>
          have htold : callTellings [.pushed i ⟨a.events.nextSeq, env.eventMs, kind⟩] =
              [(i, b)] := by
            simp [callTellings, OutboundNote.told, hk]
          rw [htold]
          refine h.tell (hself.trans (hu.trans hk)) (hself'.trans hu')
            (fun _ => unloggedAt_other) fun j hj hpending => ?_
          obtain ⟨c, hc⟩ := Option.ne_none_iff_exists'.mp hpending
          obtain ⟨u, huj, hu⟩ := Option.bind_eq_some_iff.mp hc
          refine hturn (by rw [hk]; nofun) j ?_ hj u huj (by rw [hu]; nofun)
          exact List.mem_range.mpr (List.getElem?_eq_some_iff.mp huj).1

/-- The log keeps the last events pushed. -/
theorem CallStep.keeps (hs : CallStep i env a a' t t' new)
    (h : Keeps a.events (callEvents notes)) : Keeps a'.events (callEvents (notes ++ new)) := by
  rw [callEvents_append]
  cases hs with
  | quiet _ _ hlog | opened _ _ hlog | closed _ _ _ hlog =>
      rw [hlog]
      exact (List.append_nil _).symm ▸ h
  | pushed _ _ hlog =>
      rw [hlog]
      exact h.push _ _

end

/-! ## The runs -/

section

variable [Wire W] {mode : AgentMode} {p q : HousePool W} {m : HouseMove}
  {notes notes' : List OutboundNote} {i : Nat} {env : HouseEnv} {h' : Household W}
  {t t' : HouseTask}

/-- What holds at every point of a run in which no dial is disturbed and the events are pushed
    in turn. -/
structure CallsInTurn (p : HousePool W) (notes : List OutboundNote) : Prop where
  plain : ∀ t ∈ p.threads, t.Plain
  log : Keeps p.shared.agent.events (callEvents notes)
  turn : ToldFirst (callChanges notes) (callTellings notes) (unloggedAt p.threads)
  looked : ∀ i t, p.threads[i]? = some t → .outbound ∈ t.sawClosed → .looked i ∈ notes
  held : ∀ i, HeldSince (p.shared.agent.Closed .outbound) (.looked i) (·.isOpening = true) notes
  pairs : InPairs ((callChanges notes).map Prod.snd) p.shared.agent.callee

namespace CallsInTurn

omit [Wire W] in
theorem init {a : Agent W} (ha : a.events = .new 256) (hc : a.callSession = none) :
    CallsInTurn (idleHouse a) [] where
  plain _ ht := absurd ht List.not_mem_nil
  log := ha ▸ .new
  turn := .nil
  looked i t ht := by simp [idleHouse] at ht
  held _ := .nil
  pairs := by
    rw [show (idleHouse a).shared.agent.callee = none from congrArg (Option.map _) hc]
    exact .nil

omit [Wire W] in
/-- A dial that is not disturbed finds the slot empty when it sets its handle. -/
theorem callee_eq_none (h : CallsInTurn p notes)
    (hfree : DialsUndisturbed (p, notes) (.step i env)) (ht : p.threads[i]? = some t)
    (ho : t.opens p.shared.agent = some .outbound) : p.shared.agent.callee = none := by
  have hsaw : .outbound ∈ t.sawClosed := by
    cases opening_of_opens ho with
    | outbound => exact List.mem_cons_of_mem _ (List.mem_cons_of_mem _ List.mem_cons_self)
  have hclosed : p.shared.agent.callSession = none :=
    (h.held i).holds (h.looked i t ht hsaw) fun n hn hopen => by
      rw [hfree t ht ho n hn] at hopen
      cases hopen
  exact congrArg (Option.map fun c : CallHandle => c.callee.id) hclosed

omit [Wire W] in
theorem start (h : CallsInTurn p notes) (hfresh : t.fresh = true) :
    CallsInTurn ⟨p.shared, p.threads ++ [t]⟩ notes := by
  obtain ⟨hplain, hnone⟩ := HouseTask.plain_of_fresh hfresh
  refine ⟨fun u hu => ?_, h.log, h.turn.congr fun j => ?_, fun j u hu hsaw => ?_, h.held, h.pairs⟩
  · rcases List.mem_append.mp hu with hu | hu
    · exact h.plain u hu
    · exact List.mem_singleton.mp hu ▸ hplain
  · by_cases hj : j < p.threads.length
    · unfold unloggedAt
      rw [List.getElem?_append_left hj]
    · unfold unloggedAt
      rw [List.getElem?_append_right (by omega), List.getElem?_eq_none (by omega : _ ≤ j)]
      cases hu : [t][j - p.threads.length]? with
      | none => rfl
      | some u =>
          obtain rfl := List.mem_singleton.mp (List.mem_of_getElem? hu)
          exact hnone
  · rcases getElem?_append_cases hu with ⟨-, rfl⟩ | hu
    · rw [sawClosed_of_fresh hfresh] at hsaw
      cases hsaw
    · exact h.looked j u hu hsaw

theorem step (h : CallsInTurn p notes) (hs : HouseStep env p.shared t h' t')
    (ht : p.threads[i]? = some t) (hfree : DialsUndisturbed (p, notes) (.step i env))
    (hturn : PushesInTurn (p, notes) (.step i env)) :
    CallsInTurn ⟨h', p.threads.set i t'⟩
      (notes ++ (t.lookNotes i p.shared.agent ++ t.callNotes i p.shared.agent h'.agent)) := by
  have htp := h.plain t (List.mem_of_getElem? ht)
  have hcall : CallStep i env p.shared.agent h'.agent t t' _ := house_calls hs htp
  have hlog := h.log
  have htold := h.turn
  have hpairs := h.pairs
  rw [← callEvents_lookNotes (i := i) p.shared.agent t] at hlog
  rw [← callChanges_lookNotes (i := i) p.shared.agent t,
    ← callTellings_lookNotes (i := i) p.shared.agent t] at htold
  rw [← callChanges_lookNotes (i := i) p.shared.agent t] at hpairs
  refine ⟨fun u hu => ?_, ?_, ?_, fun j u hu hsaw => ?_, fun j => ?_, ?_⟩
  · rcases List.mem_or_eq_of_mem_set hu with hu | rfl
    · exact h.plain u hu
    · exact htp.step hs
  · rw [← List.append_assoc]
    exact hcall.keeps hlog
  · rw [← List.append_assoc]
    refine hcall.toldFirst ht htold fun htell j hj hji u hu hlogged => ?_
    rw [callChanges_lookNotes]
    exact hturn t ht htell j hj hji u hu hlogged
  · rcases getElem?_set_cases hu with ⟨rfl, rfl⟩ | ⟨-, hu⟩
    · rcases sawClosed_step hs _ hsaw with hsaw | hfound
      · exact List.mem_append_left _ (h.looked j t ht hsaw)
      · refine List.mem_append_right _ (List.mem_append_left _ ?_)
        unfold HouseTask.lookNotes
        rw [if_pos hfound]
        exact List.mem_cons_self
    · exact List.mem_append_left _ (h.looked j u hu hsaw)
  · refine (h.held j).append (fun hmark => ?_) fun hc => ?_
    · obtain ⟨rfl, hlook, hc⟩ := looked_mem_notes hmark
      refine closed_step hs hc fun ho => ?_
      rw [(opening_of_opens ho).looksAt] at hlook
      cases hlook
    · by_cases ho : t.opens p.shared.agent = some .outbound
      · obtain ⟨n, hn, hopen⟩ := opening_mem_callNotes i h'.agent ho
        exact .inr ⟨n, List.mem_append_right _ hn, hopen⟩
      · exact .inl (closed_step hs hc ho)
  · rw [← List.append_assoc]
    exact hcall.pairs hpairs (h.callee_eq_none hfree ht)

theorem next (h : CallsInTurn p notes) (hfree : DialsUndisturbed (p, notes) m)
    (hturn : PushesInTurn (p, notes) m)
    (hn : (callsNoted mode W).next (p, notes) m = some (q, notes')) : CallsInTurn q notes' := by
  obtain ⟨hq, hnotes⟩ := System.next_withHistory.mp hn
  dsimp only at hq hnotes
  subst hnotes
  rcases Program.next_cases hq with
    ⟨t, rfl, hmay, rfl⟩ | ⟨i, env, t, h', t', rfl, ht, hstep, rfl⟩ | ⟨l, rfl, rfl⟩
  · rw [show outboundNotes p (.start t) _ = [] from rfl, List.append_nil]
    exact h.start (HouseTask.fresh_of_mayStart hmay)
  · have hnotes : ∀ q : HousePool W, outboundNotes p (.step i env) q =
        t.lookNotes i p.shared.agent ++ t.callNotes i p.shared.agent q.shared.agent := by
      intro q
      unfold outboundNotes
      dsimp only
      rw [ht]
      rfl
    rw [hnotes]
    exact h.step (houseStep_cases hstep) ht hfree hturn
  · rw [show outboundNotes p (.outside l) _ = [] from rfl, List.append_nil]
    have hsame : ((houseProgram mode W).outside l p.shared).agent.events =
          p.shared.agent.events ∧
        ((houseProgram mode W).outside l p.shared).agent.callSession =
          p.shared.agent.callSession := by
      cases mode with
      | pad => exact ⟨rfl, rfl⟩
      | tap => cases l <;> exact ⟨rfl, rfl⟩
    refine ⟨h.plain, ?_, h.turn, h.looked, fun j hin => ?_, ?_⟩
    · exact hsame.1 ▸ h.log
    · exact (h.held j hin).imp_left hsame.2.trans
    · exact (callee_of_callSession hsame.2).symm ▸ h.pairs

omit [Wire W] in
/-- The log is in pairs, and where nothing is left to be pushed it says whom the call calls. -/
theorem paired (h : CallsInTurn p notes) : CallsPaired p notes := by
  refine ⟨h.log, ?_, fun hlogged => ?_⟩
  · rw [callLog_callEvents]
    exact h.pairs.of_prefix (h.turn.told_prefix.map Prod.snd)
  · have hnone : ∀ j, unloggedAt p.threads j = none := by
      intro j
      unfold unloggedAt
      cases ht : p.threads[j]? with
      | none => rfl
      | some t => exact hlogged t (List.mem_of_getElem? ht)
    rw [callLog_callEvents, h.turn.told_eq hnone]
    exact h.pairs

end CallsInTurn

/-- **Outbound calls open and close in pairs.** In every run in which no dial sets its handle
    between the look of another dial and that one's own, and nobody pushes an event of a call
    while another task is behind with an earlier one, the log has the calls in pairs in every
    state, and says whom the call calls whenever no event is still to be pushed. -/
theorem calls_in_pairs (mode : AgentMode) (wire : W) (peers : Peers) (cooldown : Nat)
    (policy : Bool) (history : MediaRing) (elevatorDoor : Option String)
    (moves : List HouseMove) {p : HousePool W} {notes : List OutboundNote}
    (hrun : (callsNoted mode W).run
      (idleHouse (.new wire peers cooldown policy history elevatorDoor), []) moves =
        some (p, notes))
    (hfree : (callsNoted mode W).Meets DialsUndisturbed
      (idleHouse (.new wire peers cooldown policy history elevatorDoor), []) moves)
    (hturn : (callsNoted mode W).Meets PushesInTurn
      (idleHouse (.new wire peers cooldown policy history elevatorDoor), []) moves) :
    CallsPaired p notes :=
  (System.run_induction_meets
    (P := fun s : HousePool W × List OutboundNote => CallsInTurn s.1 s.2)
    (fun _ _ _ h hok hn => h.next hok.1 hok.2 hn) (.init rfl rfl) (hfree.and hturn) hrun).paired

end

/-- A station is called and hung up, and then another one. -/
theorem dial_and_hangup : ∃ p notes,
    (callsNoted .tap TapWire).run (idleHouse tapAgent, [])
        (serve 0 (.dial "S00000000001" .checkIdle) 14 ++ serve 1 (.hangupCall .take) 2 ++
          serve 2 (.dial "S00000000002" .checkIdle) 14) = some (p, notes) ∧
      callLog (callEvents notes) =
        Bracket.pair "S00000000001" ++ [.opened "S00000000002"] ∧
      CallsPaired p notes := by
  have hend : ((callsNoted .tap TapWire).run (idleHouse tapAgent, [])
      (serve 0 (.dial "S00000000001" .checkIdle) 14 ++ serve 1 (.hangupCall .take) 2 ++
        serve 2 (.dial "S00000000002" .checkIdle) 14)).map
          (fun s => callLog (callEvents s.2)) =
      some (Bracket.pair "S00000000001" ++ [.opened "S00000000002"]) := by
    decide +kernel
  obtain ⟨⟨p, notes⟩, hrun, hlog⟩ := Option.map_eq_some_iff.mp hend
  exact ⟨p, notes, hrun, hlog,
    calls_in_pairs .tap tapWire _ 5000 false (.new 0 0) none _ hrun (by decide +kernel)
      (by decide +kernel)⟩

/-- Two dials look at the empty slot; the first one sets its handle and tells, then the second
    one; then the call is hung up. -/
def overlappingDials : List HouseMove :=
  [.start (.dial "S00000000001" .checkIdle), .start (.dial "S00000000002" .checkIdle)] ++
    List.replicate 2 (.step 1 found) ++ List.replicate 14 (.step 0 found) ++
      List.replicate 12 (.step 1 found) ++ serve 2 (.hangupCall .take) 2

/-- The first of the two calls is never hung up in the log. -/
theorem dials_overlap : ∃ p notes,
    (callsNoted .tap TapWire).run (idleHouse tapAgent, []) overlappingDials = some (p, notes) ∧
      p.shared.agent.events.events.map Event.kind = [.dialing "S00000000001",
        .dialing "S00000000002", .callHungUp "S00000000002" "local_hangup"] ∧
      ¬ CallsPaired p notes := by
  have hend : ((callsNoted .tap TapWire).run (idleHouse tapAgent, []) overlappingDials).map
      (fun s => (s.1.shared.agent.events.events.map Event.kind, callLog (callEvents s.2))) =
        some ([.dialing "S00000000001", .dialing "S00000000002",
          .callHungUp "S00000000002" "local_hangup"],
          [.opened "S00000000001", .opened "S00000000002", .closed "S00000000002"]) := by
    decide +kernel
  obtain ⟨⟨p, notes⟩, hrun, hboth⟩ := Option.map_eq_some_iff.mp hend
  obtain ⟨hlog, htold⟩ := Prod.mk.inj hboth
  refine ⟨p, notes, hrun, hlog, fun h => ?_⟩
  obtain ⟨current, hpairs⟩ := h.pairs
  have hfirst : [.opened "S00000000001"] ++ [.opened "S00000000002"] <+:
      callLog (callEvents notes) := ⟨_, htold.symm⟩
  obtain ⟨before, hbefore⟩ := hpairs.of_prefix hfirst
  exact (InPairs.nil.opened "S00000000001").not_reopened hbefore

/-- A call is hung up between the two steps of the dial: the log ends with a call that is being
    dialled, and the slot is empty. -/
theorem hangup_overtakes_dial : ∃ p notes,
    (callsNoted .tap TapWire).run (idleHouse tapAgent, [])
        (serve 0 (.dial "S00000000001" .checkIdle) 13 ++ serve 1 (.hangupCall .take) 2 ++
          [.step 0 found]) = some (p, notes) ∧
      p.shared.agent.events.events.map Event.kind =
        [.callHungUp "S00000000001" "local_hangup", .dialing "S00000000001"] ∧
      p.shared.agent.callSession = none ∧ ¬ CallsPaired p notes := by
  have hend : ((callsNoted .tap TapWire).run (idleHouse tapAgent, [])
      (serve 0 (.dial "S00000000001" .checkIdle) 13 ++ serve 1 (.hangupCall .take) 2 ++
        [.step 0 found])).map
      (fun s => (s.1.shared.agent.events.events.map Event.kind,
        s.1.shared.agent.callSession, callLog (callEvents s.2))) =
        some ([.callHungUp "S00000000001" "local_hangup", .dialing "S00000000001"], none,
          [.closed "S00000000001", .opened "S00000000001"]) := by
    decide +kernel
  obtain ⟨⟨p, notes⟩, hrun, hboth⟩ := Option.map_eq_some_iff.mp hend
  obtain ⟨hlog, hrest⟩ := Prod.mk.inj hboth
  obtain ⟨hcall, htold⟩ := Prod.mk.inj hrest
  refine ⟨p, notes, hrun, hlog, hcall, fun h => ?_⟩
  obtain ⟨current, hpairs⟩ := h.pairs
  have hfirst : [] ++ [.closed "S00000000001"] <+: callLog (callEvents notes) := ⟨_, htold.symm⟩
  obtain ⟨before, hbefore⟩ := hpairs.of_prefix hfirst
  exact InPairs.nil.not_closed hbefore

end Michoi
