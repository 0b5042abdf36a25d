/-
  The session an event of a command names, against the session the command acted on.

  `execute` reads the session id under one lock and makes its transition under a later
  one. A hangup and a new ring in between start another call, and the event then names the
  call before (`claim_names_the_call_before`).

  `events_name_their_call_iff`: in every run, the event of a command names the session its
  transition was applied in if and only if no ring started a call between the command's
  read and its transition. `Attributed` carries it for a command on its way: session ids
  only grow, so the id read is still the machine's exactly while no call was started since.
-/
import Michoi.Lib.Span
import Michoi.Task.History
import Std.Data.String.ToNat

namespace Michoi

open Lib

/-- The operation starts a call. -/
def Note.starts : Note → Bool
  | moved _ op _ => op.isStart
  | _ => false

/-- What happened between the session read of the handler at `i` and its transition. -/
def sinceRead (notes : List Note) (i : Nat) : List Note :=
  span (· == .sessionRead i) (fun n => n.mover == some i) notes

/-- A ring started a call between the handler's session read and its transition. -/
def Overtaken (notes : List Note) (i : Nat) : Prop := ∃ n ∈ sinceRead notes i, n.starts = true

instance (notes : List Note) (i : Nat) : Decidable (Overtaken notes i) :=
  inferInstanceAs (Decidable (∃ n ∈ sinceRead notes i, n.starts = true))

/-- The event names the session that the transition of the command at `i` was applied in. -/
def NamesItsCall (notes : List Note) (i : Nat) (action : CallAction) (event : EventKind) : Prop :=
  ∃ op m, .moved i op m ∈ notes ∧ event = action.event (toString m.state.sessionId)

/-! ## One handler's notes -/

section

variable {notes new : List Note} {i : Nat}

/-- The handler has read the session id and not made its transition. -/
structure Between (notes : List Note) (i : Nat) : Prop where
  read : .sessionRead i ∈ notes
  unmoved : i ∉ notes.filterMap Note.mover

/-- The handler has made its transition after its session read. -/
def Moved (notes : List Note) (i : Nat) : Prop :=
  Closed (· == .sessionRead i) (fun n => n.mover == some i) notes

theorem mover_ne (h : i ∉ notes.filterMap Note.mover) :
    ∀ n ∈ notes, (n.mover == some i) = false :=
  fun n hn => beq_eq_false_iff_ne.mpr fun he => h (List.mem_filterMap.mpr ⟨n, hn, he⟩)

theorem Between.opened (h : Between notes i) : ∃ n ∈ notes, (n == .sessionRead i) = true :=
  ⟨_, h.read, beq_self_eq_true _⟩

theorem Moved.overtaken_append (h : Moved notes i) (new : List Note) :
    Overtaken (notes ++ new) i ↔ Overtaken notes i := by
  unfold Overtaken sinceRead
  rw [Closed.span_append h new]

/-- Other handlers' notes add to those between the read and the transition. -/
theorem Between.overtaken_append (h : Between notes i) (hnew : ∀ n ∈ new, n.mover ≠ some i) :
    Overtaken (notes ++ new) i ↔ Overtaken notes i ∨ ∃ n ∈ new, n.starts = true := by
  unfold Overtaken sinceRead
  rw [span_append h.opened (mover_ne h.unmoved)
    fun n hn => beq_eq_false_iff_ne.mpr (hnew n hn)]
  simp only [List.mem_append, or_and_right, exists_or]

theorem Between.append (h : Between notes i) (hnew : ∀ n ∈ new, n.mover ≠ some i) :
    Between (notes ++ new) i where
  read := List.mem_append_left _ h.read
  unmoved := by
    rw [List.filterMap_append]
    intro hi
    rcases List.mem_append.mp hi with hi | hi
    · exact h.unmoved hi
    · obtain ⟨n, hn, he⟩ := List.mem_filterMap.mp hi
      exact hnew n hn he

/-- The transition itself ends what lies between. -/
theorem Between.move (h : Between notes i) (op : Op) (m : CallMachine) :
    Moved (notes ++ [.moved i op m]) i ∧
      (Overtaken (notes ++ [.moved i op m]) i ↔ Overtaken notes i) := by
  obtain ⟨hspan, hclosed⟩ := span_close (n := Note.moved i op m) h.opened (mover_ne h.unmoved)
    (beq_self_eq_true _)
  refine ⟨hclosed, ?_⟩
  unfold Overtaken sinceRead
  rw [hspan]

/-- Nothing lies between at the read. -/
theorem not_overtaken_at_read (h : .sessionRead i ∉ notes) :
    ¬ Overtaken (notes ++ [.sessionRead i]) i := by
  have hspan : sinceRead (notes ++ [.sessionRead i]) i = [.sessionRead i] := by
    refine span_open (fun n hn => ?_) (beq_self_eq_true _) rfl
    exact beq_eq_false_iff_ne.mpr fun he => h (he ▸ hn)
  rintro ⟨n, hn, hs⟩
  rw [hspan] at hn
  obtain rfl := List.mem_singleton.mp hn
  cases hs

end

/-! ## Commands on their way -/

/-- The event was built from the id the command read, which is the id of its transition
    unless the command was overtaken. -/
structure Built (notes : List Note) (i : Nat) (action : CallAction) (event : EventKind) :
    Prop where
  moved : Moved notes i
  exact : ∃ op m session, .moved i op m ∈ notes ∧ event = action.event (toString session) ∧
    (session = m.state.sessionId ↔ ¬ Overtaken notes i)

/-- What a command knows of the session: the id it read is the machine's while no call was
    started since, and afterwards it is an old one. -/
def Attributed (notes : List Note) (current i : Nat) : Task → Prop
  | .command _ _ (.transition _ session) => Between notes i ∧ ∃ read : Nat,
      session = toString read ∧ read ≤ current ∧ (read = current ↔ ¬ Overtaken notes i)
  | .command action _ (.send _ event _) => Built notes i action event
  | .command action _ (.notify _ event) => Built notes i action event
  | .command action _ (.publish event) => Built notes i action event
  | _ => True

/-- The session goes on, or a call was started. -/
def SessionStep (current current' : Nat) (new : List Note) : Prop :=
  (current' = current ∧ ∀ n ∈ new, n.starts = false) ∨
    (current < current' ∧ ∃ n ∈ new, n.starts = true)

section

variable {notes new : List Note} {i current current' : Nat} {t : Task}

theorem Built.append {action : CallAction} {event : EventKind} (h : Built notes i action event)
    (new : List Note) : Built (notes ++ new) i action event := by
  obtain ⟨hmoved, op, m, session, hm, he, hiff⟩ := h
  refine ⟨Closed.append hmoved new, op, m, session, List.mem_append_left _ hm, he, ?_⟩
  rw [hmoved.overtaken_append]
  exact hiff

/-- Another handler steps. -/
theorem Attributed.other (h : Attributed notes current i t)
    (hnew : ∀ n ∈ new, n.mover ≠ some i) (hs : SessionStep current current' new) :
    Attributed (notes ++ new) current' i t := by
  unfold Attributed at h ⊢
  split
  · obtain ⟨hb, read, hread, hle, hiff⟩ := h
    refine ⟨hb.append hnew, read, hread, ?_⟩
    rw [hb.overtaken_append hnew]
    rcases hs with ⟨rfl, hno⟩ | ⟨hlt, hstart⟩
    · have hnone : ¬ ∃ n ∈ new, n.starts = true := by
        rintro ⟨n, hn, hs⟩
        rw [hno n hn] at hs
        cases hs
      exact ⟨hle, by rw [hiff]; simp only [hnone, or_false]⟩
    · exact ⟨by omega, iff_of_false (by omega) fun hno => hno (Or.inr hstart)⟩
  · exact h.append new
  · exact h.append new
  · exact h.append new
  · trivial

/-! ## One step -/

section

variable {W : Type} [Wire W] {env : Env} {a a' : Agent W} {t' : Task}

omit [Wire W] in
theorem sessionStep_of_same (h : a'.call = a.call) (hno : ∀ n ∈ new, n.starts = false) :
    SessionStep a.call.machine.state.sessionId a'.call.machine.state.sessionId new :=
  Or.inl ⟨by rw [h], hno⟩

/-- Every session id handed out is below the next one. -/
def IdsBelow (c : Call) : Prop := c.machine.state.sessionId < c.nextSession

omit [Wire W] in
theorem idsBelow_new (wire : W) (peers : Peers) (cooldown : Nat) (policy : Bool)
    (history : MediaRing) (elevatorDoor : Option String) :
    IdsBelow (Agent.new wire peers cooldown policy history elevatorDoor).call := Nat.zero_lt_one

theorem session_step (hs : NotedStep i env a a' t t' new) (hids : IdsBelow a.call) :
    IdsBelow a'.call ∧
      SessionStep a.call.machine.state.sessionId a'.call.machine.state.sessionId new := by
  cases hs with
  | quiet hcall =>
      refine ⟨hcall ▸ hids, sessionStep_of_same hcall fun n hn => ?_⟩
      exact absurd hn List.not_mem_nil
  | read hcall | pushed hcall =>
      refine ⟨hcall ▸ hids, sessionStep_of_same hcall fun n hn => ?_⟩
      obtain rfl := List.mem_singleton.mp hn
      rfl
  | @moved op _ hm hn hn' =>
      unfold IdsBelow at hids ⊢
      cases hstart : op.isStart with
      | true =>
          cases op with
          | startCall s =>
              obtain ⟨rfl, hnext⟩ := hn s rfl
              rw [hm, hnext]
              exact ⟨Nat.lt_succ_self _, Or.inr ⟨hids, _, List.mem_singleton_self _, rfl⟩⟩
          | _ => cases hstart
      | false =>
          have hsame : (op.step a.call.machine).2.state.sessionId =
              a.call.machine.state.sessionId :=
            CallMachine.run_sessionId a.call.machine [op] (by simpa using hstart)
          rw [hm, hn' hstart, hsame]
          refine ⟨hids, Or.inl ⟨rfl, fun n hn => ?_⟩⟩
          obtain rfl := List.mem_singleton.mp hn
          exact hstart

/-- The notes of a step are the handler's own. -/
theorem mover_of_step (hs : NotedStep i env a a' t t' new) {j : Nat} (hj : j ≠ i) :
    ∀ n ∈ new, n.mover ≠ some j := by
  cases hs with
  | quiet => exact fun n hn => absurd hn List.not_mem_nil
  | read | pushed =>
      intro n hn
      obtain rfl := List.mem_singleton.mp hn
      exact (Option.some_ne_none j).symm
  | moved =>
      intro n hn
      obtain rfl := List.mem_singleton.mp hn
      exact fun he => hj (Option.some.inj he).symm

/-- The handler has not read the session id yet. -/
def unread : Task → Bool
  | .command _ _ .lookup => true
  | .command _ _ .readPeers => true
  | .command _ _ (.readSession _) => true
  | _ => false

/-- Who still has to read the session id had to before, and the step read none. -/
theorem unread_step (h : t.step env a = some (a', t')) (hu : unread t' = true) :
    unread t = true ∧ .sessionRead i ∉ t.notes i env a a' := by
  cases t with
  | command action commandId pc =>
      obtain ⟨pc', rfl, hs⟩ := step_command h
      cases hs with
      | miss | readPeers =>
          refine ⟨rfl, ?_⟩
          unfold Task.notes
          rw [pushedBy_self]
          exact List.not_mem_nil
      | _ => cases hu
  | elevator commandId room pc =>
      obtain ⟨pc', rfl, -⟩ := step_elevator h
      cases hu
  | wire pc =>
      obtain ⟨pc', rfl, -⟩ := step_wire h
      cases hu

/-- Only the step that publishes a command's event pushes one. -/
theorem publish_of_pushed {action : CallAction} {commandId : String} {pc pc' : CommandPc}
    {event : Event} (hs : CommandStep env a action commandId pc a' pc')
    (hn : .pushed (some i) event ∈ (Task.command action commandId pc).notes i env a a') :
    pc = .publish event.kind := by
  have hlog : .pushed (some i) event ∈ pushedBy (some i) a.events a'.events := by
    unfold Task.notes at hn
    rcases List.mem_append.mp hn with hn | hn
    · rcases List.mem_append.mp hn with hn | hn
      · split at hn
        · cases List.mem_singleton.mp hn
        · cases hn
      · obtain ⟨op, -, he⟩ := Option.map_eq_some_iff.mp (Option.mem_toList.mp hn)
        cases he
    · exact hn
  cases hs with
  | publish =>
      rw [show (a.publish env _).events = a.events.push env.eventMs _ from rfl,
        pushedBy_push] at hlog
      cases List.mem_singleton.mp hlog
      rfl
  | notify =>
      rw [notify_events, pushedBy_self] at hlog
      cases hlog
  | _ =>
      change _ ∈ pushedBy (some i) a.events a.events at hlog
      rw [pushedBy_self] at hlog
      cases hlog

/-- A handler stays the command it is. -/
theorem command_of_step (h : t.step env a = some (a', t')) {action : CallAction}
    {commandId : String} {pc' : CommandPc} (ht' : t' = .command action commandId pc') :
    ∃ pc, t = .command action commandId pc ∧ CommandStep env a action commandId pc a' pc' := by
  cases t with
  | command action₀ commandId₀ pc =>
      obtain ⟨pc₀, rfl, hs⟩ := step_command h
      cases ht'
      exact ⟨pc, rfl, hs⟩
  | elevator commandId₀ room pc =>
      obtain ⟨pc₀, rfl, -⟩ := step_elevator h
      cases ht'
  | wire pc =>
      obtain ⟨pc₀, rfl, -⟩ := step_wire h
      cases ht'

/-- A command's own step: at its read it learns the machine's session, at its transition it
    builds the event from what it read, and from then on the event stays. -/
theorem attributed_command {action : CallAction} {commandId : String} {pc pc' : CommandPc}
    (hs : CommandStep env a action commandId pc a' pc')
    (hunread : unread (.command action commandId pc) = true → .sessionRead i ∉ notes)
    (hunmoved : (Task.command action commandId pc).past = false →
      i ∉ notes.filterMap Note.mover)
    (h : Attributed notes a.call.machine.state.sessionId i (.command action commandId pc)) :
    Attributed (notes ++ (Task.command action commandId pc).notes i env a a')
      a'.call.machine.state.sessionId i (.command action commandId pc') := by
  cases hs with
  | replay | miss | readPeers | refuse | unpacked | unsent | publish | store => trivial
  | @readSession peers =>
      have hnotes : (Task.command action commandId (.readSession peers)).notes i env a a =
          [.sessionRead i] := by
        unfold Task.notes
        rw [pushedBy_self]
        rfl
      rw [hnotes]
      refine ⟨⟨by simp, ?_⟩, _, rfl, le_refl _, iff_of_true rfl ?_⟩
      · rw [System.filterMap_snoc]
        exact (List.append_nil _).symm ▸ hunmoved rfl
      · exact not_overtaken_at_read (hunread rfl)
  | @built peers session e packet he hadm =>
      have hnotes : (Task.command action commandId (.transition peers session)).notes i env a
          (a.withCall (a.call.after env action)) = [.moved i (action.op env) a.call.machine] := by
        unfold Task.notes
        rw [operation_of_admits he hadm, Agent.withCall_events, pushedBy_self]
        rfl
      rw [hnotes]
      obtain ⟨hb, read, rfl, -, hiff⟩ := h
      obtain ⟨hmoved, hover⟩ := hb.move (action.op env) a.call.machine
      exact ⟨hmoved, _, _, read, List.mem_append_right _ (List.mem_singleton_self _), rfl,
        by rw [hover]; exact hiff⟩
  | sent | notify => exact Built.append h _

end

end

/-! ## Whole runs -/

/-- The session an event of a command names is the one the command read, at every point of
    a run. -/
structure AttributionInv {W : Type} (p : AgentPool W) (notes : List Note) : Prop where
  moved : MovedOnce p notes
  ids : IdsBelow p.shared.call
  read : ∀ i, .sessionRead i ∈ notes → ∃ t, p.threads[i]? = some t ∧ unread t = false
  attributed : ∀ (i : Nat) (t : Task), p.threads[i]? = some t →
    Attributed notes p.shared.call.machine.state.sessionId i t
  pushed : ∀ i event, .pushed (some i) event ∈ notes → ∃ t, p.threads[i]? = some t ∧
    ∀ action commandId pc, t = .command action commandId pc → Built notes i action event.kind

namespace AttributionInv

variable {W : Type} {p : AgentPool W} {notes : List Note} {i : Nat} {env : Env} {a' : Agent W}
  {t t' : Task}

theorem init {a : Agent W} (hids : IdsBelow a.call) : AttributionInv (idlePool a) [] where
  moved := .init a
  ids := hids
  read := by simp
  attributed := by simp [idlePool]
  pushed := by simp

theorem start (h : AttributionInv p notes) (hfresh : t.fresh = true)
    (hmoved : MovedOnce ⟨p.shared, p.threads ++ [t]⟩ notes) :
    AttributionInv ⟨p.shared, p.threads ++ [t]⟩ notes where
  moved := hmoved
  ids := h.ids
  read := fun i hi => by
    obtain ⟨u, hu, hr⟩ := h.read i hi
    exact ⟨u, getElem?_append_of_some hu, hr⟩
  attributed := fun i u hu => by
    rcases getElem?_append_cases hu with ⟨-, rfl⟩ | hu
    · unfold Attributed
      split <;> trivial
    · exact h.attributed i u hu
  pushed := fun i event he => by
    obtain ⟨u, hu, hb⟩ := h.pushed i event he
    exact ⟨u, getElem?_append_of_some hu, hb⟩

/-- Another task's step. -/
theorem outside [Wire W] (h : AttributionInv p notes) (b : Background)
    (hmoved : MovedOnce ⟨b.act p.shared, p.threads⟩
      (notes ++ pushedBy none p.shared.events (b.act p.shared).events)) :
    AttributionInv ⟨b.act p.shared, p.threads⟩
      (notes ++ pushedBy none p.shared.events (b.act p.shared).events) := by
  have hnew : ∀ n ∈ pushedBy none p.shared.events (b.act p.shared).events,
      ∃ event, n = .pushed none event := by
    rcases noted_outside p.shared b with ⟨-, hn⟩ | ⟨_, _, -, -, hn⟩
    · rw [hn]
      exact fun n hn => absurd hn List.not_mem_nil
    · rw [hn]
      intro n hn
      exact ⟨_, List.mem_singleton.mp hn⟩
  have hcall : (b.act p.shared).call = p.shared.call := act_call p.shared b
  refine ⟨hmoved, hcall ▸ h.ids, fun i hi => ?_, fun i u hu => ?_, fun i event he => ?_⟩
  · rcases List.mem_append.mp hi with hi | hi
    · exact h.read i hi
    · obtain ⟨_, he⟩ := hnew _ hi
      cases he
  · refine (h.attributed i u hu).other (fun n hn => ?_) (sessionStep_of_same hcall fun n hn => ?_)
    · obtain ⟨_, rfl⟩ := hnew n hn
      exact (Option.some_ne_none i).symm
    · obtain ⟨_, rfl⟩ := hnew n hn
      rfl
  · rcases List.mem_append.mp he with he | he
    · obtain ⟨u, hu, hb⟩ := h.pushed i event he
      exact ⟨u, hu, fun action commandId pc ht => (hb action commandId pc ht).append _⟩
    · obtain ⟨_, he⟩ := hnew _ he
      cases he

variable [Wire W]

theorem step {new : List Note} (h : AttributionInv p notes) (ht : p.threads[i]? = some t)
    (hstep : t.step env p.shared = some (a', t')) (hs : NotedStep i env p.shared a' t t' new)
    (hnew : new = t.notes i env p.shared a')
    (hmoved : MovedOnce ⟨a', p.threads.set i t'⟩ (notes ++ new)) :
    AttributionInv ⟨a', p.threads.set i t'⟩ (notes ++ new) := by
  obtain ⟨hids, hsession⟩ := session_step hs h.ids
  refine ⟨hmoved, hids, fun j hj => ?_, fun j u hu => ?_, fun j event he => ?_⟩
  · by_cases hji : j = i
    · subst hji
      refine ⟨t', getElem?_set_self ht, Bool.eq_false_iff.mpr fun hu => ?_⟩
      obtain ⟨hut, hno⟩ := unread_step hstep hu
      rcases List.mem_append.mp hj with hj | hj
      · obtain ⟨u, hu, hr⟩ := h.read j hj
        rw [ht] at hu
        cases hu
        rw [hr] at hut
        cases hut
      · exact hno (hnew ▸ hj)
    · rcases List.mem_append.mp hj with hj | hj
      · obtain ⟨u, hu, hr⟩ := h.read j hj
        exact ⟨u, (getElem?_set_other hji).trans hu, hr⟩
      · cases hs with
        | quiet => cases hj
        | read =>
            cases List.mem_singleton.mp hj
            exact absurd rfl hji
        | pushed | moved => cases List.mem_singleton.mp hj
  · rcases getElem?_set_cases hu with ⟨rfl, rfl⟩ | ⟨hji, hu⟩
    · cases t with
      | command action commandId pc =>
          obtain ⟨pc', rfl, hc⟩ := step_command hstep
          rw [hnew]
          refine attributed_command hc (fun hr hj => ?_) (fun hp hj => ?_) (h.attributed j _ ht)
          · obtain ⟨v, hv, hrv⟩ := h.read j hj
            rw [ht] at hv
            cases hv
            rw [hr] at hrv
            cases hrv
          · obtain ⟨v, hv, hpv⟩ := h.moved.past j hj
            rw [ht] at hv
            cases hv
            rw [hp] at hpv
            cases hpv
      | elevator commandId room pc =>
          obtain ⟨pc', rfl, -⟩ := step_elevator hstep
          trivial
      | wire pc =>
          obtain ⟨pc', rfl, -⟩ := step_wire hstep
          trivial
    · exact (h.attributed j u hu).other (mover_of_step hs hji) hsession
  · by_cases hji : j = i
    · subst hji
      refine ⟨t', getElem?_set_self ht, fun action commandId pc' ht' => ?_⟩
      obtain ⟨pc, rfl, hc⟩ := command_of_step hstep ht'
      rcases List.mem_append.mp he with he | he
      · obtain ⟨u, hu, hb⟩ := h.pushed j event he
        rw [ht] at hu
        exact (hb action commandId pc (Option.some.inj hu).symm).append new
      · obtain rfl := publish_of_pushed hc (hnew ▸ he)
        exact Built.append (h.attributed j _ ht) new
    · rcases List.mem_append.mp he with he | he
      · obtain ⟨u, hu, hb⟩ := h.pushed j event he
        exact ⟨u, (getElem?_set_other hji).trans hu,
          fun action commandId pc hu => (hb action commandId pc hu).append new⟩
      · cases hs with
        | quiet => cases he
        | pushed =>
            cases List.mem_singleton.mp he
            exact absurd rfl hji
        | read | moved => cases List.mem_singleton.mp he

theorem next {p' : AgentPool W} {notes' : List Note} {m : AgentMove} (h : AttributionInv p notes)
    (hn : (noted W).next (p, notes) m = some (p', notes')) : AttributionInv p' notes' := by
  have hmoved := h.moved.next hn
  rcases noted_cases hn with
    ⟨t, -, hfresh, rfl, rfl⟩ | ⟨i, env, t, a', t', new, -, ht, hstep, hs, hnew, rfl, rfl⟩ |
      ⟨b, new, -, rfl, rfl, rfl⟩
  · exact h.start hfresh hmoved
  · exact h.step ht hstep hs hnew hmoved
  · exact h.outside b hmoved

end AttributionInv

/-- A handler makes one transition. -/
theorem moved_unique {W : Type} {p : AgentPool W} {notes : List Note} (h : MovedOnce p notes)
    {i : Nat} {op op' : Op} {m m' : CallMachine} (hm : .moved i op m ∈ notes)
    (hm' : .moved i op' m' ∈ notes) : m = m' := by
  by_contra hne
  have hpair := List.pairwise_filterMap.mp h.once
  have hsymm : Std.Symm fun n n' : Note =>
      ∀ j, n.mover = some j → ∀ j', n'.mover = some j' → j ≠ j' :=
    ⟨fun _ _ hd j hj j' hj' => (hd j' hj' j hj).symm⟩
  exact hpair.forall hm hm' (fun he => hne (Note.moved.inj he).2.2) i rfl i rfl rfl

theorem event_toString_inj {action : CallAction} {s s' : Nat}
    (h : action.event (toString s) = action.event (toString s')) : s = s' := by
  cases action with
  | claim => exact Nat.repr_injective (EventKind.remoteAnswered.inj h)
  | unlock => exact Nat.repr_injective (EventKind.unlocked.inj h).1
  | hangup => exact Nat.repr_injective (EventKind.callEnded.inj h).1

/-- **When the event of a command names its call.** In every run from an Agent whose session
    ids are below the next one, for every event that `execute` pushed: its session is the
    machine's at the command's transition if and only if no ring started a call between the
    command's session read and its transition. -/
theorem events_name_their_call_iff {W : Type} [Wire W] (a : Agent W) (moves : List AgentMove)
    (q : AgentPool W) (notes : List Note) (hids : IdsBelow a.call)
    (hrun : (noted W).run (idlePool a, []) moves = some (q, notes)) (i : Nat)
    (action : CallAction) (commandId : String) (pc : CommandPc) (event : Event)
    (hcommand : q.threads[i]? = some (.command action commandId pc))
    (hpushed : .pushed (some i) event ∈ notes) :
    NamesItsCall notes i action event.kind ↔ ¬ Overtaken notes i := by
  have hinv : AttributionInv q notes :=
    System.run_induction (P := fun s : AgentPool W × List Note => AttributionInv s.1 s.2)
      (fun _ _ _ h hn => h.next hn) (.init hids) hrun
  obtain ⟨t, ht, hb⟩ := hinv.pushed i event hpushed
  rw [hcommand] at ht
  obtain ⟨-, op, m, session, hm, he, hiff⟩ := hb action commandId pc (Option.some.inj ht).symm
  rw [← hiff]
  constructor
  · rintro ⟨op', m', hm', he'⟩
    obtain rfl := moved_unique hinv.moved hm hm'
    exact event_toString_inj (he.symm.trans he')
  · rintro rfl
    exact ⟨op, m, hm, he⟩

/-- A claim that runs alone names the call it answers. -/
theorem claim_names_its_call :
    ∃ s ∈ (noted TapWire).run (idlePool tapAgent, [])
        (callAlone 0 (fromDoor opRequest) 6 ++ callAlone 1 (.command .claim "c1" .lookup) 8),
      NamesItsCall s.2 1 .claim (.remoteAnswered "1") := by
  have hend : ∃ s ∈ (noted TapWire).run (idlePool tapAgent, [])
      (callAlone 0 (fromDoor opRequest) 6 ++ callAlone 1 (.command .claim "c1" .lookup) 8),
      s.1.threads[1]? = some (.command .claim "c1" (.done (.accepted "c1"))) ∧
        .pushed (some 1) ⟨2, 0, .remoteAnswered "1"⟩ ∈ s.2 ∧ ¬ Overtaken s.2 1 := by
    decide +kernel
  obtain ⟨s, hs, hcommand, hpushed, hover⟩ := hend
  exact ⟨s, hs, (events_name_their_call_iff tapAgent _ s.1 s.2 (idsBelow_new ..) hs 1 .claim "c1"
    _ _ hcommand hpushed).mpr hover⟩

/-- The sessions in which the handler at `i` made its transitions. -/
def sessionsOf (notes : List Note) (i : Nat) : List Nat :=
  notes.filterMap fun
    | .moved j _ m => if j = i then some m.state.sessionId else none
    | _ => none

/-- A claim reads session 1, the door hangs up and rings again, and the claim answers
    session 2: it is accepted, and the event names session 1. -/
theorem claim_names_the_call_before :
    ∃ s ∈ (noted TapWire).run (idlePool tapAgent, [])
        (callAlone 0 (fromDoor opRequest) 6 ++ callAlone 1 (.command .claim "c1" .lookup) 3 ++
          callAlone 2 (fromDoor opHangup) 6 ++ callAlone 3 (fromDoor opRequest) 6 ++
            List.replicate 5 (.step 1 { })),
      s.1.threads[1]? = some (.command .claim "c1" (.done (.accepted "c1"))) ∧
        .pushed (some 1) ⟨4, 0, .remoteAnswered "1"⟩ ∈ s.2 ∧
        s.1.shared.call.machine.state.sessionId = 2 ∧
        ¬ NamesItsCall s.2 1 .claim (.remoteAnswered "1") := by
  have hend : ∃ s ∈ (noted TapWire).run (idlePool tapAgent, [])
      (callAlone 0 (fromDoor opRequest) 6 ++ callAlone 1 (.command .claim "c1" .lookup) 3 ++
        callAlone 2 (fromDoor opHangup) 6 ++ callAlone 3 (fromDoor opRequest) 6 ++
          List.replicate 5 (.step 1 { })),
      s.1.threads[1]? = some (.command .claim "c1" (.done (.accepted "c1"))) ∧
        .pushed (some 1) ⟨4, 0, .remoteAnswered "1"⟩ ∈ s.2 ∧
        s.1.shared.call.machine.state.sessionId = 2 ∧ sessionsOf s.2 1 = [2] := by
    decide +kernel
  obtain ⟨s, hs, hcommand, hpushed, hsession, hmoved⟩ := hend
  refine ⟨s, hs, hcommand, hpushed, hsession, ?_⟩
  rintro ⟨op, m, hm, he⟩
  have hin : m.state.sessionId ∈ sessionsOf s.2 1 :=
    List.mem_filterMap.mpr ⟨_, hm, if_pos rfl⟩
  rw [hmoved, List.mem_singleton] at hin
  rw [hin] at he
  exact absurd he (by decide)

end Michoi
