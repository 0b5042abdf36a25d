/-
  The order of the event log against the order of the transitions.

  Every handler leaves the call's lock before it pushes its event, so another handler can
  change the call and push in between (`answer_overtakes_ring`): the log then tells the
  later change first, and whoever follows it ends with a call that is not there.

  `log_in_transition_order`: in every run in which a handler pushes its event only when
  all handlers that changed the call before it have pushed theirs, and no change loses its
  event to a failed send, the log tells the changes in their order, and whoever follows it
  knows the call whenever no handler is in progress. `Waiting` carries it: the changes are
  those told, followed by those that handlers have still to tell.
-/
import Michoi.Task.History
import Michoi.Task.Request

namespace Michoi

open Lib

/-- The changes of phase and owner, with the handlers that made them. -/
def changes (notes : List Note) : List (Nat × (CallPhase × Owner)) := notes.filterMap Note.changed

/-- The changes that handlers told the log. -/
def tellings (notes : List Note) : List (Nat × (CallPhase × Owner)) := notes.filterMap Note.told

/-- What a subscriber knows of the call after one more event. -/
def follow (view : CallPhase × Owner) (event : Event) : CallPhase × Owner :=
  event.kind.view.getD view

/-- Every handler that changed the call before the one at `i` has told it. -/
def EarlierTold {W : Type} (p : AgentPool W) (notes : List Note) (i : Nat) : Prop :=
  ∀ j ∈ ((changes notes).map Prod.fst).takeWhile (· != i),
    ∀ u ∈ p.threads[j]?, Task.untold u = none

instance {W : Type} (p : AgentPool W) (notes : List Note) (i : Nat) :
    Decidable (EarlierTold p notes i) :=
  inferInstanceAs (Decidable (∀ j ∈ List.takeWhile _ _, ∀ u ∈ p.threads[j]?,
    Task.untold u = none))

/-- A handler tells its change in its turn, and loses none. -/
def ToldInTurn {W : Type} [Wire W] (s : AgentPool W × List Note) : AgentMove → Prop
  | .step i env => ∀ t ∈ s.1.threads[i]?,
      t.delivers env s.1.shared ∧ (t.tells = true → EarlierTold s.1 s.2 i)
  | _ => True

instance {W : Type} [Wire W] (s : AgentPool W × List Note) : ∀ m, Decidable (ToldInTurn s m)
  | .step i env => inferInstanceAs (Decidable (∀ t ∈ s.1.threads[i]?,
      t.delivers env s.1.shared ∧ (t.tells = true → EarlierTold s.1 s.2 i)))
  | .start _ => isTrue trivial
  | .outside _ => isTrue trivial

/-- The log is in the order of the transitions, and tells the call to whoever follows it. -/
structure LogInOrder {W : Type} (p : AgentPool W) (notes : List Note) : Prop where
  log : Keeps p.shared.events (pushes notes)
  inOrder : tellings notes <+: changes notes
  allTold : Quiescent p → tellings notes = changes notes
  rebuilt : Quiescent p →
    (pushes notes).foldl follow (.idle, .none) = p.shared.call.machine.view

/-! ## The latest change -/

/-- Where a list of changes leaves the call. -/
def latest (told : List (Nat × (CallPhase × Owner))) : CallPhase × Owner :=
  told.foldl (fun _ change => change.2) (.idle, .none)

theorem latest_snoc (told : List (Nat × (CallPhase × Owner)))
    (change : Option (Nat × (CallPhase × Owner))) :
    latest (told ++ change.toList) = (change.map Prod.snd).getD (latest told) := by
  unfold latest
  rw [List.foldl_append]
  cases change <;> rfl

theorem changes_snoc (notes : List Note) (n : Note) :
    changes (notes ++ [n]) = changes notes ++ n.changed.toList := System.filterMap_snoc _ notes n

theorem tellings_snoc (notes : List Note) (n : Note) :
    tellings (notes ++ [n]) = tellings notes ++ n.told.toList := System.filterMap_snoc _ notes n

theorem follow_snoc (view : CallPhase × Owner) (notes : List Note) (n : Note) :
    (pushes (notes ++ [n])).foldl follow view =
      (n.event.bind fun event => event.kind.view).getD ((pushes notes).foldl follow view) := by
  unfold pushes
  rw [System.filterMap_snoc, List.foldl_append]
  cases n.event <;> rfl

section

variable {W : Type} [Wire W] {a : Agent W} {moves : List AgentMove} {p q : AgentPool W}
  {notes : List Note} {i : Nat} {env : Env} {a' : Agent W} {t t' : Task} {new : List Note}

/-- The machine is where the changes leave it. -/
theorem view_run (hidle : a.call.machine.view = (.idle, .none))
    (hrun : (noted W).run (idlePool a, []) moves = some (q, notes)) :
    q.shared.call.machine.view = latest (changes notes) := by
  refine System.run_induction (P := fun s : AgentPool W × List Note =>
    s.1.shared.call.machine.view = latest (changes s.2)) ?_ hidle hrun
  rintro ⟨p, ns⟩ m ⟨p', ns'⟩ h hn
  dsimp only at h ⊢
  rcases noted_cases hn with
    ⟨t, -, -, rfl, rfl⟩ | ⟨i, env, t, a', t', new, -, -, -, hs, -, rfl, rfl⟩ |
      ⟨b, new, -, rfl, rfl, rfl⟩
  · exact h
  · cases hs with
    | quiet hcall =>
        rw [List.append_nil, ← h]
        exact congrArg (CallMachine.view ∘ Call.machine) hcall
    | read hcall | pushed hcall =>
        rw [changes_snoc, latest_snoc, ← h]
        exact congrArg (CallMachine.view ∘ Call.machine) hcall
    | @moved op _ hm =>
        rw [changes_snoc, latest_snoc, ← h,
          show (Pool.mk a' (p.threads.set i t')).shared.call.machine = _ from hm]
        by_cases hsame : (op.step p.shared.call.machine).2.view = p.shared.call.machine.view
        · rw [Note.changed_of_eq hsame]
          exact hsame
        · rw [Note.changed_of_ne hsame]
          rfl
  · rw [show (Pool.mk (b.act p.shared) p.threads).shared.call = _ from act_call p.shared b, h]
    rcases noted_outside p.shared b with ⟨-, hnew⟩ | ⟨_, _, -, -, hnew⟩
    · rw [hnew, List.append_nil]
    · rw [hnew, changes_snoc, latest_snoc]
      rfl

/-- A subscriber is where the changes told leave it: no other task tells one. -/
theorem follow_run (hrun : (noted W).run (idlePool a, []) moves = some (q, notes)) :
    (pushes notes).foldl follow (.idle, .none) = latest (tellings notes) := by
  refine System.run_induction (P := fun s : AgentPool W × List Note =>
    (pushes s.2).foldl follow (.idle, .none) = latest (tellings s.2)) ?_ rfl hrun
  rintro ⟨p, ns⟩ m ⟨p', ns'⟩ h hn
  dsimp only at h ⊢
  rcases noted_cases hn with
    ⟨t, -, -, rfl, rfl⟩ | ⟨i, env, t, a', t', new, -, -, -, hs, -, rfl, rfl⟩ |
      ⟨b, new, -, rfl, rfl, rfl⟩
  · exact h
  · cases hs with
    | quiet => rwa [List.append_nil]
    | read | moved =>
        rw [follow_snoc, tellings_snoc, latest_snoc, h]
        rfl
    | @pushed kind =>
        rw [follow_snoc, tellings_snoc, latest_snoc, h]
        unfold Note.told
        rw [Option.map_map]
        exact congrArg (Option.getD · _) Option.map_id'.symm
  · rcases noted_outside p.shared b with ⟨-, hnew⟩ | ⟨_, kind, hkind, -, hnew⟩
    · rwa [hnew, List.append_nil]
    · rw [hnew, follow_snoc, tellings_snoc, latest_snoc, h,
        show (Note.event _).bind _ = kind.view from rfl, hkind]
      rfl

/-! ## What is still to be told -/

/-- The changes are those told, followed by those that handlers have still to tell. -/
def Waiting (p : AgentPool W) (notes : List Note) : Prop :=
  ∃ rest, changes notes = tellings notes ++ rest ∧
    ∀ i view, (i, view) ∈ rest ↔ ∃ t : Task, p.threads[i]? = some t ∧ t.untold = some view

theorem untold_of_fresh (h : t.fresh = true) : t.untold = none := by
  cases t with
  | command _ _ pc =>
      cases pc with
      | lookup => rfl
      | _ => cases h
  | elevator => rfl
  | wire pc =>
      cases pc with
      | received => rfl
      | _ => cases h

omit [Wire W] in
/-- Each handler changes the call at most once. -/
theorem changes_nodup (h : MovedOnce p notes) : ((changes notes).map Prod.fst).Nodup := by
  refine List.Nodup.sublist ?_ h.once
  clear h
  unfold changes
  induction notes with
  | nil => exact .slnil
  | cons n notes ih =>
      cases n with
      | sessionRead | pushed => exact ih
      | moved thread op before =>
          rw [show (Note.moved thread op before :: notes).filterMap Note.mover =
            thread :: notes.filterMap Note.mover from rfl]
          by_cases hsame : (op.step before).2.view = before.view
          · rw [List.filterMap_cons_none (Note.changed_of_eq hsame)]
            exact ih.cons _
          · rw [List.filterMap_cons_some (Note.changed_of_ne hsame)]
            exact ih.cons_cons _

/-- What a handler at some place has still to tell, after the one at `i` stepped. -/
theorem untold_set {threads : List Task} (ht : threads[i]? = some t) (j : Nat)
    (view : CallPhase × Owner) :
    (∃ u : Task, (threads.set i t')[j]? = some u ∧ u.untold = some view) ↔
      (j = i ∧ t'.untold = some view) ∨
        (j ≠ i ∧ ∃ u : Task, threads[j]? = some u ∧ u.untold = some view) := by
  constructor
  · rintro ⟨u, hu, hv⟩
    rcases getElem?_set_cases hu with ⟨rfl, rfl⟩ | ⟨hj, hu⟩
    · exact Or.inl ⟨rfl, hv⟩
    · exact Or.inr ⟨hj, u, hu, hv⟩
  · rintro (⟨rfl, hv⟩ | ⟨hj, u, hu, hv⟩)
    · exact ⟨t', getElem?_set_self ht, hv⟩
    · exact ⟨u, (getElem?_set_other hj).trans hu, hv⟩

omit [Wire W] in
/-- A step that neither makes nor tells a change. -/
theorem Waiting.keep (h : Waiting p notes) (ht : p.threads[i]? = some t)
    (hu : t'.untold = t.untold) (hchanges : changes (notes ++ new) = changes notes)
    (htellings : tellings (notes ++ new) = tellings notes) :
    Waiting ⟨a', p.threads.set i t'⟩ (notes ++ new) := by
  obtain ⟨rest, hrest, hmem⟩ := h
  refine ⟨rest, by rw [hchanges, htellings, hrest], fun j view => ?_⟩
  rw [hmem, show (Pool.mk a' (p.threads.set i t')).threads = _ from rfl, untold_set ht, hu]
  constructor
  · rintro ⟨u, hu, hv⟩
    by_cases hj : j = i
    · subst hj
      rw [ht] at hu
      cases hu
      exact Or.inl ⟨rfl, hv⟩
    · exact Or.inr ⟨hj, u, hu, hv⟩
  · rintro (⟨rfl, hv⟩ | ⟨-, hold⟩)
    · exact ⟨t, ht, hv⟩
    · exact hold

omit [Wire W] in
/-- A step that changes the call: the change is the last one to be told. -/
theorem Waiting.move {op : Op} {m : CallMachine} (h : Waiting p notes)
    (ht : p.threads[i]? = some t) (hu : t.untold = none)
    (hu' : t'.untold = (Note.moved i op m).changed.map Prod.snd) :
    Waiting ⟨a', p.threads.set i t'⟩ (notes ++ [.moved i op m]) := by
  obtain ⟨rest, hrest, hmem⟩ := h
  have hi : ∀ view, (i, view) ∉ rest := by
    intro view hr
    obtain ⟨u, hui, hv⟩ := (hmem i view).mp hr
    rw [ht] at hui
    cases hui
    rw [hu] at hv
    cases hv
  have hmover : ∀ change ∈ (Note.moved i op m).changed, change.1 = i := by
    intro change hc
    unfold Note.changed at hc
    dsimp only at hc
    split at hc
    · cases hc
    · cases hc; rfl
  refine ⟨rest ++ (Note.moved i op m).changed.toList, ?_, fun j view => ?_⟩
  · rw [changes_snoc, tellings_snoc, hrest, List.append_assoc,
      show (Note.moved i op m).told.toList = [] from rfl, List.append_nil]
  · rw [show (Pool.mk a' (p.threads.set i t')).threads = _ from rfl, untold_set ht, hu',
      List.mem_append, Option.mem_toList, Option.map_eq_some_iff]
    constructor
    · rintro (hr | hc)
      · have hj : j ≠ i := fun he => hi view (he ▸ hr)
        exact Or.inr ⟨hj, (hmem j view).mp hr⟩
      · exact Or.inl ⟨hmover _ hc, _, hc, rfl⟩
    · rintro (⟨rfl, ⟨k, v⟩, hc, rfl⟩ | ⟨-, hold⟩)
      · obtain rfl : k = j := hmover _ hc
        exact Or.inr hc
      · exact Or.inl ((hmem j view).mpr hold)

omit [Wire W] in
/-- The one whose turn it is to tell is the first that has something to tell. -/
theorem Waiting.head {rest : List (Nat × (CallPhase × Owner))} {view : CallPhase × Owner}
    (hnodup : ((changes notes).map Prod.fst).Nodup)
    (hrest : changes notes = tellings notes ++ rest)
    (hmem : ∀ i view, (i, view) ∈ rest ↔
      ∃ t : Task, p.threads[i]? = some t ∧ t.untold = some view)
    (ht : p.threads[i]? = some t) (hu : t.untold = some view) (hturn : EarlierTold p notes i) :
    ∃ rest', rest = (i, view) :: rest' := by
  have hin : (i, view) ∈ rest := (hmem i view).mpr ⟨t, ht, hu⟩
  cases rest with
  | nil => cases hin
  | cons first rest' =>
      obtain ⟨j, v⟩ := first
      obtain ⟨u, huj, hv⟩ := (hmem j v).mp List.mem_cons_self
      by_cases hj : j = i
      · subst hj
        rw [ht] at huj
        cases huj
        rw [hu] at hv
        cases hv
        exact ⟨rest', rfl⟩
      · -- Otherwise the first one changed the call before and has not told it.
        rw [hrest, List.map_append] at hnodup
        have hti : ∀ k ∈ (tellings notes).map Prod.fst, (k != i) = true := by
          intro k hk
          have hdisj := (List.nodup_append.mp hnodup).2.2 k hk i (List.mem_map_of_mem hin)
          exact bne_iff_ne.mpr hdisj
        have hearlier : j ∈ ((changes notes).map Prod.fst).takeWhile (· != i) := by
          rw [hrest, List.map_append, List.takeWhile_append_of_pos hti, List.map_cons,
            List.takeWhile_cons, if_pos (bne_iff_ne.mpr hj)]
          exact List.mem_append_right _ List.mem_cons_self
        rw [hturn j hearlier u huj] at hv
        cases hv

omit [Wire W] in
/-- A step that tells a change in its turn. -/
theorem Waiting.tell {event : Event} {view : CallPhase × Owner} (h : Waiting p notes)
    (hm : MovedOnce p notes) (ht : p.threads[i]? = some t) (hu : t.untold = some view)
    (hview : event.kind.view = some view) (hu' : t'.untold = none)
    (hturn : EarlierTold p notes i) :
    Waiting ⟨a', p.threads.set i t'⟩ (notes ++ [.pushed (some i) event]) := by
  obtain ⟨rest, hrest, hmem⟩ := h
  have hnodup := changes_nodup hm
  obtain ⟨rest', rfl⟩ := Waiting.head hnodup hrest hmem ht hu hturn
  have htold : (Note.pushed (some i) event).told = some (i, view) := by
    unfold Note.told
    dsimp only
    rw [hview]
    rfl
  refine ⟨rest', ?_, fun j v => ?_⟩
  · rw [changes_snoc, tellings_snoc, hrest, htold, List.append_assoc, List.append_assoc]
    exact congrArg (tellings notes ++ ·) (List.append_nil _)
  · rw [show (Pool.mk a' (p.threads.set i t')).threads = _ from rfl, untold_set ht, hu']
    have hold := hmem j v
    rw [List.mem_cons] at hold
    constructor
    · intro hr
      refine Or.inr ⟨?_, hold.mp (Or.inr hr)⟩
      rintro rfl
      rw [hrest, List.map_append, List.map_cons] at hnodup
      exact (List.nodup_cons.mp (List.nodup_append.mp hnodup).2.1).1
        (List.mem_map.mpr ⟨_, hr, rfl⟩)
    · rintro (⟨-, hn⟩ | ⟨hj, hex⟩)
      · cases hn
      · rcases hold.mpr hex with he | hr
        · exact absurd (Prod.mk.inj he).1 hj
        · exact hr

theorem waiting_step (h : Waiting p notes) (hm : MovedOnce p notes)
    (hc : p.shared.call.machine.Consistent) (ht : p.threads[i]? = some t)
    (hs : NotedStep i env p.shared a' t t' new) (hdel : t.delivers env p.shared)
    (hturn : t.tells = true → EarlierTold p notes i) :
    Waiting ⟨a', p.threads.set i t'⟩ (notes ++ new) := by
  cases hs with
  | quiet _ _ hu => exact h.keep ht (hu hdel) (by rw [List.append_nil]) (by rw [List.append_nil])
  | read _ _ hu hu' =>
      refine h.keep ht (hu'.trans hu.symm) ?_ ?_
      · exact (changes_snoc _ _).trans (List.append_nil _)
      · exact (tellings_snoc _ _).trans (List.append_nil _)
  | moved _ _ _ _ _ hu hu' => exact h.move ht hu (hu' hdel hc)
  | @pushed kind _ _ hu hu' htell =>
      cases hview : kind.view with
      | none =>
          refine h.keep ht (by rw [hu, hu', hview]) ?_ ?_
          · exact (changes_snoc _ _).trans (List.append_nil _)
          · rw [tellings_snoc]
            unfold Note.told
            dsimp only
            rw [hview]
            exact List.append_nil _
      | some view =>
          exact h.tell hm ht (hu.trans hview) hview hu' (hturn (htell (by rw [hview]; nofun)))

/-! ## Whole runs -/

/-- What holds at every point of a run in which changes are told in turn. -/
structure OrderInv (p : AgentPool W) (notes : List Note) : Prop where
  moved : MovedOnce p notes
  consistent : p.shared.call.machine.Consistent
  waiting : Waiting p notes

theorem OrderInv.next {p' : AgentPool W} {notes' : List Note} {m : AgentMove}
    (h : OrderInv p notes) (hok : ToldInTurn (p, notes) m)
    (hn : (noted W).next (p, notes) m = some (p', notes')) : OrderInv p' notes' := by
  have hmoved := h.moved.next hn
  obtain ⟨rest, hrest, hmem⟩ := h.waiting
  rcases noted_cases hn with
    ⟨t, -, hfresh, rfl, rfl⟩ | ⟨i, env, t, a', t', new, rfl, ht, -, hs, -, rfl, rfl⟩ |
      ⟨b, new, -, rfl, rfl, rfl⟩
  · refine ⟨hmoved, h.consistent, rest, hrest, fun j view => ?_⟩
    rw [hmem]
    constructor
    · rintro ⟨u, hu, hv⟩
      exact ⟨u, getElem?_append_of_some hu, hv⟩
    · rintro ⟨u, hu, hv⟩
      rcases getElem?_append_cases hu with ⟨rfl, rfl⟩ | hu
      · rw [untold_of_fresh hfresh] at hv
        cases hv
      · exact ⟨u, hu, hv⟩
  · obtain ⟨hdel, hturn⟩ := hok t ht
    refine ⟨hmoved, ?_, waiting_step h.waiting h.moved h.consistent ht hs hdel hturn⟩
    cases hs with
    | quiet hcall | read hcall | pushed hcall =>
        rw [show (Pool.mk a' (p.threads.set i t')).shared.call = _ from hcall]
        exact h.consistent
    | moved _ hm =>
        rw [show (Pool.mk a' (p.threads.set i t')).shared.call.machine = _ from hm]
        exact CallMachine.consistent_step _ _ h.consistent
  · refine ⟨hmoved, ?_, rest, ?_, hmem⟩
    · rw [show (Pool.mk (b.act p.shared) p.threads).shared.call = _ from act_call p.shared b]
      exact h.consistent
    · rcases noted_outside p.shared b with ⟨-, hnew⟩ | ⟨_, _, -, -, hnew⟩
      · rw [hnew, List.append_nil]
        exact hrest
      · rw [hnew, changes_snoc, tellings_snoc]
        simpa [Note.changed, Note.told] using hrest

theorem untold_of_finished (h : t.finished = true) : t.untold = none := by
  cases t with
  | command _ _ pc =>
      cases pc with
      | done => rfl
      | _ => cases h
  | elevator => rfl
  | wire pc =>
      cases pc with
      | done => rfl
      | _ => cases h

/-- **The log is in transition order.** In every run from an idle call with an empty log,
    in which every handler tells its change in its turn and no change is lost: the log
    keeps the last events pushed, it tells the changes of the call in the order in which
    they were made, and whenever no handler is in progress it tells them all, so that whoever
    follows it knows the machine's phase and owner. -/
theorem log_in_transition_order (a : Agent W) (moves : List AgentMove) (q : AgentPool W)
    (notes : List Note) (hidle : a.call.machine.view = (.idle, .none))
    (hnew : a.events = .new 256)
    (hrun : (noted W).run (idlePool a, []) moves = some (q, notes))
    (hturn : (noted W).Meets ToldInTurn (idlePool a, []) moves) : LogInOrder q notes := by
  have hcons : a.call.machine.Consistent := by
    obtain ⟨hp, ho⟩ := Prod.mk.inj hidle
    exact ⟨fun _ => by rw [hp]; decide, fun _ => ho⟩
  have hinv : OrderInv q notes := by
    refine System.run_induction_meets
      (P := fun s : AgentPool W × List Note => OrderInv s.1 s.2)
      (fun s m s' h hok hn => h.next hok hn) ⟨.init a, hcons, [], rfl, ?_⟩ hturn hrun
    simp [idlePool]
  obtain ⟨rest, hrest, hmem⟩ := hinv.waiting
  have htold : Quiescent q → tellings notes = changes notes := by
    intro hquiet
    cases rest with
    | nil => exact (hrest.trans (List.append_nil _)).symm
    | cons first rest =>
        obtain ⟨t, ht, hv⟩ := (hmem first.1 first.2).mp List.mem_cons_self
        rw [untold_of_finished (hquiet t (List.mem_of_getElem? ht))] at hv
        cases hv
  refine ⟨log_keeps hnew hrun, ⟨rest, hrest.symm⟩, htold, fun hquiet => ?_⟩
  rw [follow_run hrun, htold hquiet, view_run hidle hrun]

end

/-- A ring, a claim and a hangup, each told before the next one begins. -/
theorem log_in_order_one_by_one :
    ∃ s ∈ (noted TapWire).run (idlePool tapAgent, [])
        (callAlone 0 (fromDoor opRequest) 6 ++ callAlone 1 (.command .claim "c1" .lookup) 8 ++
          callAlone 2 (fromDoor opHangup) 6),
      LogInOrder s.1 s.2 := by
  have hend : ((noted TapWire).run (idlePool tapAgent, [])
      (callAlone 0 (fromDoor opRequest) 6 ++ callAlone 1 (.command .claim "c1" .lookup) 8 ++
        callAlone 2 (fromDoor opHangup) 6)).isSome = true := by decide +kernel
  obtain ⟨s, hs⟩ := Option.isSome_iff_exists.mp hend
  exact ⟨s, hs, log_in_transition_order tapAgent _ s.1 s.2 rfl rfl hs (by decide +kernel)⟩

/-- The door rings, and a claim answers the call and is told before the ring is: the log
    ends with a call that still rings, while the machine is connected to the remote owner. -/
theorem answer_overtakes_ring :
    ∃ s ∈ (noted TapWire).run (idlePool tapAgent, [])
        (callAlone 0 (fromDoor opRequest) 5 ++ callAlone 1 (.command .claim "c1" .lookup) 8 ++
          [.step 0 { }]),
      Quiescent s.1 ∧ s.1.threads.map Task.result = [none, some (.accepted "c1")] ∧
        s.1.shared.events.events.map Event.kind =
          [.remoteAnswered "1", .callStarted "1" Endpoints.captured.door.id
            Endpoints.captured.room.id] ∧
        (pushes s.2).foldl follow (.idle, .none) = (.ringing, .none) ∧
        s.1.shared.call.machine.view = (.connected, .remote) ∧ ¬ LogInOrder s.1 s.2 := by
  have hend : ∃ s ∈ (noted TapWire).run (idlePool tapAgent, [])
      (callAlone 0 (fromDoor opRequest) 5 ++ callAlone 1 (.command .claim "c1" .lookup) 8 ++
        [.step 0 { }]),
      Quiescent s.1 ∧ s.1.threads.map Task.result = [none, some (.accepted "c1")] ∧
        s.1.shared.events.events.map Event.kind =
          [.remoteAnswered "1", .callStarted "1" Endpoints.captured.door.id
            Endpoints.captured.room.id] ∧
        (pushes s.2).foldl follow (.idle, .none) = (.ringing, .none) ∧
        s.1.shared.call.machine.view = (.connected, .remote) := by decide +kernel
  obtain ⟨s, hs, hquiet, hresult, hlog, hfold, hview⟩ := hend
  refine ⟨s, hs, hquiet, hresult, hlog, hfold, hview, fun h => ?_⟩
  have := h.rebuilt hquiet
  rw [hfold, hview] at this
  cases this

end Michoi
