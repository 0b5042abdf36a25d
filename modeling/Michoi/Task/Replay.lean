/-
  Idempotent replay when requests do not overlap.

  `Holds` says that the cache's map and queue hold exactly the last results stored, as many
  as the capacity. A request that does not find its id stores a result under a new id, so
  `Holds` goes from store to store (`Holds.store`), and with it `replayed_from_cache`: a
  command executed earlier, with at most 255 others executed since, is answered with the
  stored result and changes nothing, whatever the call is doing by then.
-/
import Michoi.Task.Once

namespace Michoi

open Lib

/-! ## What the cache holds -/

/-- The cache holds the last results stored, oldest first in its queue. -/
structure Holds (c : CommandCache) (stored : List CommandResult) : Prop where
  lists : Lists c.queue c.results
  queue : c.queue = (lastN c.capacity stored).map CommandResult.commandId
  found : ∀ r ∈ lastN c.capacity stored, c.results.lookup r.commandId = some r

namespace Holds

variable {c : CommandCache} {stored : List CommandResult} {r : CommandResult}

theorem new (capacity : Nat) : Holds (.new capacity) [] where
  lists := Lists.empty
  queue := by simp [lastN, CommandCache.new]
  found := by simp [lastN]

theorem length_eq (h : Holds c stored) :
    c.results.keys.length = min stored.length c.capacity := by
  rw [← h.lists.length_eq, h.queue, List.length_map, length_lastN]

theorem get_eq_none_iff {commandId : String} :
    c.get commandId = none ↔ commandId ∉ c.results := by
  unfold CommandCache.get
  rw [Option.map_eq_none_iff, AList.lookup_eq_none]

/-- Under capacity nothing is evicted. -/
theorem makeRoom_of_lt (h : Holds c stored) (hlt : stored.length < c.capacity) :
    c.makeRoom = c := by
  have := h.length_eq
  unfold CommandCache.makeRoom
  exact if_neg (by omega)

/-- At capacity the oldest result is evicted. -/
theorem makeRoom_of_le (h : Holds c stored) (hpos : 0 < c.capacity)
    (hle : c.capacity ≤ stored.length) :
    ∃ oldest rest, lastN c.capacity stored = oldest :: rest ∧
      c.makeRoom = { c with
        results := c.results.erase oldest.commandId
        queue := rest.map CommandResult.commandId } := by
  have hlen := length_lastN c.capacity stored
  cases hl : lastN c.capacity stored with
  | nil =>
      rw [hl, List.length_nil] at hlen
      omega
  | cons oldest rest =>
      refine ⟨oldest, rest, rfl, ?_⟩
      have hq : c.queue = oldest.commandId :: rest.map CommandResult.commandId := by
        rw [h.queue, hl]
        rfl
      have := h.length_eq
      unfold CommandCache.makeRoom
      rw [if_pos (by omega), hq]

/-- Storing a result under a new id: the cache holds the last results again. -/
theorem store (h : Holds c stored) (hpos : 0 < c.capacity) (hnew : c.get r.commandId = none) :
    Holds (c.store r) (stored ++ [r]) := by
  have hr : r.commandId ∉ c.results := get_eq_none_iff.mp hnew
  have hmem : ∀ r' ∈ lastN c.capacity stored, r'.commandId ∈ c.results := fun r' hr' =>
    AList.lookup_isSome.mp (by rw [h.found r' hr']; rfl)
  rcases Nat.lt_or_ge stored.length c.capacity with hlt | hle
  · have hlast : lastN c.capacity (stored ++ [r]) = lastN c.capacity stored ++ [r] :=
      lastN_append_of_lt hlt r
    unfold CommandCache.store
    rw [h.makeRoom_of_lt hlt]
    refine ⟨h.lists.insert_new hr r, ?_, ?_⟩
    · dsimp only
      rw [hlast, h.queue, List.map_append, List.map_singleton]
    · dsimp only
      rw [hlast]
      intro r' hr'
      rcases List.mem_append.mp hr' with hr' | hr'
      · have hne : r'.commandId ≠ r.commandId := fun he => hr (he ▸ hmem r' hr')
        rw [AList.lookup_insert_ne hne]
        exact h.found r' hr'
      · obtain rfl := List.mem_singleton.mp hr'
        exact AList.lookup_insert _
  · obtain ⟨oldest, rest, hl, hroom⟩ := h.makeRoom_of_le hpos hle
    have hlast : lastN c.capacity (stored ++ [r]) = rest ++ [r] := by
      rw [lastN_append_of_le hpos hle, hl, List.tail_cons]
    have hlists : Lists (oldest.commandId :: rest.map CommandResult.commandId) c.results := by
      have := h.lists
      rwa [h.queue, hl] at this
    have hr' : r.commandId ∉ c.results.erase oldest.commandId := fun hm =>
      hr (AList.mem_erase.mp hm).2
    unfold CommandCache.store
    rw [hroom]
    refine ⟨hlists.erase_head.insert_new hr' r, ?_, ?_⟩
    · dsimp only
      rw [hlast, List.map_append, List.map_singleton]
    · dsimp only
      rw [hlast]
      intro r' hr'
      rcases List.mem_append.mp hr' with hr' | hr'
      · have hin : r' ∈ lastN c.capacity stored := hl ▸ List.mem_cons_of_mem _ hr'
        have hne : r'.commandId ≠ r.commandId := fun he => hr (he ▸ hmem r' hin)
        have hold : r'.commandId ≠ oldest.commandId := fun he =>
          (List.nodup_cons.mp hlists.nodup).1 (he ▸ List.mem_map_of_mem hr')
        rw [AList.lookup_insert_ne hne, AList.lookup_erase_ne hold]
        exact h.found r' hin
      · obtain rfl := List.mem_singleton.mp hr'
        exact AList.lookup_insert _

/-- A result with fewer than a capacity's worth stored after it is found. -/
theorem get_recent (h : Holds c stored) {pre post : List CommandResult}
    (hst : stored = pre ++ r :: post) (hpost : post.length < c.capacity) :
    c.get r.commandId = some r.replay := by
  have hr := h.found r (hst ▸ mem_lastN pre r post hpost)
  unfold CommandCache.get
  rw [hr]
  rfl

end Holds

/-! ## Requests that do not overlap -/

/-- The results one move stores. -/
def storedBy {W : Type} (p : AgentPool W) (m : AgentMove) (_ : AgentPool W) :
    List CommandResult :=
  match m with
  | .step i _ => ((p.threads[i]?).bind Task.stores).toList
  | _ => []

/-- A request is made when every request before it is over. -/
def NoOverlap {W : Type} (p : AgentPool W) : AgentMove → Prop
  | .start t => t.request.isSome = true →
      ∀ u ∈ p.threads, u.request.isSome = true → u.finished = true
  | _ => True

instance {W : Type} (p : AgentPool W) : ∀ m, Decidable (NoOverlap p m)
  | .start t => inferInstanceAs (Decidable (t.request.isSome = true →
      ∀ u ∈ p.threads, u.request.isSome = true → u.finished = true))
  | .step _ _ => isTrue trivial
  | .outside _ => isTrue trivial

/-- What holds at every point of a run whose requests do not overlap. -/
structure ReplayInv {W : Type} (p : AgentPool W) (stored : List CommandResult) : Prop where
  owned : ∀ t ∈ p.threads, t.Owned
  capacity : p.shared.commands.capacity = 256
  holds : Holds p.shared.commands stored
  alone : ∀ (i j : Nat) (t u : Task), p.threads[i]? = some t → p.threads[j]? = some u →
    t.request.isSome = true → u.request.isSome = true → t.finished = false →
      u.finished = false → i = j
  unknown : ∀ t ∈ p.threads, ∀ commandId, t.request = some commandId → t.running = true →
    p.shared.commands.get commandId = none

namespace ReplayInv

variable {W : Type} {p : AgentPool W} {stored : List CommandResult} {i : Nat} {env : Env}
  {a' : Agent W} {t t' : Task}

theorem init {a : Agent W} (hnew : a.commands = .new 256) : ReplayInv (idlePool a) [] where
  owned := by simp [idlePool]
  capacity := congrArg CommandCache.capacity hnew
  holds := by rw [show (idlePool a).shared.commands = .new 256 from hnew]; exact .new 256
  alone := by simp [idlePool]
  unknown := by simp [idlePool]

theorem start (h : ReplayInv p stored) (hfresh : t.fresh = true) (hok : NoOverlap p (.start t)) :
    ReplayInv ⟨p.shared, p.threads ++ [t]⟩ stored := by
  have hlook := Task.fresh_cases hfresh
  -- An old request that is not over leaves no room for a new one.
  have hold : ∀ (j : Nat) (u : Task), p.threads[j]? = some u → u.request.isSome = true →
      u.finished = false → t.request.isSome = true → False := by
    intro j u hu hq hopen hreq
    have := hok hreq u (List.mem_of_getElem? hu) hq
    rw [hopen] at this
    cases this
  refine ⟨?_, h.capacity, h.holds, ?_, ?_⟩
  · intro u hu
    rcases List.mem_append.mp hu with hu | hu
    · exact h.owned u hu
    · obtain rfl := List.mem_singleton.mp hu
      exact Task.owned_of_fresh hfresh
  · intro j k u v hu hv hq hq' hres hres'
    rcases getElem?_append_cases hu with ⟨rfl, rfl⟩ | hup <;>
      rcases getElem?_append_cases hv with ⟨rfl, rfl⟩ | hvp
    · rfl
    · exact (hold k v hvp hq' hres' hq).elim
    · exact (hold j u hup hq hres hq').elim
    · exact h.alone j k u v hup hvp hq hq' hres hres'
  · intro u hu commandId hq hr
    rcases List.mem_append.mp hu with hu | hu
    · exact h.unknown u hu commandId hq hr
    · obtain rfl := List.mem_singleton.mp hu
      rcases hlook with hl | hn
      · rw [Task.not_atLookup_of_running hr] at hl
        cases hl
      · rw [hn] at hq
        cases hq

/-- A step of the receive loop or of another task. -/
theorem of_same_cache (h : ReplayInv p stored) (hc : a'.commands = p.shared.commands)
    {threads : List Task} (hown : ∀ u ∈ threads, u.Owned)
    (hold : ∀ (j : Nat) (u : Task), threads[j]? = some u → u.request.isSome = true →
      p.threads[j]? = some u) : ReplayInv ⟨a', threads⟩ stored where
  owned := hown
  capacity := by rw [show (Pool.mk a' threads).shared.commands = _ from hc]; exact h.capacity
  holds := by rw [show (Pool.mk a' threads).shared.commands = _ from hc]; exact h.holds
  alone := fun j k u v hu hv hq hq' hres hres' =>
    h.alone j k u v (hold j u hu hq) (hold k v hv hq') hq hq' hres hres'
  unknown := fun u hu commandId hq hr => by
    obtain ⟨j, hj⟩ := List.mem_iff_getElem?.mp hu
    rw [show (Pool.mk a' threads).shared.commands = _ from hc]
    exact h.unknown u (List.mem_of_getElem? (hold j u hj (by rw [hq]; rfl))) commandId hq hr

/-- The requests after a step of the one that is not over: there is still no other. -/
theorem alone_step (h : ReplayInv p stored) (ht : p.threads[i]? = some t)
    (hq : t.request.isSome = true) (hopen : t.finished = false) (t' : Task) :
    ∀ (j k : Nat) (u v : Task), (p.threads.set i t')[j]? = some u →
      (p.threads.set i t')[k]? = some v → u.request.isSome = true → v.request.isSome = true →
        u.finished = false → v.finished = false → j = k := by
  have honly : ∀ (j : Nat) (u : Task), (p.threads.set i t')[j]? = some u →
      u.request.isSome = true → u.finished = false → j = i := by
    intro j u hu hqu hru
    rcases getElem?_set_cases hu with ⟨hj, -⟩ | ⟨-, hu⟩
    · exact hj
    · exact h.alone j i u t hu ht hqu hq hru hopen
  intro j k u v hu hv hqu hqv hru hrv
  exact (honly j u hu hqu hru).trans (honly k v hv hqv hrv).symm

variable [Wire W]

theorem wire_step (h : ReplayInv p stored)
    (ht : p.threads[i]? = some t) (hstep : t.step env p.shared = some (a', t'))
    (hnone : t.request = none) : ReplayInv ⟨a', p.threads.set i t'⟩ stored := by
  obtain ⟨hnone', hown, hcmd⟩ := wire_commands hstep hnone
  refine h.of_same_cache hcmd (fun u hu => ?_) fun j u hu hq => ?_
  · rcases List.mem_or_eq_of_mem_set hu with hu | rfl
    · exact h.owned u hu
    · exact hown
  · rcases getElem?_set_cases hu with ⟨rfl, rfl⟩ | ⟨-, hu⟩
    · rw [hnone'] at hq
      cases hq
    · exact hu

theorem request_step (h : ReplayInv p stored) (ht : p.threads[i]? = some t)
    (hstep : t.step env p.shared = some (a', t')) {commandId : String}
    (hid : t.request = some commandId) :
    ReplayInv ⟨a', p.threads.set i t'⟩ (stored ++ t.stores.toList) := by
  have hmem := List.mem_of_getElem? ht
  obtain ⟨hid', hown, hr⟩ := Michoi.request_step hstep hid (h.owned t hmem)
  have hreq : t.request.isSome = true := by rw [hid]; rfl
  have hopen : t.finished = false := by
    cases hr with
    | hit _ ht => exact Task.not_finished_of_atLookup ht
    | miss _ ht => exact Task.not_finished_of_atLookup ht
    | work ht => exact Task.not_finished_of_running ht
    | panic ht => exact Task.not_finished_of_running ht
    | store ht => exact Task.not_finished_of_running ht
  have hrunning : ∀ u ∈ p.threads.set i t', ∀ id, u.request = some id → u.running = true →
      id = commandId ∧ t'.running = true := by
    intro u hu id hq hrun
    obtain ⟨j, hj⟩ := List.mem_iff_getElem?.mp hu
    rcases getElem?_set_cases hj with ⟨rfl, rfl⟩ | ⟨hji, hj⟩
    · rw [hid'] at hq
      cases hq
      exact ⟨rfl, hrun⟩
    · exact absurd (h.alone j i u t hj ht (by rw [hq]; rfl) hreq
        (Task.not_finished_of_running hrun) hopen) hji
  have howned : ∀ u ∈ p.threads.set i t', u.Owned := by
    intro u hu
    rcases List.mem_or_eq_of_mem_set hu with hu | rfl
    · exact h.owned u hu
    · exact hown
  have halone := h.alone_step ht hreq hopen t'
  cases hr with
  | hit _ htl ht' hcmd =>
      rw [Task.stores_of_atLookup htl, Option.toList_none, List.append_nil]
      refine ⟨howned, by rw [hcmd]; exact h.capacity, by rw [hcmd]; exact h.holds, halone, ?_⟩
      intro u hu id hq hrun
      obtain ⟨-, hrun'⟩ := hrunning u hu id hq hrun
      rw [Task.result_of_running hrun'] at ht'
      cases ht'
  | miss hget htl ht' hcmd =>
      rw [Task.stores_of_atLookup htl, Option.toList_none, List.append_nil]
      refine ⟨howned, by rw [hcmd]; exact h.capacity, by rw [hcmd]; exact h.holds, halone, ?_⟩
      intro u hu id hq hrun
      obtain ⟨rfl, -⟩ := hrunning u hu id hq hrun
      rw [hcmd]
      exact hget
  | work htr ht' hs hcmd =>
      rw [hs, Option.toList_none, List.append_nil]
      refine ⟨howned, by rw [hcmd]; exact h.capacity, by rw [hcmd]; exact h.holds, halone, ?_⟩
      intro u hu id hq hrun
      obtain ⟨rfl, -⟩ := hrunning u hu id hq hrun
      rw [hcmd]
      exact h.unknown t hmem id hid htr
  | panic _ ht' hs hcmd =>
      rw [hs, Option.toList_none, List.append_nil]
      refine ⟨howned, by rw [hcmd]; exact h.capacity, by rw [hcmd]; exact h.holds, halone, ?_⟩
      intro u hu id hq hrun
      obtain ⟨-, hrun'⟩ := hrunning u hu id hq hrun
      have := Task.untouched_of_panicked ht'
      rw [Task.not_untouched_of_running hrun'] at this
      cases this
  | @store r htr ht' hrid hs hcmd =>
      have hget := h.unknown t hmem commandId hid htr
      rw [hs, Option.toList_some]
      refine ⟨howned, ?_, ?_, halone, ?_⟩
      · rw [hcmd, CommandCache.store_capacity]
        exact h.capacity
      · rw [hcmd]
        exact h.holds.store (by rw [h.capacity]; decide) (by rw [hrid]; exact hget)
      · intro u hu id hq hrun
        obtain ⟨-, hrun'⟩ := hrunning u hu id hq hrun
        rw [Task.result_of_running hrun'] at ht'
        cases ht'

theorem next {q : AgentPool W} {m : AgentMove} (h : ReplayInv p stored) (hok : NoOverlap p m)
    (hnext : (agentProgram W).system.next p m = some q) :
    ReplayInv q (stored ++ storedBy p m q) := by
  rcases Program.next_cases hnext with
    ⟨l, rfl, hstart, rfl⟩ | ⟨i, env, t, a', t', rfl, ht, hstep, rfl⟩ | ⟨b, rfl, rfl⟩
  · rw [show storedBy p (.start l) _ = [] from rfl, List.append_nil]
    exact h.start (Task.fresh_of_mayStart hstart) hok
  · have hs : storedBy p (.step i env) ⟨a', p.threads.set i t'⟩ = t.stores.toList := by
      unfold storedBy
      dsimp only
      rw [ht]
      rfl
    rw [hs]
    cases hid : t.request with
    | none =>
        rw [Task.stores_of_no_request hid, Option.toList_none, List.append_nil]
        exact h.wire_step ht hstep hid
    | some commandId => exact h.request_step ht hstep hid
  · rw [show storedBy p (.outside b) _ = [] from rfl, List.append_nil]
    exact h.of_same_cache (act_commands p.shared b) h.owned fun _ _ hu _ => hu

end ReplayInv

/-- A request that finds its id returns at once and leaves the Agent as it is. -/
theorem lookup_step {W : Type} [Wire W] {a : Agent W} {t : Task} {commandId : String}
    {r : CommandResult} (hid : t.request = some commandId) (hlook : t.atLookup = true)
    (hget : a.commands.get commandId = some r) (env : Env) :
    ∃ t', t.step env a = some (a, t') ∧ t'.result = some r := by
  cases t with
  | command action id pc =>
      cases hid
      cases pc with
      | lookup =>
          refine ⟨.command action commandId (.done r), ?_, rfl⟩
          unfold Task.step commandStep
          dsimp only
          rw [hget]
          rfl
      | _ => cases hlook
  | elevator id room pc =>
      cases hid
      cases pc with
      | lookup =>
          refine ⟨.elevator commandId room (.done r), ?_, rfl⟩
          unfold Task.step elevatorStep
          dsimp only
          rw [hget]
          rfl
      | _ => cases hlook
  | wire => cases hid

/-- **A command executed before is replayed.** In every run from an Agent with an empty cache
    whose requests do not overlap, messages of the wire and other tasks coming in between
    at any point: when `r` was stored with at most 255 results after it, a request with its
    id returns `r`, flagged as replayed, in one step, and the Agent stays exactly as it is. -/
theorem replayed_from_cache {W : Type} [Wire W] (a : Agent W) (moves : List AgentMove)
    (q : AgentPool W) (stored : List CommandResult) (hnew : a.commands = .new 256)
    (hrun : ((agentProgram W).system.withHistory storedBy).run (idlePool a, []) moves =
      some (q, stored))
    (hseq : ((agentProgram W).system.withHistory storedBy).Meets (fun s m => NoOverlap s.1 m)
      (idlePool a, []) moves)
    (pre post : List CommandResult) (r : CommandResult) (hstored : stored = pre ++ r :: post)
    (hpost : post.length ≤ 255) :
    (∀ t : Task, t.request = some r.commandId → t.atLookup = true → ∀ env,
        ∃ t', t.step env q.shared = some (q.shared, t') ∧ t'.result = some r.replay) ∧
      ∀ env action, q.shared.execute env action r.commandId = (r.replay, q.shared) := by
  have hinv : ReplayInv q stored := by
    refine System.run_induction_noted (P := ReplayInv) (fun p m q stored h hok hn => ?_)
      (ReplayInv.init hnew) hseq hrun
    exact h.next hok hn
  have hget : q.shared.commands.get r.commandId = some r.replay :=
    hinv.holds.get_recent hstored (by rw [hinv.capacity]; omega)
  refine ⟨fun t hid hlook env => lookup_step hid hlook hget env, fun env action => ?_⟩
  unfold Agent.execute
  rw [hget]

/-- A claim is replayed after the door has hung up. -/
theorem claim_replayed_after_hangup :
    ∃ s ∈ ((agentProgram TapWire).system.withHistory storedBy).run (idlePool tapAgent, [])
        (callAlone 0 (fromDoor opRequest) 6 ++ callAlone 1 (.command .claim "c1" .lookup) 8 ++
          callAlone 2 (fromDoor opHangup) 6),
      (∀ t : Task, t.request = some "c1" → t.atLookup = true → ∀ env,
        ∃ t', t.step env s.1.shared = some (s.1.shared, t') ∧
          t'.result = some (CommandResult.accepted "c1").replay) ∧
      ∀ env action, s.1.shared.execute env action "c1" =
        ((CommandResult.accepted "c1").replay, s.1.shared) := by
  have hend : ∃ s ∈ ((agentProgram TapWire).system.withHistory storedBy).run
      (idlePool tapAgent, [])
      (callAlone 0 (fromDoor opRequest) 6 ++ callAlone 1 (.command .claim "c1" .lookup) 8 ++
        callAlone 2 (fromDoor opHangup) 6),
      s.2 = [CommandResult.accepted "c1"] := by decide +kernel
  obtain ⟨s, hs, hstored⟩ := hend
  exact ⟨s, hs, replayed_from_cache tapAgent _ s.1 s.2 rfl hs (by decide +kernel) [] []
    (.accepted "c1") hstored (by decide)⟩

end Michoi
