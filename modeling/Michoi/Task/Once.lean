/-
  One command id, one execution: requests with the same id under every interleaving.

  `get` and `store` are far apart, so a second request of an id that looks it up before
  the first has stored its result executes it again (`retry_executes_twice`), and so does
  one that comes after the result was evicted.

  `executes_at_most_once`: in every run without these two, the requests of one id do at
  most one locked transition and send at most one datagram between them, and all that
  have returned told their clients the same. `OnceInv` carries it: a request that runs is
  the only one of its id past the lookup, and its id is not in the cache.
-/
import Michoi.Task.Request
import Mathlib.Data.List.Count

namespace Michoi

open Lib

/-- What a request may do only once: the locked region of its command, and its datagram to
    the door. -/
inductive Act where
  | transition | datagram
  deriving DecidableEq, Repr

/-- What a handler's next step does. -/
def Task.acts : Task → List Act
  | command _ _ (.transition _ _) => [.transition]
  | command _ _ (.send _ _ _) => [.datagram]
  | elevator _ _ (.fire _ _ _) => [.datagram]
  | _ => []

/-- How often a handler may still do it; one that panicked has used nothing up. -/
def Task.left (act : Act) : Task → Nat
  | command _ _ .lookup => 1
  | command _ _ .readPeers => 1
  | command _ _ (.readSession _) => 1
  | command _ _ (.transition _ _) => 1
  | command _ _ (.send _ _ _) => if act = .datagram then 1 else 0
  | elevator _ _ .lookup => 1
  | elevator _ _ .readRoom => 1
  | elevator _ _ (.locate _) => 1
  | elevator _ _ (.register _ _) => 1
  | elevator _ _ (.fire _ _ _) => 1
  | elevator _ _ .panicked => 1
  | _ => 0

/-- A note that the handler at a place did it. -/
structure Deed where
  thread : Nat
  act : Act
  deriving DecidableEq, Repr

/-- The deeds of one move. -/
def deeds {W : Type} (p : AgentPool W) (m : AgentMove) (_ : AgentPool W) : List Deed :=
  match m with
  | .step i _ => ((p.threads[i]?).map Task.acts).getD [] |>.map fun act => ⟨i, act⟩
  | _ => []

/-- The command id of the request at a place. -/
def requestAt (threads : List Task) (i : Nat) : Option String := (threads[i]?).bind Task.request

/-- Requests of one id did at most one transition and sent at most one datagram, all of
    them by one request, and those that returned agree. -/
structure ExecutedOnce {W : Type} (p : AgentPool W) (done : List Deed) (commandId : String) :
    Prop where
  once : ∀ act, (done.countP fun d =>
    d.act = act ∧ requestAt p.threads d.thread = some commandId) ≤ 1
  oneRequest : ∀ d ∈ done, ∀ d' ∈ done, requestAt p.threads d.thread = some commandId →
    requestAt p.threads d'.thread = some commandId → d.thread = d'.thread
  sameResult : ∀ t ∈ p.threads, ∀ u ∈ p.threads, t.request = some commandId →
    u.request = some commandId → ∀ r ∈ t.result, ∀ r' ∈ u.result, r.Agrees r'

/-- A lookup that finds nothing is the first of its id: no other request of the id has
    got past its own lookup, be it in progress or finished. -/
def LookupFirst {W : Type} (p : AgentPool W) : AgentMove → Prop
  | .step i _ => ∀ t ∈ p.threads[i]?, ∀ commandId ∈ t.request, t.atLookup = true →
      p.shared.commands.get commandId = none →
        ¬ OtherThread (fun u => u.request = some commandId ∧ u.untouched = false) p.threads i
  | _ => True

instance {W : Type} (p : AgentPool W) : ∀ m, Decidable (LookupFirst p m)
  | .step i _ => inferInstanceAs (Decidable (∀ t ∈ p.threads[i]?, ∀ commandId ∈ t.request,
      t.atLookup = true → p.shared.commands.get commandId = none →
        ¬ OtherThread (fun u => u.request = some commandId ∧ u.untouched = false) p.threads i))
  | .start _ => isTrue trivial
  | .outside _ => isTrue trivial

/-! ## One step -/

section

variable {W : Type} [Wire W] {env : Env} {a a' : Agent W} {t t' : Task}

/-- A step uses up what it does. -/
theorem step_left (h : t.step env a = some (a', t')) (act : Act) :
    t.acts.count act + t'.left act ≤ t.left act := by
  cases t with
  | command action id pc =>
      obtain ⟨pc', rfl, hs⟩ := step_command h
      cases hs <;> cases act <;> simp [Task.acts, Task.left]
  | elevator id room pc =>
      obtain ⟨pc', rfl, hs⟩ := step_elevator h
      cases hs <;> cases act <;> simp [Task.acts, Task.left]
  | wire pc =>
      obtain ⟨pc', rfl, hs⟩ := step_wire h
      exact Nat.le_refl 0

theorem running_of_acts {act : Act} (h : act ∈ t.acts) : t.running = true := by
  unfold Task.acts at h
  split at h
  · rfl
  · rfl
  · rfl
  · cases h

theorem left_le_one (act : Act) (t : Task) : t.left act ≤ 1 := by
  unfold Task.left
  split <;> first | exact Nat.le_refl 1 | exact Nat.zero_le 1 | (split <;> decide)

theorem left_of_untouched (h : t.untouched = true) (act : Act) : t.left act = 1 := by
  cases t with
  | command _ _ pc =>
      cases pc with
      | lookup => rfl
      | _ => cases h
  | elevator _ _ pc =>
      cases pc with
      | lookup | panicked => rfl
      | _ => cases h
  | wire => cases h

end

/-- Requests keep their id, so the ids by place stay the same. -/
theorem requestAt_set {threads : List Task} {i : Nat} {t t' : Task}
    (ht : threads[i]? = some t) (h : t'.request = t.request) (j : Nat) :
    requestAt (threads.set i t') j = requestAt threads j := by
  unfold requestAt
  by_cases hj : j = i
  · subst hj
    rw [getElem?_set_self ht, ht]
    exact h
  · rw [getElem?_set_other hj]

/-! ## The invariant -/

/-- What holds of the requests, the cache and the deeds at every point of a run. -/
structure OnceInv {W : Type} (p : AgentPool W) (done : List Deed) : Prop where
  owned : ∀ t ∈ p.threads, t.Owned
  placed : ∀ d ∈ done, d.thread < p.threads.length
  spent : ∀ (i : Nat) (t : Task), p.threads[i]? = some t →
    ∀ act, done.count ⟨i, act⟩ + t.left act ≤ 1
  apart : ∀ d ∈ done, ∀ d' ∈ done, ∀ commandId, requestAt p.threads d.thread = some commandId →
    requestAt p.threads d'.thread = some commandId → d.thread = d'.thread
  flight : ∀ (i : Nat) (t : Task) (commandId : String), p.threads[i]? = some t →
    t.request = some commandId → t.running = true →
      p.shared.commands.get commandId = none ∧
        ∀ (j : Nat) (u : Task), j ≠ i → p.threads[j]? = some u → u.request = some commandId →
          u.untouched = true
  cached : ∀ t ∈ p.threads, ∀ commandId r c, t.request = some commandId → t.result = some r →
    p.shared.commands.get commandId = some c → r.Agrees c
  agree : ∀ t ∈ p.threads, ∀ u ∈ p.threads, ∀ commandId r r', t.request = some commandId →
    u.request = some commandId → t.result = some r → u.result = some r' → r.Agrees r'

namespace OnceInv

variable {W : Type} {p : AgentPool W} {done : List Deed} {i : Nat} {env : Env}
  {a' : Agent W} {t t' : Task}

theorem init (a : Agent W) : OnceInv (idlePool a) [] where
  owned := by simp [idlePool]
  placed := by simp
  spent := by simp [idlePool]
  apart := by simp
  flight := by simp [idlePool]
  cached := by simp [idlePool]
  agree := by simp [idlePool]

/-- Who did something is not untouched. -/
theorem touched (h : OnceInv p done) {d : Deed} (hd : d ∈ done)
    (ht : p.threads[d.thread]? = some t) : t.untouched = false := by
  cases hu : t.untouched with
  | false => rfl
  | true =>
      have hleft := left_of_untouched hu d.act
      have hspent := h.spent d.thread t ht d.act
      have hcount : 0 < done.count d := List.count_pos_iff.mpr hd
      rw [show (⟨d.thread, d.act⟩ : Deed) = d from rfl] at hspent
      omega

/-- A handler that is called changes nothing: it has no result, and it is at its lookup. -/
theorem start (h : OnceInv p done) (hfresh : t.fresh = true) :
    OnceInv ⟨p.shared, p.threads ++ [t]⟩ done := by
  have hlook := Task.fresh_cases hfresh
  have hmem : ∀ {u r}, u ∈ p.threads ++ [t] → u.result = some r → u.request ≠ none →
      u ∈ p.threads := by
    intro u r hu hr hq
    rcases List.mem_append.mp hu with hu | hu
    · exact hu
    · obtain rfl := List.mem_singleton.mp hu
      rcases hlook with hl | hn
      · rw [Task.result_of_atLookup hl] at hr
        cases hr
      · exact absurd hn hq
  have hat : ∀ d ∈ done, requestAt (p.threads ++ [t]) d.thread = requestAt p.threads d.thread :=
    fun d hd => by
      unfold requestAt
      rw [List.getElem?_append_left (h.placed d hd)]
  refine ⟨?_, ?_, ?_, ?_, ?_, ?_, ?_⟩
  · intro u hu
    rcases List.mem_append.mp hu with hu | hu
    · exact h.owned u hu
    · obtain rfl := List.mem_singleton.mp hu
      exact Task.owned_of_fresh hfresh
  · intro d hd
    rw [List.length_append]
    exact Nat.lt_add_right 1 (h.placed d hd)
  · intro j u hu act
    rcases getElem?_append_cases hu with ⟨rfl, rfl⟩ | hu
    · have hz : done.count ⟨p.threads.length, act⟩ = 0 :=
        List.count_eq_zero.mpr fun hd => absurd (h.placed _ hd) (Nat.lt_irrefl _)
      have := left_le_one act u
      omega
    · exact h.spent j u hu act
  · intro d hd d' hd' commandId hq hq'
    exact h.apart d hd d' hd' commandId (hat d hd ▸ hq) (hat d' hd' ▸ hq')
  · intro j u commandId hu hq hr
    rcases getElem?_append_cases hu with ⟨rfl, rfl⟩ | hu
    · rcases hlook with hl | hn
      · rw [Task.not_atLookup_of_running hr] at hl
        cases hl
      · rw [hn] at hq
        cases hq
    · obtain ⟨hnone, hothers⟩ := h.flight j u commandId hu hq hr
      refine ⟨hnone, fun k v hk hv hqv => ?_⟩
      rcases getElem?_append_cases hv with ⟨rfl, rfl⟩ | hv
      · rcases hlook with hl | hn
        · exact Task.untouched_of_atLookup hl
        · rw [hn] at hqv
          cases hqv
      · exact hothers k v hk hv hqv
  · intro u hu commandId r c hq hr hc
    exact h.cached u (hmem hu hr (by rw [hq]; nofun)) commandId r c hq hr hc
  · intro u hu v hv commandId r r' hq hq' hr hr'
    exact h.agree u (hmem hu hr (by rw [hq]; nofun)) v (hmem hv hr' (by rw [hq']; nofun))
      commandId r r' hq hq' hr hr'

/-- Another task's step leaves the requests and the cache alone. -/
theorem outside (h : OnceInv p done) (hc : a'.commands = p.shared.commands) :
    OnceInv ⟨a', p.threads⟩ done where
  owned := h.owned
  placed := h.placed
  spent := h.spent
  apart := h.apart
  flight := fun j u commandId hu hq hr => by
    obtain ⟨hnone, hothers⟩ := h.flight j u commandId hu hq hr
    exact ⟨by rw [hc]; exact hnone, hothers⟩
  cached := fun u hu commandId r c hq hr hcc =>
    h.cached u hu commandId r c hq hr (by rwa [hc] at hcc)
  agree := h.agree

/-- The deeds after a step. -/
theorem placed_step (h : OnceInv p done) (ht : p.threads[i]? = some t) :
    ∀ d ∈ done ++ t.acts.map (Deed.mk i), d.thread < (p.threads.set i t').length := by
  intro d hd
  rw [List.length_set]
  rcases List.mem_append.mp hd with hd | hd
  · exact h.placed d hd
  · obtain ⟨_, -, rfl⟩ := List.mem_map.mp hd
    exact (List.getElem?_eq_some_iff.mp ht).1

/-- While a request runs, whatever was done for its id was done by itself. -/
theorem done_by_running (h : OnceInv p done) {commandId : String}
    (ht : p.threads[i]? = some t) (hid : t.request = some commandId) (hr : t.running = true)
    {d : Deed} (hd : d ∈ done) (hq : requestAt p.threads d.thread = some commandId) :
    d.thread = i := by
  obtain ⟨u, hu⟩ : ∃ u, p.threads[d.thread]? = some u :=
    ⟨_, List.getElem?_eq_getElem (h.placed d hd)⟩
  by_contra hj
  unfold requestAt at hq
  rw [hu] at hq
  have := (h.flight i t commandId ht hid hr).2 d.thread u hj hu hq
  rw [h.touched hd hu] at this
  cases this

/-- While a request runs, no request of its id has returned. -/
theorem no_result_beside (h : OnceInv p done) {commandId : String} {u : Task}
    (ht : p.threads[i]? = some t) (hid : t.request = some commandId) (hr : t.running = true)
    (hu : u ∈ p.threads) (hq : u.request = some commandId) : u.result = none := by
  obtain ⟨j, hj⟩ := List.mem_iff_getElem?.mp hu
  by_cases hji : j = i
  · subst hji
    rw [ht] at hj
    cases hj
    exact Task.result_of_running hr
  · exact Task.result_of_untouched ((h.flight i t commandId ht hid hr).2 j u hji hj hq)

theorem apart_step (h : OnceInv p done) (ht : p.threads[i]? = some t)
    (hreq : t'.request = t.request) :
    ∀ d ∈ done ++ t.acts.map (Deed.mk i), ∀ d' ∈ done ++ t.acts.map (Deed.mk i), ∀ commandId,
      requestAt (p.threads.set i t') d.thread = some commandId →
        requestAt (p.threads.set i t') d'.thread = some commandId → d.thread = d'.thread := by
  have hnew : ∀ d ∈ t.acts.map (Deed.mk i), d.thread = i ∧ t.running = true := by
    intro d hd
    obtain ⟨act, hact, rfl⟩ := List.mem_map.mp hd
    exact ⟨rfl, running_of_acts hact⟩
  have hat : requestAt p.threads i = t.request := by
    unfold requestAt
    rw [ht]
    rfl
  intro d hd d' hd' commandId hq hq'
  rw [requestAt_set ht hreq] at hq hq'
  rcases List.mem_append.mp hd with hd | hd <;> rcases List.mem_append.mp hd' with hd' | hd'
  · exact h.apart d hd d' hd' commandId hq hq'
  · obtain ⟨hi, hr⟩ := hnew d' hd'
    rw [hi, hat] at hq'
    rw [hi]
    exact h.done_by_running ht hq' hr hd hq
  · obtain ⟨hi, hr⟩ := hnew d hd
    rw [hi, hat] at hq
    rw [hi]
    exact (h.done_by_running ht hq hr hd' hq').symm
  · rw [(hnew d hd).1, (hnew d' hd').1]

/-- What the invariant says about one id. -/
theorem executedOnce (h : OnceInv p done) (commandId : String) :
    ExecutedOnce p done commandId where
  once := by
    intro act
    set mine : Deed → Bool := fun d =>
      decide (d.act = act ∧ requestAt p.threads d.thread = some commandId) with hmine
    by_cases hex : ∃ d ∈ done, mine d = true
    · obtain ⟨d₀, hd₀, hm₀⟩ := hex
      obtain ⟨-, hq₀⟩ := of_decide_eq_true hm₀
      obtain ⟨t, ht⟩ : ∃ t, p.threads[d₀.thread]? = some t :=
        ⟨_, List.getElem?_eq_getElem (h.placed d₀ hd₀)⟩
      have hle : done.countP mine ≤ done.count ⟨d₀.thread, act⟩ := by
        refine List.countP_mono_left fun d hd hm => ?_
        obtain ⟨hact, hq⟩ := of_decide_eq_true hm
        have hth := h.apart d hd d₀ hd₀ commandId hq hq₀
        exact beq_iff_eq.mpr (by cases d; cases hact; cases hth; rfl)
      have := h.spent d₀.thread t ht act
      omega
    · have hz : done.countP mine = 0 :=
        List.countP_eq_zero.mpr fun d hd hm => hex ⟨d, hd, hm⟩
      omega
  oneRequest := fun d hd d' hd' => h.apart d hd d' hd' commandId
  sameResult := fun t ht u hu hq hq' r hr r' hr' =>
    h.agree t ht u hu commandId r r' hq hq' hr hr'

/-- The cache answers for other ids as before, apart from evictions. -/
theorem get_of_get_step {commandId id : String} {c : CommandResult}
    (hr : RequestStep commandId p.shared.commands a'.commands t t') (hne : id ≠ commandId)
    (hc : a'.commands.get id = some c) : p.shared.commands.get id = some c := by
  cases hr with
  | hit _ _ _ hcmd => rwa [hcmd] at hc
  | miss _ _ _ hcmd => rwa [hcmd] at hc
  | work _ _ _ hcmd => rwa [hcmd] at hc
  | panic _ _ _ hcmd => rwa [hcmd] at hc
  | store _ _ hrid _ hcmd => exact CommandCache.get_of_get_store (hrid ▸ hne) (hcmd ▸ hc)

/-- The request that stepped runs: it ran before, or its lookup was the first of its id. -/
theorem flight_self (h : OnceInv p done) (ht : p.threads[i]? = some t) {commandId : String}
    (hid : t.request = some commandId)
    (hr : RequestStep commandId p.shared.commands a'.commands t t')
    (hfirst : t.atLookup = true → p.shared.commands.get commandId = none →
      ∀ (j : Nat) (u : Task), j ≠ i → p.threads[j]? = some u →
        u.request = some commandId → u.untouched = true)
    (hrun : t'.running = true) :
    a'.commands.get commandId = none ∧ ∀ (k : Nat) (v : Task), k ≠ i →
      p.threads[k]? = some v → v.request = some commandId → v.untouched = true := by
  cases hr with
  | hit _ _ ht' => rw [Task.result_of_running hrun] at ht'; cases ht'
  | store _ ht' => rw [Task.result_of_running hrun] at ht'; cases ht'
  | panic _ ht' =>
      have := Task.untouched_of_panicked ht'
      rw [Task.not_untouched_of_running hrun] at this
      cases this
  | miss hget htl _ hcmd =>
      rw [hcmd]
      exact ⟨hget, hfirst htl hget⟩
  | work htr _ _ hcmd =>
      rw [hcmd]
      exact h.flight i t commandId ht hid htr

/-- Another request runs: then the one that stepped has another id, since a request of the
    same id would be untouched and its lookup not the first. -/
theorem flight_other (h : OnceInv p done) (ht : p.threads[i]? = some t) {commandId : String}
    (hid : t.request = some commandId) (hid' : t'.request = some commandId)
    (hr : RequestStep commandId p.shared.commands a'.commands t t')
    (hfirst : t.atLookup = true → p.shared.commands.get commandId = none →
      ∀ (j : Nat) (u : Task), j ≠ i → p.threads[j]? = some u →
        u.request = some commandId → u.untouched = true)
    {j : Nat} {u : Task} {id : String} (hj : j ≠ i) (hu : p.threads[j]? = some u)
    (hq : u.request = some id) (hrun : u.running = true) :
    a'.commands.get id = none ∧ ∀ (k : Nat) (v : Task), k ≠ j →
      (p.threads.set i t')[k]? = some v → v.request = some id → v.untouched = true := by
  obtain ⟨hget, hothers⟩ := h.flight j u id hu hq hrun
  have hne : id ≠ commandId := by
    rintro rfl
    have htu := hothers i t (Ne.symm hj) ht hid
    cases hr with
    | hit hsome => rw [hget] at hsome; cases hsome
    | miss _ htl _ _ =>
        have := hfirst htl hget j u hj hu hq
        rw [Task.not_untouched_of_running hrun] at this
        cases this
    | work htr => rw [Task.not_untouched_of_running htr] at htu; cases htu
    | panic htr => rw [Task.not_untouched_of_running htr] at htu; cases htu
    | store htr => rw [Task.not_untouched_of_running htr] at htu; cases htu
  constructor
  · cases hc : a'.commands.get id with
    | none => rfl
    | some c => rw [get_of_get_step hr hne hc] at hget; cases hget
  · intro k v hk hv hqv
    rcases getElem?_set_cases hv with ⟨rfl, rfl⟩ | ⟨-, hv⟩
    · rw [hid'] at hqv
      cases hqv
      exact absurd rfl hne
    · exact hothers k v hk hv hqv

/-- A result and the cache's entry under its id still agree. -/
theorem cached_step (h : OnceInv p done) (ht : p.threads[i]? = some t) {commandId : String}
    (hid : t.request = some commandId) (hid' : t'.request = some commandId)
    (hr : RequestStep commandId p.shared.commands a'.commands t t') :
    ∀ u ∈ p.threads.set i t', ∀ id r c, u.request = some id → u.result = some r →
      a'.commands.get id = some c → r.Agrees c := by
  intro u hu id r c hq hres hc
  rcases List.mem_or_eq_of_mem_set hu with hu | rfl
  · by_cases hne : id = commandId
    · subst hne
      cases hr with
      | hit _ _ _ hcmd => exact h.cached u hu id r c hq hres (by rwa [hcmd] at hc)
      | miss _ _ _ hcmd => exact h.cached u hu id r c hq hres (by rwa [hcmd] at hc)
      | work _ _ _ hcmd => exact h.cached u hu id r c hq hres (by rwa [hcmd] at hc)
      | panic _ _ _ hcmd => exact h.cached u hu id r c hq hres (by rwa [hcmd] at hc)
      | store htr =>
          rw [h.no_result_beside ht hid htr hu hq] at hres
          cases hres
    · exact h.cached u hu id r c hq hres (get_of_get_step hr hne hc)
  · rw [hid'] at hq
    cases hq
    cases hr with
    | hit hget _ ht' hcmd =>
        rw [hcmd, hget] at hc
        rw [ht'] at hres
        cases hc
        cases hres
        exact CommandResult.agrees_self r
    | miss _ _ ht' => rw [Task.result_of_running ht'] at hres; cases hres
    | work _ ht' => rw [Task.result_of_running ht'] at hres; cases hres
    | panic _ ht' => rw [Task.result_of_panicked ht'] at hres; cases hres
    | store _ ht' hrid _ hcmd =>
        rw [ht'] at hres
        cases hres
        rw [hcmd, ← hrid, CommandCache.get_store_self] at hc
        cases hc
        exact (CommandResult.agrees_replay r r).mpr (CommandResult.agrees_self r)

/-- What a request newly returns agrees with what others of its id returned. -/
theorem agree_new (h : OnceInv p done) (ht : p.threads[i]? = some t) {commandId : String}
    (hid : t.request = some commandId)
    (hr : RequestStep commandId p.shared.commands a'.commands t t')
    {v : Task} {r r' : CommandResult} (hv : v ∈ p.threads) (hq : v.request = some commandId)
    (hres : t'.result = some r) (hres' : v.result = some r') : r.Agrees r' := by
  cases hr with
  | hit hget _ ht' _ =>
      rw [ht'] at hres
      cases hres
      exact (h.cached v hv commandId r' r hq hres' hget).symm
  | miss _ _ ht' => rw [Task.result_of_running ht'] at hres; cases hres
  | work _ ht' => rw [Task.result_of_running ht'] at hres; cases hres
  | panic _ ht' => rw [Task.result_of_panicked ht'] at hres; cases hres
  | store htr =>
      rw [h.no_result_beside ht hid htr hv hq] at hres'
      cases hres'

variable [Wire W]

theorem spent_step (h : OnceInv p done) (ht : p.threads[i]? = some t)
    (hstep : t.step env p.shared = some (a', t')) :
    ∀ (j : Nat) (u : Task), (p.threads.set i t')[j]? = some u → ∀ act,
      (done ++ t.acts.map (Deed.mk i)).count ⟨j, act⟩ + u.left act ≤ 1 := by
  intro j u hu act
  rw [List.count_append]
  rcases getElem?_set_cases hu with ⟨rfl, rfl⟩ | ⟨hj, hu⟩
  · have hleft := step_left hstep act
    have hspent := h.spent j t ht act
    have hmap : (t.acts.map (Deed.mk j)).count ⟨j, act⟩ = t.acts.count act :=
      List.count_map_of_injective t.acts (Deed.mk j) (fun _ _ he => (Deed.mk.inj he).2) act
    omega
  · have hspent := h.spent j u hu act
    have hz : (t.acts.map (Deed.mk i)).count ⟨j, act⟩ = 0 := by
      refine List.count_eq_zero.mpr fun hd => ?_
      obtain ⟨_, -, he⟩ := List.mem_map.mp hd
      exact hj (Deed.mk.inj he).1.symm
    omega

/-- A step of the receive loop. -/
theorem wire_step (h : OnceInv p done) (ht : p.threads[i]? = some t)
    (hstep : t.step env p.shared = some (a', t')) (hnone : t.request = none) :
    OnceInv ⟨a', p.threads.set i t'⟩ (done ++ t.acts.map (Deed.mk i)) := by
  obtain ⟨hnone', hown, hcmd⟩ := wire_commands hstep hnone
  have hold : ∀ {u commandId}, u ∈ p.threads.set i t' → u.request = some commandId →
      u ∈ p.threads := by
    intro u commandId hu hq
    rcases List.mem_or_eq_of_mem_set hu with hu | rfl
    · exact hu
    · rw [hnone'] at hq
      cases hq
  have holdAt : ∀ {j : Nat} {u : Task} {commandId : String}, (p.threads.set i t')[j]? = some u →
      u.request = some commandId → p.threads[j]? = some u := by
    intro j u commandId hu hq
    rcases getElem?_set_cases hu with ⟨rfl, rfl⟩ | ⟨-, hu⟩
    · rw [hnone'] at hq
      cases hq
    · exact hu
  refine ⟨?_, h.placed_step ht, h.spent_step ht hstep,
    h.apart_step ht (hnone'.trans hnone.symm), ?_, ?_, ?_⟩
  · intro u hu
    rcases List.mem_or_eq_of_mem_set hu with hu | rfl
    · exact h.owned u hu
    · exact hown
  · intro j u commandId hu hq hr
    obtain ⟨hget, hothers⟩ := h.flight j u commandId (holdAt hu hq) hq hr
    exact ⟨by rw [hcmd]; exact hget, fun k v hk hv hqv => hothers k v hk (holdAt hv hqv) hqv⟩
  · intro u hu commandId r c hq hr hc
    exact h.cached u (hold hu hq) commandId r c hq hr (by rwa [hcmd] at hc)
  · intro u hu v hv commandId r r' hq hq' hr hr'
    exact h.agree u (hold hu hq) v (hold hv hq') commandId r r' hq hq' hr hr'

/-- A step of a request. -/
theorem request_step (h : OnceInv p done) (ht : p.threads[i]? = some t)
    (hstep : t.step env p.shared = some (a', t')) {commandId : String}
    (hid : t.request = some commandId)
    (hfirst : t.atLookup = true → p.shared.commands.get commandId = none →
      ∀ (j : Nat) (u : Task), j ≠ i → p.threads[j]? = some u →
        u.request = some commandId → u.untouched = true) :
    OnceInv ⟨a', p.threads.set i t'⟩ (done ++ t.acts.map (Deed.mk i)) := by
  obtain ⟨hid', hown, hr⟩ := Michoi.request_step hstep hid (h.owned t (List.mem_of_getElem? ht))
  refine ⟨?_, h.placed_step ht, h.spent_step ht hstep,
    h.apart_step ht (hid'.trans hid.symm), ?_, h.cached_step ht hid hid' hr, ?_⟩
  · intro u hu
    rcases List.mem_or_eq_of_mem_set hu with hu | rfl
    · exact h.owned u hu
    · exact hown
  · intro j u id hu hq hrun
    rcases getElem?_set_cases hu with ⟨rfl, rfl⟩ | ⟨hj, hu⟩
    · rw [hid'] at hq
      cases hq
      obtain ⟨hget, hothers⟩ := h.flight_self ht hid hr hfirst hrun
      exact ⟨hget, fun k v hk hv => hothers k v hk ((getElem?_set_other hk).symm.trans hv)⟩
    · exact h.flight_other ht hid hid' hr hfirst hj hu hq hrun
  · -- Two results: only the new one against an old one is new.
    intro u hu v hv id r r' hq hq' hres hres'
    rcases List.mem_or_eq_of_mem_set hu with hup | hut <;>
      rcases List.mem_or_eq_of_mem_set hv with hvp | hvt
    · exact h.agree u hup v hvp id r r' hq hq' hres hres'
    · rw [hvt] at hq' hres'
      rw [hid'] at hq'
      cases hq'
      exact (h.agree_new ht hid hr hup hq hres' hres).symm
    · rw [hut] at hq hres
      rw [hid'] at hq
      cases hq
      exact h.agree_new ht hid hr hvp hq' hres hres'
    · rw [hut] at hres
      rw [hvt, hres] at hres'
      cases hres'
      exact CommandResult.agrees_self r

theorem next {q : AgentPool W} {m : AgentMove} (h : OnceInv p done) (hok : LookupFirst p m)
    (hnext : (agentProgram W).system.next p m = some q) :
    OnceInv q (done ++ deeds p m q) := by
  rcases Program.next_cases hnext with
    ⟨l, rfl, hstart, rfl⟩ | ⟨i, env, t, a', t', rfl, ht, hstep, rfl⟩ | ⟨b, rfl, rfl⟩
  · rw [show deeds p (.start l) _ = [] from rfl, List.append_nil]
    exact h.start (Task.fresh_of_mayStart hstart)
  · have hd : deeds p (.step i env) ⟨a', p.threads.set i t'⟩ = t.acts.map (Deed.mk i) := by
      unfold deeds
      dsimp only
      rw [ht]
      rfl
    rw [hd]
    cases hid : t.request with
    | none => exact h.wire_step ht hstep hid
    | some commandId =>
        refine h.request_step ht hstep hid fun htl hget j u hj hu hq => ?_
        have hfirst := hok t ht commandId hid htl hget
        by_contra hl
        exact hfirst ⟨j, u, hj, hu, hq, by simpa using hl⟩
  · rw [show deeds p (.outside b) _ = [] from rfl, List.append_nil]
    exact h.outside (act_commands p.shared b)

end OnceInv

/-- **A command id is executed at most once.** In every run in which a lookup that finds
    nothing is the first of its id: the requests of an id, `execute` and
    `call_elevator_now` alike, run the locked region of at most one command and send at
    most one datagram between them, and all that have returned told their clients the
    same. -/
theorem executes_at_most_once {W : Type} [Wire W] (a : Agent W) (moves : List AgentMove)
    (q : AgentPool W) (done : List Deed)
    (hrun : ((agentProgram W).system.withHistory deeds).run (idlePool a, []) moves =
      some (q, done))
    (hfirst : ((agentProgram W).system.withHistory deeds).Meets (fun s m => LookupFirst s.1 m)
      (idlePool a, []) moves)
    (commandId : String) : ExecutedOnce q done commandId := by
  have hinv : OnceInv q done := by
    refine System.run_induction_noted (P := OnceInv) (fun p m q done h hok hn => ?_)
      (OnceInv.init a) hfirst hrun
    exact h.next hok hn
  exact hinv.executedOnce commandId

/-- A retry that comes when the first try has returned is answered from the cache. -/
theorem retry_after_return :
    ∃ s ∈ ((agentProgram TapWire).system.withHistory deeds).run (idlePool tapAgent, [])
        (callAlone 0 (fromDoor opRequest) 6 ++ callAlone 1 (.command .claim "c1" .lookup) 8 ++
          callAlone 2 (.command .claim "c1" .lookup) 1),
      ExecutedOnce s.1 s.2 "c1" := by
  have hend : (((agentProgram TapWire).system.withHistory deeds).run (idlePool tapAgent, [])
      (callAlone 0 (fromDoor opRequest) 6 ++ callAlone 1 (.command .claim "c1" .lookup) 8 ++
        callAlone 2 (.command .claim "c1" .lookup) 1)).isSome = true := by decide +kernel
  obtain ⟨s, hs⟩ := Option.isSome_iff_exists.mp hend
  exact ⟨s, hs, executes_at_most_once tapAgent _ s.1 s.2 hs (by decide +kernel) "c1"⟩

/-- A retry of an elevator call, made while the first one still waits for the door, sends a
    second datagram. A claim that is tried twice at once is accepted for one client and
    rejected for the other. -/
theorem retry_executes_twice :
    (∃ s ∈ ((agentProgram TapWire).system.withHistory deeds).run (idlePool tapAgent, [])
        (callAlone 0 (.elevator "e1" none .lookup) 5 ++
          callAlone 1 (.elevator "e1" none .lookup) 5),
      ¬ ExecutedOnce s.1 s.2 "e1") ∧
    ∃ s ∈ ((agentProgram TapWire).system.withHistory deeds).run (idlePool tapAgent, [])
        (callAlone 0 (fromDoor opRequest) 6 ++ callAlone 1 (.command .claim "c1" .lookup) 1 ++
          callAlone 2 (.command .claim "c1" .lookup) 1 ++ List.replicate 7 (.step 1 { }) ++
          List.replicate 4 (.step 2 { })),
      s.1.threads.map Task.result =
        [none, some (.accepted "c1"), some (.rejected "c1" .notRinging)] := by
  constructor
  · have hend : ∃ s ∈ ((agentProgram TapWire).system.withHistory deeds).run
        (idlePool tapAgent, [])
        (callAlone 0 (.elevator "e1" none .lookup) 5 ++
          callAlone 1 (.elevator "e1" none .lookup) 5),
        (s.2.countP fun d =>
          d.act = .datagram ∧ requestAt s.1.threads d.thread = some "e1") = 2 := by
      decide +kernel
    obtain ⟨s, hs, htwice⟩ := hend
    refine ⟨s, hs, fun h => ?_⟩
    have := h.once .datagram
    omega
  · decide +kernel

end Michoi
