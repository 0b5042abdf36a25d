/-
  Commands in the household: the idempotency cache holds results of commands that were called,
  so a command whose id no other command has is never answered from it (`Requested.run`).
-/
import Michoi.Household.Frame
import Michoi.Task.Request

namespace Michoi

open Lib

namespace HouseTask

/-- The command id of a request. -/
def request : HouseTask → Option String
  | agent t => t.request
  | _ => none

def atLookup : HouseTask → Bool
  | agent t => t.atLookup
  | _ => false

/-- What a request has returned. -/
def result : HouseTask → Option CommandResult
  | agent t => t.result
  | _ => none

def Owned : HouseTask → Prop
  | agent t => t.Owned
  | _ => True

/-- The request's result is its own, not one from the cache. -/
def Genuine : HouseTask → Prop
  | agent t => (∀ r ∈ t.stores, r.replayed = false) ∧ ∀ r ∈ t.result, r.replayed = false
  | _ => True

theorem owned_of_fresh {t : HouseTask} (h : t.fresh = true) : t.Owned := by
  cases t with
  | agent t => exact Task.owned_of_fresh h
  | _ => trivial

theorem genuine_of_fresh {t : HouseTask} (h : t.fresh = true) : t.Genuine := by
  cases t with
  | agent t =>
      cases t with
      | command action commandId pc =>
          cases pc with
          | lookup => exact ⟨nofun, nofun⟩
          | _ => cases h
      | elevator commandId room pc =>
          cases pc with
          | lookup => exact ⟨nofun, nofun⟩
          | _ => cases h
      | wire => exact ⟨nofun, nofun⟩
  | _ => trivial

end HouseTask

section

variable {W : Type} [Wire W] {env : HouseEnv} {h h' : Household W} {t t' : HouseTask}

omit [Wire W] in
theorem stopMonitorNow_commands (a : Agent W) : a.stopMonitorNow.commands = a.commands := by
  unfold Agent.stopMonitorNow
  split <;> rfl

omit [Wire W] in
theorem takeCallSession_commands (a : Agent W) :
    a.takeCallSession.2.commands = a.commands := by
  unfold Agent.takeCallSession
  split <;> rfl

/-- Only commands touch the cache. -/
theorem house_commands (hs : HouseStep env h t h' t') (hno : t.request = none) :
    t'.request = none ∧ h'.agent.commands = h.agent.commands := by
  cases hs with
  | @wire _ _ pc a pc' ht ht' hw =>
      refine ⟨?_, ?_⟩
      · cases t' with
        | agent t' =>
            cases t' with
            | wire => rfl
            | _ => cases ht'
        | _ => rfl
      · have hstep : (Task.wire pc).step env.toEnv h.agent = some (a, .wire pc') := by
          change (wireStep env.toEnv h.agent pc).map _ = _
          rw [hw]
          rfl
        exact (wire_commands hstep rfl).2.2
  | command | elevator => cases hno
  | monitor hm =>
      refine ⟨rfl, ?_⟩
      cases hm with
      | replace => exact stopMonitorNow_commands _
      | _ => rfl
  | stop => exact ⟨rfl, stopMonitorNow_commands _⟩
  | hangup hh =>
      refine ⟨rfl, ?_⟩
      cases hh with
      | take => exact takeCallSession_commands _
      | _ => rfl
  | dial hs => exact ⟨rfl, by cases hs <;> rfl⟩
  | talk hs => exact ⟨rfl, by cases hs <;> rfl⟩
  | video hs => exact ⟨rfl, by cases hs <;> rfl⟩
  | keepalive hs => exact ⟨rfl, by cases hs <;> rfl⟩
  | datagram hs => exact ⟨rfl, by cases hs <;> rfl⟩

omit [Wire W] in
theorem learning_commands (a : Agent W) (l : Learning) : (l.act a).commands = a.commands := by
  cases l <;> rfl

end

section

variable {W : Type} [Wire W] {env : Env} {a a' : Agent W} {t t' : Task}

/-- A request that does not find its id in the cache gets a result of its own. -/
theorem genuine_step {commandId : String} (h : t.step env a = some (a', t'))
    (hid : t.request = some commandId) (hg : (HouseTask.agent t).Genuine)
    (hmiss : t.atLookup = true → a.commands.get commandId = none) :
    (HouseTask.agent t').Genuine := by
  cases t with
  | command action id pc =>
      obtain ⟨pc', rfl, hs⟩ := step_command h
      cases hid
      cases hs with
      | replay hget => cases hget.symm.trans (hmiss rfl)
      | store => exact ⟨nofun, hg.1⟩
      | refuse | unpacked | unsent | publish =>
          refine ⟨fun r hr => ?_, nofun⟩
          cases hr
          rfl
      | _ => exact ⟨nofun, nofun⟩
  | elevator id room pc =>
      obtain ⟨pc', rfl, hs⟩ := step_elevator h
      cases hid
      cases hs with
      | replay hget => cases hget.symm.trans (hmiss rfl)
      | store => exact ⟨nofun, hg.1⟩
      | noDoor | unfired | timedOut | publish =>
          refine ⟨fun r hr => ?_, nofun⟩
          cases hr
          rfl
      | _ => exact ⟨nofun, nofun⟩
  | wire => cases hid

/-- After its first step a request is past its lookup. -/
theorem not_atLookup_of_step {commandId : String} {c c' : CommandCache}
    (hr : RequestStep commandId c c' t t') : t'.atLookup = false := by
  have hresult {r : CommandResult} (h : t'.result = some r) : t'.atLookup = false := by
    by_contra hl
    rw [Task.result_of_atLookup ((Bool.not_eq_false _).mp hl)] at h
    cases h
  cases hr with
  | hit _ _ h => exact hresult h
  | miss _ _ h => exact Task.not_atLookup_of_running h
  | work _ h => exact Task.not_atLookup_of_running h
  | panic _ h =>
      cases t' with
      | elevator _ _ pc =>
          cases pc with
          | panicked => rfl
          | _ => cases h
      | _ => cases h
  | store _ h => exact hresult h

end

/-! ## A run -/

/-- Every result in the cache is that of a command that was called, and a command that has its
    id for itself gets a result of its own. -/
structure Requested {W : Type} (p : HousePool W) : Prop where
  owned : ∀ t ∈ p.threads, t.Owned
  cached : ∀ id r, p.shared.agent.commands.get id = some r →
    ∃ t ∈ p.threads, t.request = some id ∧ t.atLookup = false
  genuine : ∀ t ∈ p.threads, ∀ id, t.request = some id →
    AtMostOne (fun u => u.request = some id) p.threads → t.Genuine

namespace Requested

variable {W : Type} [Wire W] {mode : AgentMode} {p q : HousePool W} {m : HouseMove}

omit [Wire W] in
theorem start {a : Agent W} (ha : a.commands = .new 256) : Requested (idleHouse a) where
  owned _ h := absurd h List.not_mem_nil
  cached id r h := by
    change a.commands.get id = some r at h
    rw [ha] at h
    cases h
  genuine _ h := absurd h List.not_mem_nil

omit [Wire W] in
/-- A handler that was just called. -/
theorem append {t : HouseTask} (hp : Requested p) (ht : t.fresh = true) :
    Requested ⟨p.shared, p.threads ++ [t]⟩ where
  owned u hu := by
    rcases List.mem_append.mp hu with hu | hu
    · exact hp.owned u hu
    · exact List.mem_singleton.mp hu ▸ HouseTask.owned_of_fresh ht
  cached id r h := by
    obtain ⟨u, hu, hreq⟩ := hp.cached id r h
    exact ⟨u, List.mem_append_left _ hu, hreq⟩
  genuine u hu id hreq hone := by
    rcases List.mem_append.mp hu with hu | hu
    · exact hp.genuine u hu id hreq hone.of_append
    · exact List.mem_singleton.mp hu ▸ HouseTask.genuine_of_fresh ht

/-- A command steps. -/
theorem step_request {i : Nat} {env : Env} {t t' : Task} {h' : Household W} {a : Agent W}
    (hp : Requested p) (ht : p.threads[i]? = some (.agent t))
    (hs : t.step env p.shared.agent = some (a, t')) {commandId : String}
    (hid : t.request = some commandId) (ha : h'.agent = a) :
    Requested ⟨h', p.threads.set i (.agent t')⟩ := by
  have hmem := List.mem_of_getElem? ht
  obtain ⟨hid', howned, hr⟩ := request_step hs hid (hp.owned _ hmem)
  have hpast := not_atLookup_of_step hr
  have hself : HouseTask.agent t' ∈ p.threads.set i (.agent t') :=
    List.mem_of_getElem? (getElem?_set_self ht)
  have hkeep {id : String} (hbefore : ∃ u ∈ p.threads, u.request = some id ∧ u.atLookup = false) :
      ∃ u ∈ p.threads.set i (.agent t'), u.request = some id ∧ u.atLookup = false :=
    exists_set hbefore ht fun hQ => ⟨hid'.trans (hid.symm.trans hQ.1), hpast⟩
  refine ⟨fun u hu => ?_, fun id r hget => ?_, fun u hu id hreq hone => ?_⟩
  · rcases List.mem_or_eq_of_mem_set hu with hu | rfl
    · exact hp.owned u hu
    · exact howned
  · change h'.agent.commands.get id = some r at hget
    rw [ha] at hget
    by_cases heq : id = commandId
    · exact ⟨_, hself, heq ▸ hid', hpast⟩
    · cases hr with
      | hit _ _ _ hc | miss _ _ _ hc | work _ _ _ hc | panic _ _ _ hc =>
          exact hkeep (hp.cached id r (hc ▸ hget))
      | store _ _ hrid _ hc =>
          rw [hc] at hget
          exact hkeep (hp.cached id r (CommandCache.get_of_get_store (hrid ▸ heq) hget))
  · have hback : AtMostOne (fun u => u.request = some id) p.threads :=
      hone.of_set ht fun hreq' => hid'.trans (hid.symm.trans hreq')
    rcases List.mem_or_eq_of_mem_set hu with hu | rfl
    · exact hp.genuine u hu id hreq hback
    · obtain rfl : commandId = id := Option.some.inj (hid'.symm.trans hreq)
      refine genuine_step hs hid (hp.genuine _ hmem commandId hid hback) fun hlookup => ?_
      by_contra hsome
      obtain ⟨r, hget⟩ := Option.ne_none_iff_exists'.mp hsome
      obtain ⟨v, hv, hvid, hvpast⟩ := hp.cached commandId r hget
      -- The command that the result is of has the id, so it is the one that looks it up.
      obtain rfl := hback.eq hmem hv hid hvid
      cases hlookup.symm.trans hvpast

/-- Another handler steps. -/
theorem step_other {i : Nat} {env : HouseEnv} {t t' : HouseTask} {h' : Household W}
    (hp : Requested p) (ht : p.threads[i]? = some t) (hs : HouseStep env p.shared t h' t')
    (hno : t.request = none) : Requested ⟨h', p.threads.set i t'⟩ := by
  obtain ⟨hno', hcommands⟩ := house_commands hs hno
  have hplain {u : HouseTask} (h : u.request = none) : u.Owned := by
    cases u with
    | agent u =>
        cases u with
        | wire => trivial
        | _ => cases h
    | _ => trivial
  refine ⟨fun u hu => ?_, fun id r hget => ?_, fun u hu id hreq hone => ?_⟩
  · rcases List.mem_or_eq_of_mem_set hu with hu | rfl
    · exact hp.owned u hu
    · exact hplain hno'
  · have hbefore := hp.cached id r (hcommands ▸ hget)
    exact exists_set hbefore ht fun hQ => by rw [hno] at hQ; cases hQ.1
  · rcases List.mem_or_eq_of_mem_set hu with hu | rfl
    · refine hp.genuine u hu id hreq (hone.of_set ht fun hreq' => ?_)
      rw [hno] at hreq'
      cases hreq'
    · rw [hno'] at hreq
      cases hreq

/-- **One move of the household.** -/
theorem next (hp : Requested p) (hq : (houseProgram mode W).system.next p m = some q) : Requested q := by
  rcases Program.next_cases hq with
    ⟨t, rfl, hmay, rfl⟩ | ⟨i, env, t, h', t', rfl, ht, hstep, rfl⟩ | ⟨l, rfl, rfl⟩
  · exact hp.append (HouseTask.fresh_of_mayStart hmay)
  · cases hreq : t.request with
    | none => exact hp.step_other ht (houseStep_cases hstep) hreq
    | some commandId =>
        cases t with
        | agent t =>
            obtain ⟨⟨a, u⟩, hu, heq⟩ := Option.map_eq_some_iff.mp hstep
            obtain ⟨rfl, rfl⟩ := Prod.mk.inj heq
            exact hp.step_request ht hu hreq rfl
        | _ => cases hreq
  · refine ⟨hp.owned, fun id r hget => hp.cached id r ?_, hp.genuine⟩
    cases mode with
    | pad => exact hget
    | tap => exact learning_commands p.shared.agent l ▸ hget

theorem run {a : Agent W} (ha : a.commands = .new 256) {moves : List HouseMove}
    (hrun : (houseProgram mode W).system.run (idleHouse a) moves = some p) : Requested p :=
  System.run_induction (fun _ _ _ hp hq => hp.next hq) (start ha) hrun

end Requested

end Michoi
