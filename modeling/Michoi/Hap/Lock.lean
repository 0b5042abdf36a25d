/-
  HomeKit opens the door when it was asked to, and no more often.

  Each number of the controller's commands is used once, so none of its commands is answered
  from the Agent's cache (`HapIds.genuine`). `Driven` counts them against what HomeKit wrote,
  and `homekit_opens_when_asked` is what holds in every run, next to all other clients of the
  household: the lock shows open only after an unlock packet went to the door.
-/
import Michoi.Hap
import Michoi.Household.Ledger
import Michoi.Lib.Refinement
import Std.Data.String.ToNat

namespace Michoi

open Lib

variable {W : Type}

/-! ## The commands of the controller -/

namespace HouseTask

/-- A command with an id as the controller makes them. -/
def ofHap (t : HouseTask) : Bool := t.request.any fun id => "hap-".toList.isPrefixOf id.toList

/-- An unlock command of the controller. -/
def hapUnlock : HouseTask → Bool
  | agent (.command .unlock commandId pc) => (agent (.command .unlock commandId pc)).ofHap
  | _ => false

/-- An elevator call of the controller. -/
def hapElevator : HouseTask → Bool
  | agent (.elevator commandId room pc) => (agent (.elevator commandId room pc)).ofHap
  | _ => false

theorem ofHap_of_request {t : HouseTask} {kind : HapKind} {n : UInt32}
    (h : t.request = some (hapId kind n)) : t.ofHap = true := by
  unfold ofHap
  rw [h, Option.any_some, List.isPrefixOf_iff_prefix]
  unfold hapId
  rw [String.toList_append, String.toList_append, String.toList_append, List.append_assoc,
    List.append_assoc]
  exact List.prefix_append ..

theorem not_hapUnlock {t : HouseTask} (h : t.ofHap = false) : t.hapUnlock = false := by
  unfold hapUnlock
  split
  · exact h
  · rfl

theorem not_hapElevator {t : HouseTask} (h : t.ofHap = false) : t.hapElevator = false := by
  unfold hapElevator
  split
  · exact h
  · rfl

end HouseTask

theorem hapId_injective {kind kind' : HapKind} {n n' : UInt32}
    (h : hapId kind n = hapId kind' n') : kind = kind' ∧ n = n' := by
  have hlist := congrArg String.toList h
  unfold hapId at hlist
  simp only [String.toList_append, List.append_assoc, List.append_cancel_left_eq] at hlist
  have hkind : kind = kind' := by
    cases kind <;> cases kind' <;> first | rfl | simp [HapKind.name] at hlist
  subst hkind
  simp only [List.append_cancel_left_eq] at hlist
  exact ⟨rfl, UInt32.toNat_inj.mp (Nat.repr_injective (String.toList_inj.mp hlist))⟩

section

variable [Wire W] {env : HouseEnv} {h h' : Household W} {t t' : HouseTask}

omit [Wire W] in
theorem request_of_wirePc {u : HouseTask} {pc : WirePc} (hu : u.wirePc = some pc) :
    u.request = none := by
  cases u with
  | agent u =>
      cases u with
      | wire => rfl
      | _ => cases hu
  | _ => rfl

/-- A handler stays the one that was called. -/
theorem request_of_step (hs : HouseStep env h t h' t') : t'.request = t.request := by
  cases hs with
  | wire ht ht' => exact (request_of_wirePc ht').trans (request_of_wirePc ht).symm
  | _ => rfl

theorem ofHap_of_step (hs : HouseStep env h t h' t') : t'.ofHap = t.ofHap := by
  unfold HouseTask.ofHap
  rw [request_of_step hs]

omit [Wire W] in
theorem not_ofHap_of_wirePc {u : HouseTask} {pc : WirePc} (hu : u.wirePc = some pc) :
    u.ofHap = false := by
  unfold HouseTask.ofHap
  rw [request_of_wirePc hu]
  rfl

theorem hapUnlock_of_step (hs : HouseStep env h t h' t') : t'.hapUnlock = t.hapUnlock := by
  cases hs with
  | wire ht ht' =>
      rw [HouseTask.not_hapUnlock (not_ofHap_of_wirePc ht),
        HouseTask.not_hapUnlock (not_ofHap_of_wirePc ht')]
  | @command action => cases action <;> rfl
  | _ => rfl

theorem hapElevator_of_step (hs : HouseStep env h t h' t') :
    t'.hapElevator = t.hapElevator := by
  cases hs with
  | wire ht ht' =>
      rw [HouseTask.not_hapElevator (not_ofHap_of_wirePc ht),
        HouseTask.not_hapElevator (not_ofHap_of_wirePc ht')]
  | _ => rfl

/-- What was carried out stays so. -/
theorem carriedOut_of_step {action : CallAction} (hs : HouseStep env h t h' t')
    (hc : t.carriedOut action = true) : t'.carriedOut action = true := by
  cases hs with
  | wire ht =>
      cases t with
      | agent t =>
          cases t with
          | wire => cases hc
          | _ => cases ht
      | _ => cases hc
  | command hs =>
      obtain ⟨haction, hpc⟩ := Bool.and_eq_true_iff.mp hc
      refine Bool.and_eq_true_iff.mpr ⟨haction, ?_⟩
      cases hs with
      | notify | publish => rfl
      | store => exact hpc
      | _ => cases hpc
  | _ => cases hc

end

/-- A command of the controller that went out is carried out when it has returned. -/
theorem carriedOut_of_result {t : HouseTask} {r : CommandResult} (h : t.hapUnlock = true)
    (hr : t.result = some r) (hok : r.ok = true) (hg : t.Genuine) :
    t.carriedOut .unlock = true := by
  unfold HouseTask.hapUnlock at h
  split at h
  · next commandId pc =>
      cases pc with
      | done result =>
          obtain rfl : result = r := Option.some.inj hr
          have hnew : result.replayed = false := hg.2 result rfl
          change (result.ok && !result.replayed) = true
          rw [hok, hnew]
          rfl
      | _ => cases hr
  · cases h

/-! ## The handlers after a move -/

/-- A step that changes nothing of its handler that is counted. -/
theorem countP_set_same {tasks : List HouseTask} {i : Nat} {u u' : HouseTask}
    {f : HouseTask → Bool} (hu : tasks[i]? = some u) (hf : f u' = f u) :
    (tasks.set i u').countP f = tasks.countP f := by
  have hcount : (tasks.set i u').countP f + (f u).toNat = tasks.countP f + (f u').toNat :=
    countP_set f hu
  rw [hf] at hcount
  omega

theorem countP_snoc {ι : Type} (f : ι → Bool) (xs : List ι) (x : ι) :
    (xs ++ [x]).countP f = xs.countP f + (f x).toNat := by
  rw [List.countP_append, List.countP_singleton, Bool.toNat, Bool.cond_eq_ite]

theorem countP_append_not {tasks : List HouseTask} {u : HouseTask} {f : HouseTask → Bool}
    (hf : f u = false) : (tasks ++ [u]).countP f = tasks.countP f := by
  rw [countP_snoc, hf]
  rfl

/-- The unlock command at this place is the controller's last. -/
structure LastUnlock (tasks : List HouseTask) (place : Nat) (t : HouseTask) : Prop where
  at_place : tasks[place]? = some t
  unlock : t.hapUnlock = true
  last : ∀ (later : Nat) u, place < later → tasks[later]? = some u → u.hapUnlock = false

/-- No unlock command of the controller has come, and what was carried out still is. -/
structure Onward (tasks tasks' : List HouseTask) : Prop where
  forth : ∀ (i : Nat) t, tasks[i]? = some t → ∃ t', tasks'[i]? = some t' ∧
    t'.hapUnlock = t.hapUnlock ∧ (t.carriedOut .unlock = true → t'.carriedOut .unlock = true)
  back : ∀ (i : Nat) t', tasks'[i]? = some t' → t'.hapUnlock = true →
    ∃ t, tasks[i]? = some t ∧ t.hapUnlock = true
  count : tasks'.countP HouseTask.hapUnlock = tasks.countP HouseTask.hapUnlock

theorem LastUnlock.onward {tasks tasks' : List HouseTask} {place : Nat} {t : HouseTask}
    (h : LastUnlock tasks place t) (ho : Onward tasks tasks') : ∃ t', LastUnlock tasks' place t' ∧
      (t.carriedOut .unlock = true → t'.carriedOut .unlock = true) := by
  obtain ⟨t', ht', hunlock, hcarried⟩ := ho.forth place t h.at_place
  refine ⟨t', ⟨ht', hunlock.trans h.unlock, fun later u hlt hu => ?_⟩, hcarried⟩
  by_contra hne
  obtain ⟨v, hv, hvu⟩ := ho.back later u hu ((Bool.not_eq_false _).mp hne)
  rw [h.last later v hlt hv] at hvu
  cases hvu

/-- The command that was just called. -/
theorem LastUnlock.called {tasks : List HouseTask} {t : HouseTask} (ht : t.hapUnlock = true) :
    LastUnlock (tasks ++ [t]) tasks.length t where
  at_place := List.getElem?_concat_length
  unlock := ht
  last later u hlt hu := by
    have hlen := (List.getElem?_eq_some_iff.mp hu).1
    rw [List.length_append, List.length_singleton] at hlen
    omega

namespace Onward

theorem refl (tasks : List HouseTask) : Onward tasks tasks where
  forth _ t ht := ⟨t, ht, rfl, fun h => h⟩
  back _ t' ht' h := ⟨t', ht', h⟩
  count := rfl

theorem append {tasks : List HouseTask} {u : HouseTask} (hu : u.hapUnlock = false) :
    Onward tasks (tasks ++ [u]) where
  forth i t ht := ⟨t, getElem?_append_of_some ht, rfl, fun h => h⟩
  back i t' ht' hunlock := by
    rcases getElem?_append_cases ht' with ⟨-, rfl⟩ | ht
    · rw [hu] at hunlock
      cases hunlock
    · exact ⟨t', ht, hunlock⟩
  count := countP_append_not hu

theorem set {tasks : List HouseTask} {i : Nat} {u u' : HouseTask}
    (hu : tasks[i]? = some u) (hunlock : u'.hapUnlock = u.hapUnlock)
    (hcarried : u.carriedOut .unlock = true → u'.carriedOut .unlock = true) :
    Onward tasks (tasks.set i u') where
  forth j t ht := by
    by_cases hj : j = i
    · subst hj
      obtain rfl := Option.some.inj (hu.symm.trans ht)
      exact ⟨u', getElem?_set_self hu, hunlock, hcarried⟩
    · exact ⟨t, (getElem?_set_other hj).trans ht, rfl, fun h => h⟩
  back j t' ht' htrue := by
    rcases getElem?_set_cases ht' with ⟨rfl, rfl⟩ | ⟨-, ht⟩
    · exact ⟨u, hu, hunlock ▸ htrue⟩
    · exact ⟨t', ht, htrue⟩
  count := countP_set_same hu hunlock

end Onward

/-! ## The ids of the controller -/

/-- The next number is new: no command of the controller has it or a later one, and no two
    have the same. -/
structure HapIds (seq : UInt32) (tasks : List HouseTask) : Prop where
  seq_eq : seq = UInt32.ofNat (tasks.countP HouseTask.ofHap + 1)
  numbered : ∀ t ∈ tasks, t.ofHap = true → ∃ kind n, t.request = some (hapId kind n) ∧
    n.toNat ≤ tasks.countP HouseTask.ofHap
  once : ∀ kind n, AtMostOne (fun t => t.request = some (hapId kind n)) tasks

namespace HapIds

variable {seq : UInt32} {tasks : List HouseTask}

theorem start : HapIds 1 [] where
  seq_eq := by rw [List.countP_nil]; rfl
  numbered _ h := absurd h List.not_mem_nil
  once _ _ := .nil

theorem set {i : Nat} {u u' : HouseTask} (h : HapIds seq tasks) (hu : tasks[i]? = some u)
    (hreq : u'.request = u.request) : HapIds seq (tasks.set i u') := by
  have hhap : u'.ofHap = u.ofHap := by
    unfold HouseTask.ofHap
    rw [hreq]
  have hcount := countP_set_same hu hhap
  refine ⟨hcount ▸ h.seq_eq, fun t ht hof => ?_, fun kind n => (h.once kind n).set hu ?_⟩
  · rw [hcount]
    rcases List.mem_or_eq_of_mem_set ht with ht | rfl
    · exact h.numbered t ht hof
    · rw [hreq]
      exact h.numbered u (List.mem_of_getElem? hu) (hhap ▸ hof)
  · intro hid
    exact hreq ▸ hid

theorem append {u : HouseTask} (h : HapIds seq tasks) (hu : u.ofHap = false) :
    HapIds seq (tasks ++ [u]) := by
  have hcount : (tasks ++ [u]).countP HouseTask.ofHap = tasks.countP HouseTask.ofHap :=
    countP_append_not hu
  refine ⟨hcount ▸ h.seq_eq, fun t ht hof => ?_, fun kind n => (h.once kind n).append ?_⟩
  · rw [hcount]
    rcases List.mem_append.mp ht with ht | ht
    · exact h.numbered t ht hof
    · rw [List.mem_singleton.mp ht, hu] at hof
      cases hof
  · intro hid
    rw [HouseTask.ofHap_of_request hid] at hu
    cases hu

/-- The controller's own command, as long as it has numbers. -/
theorem call (h : HapIds seq tasks) (kind : HapKind)
    (hfew : tasks.countP HouseTask.ofHap + 1 < 2 ^ 32) :
    HapIds (seq + 1) (tasks ++ [.agent (kind.task (hapId kind seq))]) := by
  have hseq : seq.toNat = tasks.countP HouseTask.ofHap + 1 := by
    rw [h.seq_eq, UInt32.toNat_ofNat_of_lt' hfew]
  have hreq : (HouseTask.agent (kind.task (hapId kind seq))).request = some (hapId kind seq) := by
    cases kind <;> rfl
  have hcount : (tasks ++ [HouseTask.agent (kind.task (hapId kind seq))]).countP
      HouseTask.ofHap = tasks.countP HouseTask.ofHap + 1 := by
    rw [countP_snoc, HouseTask.ofHap_of_request hreq]
    rfl
  refine ⟨?_, fun t ht hof => ?_, fun kind' n => (h.once kind' n).append fun hid t ht ht' => ?_⟩
  · rw [hcount, UInt32.ofNat_add _ 1, ← h.seq_eq]
    rfl
  · rw [hcount]
    rcases List.mem_append.mp ht with ht | ht
    · obtain ⟨kind', n, hid, hn⟩ := h.numbered t ht hof
      exact ⟨kind', n, hid, Nat.le_succ_of_le hn⟩
    · exact ⟨kind, seq, List.mem_singleton.mp ht ▸ hreq, hseq.le⟩
  · -- The number is above all that were used.
    obtain ⟨-, rfl⟩ := hapId_injective (Option.some.inj (hreq.symm.trans hid))
    obtain ⟨kind₀, n, hn, hle⟩ := h.numbered t ht (HouseTask.ofHap_of_request ht')
    obtain ⟨-, rfl⟩ := hapId_injective (Option.some.inj (hn.symm.trans ht'))
    omega

/-- No command of the controller is answered from the cache. -/
theorem genuine {p : HousePool W} (h : HapIds seq p.threads) (hp : Requested p) {t : HouseTask}
    (ht : t ∈ p.threads) (hof : t.ofHap = true) : t.Genuine := by
  obtain ⟨kind, n, hid, -⟩ := h.numbered t ht hof
  exact hp.genuine t ht _ hid (h.once kind n)

end HapIds

/-- The last unlock command of the controller sent its packet to the door. -/
def Opened (tasks : List HouseTask) : Prop :=
  ∃ place t, LastUnlock tasks place t ∧ t.carriedOut .unlock = true

theorem Opened.onward {tasks tasks' : List HouseTask} (h : Opened tasks)
    (ho : Onward tasks tasks') : Opened tasks' := by
  obtain ⟨place, t, hlast, hcarried⟩ := h
  obtain ⟨t', hlast', hkeep⟩ := hlast.onward ho
  exact ⟨place, t', hlast', hkeep hcarried⟩

/-- Only handlers of others have moved. -/
structure Aside (tasks tasks' : List HouseTask) : Prop where
  onward : Onward tasks tasks'
  elevators : tasks'.countP HouseTask.hapElevator = tasks.countP HouseTask.hapElevator
  issued : tasks'.countP HouseTask.ofHap = tasks.countP HouseTask.ofHap
  ids : ∀ seq, HapIds seq tasks → HapIds seq tasks'

namespace HomeKit

/-- The commands of the controller so far. -/
def issued (s : HomeKit W) : Nat := s.house.threads.countP HouseTask.ofHap

def unlocks (s : HomeKit W) : Nat := s.house.threads.countP HouseTask.hapUnlock

def elevators (s : HomeKit W) : Nat := s.house.threads.countP HouseTask.hapElevator

end HomeKit

namespace HomeKitMove

/-- HomeKit asks for the door. -/
def opens : HomeKitMove → Bool
  | write target => target == lockUnsecured
  | _ => false

/-- HomeKit asks for the elevator. -/
def calls : HomeKitMove → Bool
  | flip on => on
  | _ => false

/-- Other clients use other ids. -/
def Others : HomeKitMove → Prop
  | house (.start t) => t.ofHap = false
  | _ => True

theorem others_aside [Wire W] {mode : AgentMode} {p q : HousePool W} {m : HouseMove}
    (hm : (house m).Others) (hq : (houseProgram mode W).system.next p m = some q) :
    Aside p.threads q.threads := by
  rcases Program.next_cases hq with
    ⟨t, rfl, -, rfl⟩ | ⟨i, env, t, h', t', rfl, ht, hstep, rfl⟩ | ⟨l, rfl, rfl⟩
  · exact ⟨.append (HouseTask.not_hapUnlock hm),
      countP_append_not (HouseTask.not_hapElevator hm), countP_append_not hm,
      fun _ h => h.append hm⟩
  · have hs := houseStep_cases hstep
    exact ⟨.set ht (hapUnlock_of_step hs) (carriedOut_of_step hs),
      countP_set_same ht (hapElevator_of_step hs), countP_set_same ht (ofHap_of_step hs),
      fun _ h => h.set ht (request_of_step hs)⟩
  · exact ⟨.refl _, rfl, rfl, fun _ h => h⟩

end HomeKitMove

/-! ## The two tasks -/

/-- What the lock shows and how many unlock commands there are, for where its task stands.
    `writes` is how often HomeKit asked for the door. -/
def LockOk (pc : LockPc) (current target : UInt8) (tasks : List HouseTask) (writes : Nat) : Prop :=
  match pc with
  | .poll last => last ≠ lockUnsecured ∧ current = lockSecured ∧
      tasks.countP HouseTask.hapUnlock + (target == lockUnsecured).toNat ≤ writes
  | .claim | .claiming _ | .unlock => current = lockSecured ∧
      tasks.countP HouseTask.hapUnlock + 1 ≤ writes
  | .unlocking place => current = lockSecured ∧ tasks.countP HouseTask.hapUnlock ≤ writes ∧
      ∃ t, LastUnlock tasks place t
  | .tell ok => current = lockSecured ∧ tasks.countP HouseTask.hapUnlock ≤ writes ∧
      (ok = true → Opened tasks)
  | .relock => tasks.countP HouseTask.hapUnlock ≤ writes ∧
      (current = lockUnsecured → Opened tasks)

/-- How many elevator calls there are, for where the task of the switch stands. -/
def SwitchOk (pc : SwitchPc) (power : Bool) (tasks : List HouseTask) (flips : Nat) : Prop :=
  match pc with
  | .poll last => last = false ∧
      tasks.countP HouseTask.hapElevator + power.toNat ≤ flips
  | .call => tasks.countP HouseTask.hapElevator + 1 ≤ flips
  | .calling _ | .reset => tasks.countP HouseTask.hapElevator ≤ flips

namespace LockOk

variable {pc : LockPc} {current target : UInt8} {tasks tasks' : List HouseTask} {writes : Nat}

theorem onward (h : LockOk pc current target tasks writes) (ho : Onward tasks tasks') :
    LockOk pc current target tasks' writes := by
  have hcount := ho.count
  cases pc with
  | poll => exact ⟨h.1, h.2.1, hcount ▸ h.2.2⟩
  | claim | claiming | unlock => exact ⟨h.1, hcount ▸ h.2⟩
  | unlocking =>
      obtain ⟨t, hlast⟩ := h.2.2
      obtain ⟨t', hlast', -⟩ := hlast.onward ho
      exact ⟨h.1, hcount ▸ h.2.1, t', hlast'⟩
  | tell => exact ⟨h.1, hcount ▸ h.2.1, fun hok => (h.2.2 hok).onward ho⟩
  | relock => exact ⟨hcount ▸ h.1, fun hopen => (h.2 hopen).onward ho⟩

/-- HomeKit writes the target. -/
theorem write (h : LockOk pc current target tasks writes) (target' : UInt8) :
    LockOk pc current target' tasks (writes + (target' == lockUnsecured).toNat) := by
  cases pc with
  | poll =>
      obtain ⟨hlast, hcurrent, hle⟩ := h
      exact ⟨hlast, hcurrent, by omega⟩
  | claim | claiming | unlock => exact ⟨h.1, Nat.le_add_right_of_le h.2⟩
  | unlocking | tell => exact ⟨h.1, Nat.le_add_right_of_le h.2.1, h.2.2⟩
  | relock => exact ⟨Nat.le_add_right_of_le h.1, h.2⟩

theorem count_le (h : LockOk pc current target tasks writes) :
    tasks.countP HouseTask.hapUnlock ≤ writes := by
  cases pc with
  | poll => exact Nat.le_of_add_right_le h.2.2
  | claim | claiming | unlock => exact Nat.le_of_succ_le h.2
  | unlocking | tell => exact h.2.1
  | relock => exact h.1

theorem opened (h : LockOk pc current target tasks writes) (hopen : current = lockUnsecured) :
    Opened tasks := by
  cases pc with
  | poll => exact absurd (h.2.1.symm.trans hopen) (by decide)
  | claim | claiming | unlock | unlocking | tell =>
      exact absurd (h.1.symm.trans hopen) (by decide)
  | relock => exact h.2 hopen

end LockOk

namespace SwitchOk

variable {pc : SwitchPc} {power : Bool} {tasks tasks' : List HouseTask} {flips : Nat}

theorem of_count (h : SwitchOk pc power tasks flips)
    (hcount : tasks'.countP HouseTask.hapElevator = tasks.countP HouseTask.hapElevator) :
    SwitchOk pc power tasks' flips := by
  unfold SwitchOk at h ⊢
  rw [hcount]
  exact h

/-- HomeKit writes the switch. -/
theorem flip (h : SwitchOk pc power tasks flips) (on : Bool) :
    SwitchOk pc on tasks (flips + on.toNat) := by
  cases pc with
  | poll =>
      obtain ⟨hlast, hle⟩ := h
      exact ⟨hlast, by omega⟩
  | call | calling | reset => exact Nat.le_add_right_of_le h

theorem count_le (h : SwitchOk pc power tasks flips) :
    tasks.countP HouseTask.hapElevator ≤ flips := by
  cases pc with
  | poll => exact Nat.le_of_add_right_le h.2
  | call => exact Nat.le_of_succ_le h
  | calling | reset => exact h

end SwitchOk

/-! ## A run -/

/-- The controller's commands, counted against what HomeKit asked for. -/
structure Driven (writes flips : Nat) (s : HomeKit W) : Prop where
  asked : Requested s.house
  ids : HapIds s.seq s.house.threads
  lock : LockOk s.lock s.accessory.lockCurrent s.accessory.lockTarget s.house.threads writes
  switch : SwitchOk s.switch s.accessory.power s.house.threads flips

namespace Driven

variable {writes flips : Nat} {s s' : HomeKit W}

theorem start {a : Agent W} (ha : a.commands = .new 256) : Driven 0 0 (.start (idleHouse a)) where
  asked := .start ha
  ids := .start
  lock := ⟨by decide, rfl, Nat.le_refl 0⟩
  switch := ⟨rfl, Nat.le_refl 0⟩

/-- The other handlers, after which the household is another one. -/
theorem aside {house : HousePool W} (h : Driven writes flips s) (hasked : Requested house)
    (ho : Aside s.house.threads house.threads) : Driven writes flips { s with house } where
  asked := hasked
  ids := ho.ids s.seq h.ids
  lock := h.lock.onward ho.onward
  switch := h.switch.of_count ho.elevators

/-- A command of the controller, whatever its task does next. -/
theorem call {kind : HapKind} (hasked : Requested s.house) (hids : HapIds s.seq s.house.threads)
    (hfew : (s.call kind).issued < 2 ^ 32) :
    Requested (s.call kind).house ∧ HapIds (s.call kind).seq (s.call kind).house.threads := by
  have hfresh : (HouseTask.agent (kind.task (hapId kind s.seq))).fresh = true := by
    cases kind <;> rfl
  have hreq : (HouseTask.agent (kind.task (hapId kind s.seq))).request =
      some (hapId kind s.seq) := by
    cases kind <;> rfl
  have hissued : (s.call kind).issued = s.house.threads.countP HouseTask.ofHap + 1 := by
    unfold HomeKit.issued HomeKit.call
    rw [countP_snoc, HouseTask.ofHap_of_request hreq]
    rfl
  exact ⟨hasked.append hfresh, hids.call kind (hissued ▸ hfew)⟩

variable [Wire W]

omit [Wire W] in
theorem lockStep (h : Driven writes flips s) (hs : s.lockStep = some s')
    (hfew : s'.issued < 2 ^ 32) : Driven writes flips s' := by
  have hlock := h.lock
  unfold HomeKit.lockStep at hs
  split at hs
  · next last hpc =>
      rw [hpc] at hlock
      obtain ⟨-, hcurrent, hle⟩ := hlock
      dsimp only at hs
      split at hs
      · cases hs
        exact h
      · split at hs
        · next hne =>
            cases hs
            exact ⟨h.asked, h.ids, ⟨hne, hcurrent, hle⟩, h.switch⟩
        · next heq =>
            cases hs
            rw [beq_iff_eq.mpr (not_not.mp heq)] at hle
            exact ⟨h.asked, h.ids, ⟨hcurrent, hle⟩, h.switch⟩
  · next hpc =>
      rw [hpc] at hlock
      cases hs
      obtain ⟨hasked, hids⟩ := call h.asked h.ids hfew
      exact ⟨hasked, hids, hlock.onward (.append rfl), h.switch.of_count (countP_append_not rfl)⟩
  · next place hpc =>
      rw [hpc] at hlock
      obtain ⟨r, -, rfl⟩ := Option.map_eq_some_iff.mp hs
      exact ⟨h.asked, h.ids, hlock, h.switch⟩
  · next hpc =>
      rw [hpc] at hlock
      cases hs
      obtain ⟨hasked, hids⟩ := call h.asked h.ids hfew
      have hunlock : (HouseTask.agent (HapKind.unlock.task (hapId .unlock s.seq))).hapUnlock =
          true := HouseTask.ofHap_of_request rfl
      refine ⟨hasked, hids, ⟨hlock.1, ?_, _, .called hunlock⟩,
        h.switch.of_count (countP_append_not rfl)⟩
      change (s.house.threads ++ [_]).countP HouseTask.hapUnlock ≤ writes
      rw [countP_snoc, hunlock]
      exact hlock.2
  · next place hpc =>
      rw [hpc] at hlock
      obtain ⟨r, hr, rfl⟩ := Option.map_eq_some_iff.mp hs
      obtain ⟨hcurrent, hle, t, hlast⟩ := hlock
      obtain ⟨u, hu, hresult⟩ := Option.bind_eq_some_iff.mp hr
      obtain rfl := Option.some.inj (hlast.at_place.symm.trans hu)
      refine ⟨h.asked, h.ids, ⟨hcurrent, hle, fun hok => ⟨place, t, hlast, ?_⟩⟩, h.switch⟩
      have hof : t.ofHap = true := by
        by_contra hno
        have hnot := HouseTask.not_hapUnlock ((Bool.not_eq_true _).mp hno)
        exact Bool.false_ne_true (hnot.symm.trans hlast.unlock)
      exact carriedOut_of_result hlast.unlock hresult hok
        (h.ids.genuine h.asked (List.mem_of_getElem? hu) hof)
  · next ok hpc =>
      rw [hpc] at hlock
      cases hs
      obtain ⟨-, hle, hopen⟩ := hlock
      refine ⟨h.asked, h.ids, ⟨hle, fun hshown => hopen ?_⟩, h.switch⟩
      by_contra hno
      change (if ok = true then lockUnsecured else lockSecured) = lockUnsecured at hshown
      rw [if_neg hno] at hshown
      exact absurd hshown (by decide)
  · next hpc =>
      rw [hpc] at hlock
      cases hs
      exact ⟨h.asked, h.ids, ⟨by decide, rfl, hlock.1⟩, h.switch⟩

omit [Wire W] in
theorem switchStep (h : Driven writes flips s) (hs : s.switchStep = some s')
    (hfew : s'.issued < 2 ^ 32) : Driven writes flips s' := by
  have hswitch := h.switch
  unfold HomeKit.switchStep at hs
  split at hs
  · next last hpc =>
      rw [hpc] at hswitch
      obtain ⟨hlast, hle⟩ := hswitch
      dsimp only at hs
      split at hs
      · next hon =>
          cases hs
          rw [(Bool.and_eq_true_iff.mp hon).1] at hle
          exact ⟨h.asked, h.ids, h.lock, hle⟩
      · next hoff =>
          cases hs
          rw [hlast, Bool.not_false, Bool.and_true, Bool.not_eq_true] at hoff
          exact ⟨h.asked, h.ids, h.lock, hoff, hle⟩
  · next hpc =>
      rw [hpc] at hswitch
      cases hs
      obtain ⟨hasked, hids⟩ := call h.asked h.ids hfew
      have helevator : (HouseTask.agent (HapKind.elevator.task
          (hapId .elevator s.seq))).hapElevator = true := HouseTask.ofHap_of_request rfl
      refine ⟨hasked, hids, h.lock.onward (.append rfl), ?_⟩
      change (s.house.threads ++ [_]).countP HouseTask.hapElevator ≤ flips
      rw [countP_snoc, helevator]
      exact hswitch
  · next place hpc =>
      rw [hpc] at hswitch
      obtain ⟨r, -, rfl⟩ := Option.map_eq_some_iff.mp hs
      exact ⟨h.asked, h.ids, h.lock, hswitch⟩
  · next hpc =>
      rw [hpc] at hswitch
      cases hs
      exact ⟨h.asked, h.ids, h.lock, rfl, hswitch⟩

end Driven

/-! ## The controller is a client of the household -/

theorem lockStep_house {s s' : HomeKit W} (h : s.lockStep = some s') :
    s'.house = s.house ∨ ∃ kind, s'.house = (s.call kind).house := by
  unfold HomeKit.lockStep at h
  split at h
  · dsimp only at h
    split at h
    · cases h; exact .inl rfl
    · split at h <;> cases h <;> exact .inl rfl
  · cases h; exact .inr ⟨.claim, rfl⟩
  · obtain ⟨r, -, rfl⟩ := Option.map_eq_some_iff.mp h
    exact .inl rfl
  · cases h; exact .inr ⟨.unlock, rfl⟩
  · obtain ⟨r, -, rfl⟩ := Option.map_eq_some_iff.mp h
    exact .inl rfl
  · cases h; exact .inl rfl
  · cases h; exact .inl rfl

theorem switchStep_house {s s' : HomeKit W} (h : s.switchStep = some s') :
    s'.house = s.house ∨ ∃ kind, s'.house = (s.call kind).house := by
  unfold HomeKit.switchStep at h
  split at h
  · dsimp only at h
    split at h <;> cases h <;> exact .inl rfl
  · cases h; exact .inr ⟨.elevator, rfl⟩
  · obtain ⟨r, -, rfl⟩ := Option.map_eq_some_iff.mp h
    exact .inl rfl
  · cases h; exact .inl rfl

section

variable [Wire W] {mode : AgentMode} {s s' : HomeKit W} {m : HomeKitMove}

theorem call_next (s : HomeKit W) (kind : HapKind) : (houseProgram mode W).system.next s.house
    (.start (.agent (kind.task (hapId kind s.seq)))) = some (s.call kind).house := by
  apply Program.next_start
  cases kind <;> rfl

/-- A move is one of the household's, or leaves the household. -/
theorem homeKit_house (hs : (homeKitSystem mode W).next s m = some s') : s'.house = s.house ∨
    ∃ hm, (houseProgram mode W).system.next s.house hm = some s'.house := by
  have hcalls (h : s'.house = s.house ∨ ∃ kind, s'.house = (s.call kind).house) :
      s'.house = s.house ∨ ∃ hm, (houseProgram mode W).system.next s.house hm =
        some s'.house := by
    rcases h with h | ⟨kind, h⟩
    · exact .inl h
    · exact .inr ⟨_, h ▸ call_next s kind⟩
  cases m with
  | house m =>
      obtain ⟨house, hq, rfl⟩ := Option.map_eq_some_iff.mp hs
      exact .inr ⟨m, hq⟩
  | write | flip => cases hs; exact .inl rfl
  | lock => exact hcalls (lockStep_house hs)
  | switch => exact hcalls (switchStep_house hs)

/-- The household cannot tell the controller from any other client. -/
theorem homeKit_refines : System.Refines (homeKitSystem mode W) (fun _ => True) (fun _ => True)
    HomeKit.house fun p q => ∃ m, (houseProgram mode W).system.next p m = some q where
  keeps _ _ _ _ _ _ := trivial
  step _ _ _ _ _ hs := homeKit_house hs

/-- The controller never has fewer commands than before. -/
theorem issued_le (hm : m.Others) (hs : (homeKitSystem mode W).next s m = some s') :
    s.issued ≤ s'.issued := by
  have hcalls (h : s'.house = s.house ∨ ∃ kind, s'.house = (s.call kind).house) :
      s.issued ≤ s'.issued := by
    unfold HomeKit.issued
    rcases h with h | ⟨kind, h⟩
    · rw [h]
    · rw [h]
      exact (countP_snoc ..).symm ▸ Nat.le_add_right ..
  cases m with
  | house m =>
      obtain ⟨house, hq, rfl⟩ := Option.map_eq_some_iff.mp hs
      exact (HomeKitMove.others_aside hm hq).issued.ge
  | write | flip => cases hs; exact le_rfl
  | lock => exact hcalls (lockStep_house hs)
  | switch => exact hcalls (switchStep_house hs)

end

namespace Driven

variable [Wire W] {mode : AgentMode}

theorem next {writes flips : Nat} {s s' : HomeKit W} {m : HomeKitMove}
    (h : Driven writes flips s) (hm : m.Others)
    (hs : (homeKitSystem mode W).next s m = some s') (hfew : s'.issued < 2 ^ 32) :
    Driven (writes + m.opens.toNat) (flips + m.calls.toNat) s' := by
  cases m with
  | house m =>
      obtain ⟨house, hq, rfl⟩ := Option.map_eq_some_iff.mp hs
      exact h.aside (h.asked.next hq) (HomeKitMove.others_aside hm hq)
  | write target =>
      cases hs
      exact ⟨h.asked, h.ids, h.lock.write target, h.switch⟩
  | flip on =>
      cases hs
      exact ⟨h.asked, h.ids, h.lock, h.switch.flip on⟩
  | lock => exact h.lockStep hs hfew
  | switch => exact h.switchStep hs hfew

/-- **Every run of the controller.** -/
theorem run {a : Agent W} (ha : a.commands = .new 256) {moves : List HomeKitMove}
    (hothers : ∀ m ∈ moves, m.Others) {s : HomeKit W}
    (hrun : (homeKitSystem mode W).run (.start (idleHouse a)) moves = some s)
    (hfew : s.issued < 2 ^ 32) :
    Driven (moves.countP HomeKitMove.opens) (moves.countP HomeKitMove.calls) s := by
  have hstart : (HomeKit.start (idleHouse a)).issued < 2 ^ 32 →
      Driven (([] : List HomeKitMove).countP HomeKitMove.opens)
        (([] : List HomeKitMove).countP HomeKitMove.calls) (.start (idleHouse a)) :=
    fun _ => start ha
  -- The numbers suffice for the whole run when they suffice at its end.
  have hpast := System.run_induction_past
    (P := fun past s => s.issued < 2 ^ 32 →
      Driven (past.countP HomeKitMove.opens) (past.countP HomeKitMove.calls) s)
    (fun past s m s' h (hm : m.Others) hs hfew => by
      have hle := issued_le hm hs
      rw [countP_snoc, countP_snoc]
      exact (h (hle.trans_lt hfew)).next hm hs hfew)
    hstart (System.meets_of_mem hothers _) hrun
  exact hpast hfew

end Driven

/-- An unlock packet is owed to a command of the controller or of another client. -/
theorem carriedOut_le (tasks : List HouseTask) : tasks.countP (·.carriedOut .unlock) ≤
    tasks.countP HouseTask.hapUnlock +
      tasks.countP fun t => t.carriedOut .unlock && !t.ofHap := by
  rw [List.countP_eq_countP_filter_add tasks _ HouseTask.ofHap, List.countP_filter,
    List.countP_filter]
  apply Nat.add_le_add_right
  apply List.countP_mono_left
  intro t _ ht
  obtain ⟨hcarried, hof⟩ := Bool.and_eq_true_iff.mp ht
  cases t with
  | agent t =>
      cases t with
      | command action =>
          obtain rfl := beq_iff_eq.mp (Bool.and_eq_true_iff.mp hcarried).1
          exact hof
      | _ => cases hcarried
  | _ => cases hcarried

/-- **HomeKit opens the door when it was asked to, and no more often**, whatever the other
    clients, the door and the network do: the door hears no more unlock packets than HomeKit
    asked for and other clients' commands sent, the elevator is called no more often than the
    switch was turned on, and the lock shows open only when the controller's last unlock
    command sent its packet. For the household the controller is one more client. -/
theorem homekit_opens_when_asked {a : Agent UdpWire} (ha : a.commands = .new 256)
    (hout : a.wire.out = []) {moves : List HomeKitMove} (hothers : ∀ m ∈ moves, m.Others)
    {s : HomeKit UdpWire}
    (hrun : (homeKitSystem .pad UdpWire).run (.start (idleHouse a)) moves = some s)
    (hfew : s.issued < 2 ^ 32) :
    s.house.shared.packets.countP (hasOpcode CallAction.unlock.opcode) ≤
        moves.countP HomeKitMove.opens +
          s.house.threads.countP (fun t => t.carriedOut .unlock && !t.ofHap) ∧
      s.elevators ≤ moves.countP HomeKitMove.calls ∧
      (s.accessory.lockCurrent = lockUnsecured → Opened s.house.threads) ∧
      (houseProgram .pad UdpWire).system.Reaches (idleHouse a) s.house := by
  have hdriven := Driven.run ha hothers hrun hfew
  have hreaches : (houseProgram .pad UdpWire).system.Reaches (idleHouse a) s.house :=
    System.run_refines_reaches homeKit_refines trivial (fun _ _ => trivial) hrun
  have hledger : Ledger s.house := hreaches.elim fun _ hhouse => Ledger.run hout hhouse
  refine ⟨?_, hdriven.switch.count_le, hdriven.lock.opened, hreaches⟩
  rw [hledger.commands]
  exact (carriedOut_le _).trans (Nat.add_le_add_right hdriven.lock.count_le _)

/-- The door rings, and HomeKit answers it and unlocks. -/
def unlockedFromHome : List HomeKitMove :=
  doorRings.map .house ++ [.write lockUnsecured, .lock, .lock] ++
    List.replicate 8 (.house (.step 1 found)) ++ [.lock, .lock] ++
    List.replicate 8 (.house (.step 2 found)) ++ [.lock, .lock]

/-- The lock shows open. -/
theorem shown_open_once_opened : ∃ s, (homeKitSystem .pad UdpWire).run
      (.start (idleHouse pinnedPadAgent)) unlockedFromHome = some s ∧
    s.accessory.lockCurrent = lockUnsecured ∧ Opened s.house.threads := by
  have hend : ((homeKitSystem .pad UdpWire).run (.start (idleHouse pinnedPadAgent))
      unlockedFromHome).map (fun s => (s.accessory.lockCurrent, s.issued)) =
        some (lockUnsecured, 2) := by
    decide +kernel
  obtain ⟨s, hrun, hs⟩ := Option.map_eq_some_iff.mp hend
  obtain ⟨hopen, hissued⟩ := Prod.mk.inj hs
  have hothers : ∀ m ∈ unlockedFromHome, m.Others := by
    have hstep (i n : Nat) : ∀ m ∈ List.replicate n (HomeKitMove.house (.step i found)),
        m.Others := fun m hm => List.eq_of_mem_replicate hm ▸ trivial
    have hring : ∀ m ∈ doorRings.map HomeKitMove.house, m.Others :=
      List.forall_mem_cons.mpr ⟨rfl, hstep 0 12⟩
    unfold unlockedFromHome
    simp only [List.forall_mem_append, List.forall_mem_cons]
    have hnil : ∀ m ∈ ([] : List HomeKitMove), m.Others := List.forall_mem_nil _
    exact ⟨⟨⟨⟨⟨hring, trivial, trivial, trivial, hnil⟩, hstep 1 8⟩, trivial, trivial, hnil⟩,
      hstep 2 8⟩, trivial, trivial, hnil⟩
  have hfew : s.issued < 2 ^ 32 := by
    rw [hissued]
    decide
  exact ⟨s, hrun, hopen, (homekit_opens_when_asked rfl rfl hothers hrun hfew).2.2.1 hopen⟩

end Michoi
