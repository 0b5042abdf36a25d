/-
  What concurrent `resolve` calls return (`discovery.rs`).

  `firstReply` is what the moves since a call registered promise it. All waiters of an id
  share one list, which a reply takes and a timeout clears as a whole, and a call that fails
  to send leaves its waiter behind. `Undisturbed` says when a step does no harm by that:
  `resolve_undisturbed` is about the runs whose steps all meet it.
-/
import Michoi.Discovery

namespace Michoi

open Lib

/-! ## What was promised -/

/-- The moves since the call of this number registered. -/
def since : Nat → List DiscoveryMove → List DiscoveryMove
  | _, [] => []
  | 0, .register _ :: as => as
  | i + 1, .register _ :: as => since i as
  | i, _ :: as => since i as

/-- The call ends without a wait. -/
def failsAt (i : Nat) (id : String) : DiscoveryMove → Bool
  | .encode j => j = i ∧ discoveryRequest id = none
  | .send j _ ok => j = i ∧ ok = false
  | _ => false

/-- The call gives up: it fails, or its timeout is up. -/
def givesUp (i : Nat) (id : String) (a : DiscoveryMove) : Bool := failsAt i id a || a = .elapse i

/-- The address that a move replies with for an id. -/
def replyFor (id : String) : DiscoveryMove → Option Ipv4Addr
  | .receive sender datagram =>
      match sender.ip with
      | .v4 ip => if repliesFor datagram = some id then some ip else none
      | .v6 _ => none
  | _ => none

/-- The source of the first reply for the id before the call gives up. -/
def firstReply (i : Nat) (id : String) : List DiscoveryMove → Option Ipv4Addr
  | [] => none
  | a :: as => if givesUp i id a then none else (replyFor id a).or (firstReply i id as)

/-- A move that takes the waiters of the id out of the table. -/
def Sweeps (s : DiscoveryService) (id : String) : DiscoveryMove → Prop
  | .clear j => ∃ c ∈ s.calls[j]?, c.id = id
  | a => replyFor id a ≠ none

/-- A step that does no harm to other calls: no timer runs out while a reply is on its way to
    the call, no list is cleared in which another call still waits, and no call fails after
    a reply took its waiter. -/
def Undisturbed (s : DiscoveryService) : DiscoveryMove → Prop
  | .elapse i => i ∉ s.taken
  | .clear i => ∀ c ∈ s.calls[i]?, ∀ j ∈ s.pending c.id, ∀ d ∈ s.calls[j]?, d.pc.isOpen = false
  | .encode i => ∀ c ∈ s.calls[i]?, discoveryRequest c.id = none → i ∈ s.pending c.id
  | .send i _ ok => ∀ c ∈ s.calls[i]?, ok = false → i ∈ s.pending c.id
  | _ => True

instance (s : DiscoveryService) : DecidablePred (Undisturbed s)
  | .elapse _ => inferInstanceAs (Decidable (_ ∉ _))
  | .clear _ => inferInstanceAs (Decidable (∀ c ∈ _, ∀ j ∈ _, ∀ d ∈ _, _))
  | .encode _ => inferInstanceAs (Decidable (∀ c ∈ _, _ → _))
  | .send _ _ _ => inferInstanceAs (Decidable (∀ c ∈ _, _ → _))
  | .register _ | .wake _ | .receive _ _ | .deliver => inferInstanceAs (Decidable True)

variable {s t : DiscoveryService} {i : Nat} {id : String} {as past : List DiscoveryMove}
  {a : DiscoveryMove}

/-! ## One more move -/

/-- The calls that have registered. -/
def registrations : List DiscoveryMove → Nat
  | [] => 0
  | .register _ :: as => registrations as + 1
  | _ :: as => registrations as

theorem since_snoc (h : i < registrations as) : since i (as ++ [a]) = since i as ++ [a] := by
  fun_induction since i as with
  | case1 => cases h
  | case2 => rfl
  | case3 i id as ih => exact ih (Nat.lt_of_succ_lt_succ h)
  | case4 i b as hzero hsucc ih =>
      cases b with
      | register id => cases i <;> simp_all
      | _ => exact ih h

theorem registrations_append (as bs : List DiscoveryMove) :
    registrations (as ++ bs) = registrations as + registrations bs := by
  fun_induction registrations as <;> simp_all [registrations]
  omega

theorem since_register (id : String) : since (registrations as) (as ++ [.register id]) = [] := by
  fun_induction registrations as with
  | case1 => rfl
  | case2 id' as ih => exact ih
  | case3 b as hother ih =>
      cases b with
      | register id => exact absurd rfl (hother id)
      | _ => exact ih

/-- The call has given up. -/
def gaveUp (i : Nat) (id : String) (as : List DiscoveryMove) : Bool := as.any (givesUp i id)

theorem gaveUp_snoc : gaveUp i id (as ++ [a]) = (gaveUp i id as || givesUp i id a) := by
  simp [gaveUp]

/-- A call does not give up with a reply. -/
theorem replyFor_of_givesUp (h : givesUp i id a = true) (id' : String) : replyFor id' a = none := by
  cases a with
  | receive sender datagram => simp [givesUp, failsAt] at h
  | _ => rfl

theorem firstReply_of_gaveUp (h : gaveUp i id as = true) :
    firstReply i id (as ++ [a]) = firstReply i id as := by
  induction as with
  | nil => cases h
  | cons b as ih =>
      rw [List.cons_append, firstReply, firstReply]
      cases hgives : givesUp i id b with
      | true => rfl
      | false =>
          rw [gaveUp, List.any_cons, hgives, Bool.false_or] at h
          simp only [Bool.false_eq_true, if_false]
          rw [ih h]

theorem firstReply_snoc (h : gaveUp i id as = false) :
    firstReply i id (as ++ [a]) = (firstReply i id as).or (replyFor id a) := by
  induction as with
  | nil =>
      rw [List.nil_append, firstReply, firstReply]
      cases hgives : givesUp i id a with
      | true => simp [replyFor_of_givesUp hgives]
      | false => simp [firstReply]
  | cons b as ih =>
      rw [gaveUp, List.any_cons, Bool.or_eq_false_iff] at h
      rw [List.cons_append, firstReply, firstReply, h.1]
      simp only [Bool.false_eq_true, if_false]
      rw [ih h.2, Option.or_assoc]

/-- What was replied first stays it. -/
theorem firstReply_append_of_some {ip : Ipv4Addr} (h : firstReply i id as = some ip) :
    firstReply i id (as ++ [a]) = some ip := by
  cases hgave : gaveUp i id as with
  | true => rw [firstReply_of_gaveUp hgave, h]
  | false => rw [firstReply_snoc hgave, h, Option.some_or]

/-- A first reply was received. -/
theorem exists_of_firstReply {ip : Ipv4Addr} (h : firstReply i id as = some ip) :
    ∃ a ∈ as, replyFor id a = some ip := by
  induction as with
  | nil => cases h
  | cons b as ih =>
      rw [firstReply] at h
      split at h
      · cases h
      · rcases Option.or_eq_some_iff.mp h with hb | ⟨-, hrest⟩
        · exact ⟨b, List.mem_cons_self, hb⟩
        · obtain ⟨a, ha, hreply⟩ := ih hrest
          exact ⟨a, List.mem_cons_of_mem _ ha, hreply⟩

/-! ## How a call stands -/

/-- What a call has, `as` being the moves since it registered: either its waiter is in the
    table, or a reply took it and the sends to it are to come, or its channel has the
    address; or it has given up; or it has returned. -/
inductive ResolveStanding (s : DiscoveryService) (i : Nat) (id : String) (as : List DiscoveryMove) :
    ResolvePc → Oneshot → Prop where
  | unanswered {pc} (hopen : pc.isOpen = true) (hgave : gaveUp i id as = false)
      (hreply : firstReply i id as = none) (hpending : i ∈ s.pending id) (htaken : i ∉ s.taken) :
      ResolveStanding s i id as pc .empty
  | underway {pc} (hopen : pc.isOpen = true) (hgave : gaveUp i id as = false)
      (hreply : firstReply i id as = some s.source) (hpending : i ∉ s.pending id)
      (htaken : i ∈ s.taken) : ResolveStanding s i id as pc .empty
  | answered {pc ip} (hopen : pc.isOpen = true) (hgave : gaveUp i id as = false)
      (hreply : firstReply i id as = some ip) (hpending : i ∉ s.pending id)
      (htaken : i ∈ s.taken → ip = s.source) : ResolveStanding s i id as pc (.value ip)
  | clearing {channel} (hgave : gaveUp i id as = true) (hreply : firstReply i id as = none) :
      ResolveStanding s i id as .clear channel
  | returned {result channel} (hresult : result = firstReply i id as)
      (hended : result.isSome = true ∨ gaveUp i id as = true)
      (hswept : result.isSome = true ∨ .clear i ∈ as ∨ ∃ a ∈ as, failsAt i id a = true) :
      ResolveStanding s i id as (.done result) channel

namespace ResolveStanding

variable {pc pc' : ResolvePc} {channel channel' : Oneshot}

/-- What is decided stays decided. -/
theorem shut (h : ResolveStanding s i id as pc channel) (hshut : pc.isOpen = false) :
    ResolveStanding t i id (as ++ [a]) pc channel' := by
  cases h with
  | unanswered hopen => rw [hopen] at hshut; cases hshut
  | underway hopen => rw [hopen] at hshut; cases hshut
  | answered hopen => rw [hopen] at hshut; cases hshut
  | clearing hgave hreply =>
      exact .clearing (by rw [gaveUp_snoc, hgave, Bool.true_or])
        ((firstReply_of_gaveUp hgave).trans hreply)
  | @returned result channel hresult hended hswept =>
      have hmore : result.isSome = true ∨ .clear i ∈ as ++ [a] ∨
          ∃ b ∈ as ++ [a], failsAt i id b = true := by
        refine hswept.imp_right (Or.imp (List.mem_append_left _) ?_)
        rintro ⟨b, hb, hfails⟩
        exact ⟨b, List.mem_append_left _ hb, hfails⟩
      rcases hended with hsome | hgave
      · obtain ⟨ip, rfl⟩ := Option.isSome_iff_exists.mp hsome
        exact .returned (firstReply_append_of_some hresult.symm).symm (.inl rfl) hmore
      · exact .returned (hresult.trans (firstReply_of_gaveUp hgave).symm)
          (.inr (by rw [gaveUp_snoc, hgave, Bool.true_or])) hmore

/-- A step that neither replies for the id nor ends the wait. -/
theorem quiet (h : ResolveStanding s i id as pc channel) (hgives : givesUp i id a = false)
    (hreply : replyFor id a = none) (hpending : i ∈ t.pending id ↔ i ∈ s.pending id)
    (htaken : i ∈ t.taken ↔ i ∈ s.taken) (hsource : i ∈ s.taken → t.source = s.source)
    (hopen : pc.isOpen = true → pc'.isOpen = true) (hshut : pc.isOpen = false → pc' = pc) :
    ResolveStanding t i id (as ++ [a]) pc' channel := by
  cases hpc : pc.isOpen with
  | false =>
      obtain rfl := hshut hpc
      exact h.shut hpc
  | true =>
      have hgave (h0 : gaveUp i id as = false) : gaveUp i id (as ++ [a]) = false := by
        rw [gaveUp_snoc, h0, hgives, Bool.or_self]
      have hfirst (h0 : gaveUp i id as = false) :
          firstReply i id (as ++ [a]) = firstReply i id as := by
        rw [firstReply_snoc h0, hreply, Option.or_none]
      cases h with
      | unanswered _ h0 h1 h2 h3 =>
          exact .unanswered (hopen hpc) (hgave h0) ((hfirst h0).trans h1) (hpending.mpr h2)
            (mt htaken.mp h3)
      | underway _ h0 h1 h2 h3 =>
          exact .underway (hopen hpc) (hgave h0) (by rw [hfirst h0, h1, hsource h3])
            (mt hpending.mp h2) (htaken.mpr h3)
      | answered _ h0 h1 h2 h3 =>
          exact .answered (hopen hpc) (hgave h0) ((hfirst h0).trans h1) (mt hpending.mp h2)
            fun hin => (h3 (htaken.mp hin)).trans (hsource (htaken.mp hin)).symm
      | clearing => cases hpc
      | returned => cases hpc

/-- Such a step of somebody else. -/
theorem stays (h : ResolveStanding s i id as pc channel) (hgives : givesUp i id a = false)
    (hreply : replyFor id a = none) (hpending : i ∈ t.pending id ↔ i ∈ s.pending id)
    (htaken : i ∈ t.taken ↔ i ∈ s.taken) (hsource : i ∈ s.taken → t.source = s.source) :
    ResolveStanding t i id (as ++ [a]) pc channel :=
  h.quiet hgives hreply hpending htaken hsource (fun hopen => hopen) fun _ => rfl

/-- A call whose waiter is in the table has no reply yet. -/
theorem not_replied (h : ResolveStanding s i id as pc channel) (hopen : pc.isOpen = true)
    (hpending : i ∈ s.pending id) : gaveUp i id as = false ∧ firstReply i id as = none := by
  cases h with
  | unanswered _ hgave hreply => exact ⟨hgave, hreply⟩
  | underway _ _ _ hnot => exact absurd hpending hnot
  | answered _ _ _ hnot => exact absurd hpending hnot
  | clearing => cases hopen
  | returned => cases hopen

/-- A call that fails with its waiter in the table returns what was promised. -/
theorem failed (h : ResolveStanding s i id as pc channel) (hopen : pc.isOpen = true)
    (hpending : i ∈ s.pending id) (hfails : failsAt i id a = true) :
    ResolveStanding t i id (as ++ [a]) (.done none) channel := by
  obtain ⟨hgave, hreply⟩ := h.not_replied hopen hpending
  have hgives : givesUp i id a = true := by rw [givesUp, hfails, Bool.true_or]
  refine .returned ?_ (.inr ?_) (.inr (.inr ⟨a, by simp, hfails⟩))
  · rw [firstReply_snoc hgave, hreply, replyFor_of_givesUp hgives]
    rfl
  · rw [gaveUp_snoc, hgives, Bool.or_true]

/-- A call that found nothing drops its waiters and returns. -/
theorem clears (h : ResolveStanding s i id as .clear channel) :
    ResolveStanding t i id (as ++ [.clear i]) (.done none) channel' := by
  cases h with
  | unanswered hopen => cases hopen
  | underway hopen => cases hopen
  | answered hopen => cases hopen
  | clearing hgave hreply =>
      refine .returned ((firstReply_of_gaveUp hgave).trans hreply).symm (.inr ?_)
        (.inr (.inl (by simp)))
      rw [gaveUp_snoc, hgave, Bool.true_or]

/-- A reply for the id takes the waiter of a call that has none yet. -/
theorem replied {ip : Ipv4Addr} (h : ResolveStanding s i id as pc channel)
    (ha : replyFor id a = some ip)
    (htaken : i ∉ s.taken) (hempty : i ∉ t.pending id)
    (hnext : i ∈ t.taken ↔ i ∈ s.pending id) (hsource : t.source = ip) :
    ResolveStanding t i id (as ++ [a]) pc channel := by
  have hgives : givesUp i id a = false := by
    by_contra hnot
    rw [replyFor_of_givesUp (Bool.not_eq_false _ ▸ hnot)] at ha
    cases ha
  have hgave (h0 : gaveUp i id as = false) : gaveUp i id (as ++ [a]) = false := by
    rw [gaveUp_snoc, h0, hgives, Bool.or_self]
  cases hpc : pc.isOpen with
  | false => exact h.shut hpc
  | true =>
      cases h with
      | unanswered _ h0 h1 h2 =>
          refine .underway hpc (hgave h0) ?_ hempty (hnext.mpr h2)
          rw [firstReply_snoc h0, h1, ha, hsource, Option.none_or]
      | underway _ _ _ _ hin => exact absurd hin htaken
      | answered _ h0 h1 h2 =>
          exact .answered hpc (hgave h0) (firstReply_append_of_some h1) hempty
            fun hin => absurd (hnext.mp hin) h2
      | clearing => cases hpc
      | returned => cases hpc

/-- The address arrives in the channel. -/
theorem delivered (h : ResolveStanding s i id as pc channel) (hin : i ∈ s.taken)
    (hgives : givesUp i id a = false) (hpending : i ∈ t.pending id ↔ i ∈ s.pending id)
    (hsource : t.source = s.source) :
    ResolveStanding t i id (as ++ [a]) pc (.value s.source) := by
  have hgave (h0 : gaveUp i id as = false) : gaveUp i id (as ++ [a]) = false := by
    rw [gaveUp_snoc, h0, hgives, Bool.or_self]
  cases hpc : pc.isOpen with
  | false => exact h.shut hpc
  | true =>
      cases h with
      | unanswered _ _ _ _ htaken => exact absurd hin htaken
      | underway _ h0 h1 h2 =>
          exact .answered hpc (hgave h0) (firstReply_append_of_some h1) (mt hpending.mp h2)
            fun _ => hsource.symm
      | answered _ h0 h1 h2 h3 =>
          obtain rfl := h3 hin
          exact .answered hpc (hgave h0) (firstReply_append_of_some h1) (mt hpending.mp h2)
            fun _ => hsource.symm
      | clearing => cases hpc
      | returned => cases hpc

end ResolveStanding

/-! ## The invariant -/

/-- The waiters are calls, each under its own id. -/
structure Tabled (s : DiscoveryService) : Prop where
  pending : ∀ id, ∀ i ∈ s.pending id, ∃ c, s.calls[i]? = some c ∧ c.id = id
  taken : ∀ i ∈ s.taken, ∃ c, s.calls[i]? = some c

/-- Every call stands by what was promised. -/
structure Kept (past : List DiscoveryMove) (s : DiscoveryService) : Prop where
  tabled : Tabled s
  count : registrations past = s.calls.length
  standing : ∀ i c, s.calls[i]? = some c → ResolveStanding s i c.id (since i past) c.pc c.channel

namespace DiscoveryService

theorem getElem?_goTo (s : DiscoveryService) (k : Nat) (pc : ResolvePc) (i : Nat) :
    (s.goTo k pc).calls[i]? = (s.calls[i]?).map fun c => if k = i then { c with pc } else c := by
  rw [goTo, List.getElem?_modify]
  rfl

theorem getElem?_closeAll (waiters : List Nat) (calls : List ResolveCall) (i : Nat) :
    (closeAll waiters calls)[i]? =
      (calls[i]?).map fun c => if i ∈ waiters then { c with channel := .closed } else c := by
  rw [closeAll, List.getElem?_mapIdx]

end DiscoveryService

open DiscoveryService

/-- Calls stay, with their ids. -/
theorem DiscoveryStep.exists_call (h : DiscoveryStep s a t) {c : ResolveCall}
    (hc : s.calls[i]? = some c) : ∃ d, t.calls[i]? = some d ∧ d.id = c.id := by
  cases h with
  | register id =>
      have hlt : i < s.calls.length := (List.getElem?_eq_some_iff.mp hc).1
      exact ⟨c, by rw [List.getElem?_append_left hlt, hc], rfl⟩
  | encoded | tooLong | sent | unsent | found | dropped | elapsed =>
      refine ⟨_, (getElem?_goTo s _ _ i).trans (by rw [hc]; rfl), ?_⟩
      dsimp only
      split <;> rfl
  | cleared =>
      refine ⟨_, (getElem?_goTo _ _ _ i).trans
        (by rw [getElem?_closeAll, hc]; rfl), ?_⟩
      dsimp only
      split <;> split <;> rfl
  | reply => exact ⟨c, hc, rfl⟩
  | other => exact ⟨c, hc, rfl⟩
  | deliver =>
      refine ⟨_, by rw [List.getElem?_modify, hc]; rfl, ?_⟩
      dsimp only
      split <;> rfl

/-- Emptying one list takes nothing into another. -/
theorem mem_of_mem_update_nil {pending : String → List Nat} {id' : String}
    (h : i ∈ Function.update pending id' [] id) : id ≠ id' ∧ i ∈ pending id := by
  by_cases hid : id = id'
  · subst hid
    rw [Function.update_self] at h
    cases h
  · rw [Function.update_of_ne hid] at h
    exact ⟨hid, h⟩

theorem Tabled.step (h : Tabled s) (hstep : DiscoveryStep s a t) : Tabled t := by
  have hcall {i : Nat} {id : String} (hi : ∃ c, s.calls[i]? = some c ∧ c.id = id) :
      ∃ d, t.calls[i]? = some d ∧ d.id = id := by
    obtain ⟨c, hc, rfl⟩ := hi
    exact hstep.exists_call hc
  have htaken {i : Nat} (hi : ∃ c, s.calls[i]? = some c) : ∃ d, t.calls[i]? = some d := by
    obtain ⟨c, hc⟩ := hi
    obtain ⟨d, hd, -⟩ := hstep.exists_call hc
    exact ⟨d, hd⟩
  cases hstep with
  | register id =>
      refine ⟨fun id' i hi => ?_, fun i hi => htaken (h.taken i hi)⟩
      dsimp only at hi
      by_cases hid : id' = id
      · subst hid
        rw [Function.update_self, List.mem_append, List.mem_singleton] at hi
        rcases hi with hi | rfl
        · exact hcall (h.pending id' i hi)
        · exact ⟨_, List.getElem?_concat_length, rfl⟩
      · rw [Function.update_of_ne hid] at hi
        exact hcall (h.pending id' i hi)
  | cleared =>
      exact ⟨fun id i hi => hcall (h.pending id i (mem_of_mem_update_nil hi).2),
        fun i hi => htaken (h.taken i hi)⟩
  | @reply _ _ id =>
      refine ⟨fun id i hi => hcall (h.pending id i (mem_of_mem_update_nil hi).2), fun i hi => ?_⟩
      obtain ⟨c, hc, -⟩ := h.pending id i hi
      exact htaken ⟨c, hc⟩
  | deliver hnext =>
      refine ⟨fun id i hi => hcall (h.pending id i hi), fun i hi => htaken (h.taken i ?_)⟩
      rw [hnext]
      exact List.mem_cons_of_mem _ hi
  | _ => exact ⟨fun id i hi => hcall (h.pending id i hi), fun i hi => htaken (h.taken i hi)⟩

/-- How a call stands after a step in which one call goes on. -/
theorem Kept.goTo {k : Nat} {c : ResolveCall} {pc : ResolvePc} (h : Kept past s)
    (htabled : Tabled t) (hc : s.calls[k]? = some c) (hcalls : t.calls = (s.goTo k pc).calls)
    (hpending : t.pending = s.pending) (htaken : t.taken = s.taken)
    (hsource : t.source = s.source) (hregister : registrations [a] = 0)
    (hreply : ∀ id, replyFor id a = none) (hother : ∀ i id, i ≠ k → givesUp i id a = false)
    (hself : ResolveStanding t k c.id (since k past ++ [a]) pc c.channel) :
    Kept (past ++ [a]) t := by
  refine ⟨htabled, ?_, fun i d hd => ?_⟩
  · rw [registrations_append, hregister, h.count, hcalls]
    exact (List.length_modify _ _ _).symm
  · rw [hcalls, getElem?_goTo] at hd
    obtain ⟨c', hc', rfl⟩ := Option.map_eq_some_iff.mp hd
    have hlt : i < registrations past := h.count ▸ (List.getElem?_eq_some_iff.mp hc').1
    rw [since_snoc hlt]
    by_cases hi : k = i
    · subst hi
      obtain rfl := Option.some.inj (hc.symm.trans hc')
      simp only [if_true]
      exact hself
    · simp only [if_neg hi]
      exact (h.standing i c' hc').stays (hother i _ (Ne.symm hi)) (hreply _) (by rw [hpending])
        (by rw [htaken]) fun _ => hsource

theorem replyFor_receive {sender : SocketAddr} {datagram : Bytes} {ip : Ipv4Addr}
    (hip : sender.ip = .v4 ip) (id : String) :
    replyFor id (.receive sender datagram) =
      if repliesFor datagram = some id then some ip else none := by
  rw [replyFor, hip]

theorem Kept.lt (h : Kept past s) {c : ResolveCall} (hc : s.calls[i]? = some c) :
    i < registrations past :=
  h.count ▸ (List.getElem?_eq_some_iff.mp hc).1

theorem Kept.register (h : Kept past s) (roomId : String) :
    Kept (past ++ [.register roomId]) { s with
      pending := Function.update s.pending roomId (s.pending roomId ++ [s.calls.length])
      calls := s.calls ++ [⟨roomId, .request, .empty⟩] } := by
  refine ⟨h.tabled.step (.register roomId), ?_, fun i d hd => ?_⟩
  · rw [registrations_append, h.count, List.length_append]
    rfl
  · by_cases hi : i < s.calls.length
    · rw [List.getElem?_append_left hi] at hd
      have hne : i ≠ s.calls.length := Nat.ne_of_lt hi
      rw [since_snoc (h.lt hd)]
      refine (h.standing i d hd).stays rfl rfl ?_ Iff.rfl fun _ => rfl
      dsimp only
      by_cases hid : d.id = roomId
      · rw [hid, Function.update_self, List.mem_append, List.mem_singleton]
        exact ⟨fun hin => hin.resolve_right hne, .inl⟩
      · rw [Function.update_of_ne hid]
    · have hlast : i = s.calls.length := by
        have := (List.getElem?_eq_some_iff.mp hd).1
        rw [List.length_append, List.length_singleton] at this
        omega
      subst hlast
      obtain rfl := Option.some.inj (List.getElem?_concat_length.symm.trans hd)
      rw [← h.count, since_register]
      refine .unanswered rfl rfl rfl ?_ fun hin => ?_
      · dsimp only
        rw [Function.update_self, h.count]
        simp
      · obtain ⟨c, hc⟩ := h.tabled.taken _ hin
        exact absurd (h.lt hc) (Nat.lt_irrefl _)

/-- The calls whose waiters are dropped have all decided. -/
theorem Kept.cleared {k : Nat} {c : ResolveCall} (h : Kept past s)
    (hok : Undisturbed s (.clear k)) (hc : s.calls[k]? = some c) (hpc : c.pc = .clear) :
    Kept (past ++ [.clear k]) (DiscoveryService.goTo { s with
      pending := Function.update s.pending c.id []
      calls := closeAll (s.pending c.id) s.calls } k (.done none)) := by
  refine ⟨h.tabled.step (.cleared hc hpc), ?_, fun i d hd => ?_⟩
  · rw [registrations_append, h.count]
    exact ((List.length_modify _ _ _).trans List.length_mapIdx).symm
  · rw [getElem?_goTo] at hd
    obtain ⟨d', hd', rfl⟩ := Option.map_eq_some_iff.mp hd
    rw [getElem?_closeAll] at hd'
    obtain ⟨c', hc', rfl⟩ := Option.map_eq_some_iff.mp hd'
    have hstanding := h.standing i c' hc'
    rw [since_snoc (h.lt hc')]
    by_cases hi : k = i
    · subst hi
      obtain rfl := Option.some.inj (hc.symm.trans hc')
      rw [hpc] at hstanding
      simp only [if_true, apply_ite ResolveCall.id, ite_self]
      exact hstanding.clears
    · simp only [if_neg hi]
      by_cases hin : i ∈ s.pending c.id
      · rw [if_pos hin]
        exact hstanding.shut (hok c hc i hin c' hc')
      · rw [if_neg hin]
        refine hstanding.stays rfl rfl ?_ Iff.rfl fun _ => rfl
        by_cases hid : c'.id = c.id
        · rw [hid]
          exact iff_of_false (by simp [DiscoveryService.goTo]) hin
        · exact iff_of_eq (congrArg (i ∈ ·) (Function.update_of_ne hid _ _))

/-- A reply takes the waiters of its id. -/
theorem Kept.reply {sender : SocketAddr} {datagram : Bytes} {roomId : String}
    {ip : Ipv4Addr} (h : Kept past s) (htaken : s.taken = [])
    (hid : repliesFor datagram = some roomId) (hip : sender.ip = .v4 ip) :
    Kept (past ++ [.receive sender datagram]) { s with
      pending := Function.update s.pending roomId []
      taken := s.pending roomId
      source := ip } := by
  refine ⟨h.tabled.step (.reply htaken hid hip), ?_, fun i c hc => ?_⟩
  · rw [registrations_append, h.count]
    rfl
  · rw [since_snoc (h.lt hc)]
    have hnot : i ∉ s.taken := by simp [htaken]
    have hreply := @replyFor_receive _ datagram _ hip c.id
    by_cases hsame : c.id = roomId
    · subst hsame
      rw [if_pos hid] at hreply
      refine (h.standing i c hc).replied hreply hnot ?_ Iff.rfl rfl
      simp
    · rw [if_neg fun heq => hsame (Option.some.inj (heq.symm.trans hid))] at hreply
      have hother : i ∉ s.pending roomId := by
        intro hin
        obtain ⟨c', hc', hid'⟩ := h.tabled.pending roomId i hin
        rw [hc] at hc'
        exact hsame (Option.some.inj hc' ▸ hid')
      refine (h.standing i c hc).stays rfl hreply ?_ (iff_of_false hother hnot)
        fun hin => absurd hin hnot
      exact iff_of_eq (congrArg (i ∈ ·) (Function.update_of_ne hsame _ _))

theorem Kept.other {sender : SocketAddr} {datagram : Bytes} (h : Kept past s)
    (sent : List (SocketAddr × Bytes)) (hother : ∀ id, repliesFor datagram = some id →
      ∀ ip, sender.ip ≠ .v4 ip) : Kept (past ++ [.receive sender datagram]) { s with sent } := by
  refine ⟨h.tabled.step (.other sent hother), ?_, fun i c hc => ?_⟩
  · rw [registrations_append, h.count]
    rfl
  · rw [since_snoc (h.lt hc)]
    have hreply : replyFor c.id (.receive sender datagram) = none := by
      cases hip : sender.ip with
      | v4 ip => rw [replyFor_receive hip, if_neg fun hid => hother _ hid ip hip]
      | v6 octets => rw [replyFor, hip]
    exact (h.standing i c hc).stays rfl hreply Iff.rfl Iff.rfl fun _ => rfl

theorem Kept.deliver {j : Nat} {rest : List Nat} (h : Kept past s)
    (htaken : s.taken = j :: rest) : Kept (past ++ [.deliver]) { s with
      taken := rest
      calls := s.calls.modify j fun c => { c with channel := .value s.source } } := by
  refine ⟨h.tabled.step (.deliver htaken), ?_, fun i d hd => ?_⟩
  · rw [registrations_append, h.count]
    exact (List.length_modify _ _ _).symm
  · rw [List.getElem?_modify] at hd
    obtain ⟨c, hc, rfl⟩ := Option.map_eq_some_iff.mp hd
    have hstanding := h.standing i c hc
    rw [since_snoc (h.lt hc)]
    by_cases hi : j = i
    · subst hi
      simp only [if_true]
      exact hstanding.delivered (by simp [htaken]) rfl Iff.rfl rfl
    · simp only [if_neg hi]
      refine hstanding.stays rfl rfl Iff.rfl ?_ fun _ => rfl
      rw [htaken, List.mem_cons]
      exact (or_iff_right (Ne.symm hi)).symm

/-- A step keeps the invariant. -/
theorem Kept.step (h : Kept past s) (hok : Undisturbed s a) (hstep : DiscoveryStep s a t) :
    Kept (past ++ [a]) t := by
  have htabled := h.tabled.step hstep
  cases hstep with
  | register roomId => exact h.register roomId
  | @encoded k c request hc hpc hrequest =>
      refine h.goTo htabled hc rfl rfl rfl rfl rfl (fun _ => rfl) (fun i id hi => ?_) ?_
      · simp [givesUp, failsAt, Ne.symm hi]
      · refine (h.standing k c hc).quiet ?_ rfl Iff.rfl Iff.rfl (fun _ => rfl) (fun _ => rfl) ?_
        · simp [givesUp, failsAt, hrequest]
        · rw [hpc]
          nofun
  | @tooLong k c hc hpc hrequest =>
      refine h.goTo htabled hc rfl rfl rfl rfl rfl (fun _ => rfl) (fun i id hi => ?_) ?_
      · simp [givesUp, failsAt, Ne.symm hi]
      · exact (h.standing k c hc).failed (by rw [hpc]; rfl) (hok c hc hrequest)
          (by simp [failsAt, hrequest])
  | @sent k c request broadcast hc hpc =>
      refine h.goTo htabled hc rfl rfl rfl rfl rfl (fun _ => rfl) (fun i id hi => ?_) ?_
      · simp [givesUp, failsAt]
      · refine (h.standing k c hc).quiet ?_ rfl Iff.rfl Iff.rfl (fun _ => rfl) (fun _ => rfl) ?_
        · simp [givesUp, failsAt]
        · rw [hpc]
          nofun
  | @unsent k c request broadcast hc hpc =>
      refine h.goTo htabled hc rfl rfl rfl rfl rfl (fun _ => rfl) (fun i id hi => ?_) ?_
      · simp [givesUp, failsAt, Ne.symm hi]
      · exact (h.standing k c hc).failed (by rw [hpc]; rfl) (hok c hc rfl) (by simp [failsAt])
  | @found k c ip hc hpc hchannel =>
      refine h.goTo htabled hc rfl rfl rfl rfl rfl (fun _ => rfl) (fun i id hi => rfl) ?_
      have hstanding := h.standing k c hc
      rw [hchannel, hpc] at hstanding
      cases hstanding with
      | answered _ _ hreply =>
          exact .returned (firstReply_append_of_some hreply).symm (.inl rfl) (.inl rfl)
  | @dropped k c hc hpc hchannel =>
      have hstanding := h.standing k c hc
      rw [hchannel, hpc] at hstanding
      cases hstanding
  | @elapsed k c hc hpc hchannel =>
      refine h.goTo htabled hc rfl rfl rfl rfl rfl (fun _ => rfl) (fun i id hi => ?_) ?_
      · simp [givesUp, failsAt, Ne.symm hi]
      · have hstanding := h.standing k c hc
        rw [hchannel, hpc] at hstanding
        cases hstanding with
        | unanswered _ hgave hreply =>
            refine .clearing ?_ ?_
            · simp [gaveUp_snoc, givesUp]
            · rw [firstReply_snoc hgave, hreply]
              rfl
        | underway _ _ _ _ htaken => exact absurd htaken hok
  | cleared hc hpc => exact h.cleared hok hc hpc
  | reply htaken hid hip => exact h.reply htaken hid hip
  | other sent hother => exact h.other sent hother
  | deliver htaken => exact h.deliver htaken

/-! ## The table -/

/-- What a step leaves of the waiters of an id. -/
theorem DiscoveryStep.mem_pending_iff (h : DiscoveryStep s a t) (hi : i < s.calls.length)
    (id : String) : i ∈ t.pending id ↔ i ∈ s.pending id ∧ ¬ Sweeps t id a := by
  have hupdate {roomId : String} {swept : Prop} (hswept : swept ↔ id = roomId) :
      i ∈ Function.update s.pending roomId [] id ↔ i ∈ s.pending id ∧ ¬ swept := by
    by_cases hid : id = roomId
    · subst hid
      simp [hswept]
    · rw [Function.update_of_ne hid]
      simp [hswept, hid]
  have hcalls {k : Nat} {c : ResolveCall} (hc : s.calls[k]? = some c) := h.exists_call hc
  cases h with
  | register roomId =>
      dsimp only
      by_cases hid : id = roomId
      · subst hid
        simp [Sweeps, replyFor, Nat.ne_of_lt hi]
      · simp [Sweeps, replyFor, Function.update_of_ne hid]
  | @cleared k c hc hpc =>
      obtain ⟨d, hd, hid⟩ := hcalls hc
      refine hupdate ⟨?_, ?_⟩
      · rintro ⟨d', hd', rfl⟩
        rw [← hid, Option.some.inj (hd.symm.trans hd')]
      · rintro rfl
        exact ⟨d, hd, hid⟩
  | @reply sender datagram roomId ip htaken hid hip =>
      refine hupdate ?_
      simp [Sweeps, replyFor_receive hip, hid, eq_comm]
  | @other sender datagram sent hother =>
      have hreply : replyFor id (.receive sender datagram) = none := by
        cases hip : sender.ip with
        | v4 ip => rw [replyFor_receive hip, if_neg fun hid => hother _ hid ip hip]
        | v6 octets => rw [replyFor, hip]
      simp [Sweeps, hreply]
  | deliver => simp [Sweeps, replyFor]
  | _ => simp [Sweeps, replyFor, goTo]

/-- A waiter is in the table until its list is swept. -/
structure ResolvePending (past : List DiscoveryMove) (s : DiscoveryService) : Prop where
  clears : ∀ j, .clear j ∈ past → ∃ c, s.calls[j]? = some c
  pending : ∀ i c, s.calls[i]? = some c →
    (i ∈ s.pending c.id ↔ ∀ a ∈ since i past, ¬ Sweeps s c.id a)

/-- Every call of a state after a step was there before, or has just registered. -/
theorem DiscoveryStep.call_cases (h : DiscoveryStep s a t) {d : ResolveCall}
    (hd : t.calls[i]? = some d) : (∃ c, s.calls[i]? = some c ∧ c.id = d.id) ∨
      i = s.calls.length ∧ a = .register d.id ∧ i ∈ t.pending d.id := by
  cases hc : s.calls[i]? with
  | some c =>
      obtain ⟨d', hd', hid⟩ := h.exists_call hc
      exact .inl ⟨c, rfl, by rw [← hid, Option.some.inj (hd.symm.trans hd')]⟩
  | none =>
      have hge := List.getElem?_eq_none_iff.mp hc
      have hlt := (List.getElem?_eq_some_iff.mp hd).1
      cases h with
      | register roomId =>
          have hlast : i = s.calls.length := by
            rw [List.length_append, List.length_singleton] at hlt
            omega
          subst hlast
          obtain rfl := Option.some.inj (List.getElem?_concat_length.symm.trans hd)
          exact .inr ⟨rfl, rfl, by simp⟩
      | _ => exact absurd hlt (by simp [goTo, closeAll]; omega)

theorem DiscoveryStep.clear_call (h : DiscoveryStep s (.clear i) t) :
    ∃ c, s.calls[i]? = some c := by
  cases h with
  | cleared hc => exact ⟨_, hc⟩

/-- What an earlier move swept does not change. -/
theorem DiscoveryStep.sweeps_iff (h : DiscoveryStep s a t) {b : DiscoveryMove}
    (hb : ∀ j, b = .clear j → ∃ c, s.calls[j]? = some c) (id : String) :
    Sweeps t id b ↔ Sweeps s id b := by
  cases b with
  | clear j =>
      obtain ⟨c, hc⟩ := hb j rfl
      obtain ⟨d, hd, hid⟩ := h.exists_call hc
      simp [Sweeps, hc, hd, hid]
  | _ => rfl

theorem mem_of_mem_since (h : a ∈ since i as) : a ∈ as := by
  fun_induction since i as with
  | case1 => cases h
  | case2 => exact List.mem_cons_of_mem _ h
  | case3 i id as ih => exact List.mem_cons_of_mem _ (ih h)
  | case4 i b as hzero hsucc ih => exact List.mem_cons_of_mem _ (ih h)

/-- A step keeps it. -/
theorem ResolvePending.step (h : ResolvePending past s)
    (hcount : registrations past = s.calls.length)
    (hstep : DiscoveryStep s a t) : ResolvePending (past ++ [a]) t := by
  have hclears : ∀ j, .clear j ∈ past ++ [a] → ∃ c, s.calls[j]? = some c := by
    intro j hj
    rcases List.mem_append.mp hj with hj | hj
    · exact h.clears j hj
    · obtain rfl := List.mem_singleton.mp hj
      exact hstep.clear_call
  refine ⟨fun j hj => ?_, fun i d hd => ?_⟩
  · obtain ⟨c, hc⟩ := hclears j hj
    obtain ⟨d, hd, -⟩ := hstep.exists_call hc
    exact ⟨d, hd⟩
  · rcases hstep.call_cases hd with ⟨c, hc, hid⟩ | ⟨rfl, rfl, hin⟩
    · have hlt := (List.getElem?_eq_some_iff.mp hc).1
      have hsame : ∀ b ∈ since i past, (Sweeps t c.id b ↔ Sweeps s c.id b) := fun b hb =>
        hstep.sweeps_iff (fun j hj => h.clears j (hj ▸ mem_of_mem_since hb)) c.id
      rw [since_snoc (hcount ▸ hlt), hstep.mem_pending_iff hlt, ← hid, h.pending i c hc,
        List.forall_mem_append, List.forall_mem_singleton]
      exact and_congr_left fun _ => forall₂_congr fun b hb => not_congr (hsame b hb).symm
    · rw [← hcount, since_register, hcount]
      exact iff_of_true hin nofun

/-! ## The runs -/

theorem kept_bind (deviceId : Option String) : Kept [] (bind deviceId) where
  tabled := ⟨fun _ _ h => (List.not_mem_nil h).elim, fun _ h => (List.not_mem_nil h).elim⟩
  count := rfl
  standing _ _ h := nomatch h

theorem resolvePending_bind (deviceId : Option String) : ResolvePending [] (bind deviceId) where
  clears _ h := (List.not_mem_nil h).elim
  pending _ _ h := nomatch h

/-- The invariants of the runs whose steps all do no harm. -/
theorem kept_of_run {deviceId : Option String}
    (hmeets : discovery.Meets Undisturbed (bind deviceId) as)
    (hrun : discovery.run (bind deviceId) as = some s) : Kept as s ∧ ResolvePending as s :=
  have hinit : Kept [] (bind deviceId) ∧ ResolvePending [] (bind deviceId) :=
    ⟨kept_bind deviceId, resolvePending_bind deviceId⟩
  System.run_induction_past (P := fun past s => Kept past s ∧ ResolvePending past s)
    (fun _ _ _ _ h hok hnext =>
      have hstep := discoveryNext_cases hnext
      ⟨h.1.step hok hstep, h.2.step h.1.count hstep⟩)
    hinit hmeets hrun

namespace ResolveStanding

variable {result : Option Ipv4Addr} {channel : Oneshot}

/-- A call that has returned returned what was promised. -/
theorem result_eq (h : ResolveStanding s i id as (.done result) channel) :
    result = firstReply i id as := by
  cases h with
  | unanswered hopen => cases hopen
  | underway hopen => cases hopen
  | answered hopen => cases hopen
  | returned hresult => exact hresult

/-- And its list was swept, unless it failed. -/
theorem exists_sweep (h : ResolveStanding s i id as (.done result) channel)
    (hid : ∃ c ∈ s.calls[i]?, c.id = id) :
    (∃ a ∈ as, failsAt i id a = true) ∨ ∃ a ∈ as, Sweeps s id a := by
  cases h with
  | unanswered hopen => cases hopen
  | underway hopen => cases hopen
  | answered hopen => cases hopen
  | returned hresult _ hswept =>
      rcases hswept with hsome | hclear | hfails
      · obtain ⟨ip, rfl⟩ := Option.isSome_iff_exists.mp hsome
        obtain ⟨a, ha, hreply⟩ := exists_of_firstReply hresult.symm
        refine .inr ⟨a, ha, ?_⟩
        cases a with
        | receive => exact fun hnone => nomatch hreply.symm.trans hnone
        | _ => cases hreply
      · exact .inr ⟨_, hclear, hid⟩
      · exact .inl hfails

end ResolveStanding

/-- A reply for an id. -/
def replyOf (id : String) (ip : Ipv4Addr) : DiscoveryMove :=
  .receive ⟨.v4 ip, discoveryPort⟩ ((discoveryReply id).getD [])

/-- One call is answered while another one, for another id, times out. -/
def twoIds : List DiscoveryMove :=
  [.register "0101", .register "0102", .encode 0, .send 0 ⟨10, 0, 0, 255⟩ true, .encode 1,
    .send 1 ⟨10, 0, 0, 255⟩ true, .elapse 1, replyOf "0101" ⟨10, 0, 0, 7⟩, .clear 1, .deliver,
    .wake 0]

/-- Two calls for one id: the first one's timeout drops the waiter of the second. -/
def oneId : List DiscoveryMove :=
  [.register "0101", .encode 0, .send 0 ⟨10, 0, 0, 255⟩ true, .register "0101", .encode 1,
    .send 1 ⟨10, 0, 0, 255⟩ true, .elapse 0, .clear 0, replyOf "0101" ⟨10, 0, 0, 7⟩, .wake 1,
    .clear 1]

/-- A call that fails to send. -/
def failedSend : List DiscoveryMove :=
  [.register "0101", .encode 0, .send 0 ⟨10, 0, 0, 255⟩ false]

end Michoi
