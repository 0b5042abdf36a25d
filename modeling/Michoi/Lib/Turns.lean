/-
  A log that the threads of a pool write by turns.

  `TurnsIn`: a thread that has the turn is the last one in the order, each thread is in it
  once at most, and the log is what the threads wrote, one after the other. The rules say
  what a step of one thread leaves of it.
-/
import Michoi.Lib.Pool

namespace Lib

variable {L β : Type*} {holds entered : L → Prop} {part : L → List β} {log more : List β}
  {ls : List L} {i : Nat} {l l' : L} {order : List Nat}

/-- What the thread at a place wrote. -/
def partAt (part : L → List β) (ls : List L) (i : Nat) : List β := ((ls[i]?).map part).getD []

theorem partAt_of_some (h : ls[i]? = some l) : partAt part ls i = part l := by
  unfold partAt
  rw [h]
  rfl

theorem partAt_set_other {j : Nat} (h : j ≠ i) :
    partAt part (ls.set i l') j = partAt part ls j := by
  unfold partAt
  rw [getElem?_set_other h]

/-- A step after which the thread has written the same. -/
theorem partAt_set_same (hl : ls[i]? = some l) (hpart : part l' = part l) (j : Nat) :
    partAt part (ls.set i l') j = partAt part ls j := by
  by_cases hj : j = i
  · subst hj
    rw [partAt_of_some hl, partAt_of_some (getElem?_set_self hl), hpart]
  · exact partAt_set_other hj

structure TurnsIn (holds entered : L → Prop) (part : L → List β) (log : List β) (ls : List L)
    (order : List Nat) : Prop where
  nodup : order.Nodup
  log : log = order.flatMap (partAt part ls)
  entered : ∀ i ∈ order, ∃ l, ls[i]? = some l ∧ entered l
  wrote : ∀ (i : Nat) l, ls[i]? = some l → part l ≠ [] → i ∈ order
  last : ∀ (i : Nat) l, ls[i]? = some l → holds l → order.getLast? = some i

namespace TurnsIn

theorem nil : TurnsIn holds entered part [] [] [] where
  nodup := List.nodup_nil
  log := rfl
  entered _ h := absurd h List.not_mem_nil
  wrote _ _ h := by simp at h
  last _ _ h := by simp at h

/-- At most one thread has the turn. -/
theorem atMostOne (h : TurnsIn holds entered part log ls order) : AtMostOne holds ls := by
  intro i j k k' hk hk' hholds hholds'
  exact Option.some.inj ((h.last i k hk hholds).symm.trans (h.last j k' hk' hholds'))

/-- A thread that has written nothing. -/
theorem append (h : TurnsIn holds entered part log ls order) (hl : ¬ holds l)
    (hpart : part l = []) : TurnsIn holds entered part log (ls ++ [l]) order where
  nodup := h.nodup
  log := by
    rw [h.log]
    refine List.flatMap_congr fun i hi => ?_
    obtain ⟨k, hk, -⟩ := h.entered i hi
    rw [partAt_of_some hk, partAt_of_some (getElem?_append_of_some hk)]
  entered i hi := (h.entered i hi).imp fun _ hk => ⟨getElem?_append_of_some hk.1, hk.2⟩
  wrote i k hk hne := by
    rcases getElem?_append_cases hk with ⟨-, rfl⟩ | hk
    · exact absurd hpart hne
    · exact h.wrote i k hk hne
  last i k hk hholds := by
    rcases getElem?_append_cases hk with ⟨-, rfl⟩ | hk
    · exact absurd hholds hl
    · exact h.last i k hk hholds

/-- A step that writes nothing and does not take the turn. -/
theorem keep (h : TurnsIn holds entered part log ls order) (hl : ls[i]? = some l)
    (hpart : part l' = part l) (hholds : holds l' → holds l) (hentered : entered l → entered l') :
    TurnsIn holds entered part log (ls.set i l') order where
  nodup := h.nodup
  log := h.log.trans (List.flatMap_congr fun j _ => (partAt_set_same hl hpart j).symm)
  entered j hj := by
    obtain ⟨k, hk, hin⟩ := h.entered j hj
    by_cases hji : j = i
    · subst hji
      obtain rfl := Option.some.inj (hl.symm.trans hk)
      exact ⟨l', getElem?_set_self hl, hentered hin⟩
    · exact ⟨k, (getElem?_set_other hji).trans hk, hin⟩
  wrote j k hk hne := by
    rcases getElem?_set_cases hk with ⟨rfl, rfl⟩ | ⟨-, hk⟩
    · exact h.wrote j l hl (hpart ▸ hne)
    · exact h.wrote j k hk hne
  last j k hk hin := by
    rcases getElem?_set_cases hk with ⟨rfl, rfl⟩ | ⟨-, hk⟩
    · exact h.last j l hl (hholds hin)
    · exact h.last j k hk hin

/-- The step by which a thread takes the turn, where no thread has it. -/
theorem enter (h : TurnsIn holds entered part log ls order) (hl : ls[i]? = some l)
    (hnew : ¬ entered l) (hfree : ∀ k ∈ ls, ¬ holds k) (hpart : part l' = part l)
    (hentered : entered l') : TurnsIn holds entered part log (ls.set i l') (order ++ [i]) := by
  have hout : i ∉ order := fun hi => by
    obtain ⟨k, hk, hin⟩ := h.entered i hi
    obtain rfl := Option.some.inj (hl.symm.trans hk)
    exact hnew hin
  have hnothing : part l = [] := by
    by_contra hne
    exact hout (h.wrote i l hl hne)
  refine ⟨?_, ?_, fun j hj => ?_, fun j k hk hne => ?_, fun j k hk hin => ?_⟩
  · exact List.nodup_append.mpr ⟨h.nodup, List.pairwise_singleton _ i, fun a ha b hb heq =>
      hout (List.mem_singleton.mp hb ▸ heq ▸ ha)⟩
  · rw [List.flatMap_append, List.flatMap_singleton, partAt_set_same hl hpart,
      partAt_of_some hl, hnothing, List.append_nil, h.log]
    exact List.flatMap_congr fun j _ => (partAt_set_same hl hpart j).symm
  · rcases List.mem_append.mp hj with hj | hj
    · obtain ⟨k, hk, hin⟩ := h.entered j hj
      have hji : j ≠ i := fun heq => hout (heq ▸ hj)
      exact ⟨k, (getElem?_set_other hji).trans hk, hin⟩
    · obtain rfl := List.mem_singleton.mp hj
      exact ⟨l', getElem?_set_self hl, hentered⟩
  · rcases getElem?_set_cases hk with ⟨rfl, rfl⟩ | ⟨-, hk⟩
    · exact List.mem_append_right _ (List.mem_singleton_self j)
    · exact List.mem_append_left _ (h.wrote j k hk hne)
  · rcases getElem?_set_cases hk with ⟨rfl, rfl⟩ | ⟨-, hk⟩
    · exact List.getLast?_concat
    · exact absurd hin (hfree k (List.mem_of_getElem? hk))

/-- The thread that has the turn writes. -/
theorem write (h : TurnsIn holds entered part log ls order) (hl : ls[i]? = some l)
    (hholds : holds l) (hpart : part l' = part l ++ more) (hentered : entered l') :
    TurnsIn holds entered part (log ++ more) (ls.set i l') order := by
  obtain ⟨before, horder⟩ : ∃ before, order = before ++ [i] :=
    List.getLast?_eq_some_iff.mp (h.last i l hl hholds)
  have hnodup := h.nodup
  rw [horder] at hnodup
  have hout : i ∉ before := fun hi =>
    (List.nodup_append.mp hnodup).2.2 i hi i (List.mem_singleton_self i) rfl
  refine ⟨h.nodup, ?_, fun j hj => ?_, fun j k hk hne => ?_, fun j k hk hin => ?_⟩
  · have hbefore : before.flatMap (partAt part (ls.set i l')) =
        before.flatMap (partAt part ls) :=
      List.flatMap_congr fun j hj => partAt_set_other fun heq => hout (heq ▸ hj)
    rw [h.log, horder, List.flatMap_append, List.flatMap_append, List.flatMap_singleton,
      List.flatMap_singleton, hbefore, partAt_of_some hl, partAt_of_some (getElem?_set_self hl),
      hpart, List.append_assoc]
  · obtain ⟨k, hk, hin⟩ := h.entered j hj
    by_cases hji : j = i
    · subst hji
      exact ⟨l', getElem?_set_self hl, hentered⟩
    · exact ⟨k, (getElem?_set_other hji).trans hk, hin⟩
  · rcases getElem?_set_cases hk with ⟨rfl, rfl⟩ | ⟨-, hk⟩
    · rw [horder]
      exact List.mem_append_right _ (List.mem_singleton_self j)
    · exact h.wrote j k hk hne
  · rcases getElem?_set_cases hk with ⟨rfl, rfl⟩ | ⟨-, hk⟩
    · exact h.last j l hl hholds
    · exact h.last j k hk hin

end TurnsIn

end Lib
