/-
  A map next to a queue of its keys, oldest first: the shape of a cache or a buffer that
  drops its oldest entry.

  `Lists queue m` says that the two are in step: the queue holds each key of the map
  exactly once. The lemmas say how the operations on the pair keep it. `lastN` is what such
  a buffer still holds of all that was put into it.
-/
import Mathlib.Data.List.AList

namespace Lib

variable {κ ν : Type*}

/-- The queue holds every key of the map, each once. -/
def Lists (queue : List κ) (m : AList fun _ : κ => ν) : Prop := queue.Perm m.keys

namespace Lists

variable {queue : List κ} {m : AList fun _ : κ => ν} {k : κ}

theorem empty : Lists [] (∅ : AList fun _ : κ => ν) := List.Perm.refl _

theorem nodup (h : Lists queue m) : queue.Nodup :=
  (List.Perm.nodup_iff h).mpr m.keys_nodup

theorem length_eq (h : Lists queue m) : queue.length = m.keys.length := List.Perm.length_eq h

variable [DecidableEq κ]

/-- A new key goes to the end of the queue. -/
theorem insert_new (h : Lists queue m) (hk : k ∉ m) (v : ν) :
    Lists (queue ++ [k]) (m.insert k v) := by
  have hk' : k ∉ m.keys := fun hm => hk (AList.mem_keys.mpr hm)
  unfold Lists
  rw [AList.keys_insert, List.erase_of_not_mem hk']
  exact (List.perm_append_singleton k queue).trans (List.Perm.cons k h)

/-- A known key keeps its place. -/
theorem insert_old (h : Lists queue m) (hk : k ∈ m) (v : ν) : Lists queue (m.insert k v) := by
  unfold Lists
  rw [AList.keys_insert]
  exact List.Perm.trans h (List.perm_cons_erase (AList.mem_keys.mp hk))

/-- Dropping the oldest key from both. -/
theorem erase_head (h : Lists (k :: queue) m) : Lists queue (m.erase k) := by
  unfold Lists
  rw [AList.keys_erase]
  simpa using List.Perm.erase k h

/-- Dropping a key from both. -/
theorem erase (h : Lists queue m) (k : κ) :
    Lists (queue.filter (· ≠ k)) (m.erase k) := by
  have hf : queue.filter (· ≠ k) = queue.erase k := by
    rw [h.nodup.erase_eq_filter]
    congr 1
    funext x
    by_cases hx : x = k <;> simp [hx]
  unfold Lists
  rw [hf, AList.keys_erase]
  exact List.Perm.erase k h

end Lists

/-! ## The last entries of a list -/

/-- The last `n` entries. -/
def lastN {α : Type*} (n : Nat) (l : List α) : List α := l.drop (l.length - n)

section

variable {α : Type*} {n : Nat} {l : List α}

theorem length_lastN (n : Nat) (l : List α) : (lastN n l).length = min l.length n := by
  unfold lastN
  rw [List.length_drop]
  omega

theorem map_lastN {β : Type*} (f : α → β) (n : Nat) (l : List α) :
    (lastN n l).map f = lastN n (l.map f) := by
  unfold lastN
  rw [List.map_drop, List.length_map]

/-- A buffer that grows with its list. -/
theorem lastN_succ_append (h : n ≤ l.length) (x : α) :
    lastN (n + 1) (l ++ [x]) = lastN n l ++ [x] := by
  unfold lastN
  rw [List.length_append, List.length_singleton, Nat.add_sub_add_right,
    List.drop_append_of_le_length (by omega)]

/-- While there is room, a new entry only adds to the ones held. -/
theorem lastN_append_of_lt (h : l.length < n) (x : α) : lastN n (l ++ [x]) = lastN n l ++ [x] := by
  have h₁ : l.length - n = 0 := by omega
  have h₂ : (l ++ [x]).length - n = 0 := by
    rw [List.length_append, List.length_singleton]
    omega
  unfold lastN
  rw [h₁, h₂, List.drop_zero, List.drop_zero]

/-- Once it is full, a new entry takes the place of the oldest. -/
theorem lastN_append_of_le (hn : 0 < n) (h : n ≤ l.length) (x : α) :
    lastN n (l ++ [x]) = (lastN n l).tail ++ [x] := by
  unfold lastN
  rw [List.tail_drop, List.length_append, List.length_singleton,
    List.drop_append_of_le_length (by omega)]
  congr 2
  omega

/-- An entry with fewer than `n` after it is still held. -/
theorem mem_lastN (pre : List α) (x : α) (post : List α) (h : post.length < n) :
    x ∈ lastN n (pre ++ x :: post) := by
  unfold lastN
  have hle : (pre ++ x :: post).length - n ≤ pre.length := by
    rw [List.length_append, List.length_cons]
    omega
  rw [List.drop_append_of_le_length hle]
  exact List.mem_append_right _ List.mem_cons_self

end

end Lib
