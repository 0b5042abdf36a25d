/-
  What was stored last under each key.

  `recency key xs` keeps of a history the last entry under each key, in the order of these
  entries, so its last `n` are the `n` keys stored most recently. `lastN_recency_snoc` is
  what one more entry does to them: a key among them moves to the end, and a new one takes
  the place of the first once there are `n`.

  `map_recency`: which keys these are is a matter of the keys alone.
  `lastN_recency_of_spaced`: where any `n` keys in a row are different, they are the last `n`.
-/
import Michoi.Lib.Fifo
import Mathlib.Data.List.Dedup
import Mathlib.Data.List.Induction

namespace Lib

variable {α κ : Type*} [DecidableEq κ] (key : α → κ)

/-- An entry replaces the one under its key, at the end. -/
def touch (l : List α) (x : α) : List α := l.filter (fun y => key y ≠ key x) ++ [x]

def recency (xs : List α) : List α := xs.foldl (touch key) []

/-- The entry under a key. -/
def entry (l : List α) (k : κ) : Option α := l.find? fun x => key x = k

variable {key} {l : List α} {x : α} {k : κ} {n : Nat}

theorem recency_snoc (xs : List α) (x : α) :
    recency key (xs ++ [x]) = touch key (recency key xs) x := by
  unfold recency
  rw [List.foldl_append, List.foldl_cons, List.foldl_nil]

theorem entry_eq_none_iff : entry key l k = none ↔ k ∉ l.map key := by
  simp [entry]

theorem entry_cons (x : α) (l : List α) (k : κ) :
    entry key (x :: l) k = if key x = k then some x else entry key l k := by
  unfold entry
  rw [List.find?_cons]
  by_cases h : key x = k
  · simp [h]
  · simp [h]

theorem nodup_touch (h : (l.map key).Nodup) : ((touch key l x).map key).Nodup := by
  unfold touch
  rw [List.map_append, List.map_singleton, List.nodup_append]
  refine ⟨h.sublist (List.filter_sublist.map key), List.nodup_singleton _, ?_⟩
  intro k hk k' hk' heq
  obtain ⟨y, hy, rfl⟩ := List.mem_map.mp hk
  rw [List.mem_singleton.mp hk'] at heq
  exact absurd heq (by simpa using (List.mem_filter.mp hy).2)

theorem nodup_recency (xs : List α) : ((recency key xs).map key).Nodup := by
  unfold recency
  refine List.foldlRecOn (motive := fun l : List α => (l.map key).Nodup) xs _ List.nodup_nil ?_
  exact fun l hl x _ => nodup_touch hl

theorem entry_touch :
    entry key (touch key l x) k = if k = key x then some x else entry key l k := by
  unfold entry touch
  rw [List.find?_append, List.find?_filter]
  by_cases hk : k = key x
  · have hnone : (l.find? fun y => decide (decide (key y ≠ key x) = true ∧
        decide (key y = k) = true)) = none := by
      rw [List.find?_eq_none, hk]
      simp
    rw [hnone, if_pos hk]
    simp [hk]
  · have hsame : (fun y => decide (decide (key y ≠ key x) = true ∧ decide (key y = k) = true)) =
        fun y => decide (key y = k) := by
      funext y
      by_cases hy : key y = k
      · simp [hy, hk]
      · simp [hy]
    rw [hsame, if_neg hk]
    simp [Ne.symm hk]

/-- A new key leaves the others as they are. -/
theorem touch_of_not_mem (h : key x ∉ l.map key) : touch key l x = l ++ [x] := by
  unfold touch
  rw [List.filter_eq_self.mpr]
  intro y hy
  simp only [ne_eq, decide_eq_true_eq]
  exact fun hkey => h (hkey ▸ List.mem_map_of_mem hy)

/-- A known key goes to the end. -/
theorem touch_of_mem {before after : List α} {y : α}
    (hnodup : ((before ++ y :: after).map key).Nodup) (hkey : key y = key x) :
    touch key (before ++ y :: after) x = before ++ after ++ [x] := by
  have hothers : key x ∉ (before ++ after).map key := by
    rw [List.map_append, List.map_cons, List.nodup_middle, List.nodup_cons, hkey] at hnodup
    rw [List.map_append]
    exact hnodup.1
  rw [← touch_of_not_mem hothers]
  simp [touch, hkey]

theorem length_touch_of_mem (hnodup : (l.map key).Nodup) (h : key x ∈ l.map key) :
    (touch key l x).length = l.length := by
  obtain ⟨y, hy, hkey⟩ := List.mem_map.mp h
  obtain ⟨before, after, rfl⟩ := List.append_of_mem hy
  rw [touch_of_mem hnodup hkey]
  simp

/-! ## The keys -/

theorem map_touch (l : List α) (x : α) :
    (touch key l x).map key = touch id (l.map key) (key x) := by
  unfold touch
  rw [List.map_append, List.filter_map]
  rfl

theorem map_recency (xs : List α) : (recency key xs).map key = recency id (xs.map key) := by
  induction xs using List.reverseRecOn with
  | nil => rfl
  | append_singleton xs x ih =>
      rw [recency_snoc, map_touch, ih, List.map_append, List.map_singleton, recency_snoc]

theorem mem_recency {ks : List κ} : k ∈ recency id ks ↔ k ∈ ks := by
  induction ks using List.reverseRecOn with
  | nil => rfl
  | append_singleton ks j ih =>
      rw [recency_snoc]
      unfold touch
      rw [List.mem_append, List.mem_append, List.mem_filter, ih]
      by_cases hk : k = j <;> simp [hk]

/-- There is one entry for each different key. -/
theorem length_recency (ks : List κ) : (recency id ks).length = ks.dedup.length := by
  have hnodup : (recency id ks).Nodup := by
    have h : ((recency id ks).map id).Nodup := nodup_recency ks
    rwa [List.map_id] at h
  refine List.Perm.length_eq ((List.perm_ext_iff_of_nodup hnodup ks.nodup_dedup).mpr fun k => ?_)
  rw [mem_recency, List.mem_dedup]

/-! ## The last entries -/

omit [DecidableEq κ] in
theorem nodup_lastN {l : List α} (h : (l.map key).Nodup) (n : Nat) :
    ((lastN n l).map key).Nodup :=
  h.sublist ((List.drop_sublist _ l).map key)

/-- What stands before the last entries, if there are as many. -/
theorem lastN_append {xs ys : List α} (h : ys.length ≤ n) (hxs : xs = [] ∨ ys.length = n) :
    lastN n (xs ++ ys) = ys := by
  unfold lastN
  rcases hxs with rfl | hn
  · rw [List.nil_append, Nat.sub_eq_zero_of_le h, List.drop_zero]
  · exact List.drop_left' (by rw [List.length_append]; omega)

/-- The last entries of a history, after one more. -/
theorem lastN_recency_snoc (hn : 0 < n) (xs : List α) (x : α) :
    lastN n (recency key (xs ++ [x])) =
      if key x ∈ (lastN n (recency key xs)).map key ∨ (lastN n (recency key xs)).length < n then
        touch key (lastN n (recency key xs)) x
      else (lastN n (recency key xs)).tail ++ [x] := by
  have hnodup : ((recency key xs).map key).Nodup := nodup_recency xs
  rw [recency_snoc]
  generalize recency key xs = all at hnodup
  have hlength := length_lastN n all
  have hlast := nodup_lastN hnodup n
  obtain ⟨older, hall, hempty⟩ : ∃ older, all = older ++ lastN n all ∧
      (older = [] ∨ (lastN n all).length = n) := by
    refine ⟨all.take (all.length - n), (List.take_append_drop _ all).symm, ?_⟩
    rw [List.take_eq_nil_iff]
    omega
  have hsplit : touch key all x =
      older.filter (fun y => key y ≠ key x) ++ touch key (lastN n all) x := by
    conv_lhs => rw [hall]
    simp [touch]
  rw [hsplit]
  split
  · next hknown =>
      refine lastN_append ?_ ?_
      · by_cases hmem : key x ∈ (lastN n all).map key
        · rw [length_touch_of_mem hlast hmem]
          omega
        · rw [touch_of_not_mem hmem, List.length_append, List.length_singleton]
          exact hknown.resolve_left hmem
      · rcases hempty with rfl | hfull
        · exact .inl rfl
        · have hmem := hknown.resolve_right (by omega)
          exact .inr (by rw [length_touch_of_mem hlast hmem, hfull])
  · next hnew =>
      rw [not_or] at hnew
      rw [touch_of_not_mem hnew.1]
      have hfull : (lastN n all).length = n := by omega
      cases hfirst : lastN n all with
      | nil =>
          rw [hfirst, List.length_nil] at hfull
          omega
      | cons first rest =>
          rw [hfirst, List.length_cons] at hfull
          have hregroup : older.filter (fun y => key y ≠ key x) ++ (first :: rest ++ [x]) =
              older.filter (fun y => key y ≠ key x) ++ [first] ++ (rest ++ [x]) := by simp
          rw [hregroup, List.tail_cons]
          exact lastN_append (by simp; omega) (.inr (by simp; omega))

/-! ## Keys that are spaced -/

omit [DecidableEq κ] in
/-- Any `n` keys in a row are different. -/
def Spaced (n : Nat) (ks : List κ) : Prop := ∀ sofar, sofar <+: ks → (lastN n sofar).Nodup

namespace Spaced

variable {ks sofar : List κ}

omit [DecidableEq κ]

theorem of_nodup (h : ks.Nodup) (n : Nat) : Spaced n ks := fun _ hp =>
  (h.sublist hp.sublist).sublist (List.drop_sublist _ _)

theorem of_prefix (h : Spaced n ks) (hp : sofar <+: ks) : Spaced n sofar :=
  fun _ hp' => h _ (hp'.trans hp)

/-- A key comes again only in the place of the first of the last `n`. -/
theorem snoc (hn : 0 < n) (h : Spaced n (ks ++ [k])) :
    k ∉ (if ks.length < n then lastN n ks else (lastN n ks).tail) := by
  have hlast := h _ List.prefix_rfl
  split
  · next hroom =>
      rw [lastN_append_of_lt hroom] at hlast
      exact fun hin => (List.nodup_append.mp hlast).2.2 k hin k List.mem_cons_self rfl
  · next hfull =>
      rw [lastN_append_of_le hn (by omega)] at hlast
      exact fun hin => (List.nodup_append.mp hlast).2.2 k hin k List.mem_cons_self rfl

end Spaced

theorem lastN_recency_of_spaced {ks : List κ} (hn : 0 < n) (h : Spaced n ks) :
    lastN n (recency id ks) = lastN n ks := by
  induction ks using List.reverseRecOn with
  | nil => rfl
  | append_singleton ks k ih =>
      have hks := ih (h.of_prefix (List.prefix_append ks [k]))
      have hnew := h.snoc hn
      have hlength := length_lastN n ks
      rw [lastN_recency_snoc hn, hks, List.map_id]
      by_cases hroom : ks.length < n
      · rw [if_pos hroom] at hnew
        rw [if_pos (.inr (by omega)), lastN_append_of_lt hroom]
        exact touch_of_not_mem (by rwa [List.map_id])
      · rw [if_neg hroom] at hnew
        rw [lastN_append_of_le hn (by omega)]
        split
        · next hknown =>
            have hmem : k ∈ lastN n ks := hknown.resolve_right (by omega)
            have hnodup := h.of_prefix (List.prefix_append ks [k]) _ List.prefix_rfl
            cases hfirst : lastN n ks with
            | nil =>
                rw [hfirst] at hmem
                cases hmem
            | cons first rest =>
                rw [hfirst] at hmem hnew hnodup
                obtain rfl : k = first := (List.mem_cons.mp hmem).resolve_right hnew
                have hids : ((([] : List κ) ++ k :: rest).map id).Nodup := by rwa [List.map_id]
                exact touch_of_mem hids rfl
        · rfl

end Lib
