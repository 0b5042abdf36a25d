/-
  The idempotency cache under ids that repeat (`CommandCache`).

  A repeated id enters the queue once more, but the map once. What a later store evicts then
  need not be the oldest id: it may be one that was stored again since, or one that is no
  longer there.

  While the cache is right, its queue holds the last ids stored, as many as it took to fill
  it (`queue_eq`). So which id a store evicts is a matter of the capacity and the ids alone,
  and `keepsNewest_iff` says for which ids the cache holds those stored most recently. Among
  them are all of which any `capacity` in a row are different.
-/
import Mathlib.Data.List.Induction
import Michoi.AgentApi
import Michoi.Lib.Recency

namespace Michoi

open Lib

namespace CommandCache

/-- The cache after these results were stored. -/
def storeAll (capacity : Nat) (stored : List CommandResult) : CommandCache :=
  stored.foldl store (new capacity)

/-- The latest results under the ids stored most recently, oldest first. -/
def newest (n : Nat) (stored : List CommandResult) : List CommandResult :=
  lastN n (recency CommandResult.commandId stored)

/-- The cache holds the newest ids, each with its latest result, and no others. -/
structure KeepsNewest (capacity : Nat) (stored : List CommandResult) : Prop where
  bounded : (storeAll capacity stored).results.keys.length ≤ capacity
  found : ∀ commandId, (storeAll capacity stored).results.lookup commandId =
    entry CommandResult.commandId (newest capacity stored) commandId

/-- With these ids kept, oldest first, a store of `x` may evict this one: for a new `x` the
    oldest of them; for an `x` among them that one itself, or one that is not among them. -/
def RightToEvict (kept : List String) (evicted x : String) : Prop :=
  if x ∈ kept then evicted = x ∨ evicted ∉ kept else kept.head? = some evicted

instance (kept : List String) (evicted x : String) : Decidable (RightToEvict kept evicted x) :=
  inferInstanceAs (Decidable
    (if x ∈ kept then evicted = x ∨ evicted ∉ kept else kept.head? = some evicted))

/-- How many of the stores of these ids found room: those that came when fewer than `capacity`
    different ids had been stored. -/
def filling (capacity : Nat) (ids : List String) : Nat :=
  (List.range ids.length).countP fun k => decide ((ids.take k).dedup.length < capacity)

/-- After the stores of `sofar` there is room, or the id that is the first of the last ones,
    as many as filled the cache, may make room for `x`. -/
def StoresRightly (capacity : Nat) (sofar : List String) (x : String) : Prop :=
  capacity ≤ sofar.dedup.length →
    ∀ evicted ∈ (lastN (filling capacity sofar) sofar).head?,
      RightToEvict (lastN capacity (recency id sofar)) evicted x

instance (capacity : Nat) (sofar : List String) (x : String) :
    Decidable (StoresRightly capacity sofar x) :=
  inferInstanceAs (Decidable (_ → ∀ _ ∈ _, _))

/-- Each of the stores of these ids is right. -/
def EvictsRightly (capacity : Nat) (ids : List String) : Prop :=
  ∀ k < ids.length, ∀ x ∈ ids[k]?, StoresRightly capacity (ids.take k) x

instance (capacity : Nat) (ids : List String) : Decidable (EvictsRightly capacity ids) :=
  inferInstanceAs (Decidable (∀ k < ids.length, ∀ x ∈ ids[k]?, _))

/-! ## The ids -/

section

variable {capacity : Nat} {ids : List String}

theorem filling_snoc (capacity : Nat) (ids : List String) (x : String) :
    filling capacity (ids ++ [x]) =
      filling capacity ids + if ids.dedup.length < capacity then 1 else 0 := by
  unfold filling
  rw [List.length_append, List.length_singleton, List.range_succ, List.countP_append,
    List.countP_singleton, List.take_left]
  congr 1
  · refine List.countP_congr fun k hk => ?_
    rw [List.take_append_of_le_length (Nat.le_of_lt (List.mem_range.mp hk))]
  · simp

theorem filling_le (capacity : Nat) (ids : List String) : filling capacity ids ≤ ids.length :=
  List.countP_le_length.trans_eq List.length_range

theorem evictsRightly_snoc {x : String} : EvictsRightly capacity (ids ++ [x]) ↔
    EvictsRightly capacity ids ∧ StoresRightly capacity ids x := by
  unfold EvictsRightly
  rw [List.length_append, List.length_singleton]
  constructor
  · intro h
    refine ⟨fun k hk y hy => ?_, ?_⟩
    · have hright := h k (by omega) y (by rw [List.getElem?_append_left hk]; exact hy)
      rwa [List.take_append_of_le_length (by omega)] at hright
    · have hright := h ids.length (by omega) x (by simp)
      rwa [List.take_left] at hright
  · rintro ⟨hbefore, hlast⟩ k hk y hy
    by_cases hlt : k < ids.length
    · rw [List.getElem?_append_left hlt] at hy
      rw [List.take_append_of_le_length (by omega)]
      exact hbefore k hlt y hy
    · obtain rfl : k = ids.length := by omega
      rw [List.getElem?_concat_length] at hy
      obtain rfl := Option.some.inj hy
      rwa [List.take_left]

/-- Ids that are spaced fill the cache one by one. -/
theorem dedup_lt_iff (hcapacity : 0 < capacity) (h : Spaced capacity ids) :
    ids.dedup.length < capacity ↔ ids.length < capacity := by
  have hlast := congrArg List.length (lastN_recency_of_spaced hcapacity h)
  rw [length_lastN, length_lastN, length_recency] at hlast
  omega

theorem filling_of_spaced (hcapacity : 0 < capacity) (h : Spaced capacity ids) :
    filling capacity ids = min ids.length capacity := by
  induction ids using List.reverseRecOn with
  | nil => exact (Nat.zero_min _).symm
  | append_singleton ids x ih =>
      have hids := h.of_prefix (List.prefix_append ids [x])
      have hiff := dedup_lt_iff hcapacity hids
      rw [filling_snoc, ih hids, List.length_append, List.length_singleton]
      split <;> omega

/-- Ids that are spaced are evicted in the order in which they came. -/
theorem evictsRightly_of_spaced (hcapacity : 0 < capacity) (h : Spaced capacity ids) :
    EvictsRightly capacity ids := by
  induction ids using List.reverseRecOn with
  | nil => exact fun k hk => absurd hk (Nat.not_lt_zero k)
  | append_singleton ids x ih =>
      have hids := h.of_prefix (List.prefix_append ids [x])
      refine evictsRightly_snoc.mpr ⟨ih hids, fun hfull evicted hevicted => ?_⟩
      have hlength : capacity ≤ ids.length := by
        have hiff := dedup_lt_iff hcapacity hids
        omega
      have hnew := h.snoc hcapacity
      rw [if_neg (by omega)] at hnew
      rw [filling_of_spaced hcapacity hids, Nat.min_eq_right hlength] at hevicted
      rw [lastN_recency_of_spaced hcapacity hids]
      unfold RightToEvict
      split
      · next hknown =>
          left
          cases hkept : lastN capacity ids with
          | nil =>
              rw [hkept] at hknown
              cases hknown
          | cons first rest =>
              rw [hkept] at hknown hnew hevicted
              obtain rfl : first = evicted := Option.some.inj hevicted
              exact ((List.mem_cons.mp hknown).resolve_right hnew).symm
      · exact hevicted

end

/-! ## The queue -/

theorem storeAll_snoc (capacity : Nat) (stored : List CommandResult) (r : CommandResult) :
    storeAll capacity (stored ++ [r]) = (storeAll capacity stored).store r := by
  unfold storeAll
  rw [List.foldl_append, List.foldl_cons, List.foldl_nil]

@[simp] theorem storeAll_capacity (capacity : Nat) (stored : List CommandResult) :
    (storeAll capacity stored).capacity = capacity := by
  induction stored using List.reverseRecOn with
  | nil => rfl
  | append_singleton stored r ih => rw [storeAll_snoc, store_capacity, ih]

/-- What a store does to the map. -/
theorem lookup_store (c : CommandCache) (r : CommandResult) (commandId : String) :
    (c.store r).results.lookup commandId =
      if commandId = r.commandId then some r
      else if c.capacity ≤ c.results.keys.length ∧ c.queue.head? = some commandId then none
      else c.results.lookup commandId := by
  unfold store makeRoom
  dsimp only
  by_cases hid : commandId = r.commandId
  · rw [if_pos hid, hid, AList.lookup_insert]
  rw [if_neg hid, AList.lookup_insert_ne hid]
  by_cases hfull : c.capacity ≤ c.results.keys.length
  case neg => rw [if_neg hfull, if_neg fun h => hfull h.1]
  rw [if_pos hfull]
  cases hqueue : c.queue with
  | nil => simp
  | cons evicted queue =>
      by_cases hevicted : commandId = evicted
      · subst hevicted
        simp [hfull]
      · simp [AList.lookup_erase_ne hevicted, Ne.symm hevicted]

theorem queue_store (c : CommandCache) (r : CommandResult) :
    (c.store r).queue =
      (if c.capacity ≤ c.results.keys.length then c.queue.tail else c.queue) ++ [r.commandId] := by
  unfold store makeRoom
  dsimp only
  by_cases hfull : c.capacity ≤ c.results.keys.length
  · rw [if_pos hfull, if_pos hfull]
    cases hqueue : c.queue with
    | nil => simp [hqueue]
    | cons evicted queue => simp
  · rw [if_neg hfull, if_neg hfull]

theorem mem_iff_lookup {c : CommandCache} {commandId : String} :
    commandId ∈ c.results ↔ c.results.lookup commandId ≠ none := by
  rw [← AList.lookup_isSome, Option.isSome_iff_ne_none]

/-- Every id that is there is in the queue. -/
theorem mem_queue {capacity : Nat} {stored : List CommandResult} {commandId : String}
    (h : commandId ∈ (storeAll capacity stored).results) :
    commandId ∈ (storeAll capacity stored).queue := by
  induction stored using List.reverseRecOn with
  | nil => exact absurd h (AList.notMem_empty _)
  | append_singleton stored r ih =>
      rw [storeAll_snoc] at h ⊢
      rw [mem_iff_lookup, lookup_store] at h
      rw [queue_store, List.mem_append, List.mem_singleton]
      by_cases hid : commandId = r.commandId
      · exact .inr hid
      rw [if_neg hid] at h
      left
      by_cases hfull : (storeAll capacity stored).capacity ≤
          (storeAll capacity stored).results.keys.length
      case neg =>
        rw [if_neg hfull]
        rw [if_neg fun hcond => hfull hcond.1] at h
        exact ih (mem_iff_lookup.mpr h)
      rw [if_pos hfull]
      by_cases hhead : (storeAll capacity stored).queue.head? = some commandId
      · rw [if_pos ⟨hfull, hhead⟩] at h
        exact absurd rfl h
      · rw [if_neg fun hcond => hhead hcond.2] at h
        have hmem := ih (mem_iff_lookup.mpr h)
        cases hqueue : (storeAll capacity stored).queue with
        | nil =>
            rw [hqueue] at hmem
            cases hmem
        | cons evicted queue =>
            rw [hqueue] at hmem hhead
            exact (List.mem_cons.mp hmem).resolve_left fun heq => hhead (heq ▸ rfl)

/-! ## One store -/

section

variable {capacity : Nat} {stored : List CommandResult}

theorem nodup_newest (capacity : Nat) (stored : List CommandResult) :
    ((newest capacity stored).map CommandResult.commandId).Nodup :=
  nodup_lastN (nodup_recency stored) capacity

/-- A map that agrees with a list of distinct ids has as many. -/
theorem length_keys (h : ∀ commandId, (storeAll capacity stored).results.lookup commandId =
      entry CommandResult.commandId (newest capacity stored) commandId) :
    (storeAll capacity stored).results.keys.length = (newest capacity stored).length := by
  have hnodup := nodup_newest capacity stored
  have hperm : (storeAll capacity stored).results.keys.Perm
      ((newest capacity stored).map CommandResult.commandId) := by
    refine (List.perm_ext_iff_of_nodup (AList.keys_nodup _) hnodup).mpr fun commandId => ?_
    rw [← AList.mem_keys, mem_iff_lookup, h, Ne, entry_eq_none_iff, not_not]
  rw [hperm.length_eq, List.length_map]

theorem keepsNewest_of_found (h : ∀ commandId, (storeAll capacity stored).results.lookup commandId =
      entry CommandResult.commandId (newest capacity stored) commandId) :
    KeepsNewest capacity stored where
  bounded := by
    rw [length_keys h, newest, length_lastN]
    exact Nat.min_le_right _ _
  found := h

theorem keepsNewest_nil (capacity : Nat) : KeepsNewest capacity [] := by
  refine keepsNewest_of_found fun commandId => ?_
  simp [storeAll, CommandCache.new, newest, recency, lastN, entry]

namespace KeepsNewest

theorem mem_iff (h : KeepsNewest capacity stored) {commandId : String} :
    commandId ∈ (storeAll capacity stored).results ↔
      commandId ∈ (newest capacity stored).map CommandResult.commandId := by
  rw [mem_iff_lookup, h.found, Ne, entry_eq_none_iff, not_not]

theorem iff_found (hcapacity : 0 < capacity) (r : CommandResult) :
    KeepsNewest capacity (stored ++ [r]) ↔ ∀ commandId,
      ((storeAll capacity stored).store r).results.lookup commandId =
        entry CommandResult.commandId
          (if r.commandId ∈ (newest capacity stored).map CommandResult.commandId ∨
              (newest capacity stored).length < capacity then
            touch CommandResult.commandId (newest capacity stored) r
          else (newest capacity stored).tail ++ [r]) commandId := by
  have hnewest := @lastN_recency_snoc _ _ _ CommandResult.commandId _ hcapacity stored r
  unfold newest
  rw [← hnewest, ← storeAll_snoc]
  exact ⟨KeepsNewest.found, keepsNewest_of_found⟩

/-- While there is room nothing is evicted. -/
theorem snoc_of_room (h : KeepsNewest capacity stored) (hcapacity : 0 < capacity)
    (r : CommandResult) (hroom : (newest capacity stored).length < capacity) :
    KeepsNewest capacity (stored ++ [r]) := by
  rw [iff_found hcapacity, if_pos (.inr hroom)]
  intro commandId
  have hlength := length_keys h.found
  have hnot : ¬ ((storeAll capacity stored).capacity ≤
      (storeAll capacity stored).results.keys.length ∧
      (storeAll capacity stored).queue.head? = some commandId) := by
    rw [storeAll_capacity]
    exact fun hcond => by omega
  rw [lookup_store, entry_touch, if_neg hnot, h.found]

/-- A full cache has an id to evict. -/
theorem exists_evicted (h : KeepsNewest capacity stored) (hcapacity : 0 < capacity)
    (hfull : (newest capacity stored).length = capacity) :
    ∃ evicted, (storeAll capacity stored).queue.head? = some evicted := by
  obtain ⟨r, hr⟩ := List.exists_mem_of_length_pos (hfull.symm ▸ hcapacity)
  have hmem := mem_queue (h.mem_iff.mpr (List.mem_map_of_mem hr))
  cases hqueue : (storeAll capacity stored).queue with
  | nil =>
      rw [hqueue] at hmem
      cases hmem
  | cons evicted queue => exact ⟨evicted, rfl⟩

/-- What a store into a full cache leaves under each id. -/
theorem lookup_full (h : KeepsNewest capacity stored)
    (hfull : (newest capacity stored).length = capacity) {evicted : String}
    (hevicted : (storeAll capacity stored).queue.head? = some evicted) (r : CommandResult)
    (commandId : String) :
    ((storeAll capacity stored).store r).results.lookup commandId =
      if commandId = r.commandId then some r
      else if evicted = commandId then none
      else entry CommandResult.commandId (newest capacity stored) commandId := by
  have hlength := length_keys h.found
  rw [lookup_store, h.found, storeAll_capacity, hevicted]
  simp [hlength, hfull]

/-- An id that is there: it may itself be evicted, or nothing that is still there. -/
theorem snoc_known_iff (h : KeepsNewest capacity stored) (hcapacity : 0 < capacity)
    {r : CommandResult} (hr : r.commandId ∈ (storeAll capacity stored).results)
    (hfull : (newest capacity stored).length = capacity) {evicted : String}
    (hevicted : (storeAll capacity stored).queue.head? = some evicted) :
    KeepsNewest capacity (stored ++ [r]) ↔
      evicted = r.commandId ∨ evicted ∉ (storeAll capacity stored).results := by
  rw [iff_found hcapacity, if_pos (.inl (h.mem_iff.mp hr))]
  simp only [h.lookup_full hfull hevicted, entry_touch]
  constructor
  · intro hfound
    by_contra hnot
    rw [not_or, not_not] at hnot
    have hlost := hfound evicted
    rw [if_neg hnot.1, if_pos rfl, if_neg hnot.1] at hlost
    exact mem_iff_lookup.mp hnot.2 ((h.found evicted).trans hlost.symm)
  · intro hright commandId
    by_cases hid : commandId = r.commandId
    · rw [if_pos hid, if_pos hid]
    rw [if_neg hid, if_neg hid]
    split
    · next heq =>
        have hgone := hright.resolve_left fun he => hid (heq ▸ he)
        rw [← h.found, ← heq]
        exact (not_not.mp fun hne => hgone (mem_iff_lookup.mpr hne)).symm
    · rfl

/-- A new id: the oldest one has to go. -/
theorem snoc_new_iff (h : KeepsNewest capacity stored) (hcapacity : 0 < capacity)
    {r : CommandResult} (hr : r.commandId ∉ (storeAll capacity stored).results)
    (hfull : (newest capacity stored).length = capacity) {evicted : String}
    (hevicted : (storeAll capacity stored).queue.head? = some evicted) :
    KeepsNewest capacity (stored ++ [r]) ↔
      (newest capacity stored).head?.map CommandResult.commandId = some evicted := by
  have hnew : r.commandId ∉ (newest capacity stored).map CommandResult.commandId :=
    fun hmem => hr (h.mem_iff.mpr hmem)
  rw [iff_found hcapacity, if_neg (not_or.mpr ⟨hnew, by omega⟩)]
  simp only [h.lookup_full hfull hevicted]
  have hnodup := nodup_newest capacity stored
  generalize newest capacity stored = kept at hnew hfull hnodup
  cases kept with
  | nil =>
      rw [List.length_nil] at hfull
      omega
  | cons oldest rest =>
      rw [List.map_cons, List.mem_cons, not_or] at hnew
      rw [List.map_cons, List.nodup_cons] at hnodup
      have holdest : entry CommandResult.commandId rest oldest.commandId = none :=
        entry_eq_none_iff.mpr hnodup.1
      simp only [List.tail_cons, ← touch_of_not_mem hnew.2, entry_touch, entry_cons,
        List.head?_cons, Option.map_some, Option.some.injEq]
      constructor
      · intro hfound
        by_contra hne
        have hkept := hfound oldest.commandId
        rw [if_neg (Ne.symm hnew.1), if_neg (Ne.symm hne), if_pos rfl, if_neg (Ne.symm hnew.1),
          holdest] at hkept
        cases hkept
      · rintro rfl commandId
        by_cases hid : commandId = r.commandId
        · rw [if_pos hid, if_pos hid]
        rw [if_neg hid, if_neg hid]
        split
        · next heq => rw [← heq, holdest]
        · rfl

theorem kept_eq (capacity : Nat) (stored : List CommandResult) :
    (newest capacity stored).map CommandResult.commandId =
      lastN capacity (recency id (stored.map CommandResult.commandId)) := by
  rw [newest, map_lastN, map_recency]

theorem length_newest (capacity : Nat) (stored : List CommandResult) :
    (newest capacity stored).length =
      min (stored.map CommandResult.commandId).dedup.length capacity := by
  rw [← List.length_map (f := CommandResult.commandId), kept_eq, length_lastN, length_recency]

/-- **A store keeps the newest ids** exactly where there is room, or the head of the queue may
    be evicted. -/
theorem snoc_iff (h : KeepsNewest capacity stored) (hcapacity : 0 < capacity)
    (r : CommandResult) : KeepsNewest capacity (stored ++ [r]) ↔
      (capacity ≤ (newest capacity stored).length →
        ∀ evicted ∈ (storeAll capacity stored).queue.head?,
          RightToEvict ((newest capacity stored).map CommandResult.commandId) evicted
            r.commandId) := by
  by_cases hroom : (newest capacity stored).length < capacity
  · exact ⟨fun _ hfull => by omega, fun _ => h.snoc_of_room hcapacity r hroom⟩
  have hfull : (newest capacity stored).length = capacity := by
    have hle := length_newest capacity stored
    omega
  obtain ⟨evicted, hevicted⟩ := h.exists_evicted hcapacity hfull
  simp only [hfull, Nat.le_refl, true_imp_iff, hevicted, Option.mem_some_iff, forall_eq']
  unfold RightToEvict
  by_cases hr : r.commandId ∈ (storeAll capacity stored).results
  · rw [if_pos (h.mem_iff.mp hr), ← h.mem_iff]
    exact h.snoc_known_iff hcapacity hr hfull hevicted
  · rw [if_neg fun hmem => hr (h.mem_iff.mpr hmem), List.head?_map]
    exact h.snoc_new_iff hcapacity hr hfull hevicted

/-- While the cache is right, its queue holds the last ids stored, as many as found room. -/
theorem queue_eq (hcapacity : 0 < capacity)
    (h : ∀ sofar, sofar <+: stored → KeepsNewest capacity sofar) :
    (storeAll capacity stored).queue =
      lastN (filling capacity (stored.map CommandResult.commandId))
        (stored.map CommandResult.commandId) := by
  induction stored using List.reverseRecOn with
  | nil => rfl
  | append_singleton stored r ih =>
      have hstored := h stored (List.prefix_append stored [r])
      have hqueue := ih fun sofar hp => h sofar (hp.trans (List.prefix_append stored [r]))
      have hkeys := length_keys hstored.found
      have hlength := length_newest capacity stored
      have hfilling := filling_le capacity (stored.map CommandResult.commandId)
      rw [storeAll_snoc, queue_store, storeAll_capacity, List.map_append, List.map_singleton,
        filling_snoc, hqueue]
      by_cases hroom : (stored.map CommandResult.commandId).dedup.length < capacity
      · rw [if_neg (by omega), if_pos hroom, lastN_succ_append hfilling]
      · have hfull : (newest capacity stored).length = capacity := by omega
        obtain ⟨evicted, hevicted⟩ := hstored.exists_evicted hcapacity hfull
        have hpos : 0 < filling capacity (stored.map CommandResult.commandId) := by
          rw [hqueue] at hevicted
          by_contra hzero
          rw [Nat.eq_zero_of_not_pos hzero, lastN, Nat.sub_zero, List.drop_length] at hevicted
          cases hevicted
        rw [if_pos (by omega), if_neg hroom, Nat.add_zero, lastN_append_of_le hpos hfilling]

/-- One more store, by the ids alone. -/
theorem snoc_iff_storesRightly (hcapacity : 0 < capacity)
    (h : ∀ sofar, sofar <+: stored → KeepsNewest capacity sofar) (r : CommandResult) :
    KeepsNewest capacity (stored ++ [r]) ↔
      StoresRightly capacity (stored.map CommandResult.commandId) r.commandId := by
  rw [(h stored List.prefix_rfl).snoc_iff hcapacity r, queue_eq hcapacity h, kept_eq]
  unfold StoresRightly
  have hlength := length_newest capacity stored
  exact imp_congr_left (by omega)

end KeepsNewest

/-- **The cache keeps the newest ids**, after every store, exactly where every store evicts
    rightly, which the capacity and the ids decide; so wherever any `capacity` ids in a row are
    different, and wherever no id repeats. -/
theorem keepsNewest_iff (hcapacity : 0 < capacity) (stored : List CommandResult) :
    ((∀ sofar, sofar <+: stored → KeepsNewest capacity sofar) ↔
      EvictsRightly capacity (stored.map CommandResult.commandId)) ∧
    (Spaced capacity (stored.map CommandResult.commandId) →
      EvictsRightly capacity (stored.map CommandResult.commandId)) ∧
    ((stored.map CommandResult.commandId).Nodup →
      EvictsRightly capacity (stored.map CommandResult.commandId)) := by
  refine ⟨?_, evictsRightly_of_spaced hcapacity,
    fun h => evictsRightly_of_spaced hcapacity (.of_nodup h capacity)⟩
  induction stored using List.reverseRecOn with
  | nil =>
      refine iff_of_true (fun sofar hp => ?_) fun k hk => absurd hk (Nat.not_lt_zero k)
      rw [List.prefix_nil.mp hp]
      exact keepsNewest_nil capacity
  | append_singleton stored r ih =>
      have hbefore : (∀ sofar, sofar <+: stored ++ [r] → KeepsNewest capacity sofar) ↔
          (∀ sofar, sofar <+: stored → KeepsNewest capacity sofar) ∧
            KeepsNewest capacity (stored ++ [r]) := by
        simp only [List.prefix_concat_iff, forall_eq_or_imp]
        exact and_comm
      rw [hbefore, List.map_append, List.map_singleton, evictsRightly_snoc, ← ih]
      exact and_congr_right fun h => KeepsNewest.snoc_iff_storesRightly hcapacity h r

end

/-- Five results under four ids. -/
def repeated : List CommandResult :=
  ["claim", "claim", "unlock", "hangup", "elevator"].map CommandResult.accepted

/-- Room for two: three ids are there at the end. -/
theorem repeated_overshoots : ¬ KeepsNewest 2 repeated := by
  intro h
  exact absurd h.bounded (by decide)

/-- Five results under three ids, each of which comes again only when it is the oldest. -/
def inTurn : List CommandResult :=
  ["claim", "unlock", "claim", "hangup", "claim"].map CommandResult.accepted

/-- Room for two: three of the stores evict an id, and the newest two are there. -/
theorem newest_in_turn : KeepsNewest 2 inTurn ∧
    (storeAll 2 inTurn).results.keys = ["claim", "hangup"] := by
  refine ⟨(keepsNewest_iff (by decide) inTurn).1.mpr ?_ inTurn List.prefix_rfl, by decide⟩
  decide

end CommandCache

end Michoi
