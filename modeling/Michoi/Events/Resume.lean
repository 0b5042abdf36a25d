/-
  Which ids a client may resume from, in the source's `u64` numbers.

  `LogInner` is the log with the counter as the release build has it: it wraps. Up to
  2^64 - 2 events it is the `EventLog` of the other modules (`run_abs`), and `recent` gives
  exactly the events after an issued id (`recent_of_issued`). With the next event the
  counter is zero, and the ids before it are lost (`resume_lost_at_wrap`).

  An id that was never issued is not a gap for `recent`: the client is told that it missed
  nothing (`unissued_never_gap`).
-/
import Michoi.Events.Numbered
import Michoi.Lib.Checked

namespace Michoi

open Lib

/-- `LogInner` with the capacity of its `EventLog`. -/
structure LogInner where
  events : List Event
  nextSeq : UInt64
  capacity : Nat
  deriving DecidableEq, Repr

namespace LogInner

/-- `EventLog::new`. -/
def new (capacity : Nat) : LogInner where
  events := []
  nextSeq := 1
  capacity := capacity

/-- `EventLog::push`, up to the broadcast: the event and the log. -/
def push (log : LogInner) (atMs : Nat) (kind : EventKind) : Event × LogInner :=
  let event : Event := { seq := log.nextSeq.toNat, atMs, kind }
  let events := if log.events.length = log.capacity then log.events.tail else log.events
  (event, { log with nextSeq := log.nextSeq + 1, events := events ++ [event] })

/-- `EventLog::last_seq`. -/
def lastSeq (log : LogInner) : UInt64 := log.nextSeq - 1

/-- `EventLog::recent` with `after_seq + 1` as it was computed. -/
def recentWith (log : LogInner) (after next : UInt64) : Option (List Event) :=
  if log.nextSeq ≤ next then some []
  else
    match log.events.head? with
    | some oldest =>
        if oldest.seq ≤ next.toNat then some (log.events.filter fun e => after.toNat < e.seq)
        else none
    | none => none

/-- `EventLog::recent` of the release build, whose sum wraps. -/
def recent (log : LogInner) (after : UInt64) : Option (List Event) :=
  log.recentWith after (after + 1)

/-- `EventLog::recent` of a build that checks for overflow. -/
def recentChecked (log : LogInner) (after : UInt64) : Checked (Option (List Event)) :=
  if after.toNat + 1 < UInt64.size then .ok (log.recentWith after (after + 1))
  else .error .overflow

/-- Pushes one after the other: the events issued, and the log. -/
def run (log : LogInner) : List (Nat × EventKind) → List Event × LogInner
  | [] => ([], log)
  | (atMs, kind) :: pushes =>
      let r := log.push atMs kind
      let r' := r.2.run pushes
      (r.1 :: r'.1, r'.2)

/-- The log with numbers that do not wrap. -/
def abs (log : LogInner) : EventLog where
  events := log.events
  nextSeq := log.nextSeq.toNat
  capacity := log.capacity

end LogInner

/-! ## The log whose numbers do not wrap -/

/-- The events of so many pushes, numbered from one on. -/
def issuedFrom (first : Nat) : List (Nat × EventKind) → List Event
  | [] => []
  | (atMs, kind) :: pushes => ⟨first, atMs, kind⟩ :: issuedFrom (first + 1) pushes

theorem length_issuedFrom (first : Nat) (pushes : List (Nat × EventKind)) :
    (issuedFrom first pushes).length = pushes.length := by
  induction pushes generalizing first with
  | nil => rfl
  | cons p pushes ih => simp [issuedFrom, ih]

theorem issuedFrom_seqs (first : Nat) (pushes : List (Nat × EventKind)) :
    (issuedFrom first pushes).map Event.seq = List.range' first pushes.length := by
  induction pushes generalizing first with
  | nil => rfl
  | cons p pushes ih => simp [issuedFrom, ih, List.range'_succ]

/-- Of numbered events the ones after a number are the rest. -/
theorem filter_issuedFrom {first after : Nat} (pushes : List (Nat × EventKind))
    (h : first ≤ after + 1) : (issuedFrom first pushes).filter (fun e => after < e.seq) =
      (issuedFrom first pushes).drop (after + 1 - first) := by
  induction pushes generalizing first with
  | nil => simp [issuedFrom]
  | cons p pushes ih =>
      unfold issuedFrom
      by_cases hlast : first = after + 1
      · have hall : ∀ e ∈ issuedFrom (first + 1) pushes, after < e.seq := by
          intro e he
          have hseq := List.mem_map_of_mem (f := Event.seq) he
          rw [issuedFrom_seqs, List.mem_range'_1] at hseq
          omega
        rw [hlast, Nat.sub_self, List.drop_zero, List.filter_cons_of_pos (by simp),
          ← hlast, List.filter_eq_self.mpr fun e he => decide_eq_true (hall e he)]
      · have hdrop : after + 1 - first = after + 1 - (first + 1) + 1 := by omega
        rw [List.filter_cons_of_neg (by simp; omega), ih (by omega), hdrop,
          List.drop_succ_cons]

theorem issuedFrom_drop (first n : Nat) (pushes : List (Nat × EventKind)) :
    (issuedFrom first pushes).drop n = issuedFrom (first + n) (pushes.drop n) := by
  induction n generalizing first pushes with
  | zero => rfl
  | succ n ih =>
      cases pushes with
      | nil => rfl
      | cons p pushes =>
          rw [issuedFrom, List.drop_succ_cons, ih, List.drop_succ_cons, Nat.add_right_comm]
          rfl

theorem issuedFrom_append (first : Nat) (pushes : List (Nat × EventKind)) (p : Nat × EventKind) :
    issuedFrom first (pushes ++ [p]) =
      issuedFrom first pushes ++ [⟨first + pushes.length, p.1, p.2⟩] := by
  induction pushes generalizing first with
  | nil => rfl
  | cons q pushes ih =>
      rw [List.cons_append, issuedFrom, ih, issuedFrom, List.cons_append, List.length_cons,
        Nat.add_right_comm, Nat.add_assoc]

namespace EventLog

/-- Pushes one after the other. -/
def run (log : EventLog) (pushes : List (Nat × EventKind)) : EventLog :=
  pushes.foldl (fun log p => log.push p.1 p.2) log

theorem run_append (log : EventLog) (pushes : List (Nat × EventKind)) (p : Nat × EventKind) :
    log.run (pushes ++ [p]) = (log.run pushes).push p.1 p.2 := by
  simp [run]

/-- **What the log holds**: the last events issued. -/
theorem run_new {capacity : Nat} (hc : 1 ≤ capacity) (pushes : List (Nat × EventKind)) :
    (new capacity).run pushes =
      ⟨lastN capacity (issuedFrom 1 pushes), pushes.length + 1, capacity⟩ := by
  induction pushes using List.reverseRecOn with
  | nil => simp [run, new, lastN, issuedFrom]
  | append_singleton pushes p ih =>
      have hlen := length_issuedFrom 1 pushes
      rw [run_append, ih, issuedFrom_append, push, length_lastN]
      dsimp only
      by_cases hfull : min (issuedFrom 1 pushes).length capacity = capacity
      · rw [if_pos hfull, lastN_append_of_le (by omega) (by omega), List.length_append,
          List.length_singleton, Nat.add_comm 1 pushes.length]
      · rw [if_neg hfull, lastN_append_of_lt (by omega), List.length_append,
          List.length_singleton, Nat.add_comm 1 pushes.length]

/-- **Resuming from an issued id.** -/
theorem recent_run {capacity : Nat} (hc : 1 ≤ capacity) {pushes : List (Nat × EventKind)}
    {after : UInt64} (hafter : after.toNat ≤ pushes.length)
    (hfits : after.toNat + 1 < UInt64.size) : ((new capacity).run pushes).recent after =
      if pushes.length - after.toNat ≤ capacity then
        some ((issuedFrom 1 pushes).drop after.toNat)
      else none := by
  have hnext : (after + 1).toNat = after.toNat + 1 := by
    rw [UInt64.toNat_add]
    exact Nat.mod_eq_of_lt hfits
  have hlen := length_issuedFrom 1 pushes
  rw [run_new hc, recent, hnext]
  dsimp only
  by_cases hlast : after.toNat = pushes.length
  · rw [if_pos (by omega), if_pos (by omega), List.drop_of_length_le (by omega)]
  · rw [if_neg (by omega)]
    have hdrop : lastN capacity (issuedFrom 1 pushes) =
        issuedFrom (1 + (pushes.length - capacity)) (pushes.drop (pushes.length - capacity)) := by
      rw [lastN, hlen, issuedFrom_drop]
    obtain ⟨p, rest, hp⟩ := List.exists_cons_of_ne_nil
      (show pushes.drop (pushes.length - capacity) ≠ [] by
        rw [ne_eq, List.drop_eq_nil_iff]
        omega)
    have hhead : (lastN capacity (issuedFrom 1 pushes)).head? =
        some ⟨1 + (pushes.length - capacity), p.1, p.2⟩ := by
      rw [hdrop, hp]
      rfl
    rw [hhead]
    dsimp only
    by_cases hgap : pushes.length - after.toNat ≤ capacity
    · rw [if_pos (by omega), if_pos hgap, hdrop, filter_issuedFrom _ (by omega),
        ← issuedFrom_drop, List.drop_drop]
      congr 2
      omega
    · rw [if_neg (by omega), if_neg hgap]

end EventLog

/-! ## The log as it is numbered -/

namespace LogInner

section

variable {log : LogInner} {atMs : Nat} {kind : EventKind} {after : UInt64}

theorem abs_push (h : log.nextSeq.toNat + 1 < UInt64.size) :
    (log.push atMs kind).2.abs = log.abs.push atMs kind := by
  have hnext : (log.nextSeq + 1).toNat = log.nextSeq.toNat + 1 := by
    rw [UInt64.toNat_add]
    exact Nat.mod_eq_of_lt h
  unfold push abs EventLog.push
  dsimp only
  rw [hnext]

theorem recent_abs (log : LogInner) (after : UInt64) : log.recent after = log.abs.recent after := by
  unfold recent recentWith EventLog.recent abs
  exact if_congr UInt64.le_iff_toNat_le rfl rfl

/-- **As long as the counter does not wrap** the log is the one with plain numbers, and the
    events issued are numbered one by one. -/
theorem run_abs (log : LogInner) (pushes : List (Nat × EventKind))
    (h : log.nextSeq.toNat + pushes.length < UInt64.size) :
    (log.run pushes).2.abs = log.abs.run pushes ∧
      (log.run pushes).1 = issuedFrom log.nextSeq.toNat pushes := by
  induction pushes generalizing log with
  | nil => exact ⟨rfl, rfl⟩
  | cons p pushes ih =>
      rw [List.length_cons] at h
      have hpush : (log.push p.1 p.2).2.abs = log.abs.push p.1 p.2 := abs_push (by omega)
      have hnext : (log.push p.1 p.2).2.nextSeq.toNat = log.nextSeq.toNat + 1 :=
        congrArg EventLog.nextSeq hpush
      obtain ⟨habs, hissued⟩ := ih (log.push p.1 p.2).2 (by omega)
      constructor
      · exact habs.trans (by rw [hpush]; rfl)
      · rw [hnext] at hissued
        exact congrArg (_ :: ·) hissued

/-- The counter after any number of pushes. -/
theorem nextSeq_run (log : LogInner) (pushes : List (Nat × EventKind)) :
    (log.run pushes).2.nextSeq = log.nextSeq + UInt64.ofNat pushes.length := by
  induction pushes generalizing log with
  | nil => simp [run]
  | cons p pushes ih =>
      have h := ih (log.push p.1 p.2).2
      rw [List.length_cons, UInt64.ofNat_add, UInt64.add_comm (UInt64.ofNat pushes.length),
        ← UInt64.add_assoc]
      exact h

theorem length_run (log : LogInner) (pushes : List (Nat × EventKind)) :
    (log.run pushes).1.length = pushes.length := by
  induction pushes generalizing log with
  | nil => rfl
  | cons p pushes ih => simp [run, ih]

end

/-! ## Ids that were issued -/

/-- What `recent` gives a client that has seen the first events: the rest of them if they are
    all still held. -/
def Resumes (capacity : Nat) (pushes : List (Nat × EventKind)) (after : UInt64) : Prop :=
  ((new capacity).run pushes).2.recent after =
    if pushes.length - after.toNat ≤ capacity then
      some (((new capacity).run pushes).1.drop after.toNat)
    else none

/-- Events are numbered from one on, and the log holds the last of them. -/
structure Numbers (capacity : Nat) (pushes : List (Nat × EventKind)) : Prop where
  seqs : ((new capacity).run pushes).1.map Event.seq = List.range' 1 pushes.length
  held : ((new capacity).run pushes).2.events <:+ ((new capacity).run pushes).1
  atMost : ((new capacity).run pushes).2.events.length ≤ capacity

/-- **Resuming is exact for every issued id**, up to the last event before the counter wraps. -/
theorem recent_of_issued {capacity : Nat} (hc : 1 ≤ capacity) {pushes : List (Nat × EventKind)}
    (hn : pushes.length + 2 ≤ UInt64.size) :
    Numbers capacity pushes ∧
      ∀ after : UInt64, after.toNat ≤ pushes.length → Resumes capacity pushes after := by
  obtain ⟨habs, hissued⟩ := run_abs (new capacity) pushes (by
    show 1 + pushes.length < UInt64.size
    omega)
  have hissued' : ((new capacity).run pushes).1 = issuedFrom 1 pushes := hissued
  have hlog : ((new capacity).run pushes).2.abs =
      ⟨lastN capacity (issuedFrom 1 pushes), pushes.length + 1, capacity⟩ :=
    habs.trans (EventLog.run_new hc pushes)
  have hevents : ((new capacity).run pushes).2.events = lastN capacity (issuedFrom 1 pushes) :=
    congrArg EventLog.events hlog
  constructor
  · constructor
    · rw [hissued']
      exact issuedFrom_seqs 1 pushes
    · rw [hissued', hevents]
      exact List.drop_suffix ..
    · rw [hevents, length_lastN]
      omega
  · intro after hafter
    unfold Resumes
    rw [recent_abs, hissued', habs]
    exact EventLog.recent_run hc hafter (by omega)

/-- A client that has seen the first of three events, of which two are held. -/
theorem recent_of_second : Numbers 2 (List.replicate 3 (0, .padAnswered "1")) ∧
    Resumes 2 (List.replicate 3 (0, .padAnswered "1")) 1 := by
  have h := @recent_of_issued 2 (by decide) (List.replicate 3 (0, .padAnswered "1")) (by decide)
  exact ⟨h.1, h.2 1 (by decide)⟩

/-- With event 2^64 - 1 the counter wraps to zero, and `recent` gives the event to nobody. -/
theorem resume_lost_at_wrap : ¬ ∀ (capacity : Nat) (pushes : List (Nat × EventKind))
    (after : UInt64), 1 ≤ capacity → after.toNat ≤ pushes.length →
      Resumes capacity pushes after := by
  intro h
  have hlen : (List.replicate (UInt64.size - 1) (0, EventKind.padAnswered "1")).length =
      UInt64.size - 1 := List.length_replicate
  have hresumes := h 1 (List.replicate (UInt64.size - 1) (0, .padAnswered "1"))
    (UInt64.ofNat (UInt64.size - 2)) (Nat.le_refl 1) (by rw [hlen]; decide)
  generalize List.replicate (UInt64.size - 1) (0, EventKind.padAnswered "1") = pushes
    at hlen hresumes
  have hzero : ((new 1).run pushes).2.nextSeq = 0 := by
    rw [nextSeq_run, hlen]
    decide
  have hafter : (UInt64.ofNat (UInt64.size - 2)).toNat = UInt64.size - 2 := by decide
  unfold Resumes recent recentWith at hresumes
  rw [hzero, if_pos UInt64.zero_le, hafter, if_pos (by rw [hlen]; decide)] at hresumes
  have hnil := congrArg List.length (Option.some.inj hresumes)
  rw [List.length_drop, length_run, hlen] at hnil
  exact absurd hnil (by decide)

/-! ## Ids that were never issued -/

/-- After the last id the next one is not below the counter, if it can be computed at all. -/
theorem nextSeq_le_of_unissued {log : LogInner} {after : UInt64} (h : log.lastSeq < after)
    (hfits : after.toNat + 1 < UInt64.size) : log.nextSeq ≤ after + 1 := by
  have hnext : (after + 1).toNat = after.toNat + 1 := by
    rw [UInt64.toNat_add]
    exact Nat.mod_eq_of_lt hfits
  rw [UInt64.le_iff_toNat_le, hnext]
  by_cases hpos : 1 ≤ log.nextSeq
  · have hlast : log.lastSeq.toNat = log.nextSeq.toNat - 1 := UInt64.toNat_sub_of_le _ _ hpos
    have hlt := UInt64.lt_iff_toNat_lt.mp h
    omega
  · have hlt := UInt64.lt_iff_toNat_lt.mp (UInt64.not_le.mp hpos)
    have hone : (1 : UInt64).toNat = 1 := rfl
    omega

theorem recent_of_unissued {log : LogInner} {after : UInt64} (h : log.lastSeq < after)
    (hfits : after.toNat + 1 < UInt64.size) : log.recent after = some [] :=
  if_pos (nextSeq_le_of_unissued h hfits)

/-- A connection that is told it missed nothing goes on with live events. -/
theorem step_of_nothing_missed {σ : Type} {f : Feed σ} {s : Stream σ} {next : Nat}
    {after : UInt64} (hid : s.lastEventId = some after) (hpc : s.pc = .subscribed next)
    (hrecent : f.log.recent after = some []) : s.step f = some { s with pc := .live next } := by
  unfold Stream.step
  rw [hpc, hid]
  dsimp only [Option.bind_some]
  rw [hrecent]
  simp

/-- **An id that was never issued is never answered as a gap**: the sum overflows, or `recent`
    returns no events and the connection goes live without a snapshot. -/
theorem unissued_never_gap {log : LogInner} {after : UInt64} (h : log.lastSeq < after) :
    log.recentChecked after ≠ .ok none ∧
      (after.toNat + 1 = UInt64.size → log.recentChecked after = .error .overflow) ∧
      (after.toNat + 1 < UInt64.size → log.recentChecked after = .ok (some []) ∧
        ∀ (σ : Type) (f : Feed σ) (s : Stream σ) (next : Nat), f.log = log.abs →
          s.lastEventId = some after → s.pc = .subscribed next →
          s.step f = some { s with pc := .live next }) := by
  have hfit (hfits : after.toNat + 1 < UInt64.size) :
      log.recentChecked after = .ok (some []) := by
    unfold recentChecked
    rw [if_pos hfits]
    exact congrArg Except.ok (recent_of_unissued h hfits)
  have hover (hmax : after.toNat + 1 = UInt64.size) :
      log.recentChecked after = .error .overflow := if_neg (by omega)
  refine ⟨?_, hover, fun hfits => ⟨hfit hfits, ?_⟩⟩
  · rcases Nat.lt_or_eq_of_le after.toNat_lt with hfits | hmax
    · rw [hfit hfits]
      simp
    · rw [hover hmax]
      simp
  · intro σ f s next hlog hid hpc
    refine step_of_nothing_missed hid hpc ?_
    rw [hlog, ← recent_abs]
    exact recent_of_unissued h hfits

/-- The Agent was restarted, and a client comes back with the id of its last event. -/
theorem unissued_after_restart : (new 256).recentChecked 7 ≠ .ok none :=
  (@unissued_never_gap (new 256) 7 (by decide)).1

theorem unissued_not_always_gap : ¬ ∀ (log : LogInner) (after : UInt64), log.lastSeq < after →
    log.recentChecked after = .ok none := by
  intro h
  have hgap := h (new 256) 7 (by decide)
  have hanswer : (new 256).recentChecked 7 = .ok (some []) := by decide
  rw [hanswer] at hgap
  simp at hgap

end LogInner

end Michoi
