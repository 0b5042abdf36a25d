/-
  What holds of the log and its channel in every run.

  `Numbered`: events are numbered one by one, the log keeps the latest of them in order, and
  each was broadcast at most once. From it follows what `recent` returns (`mem_recent_iff`):
  all events after the given one, or nothing at all.

  `run_streams` is the invariant rule for connections: a property of a feed and a connection
  that holds of a new connection and is kept by steps of either holds of all connections.
-/
import Michoi.Events
import Michoi.Lib.Pool
import Mathlib.Data.List.Perm.Basic

namespace Michoi

open Lib

variable {σ : Type}

/-! ## Every feed -/

structure Numbered (f : Feed σ) : Prop where
  below : ∀ e ∈ f.appended, 1 ≤ e.seq ∧ e.seq < f.log.nextSeq
  distinct : (f.appended.map Event.seq).Nodup
  sorted : f.log.events.Pairwise fun e e' => e.seq < e'.seq
  logged : ∀ e ∈ f.log.events, e ∈ f.appended
  /-- What the log no longer has is older than all it has. -/
  retained : ∀ e ∈ f.appended,
    e ∈ f.log.events ∨ ∃ oldest, f.log.events.head? = some oldest ∧ e.seq < oldest.seq
  pos : 1 ≤ f.log.nextSeq

/-- The event that `append` makes. -/
def Feed.newEvent (f : Feed σ) (atMs : Nat) (kind : EventKind) : Event :=
  { seq := f.log.nextSeq, atMs, kind }

theorem appended_append (f : Feed σ) (atMs : Nat) (kind : EventKind) :
    (f.append atMs kind).appended = f.appended ++ [f.newEvent atMs kind] :=
  (List.append_assoc ..).symm

theorem appended_broadcast {f : Feed σ} {i : Nat} {e : Event} (h : f.pushing[i]? = some e) :
    (f.broadcast i e).appended.Perm f.appended := by
  obtain ⟨hi, rfl⟩ := List.getElem?_eq_some_iff.mp h
  have hperm := List.getElem_cons_eraseIdx_perm hi
  show (f.live.sent ++ [f.pushing[i]] ++ f.pushing.eraseIdx i).Perm _
  rw [List.append_assoc]
  exact hperm.append_left _

theorem mem_appended_broadcast {f : Feed σ} {i : Nat} {e d : Event} (h : f.pushing[i]? = some e) :
    d ∈ (f.broadcast i e).appended ↔ d ∈ f.appended :=
  (appended_broadcast h).mem_iff

theorem FeedStep.nextSeq_mono {f f' : Feed σ} {m : FeedMove σ} (h : FeedStep f m f') :
    f.log.nextSeq ≤ f'.log.nextSeq := by
  cases h with
  | append atMs kind => exact Nat.le_succ _
  | broadcast hi => exact Nat.le_refl _
  | change state => exact Nat.le_refl _

theorem FeedStep.sent_mono {f f' : Feed σ} {m : FeedMove σ} (h : FeedStep f m f') :
    f.live.sent <+: f'.live.sent := by
  cases h with
  | append atMs kind => exact List.prefix_refl _
  | broadcast hi => exact List.prefix_append ..
  | change state => exact List.prefix_refl _

/-! ### One push -/

section Push

variable {log : EventLog} {atMs : Nat} {kind : EventKind}

/-- What `push` keeps of the log: everything, or all but the oldest. -/
theorem push_events (log : EventLog) (atMs : Nat) (kind : EventKind) :
    ∃ kept, (log.push atMs kind).events = kept ++ [⟨log.nextSeq, atMs, kind⟩] ∧
      (kept = log.events ∨ kept = log.events.tail) := by
  unfold EventLog.push
  dsimp only
  split
  · exact ⟨log.events.tail, rfl, .inr rfl⟩
  · exact ⟨log.events, rfl, .inl rfl⟩

theorem head?_snoc_of_below {kept : List Event} {new e : Event}
    (hbelow : ∀ e' ∈ kept ++ [new], e.seq < e'.seq) :
    ∃ oldest, (kept ++ [new]).head? = some oldest ∧ e.seq < oldest.seq := by
  cases hk : kept ++ [new] with
  | nil => simp at hk
  | cons oldest rest => exact ⟨oldest, rfl, hbelow oldest (hk ▸ List.mem_cons_self)⟩

/-- The first of an ordered list is the oldest. -/
theorem head_seq_le {events : List Event} {oldest e : Event}
    (hsorted : events.Pairwise fun e e' => e.seq < e'.seq) (hhead : events.head? = some oldest)
    (he : e ∈ events) : oldest.seq ≤ e.seq := by
  obtain ⟨rest, rfl⟩ := List.head?_eq_some_iff.mp hhead
  obtain rfl | he := List.mem_cons.mp he
  · exact Nat.le_refl _
  · exact Nat.le_of_lt ((List.pairwise_cons.mp hsorted).1 e he)

/-- What an ordered log drops is older than all it keeps. -/
theorem seq_lt_of_dropped {events kept : List Event} {e e' : Event}
    (hsorted : events.Pairwise fun e e' => e.seq < e'.seq)
    (hkept : kept = events ∨ kept = events.tail) (he : e ∈ events) (hdropped : e ∉ kept)
    (he' : e' ∈ kept) : e.seq < e'.seq := by
  obtain rfl | rfl := hkept
  · exact absurd he hdropped
  · cases events with
    | nil => cases he
    | cons oldest rest =>
        obtain rfl | he := List.mem_cons.mp he
        · exact (List.pairwise_cons.mp hsorted).1 e' he'
        · exact absurd he hdropped

end Push

theorem Numbered.append {f : Feed σ} (h : Numbered f) (atMs : Nat) (kind : EventKind) :
    Numbered (f.append atMs kind) := by
  have hpos := h.pos
  obtain ⟨kept, hevents, hkept⟩ := push_events f.log atMs kind
  have hlog : (f.append atMs kind).log.events = kept ++ [f.newEvent atMs kind] := hevents
  have hsub : kept.Sublist f.log.events := by
    obtain rfl | rfl := hkept
    · exact List.Sublist.refl _
    · exact List.tail_sublist _
  have hnew : ∀ e ∈ f.appended, e.seq < (f.newEvent atMs kind).seq := fun e he => (h.below e he).2
  have hsorted : (kept ++ [f.newEvent atMs kind]).Pairwise fun e e' => e.seq < e'.seq := by
    refine List.pairwise_append.mpr ⟨h.sorted.sublist hsub, List.pairwise_singleton _ _, ?_⟩
    intro e he e' he'
    rw [List.mem_singleton.mp he']
    exact hnew e (h.logged e (hsub.subset he))
  constructor
  · intro e he
    have hnext : (f.append atMs kind).log.nextSeq = f.log.nextSeq + 1 := rfl
    rw [appended_append, List.mem_append, List.mem_singleton] at he
    obtain he | rfl := he
    · have := h.below e he
      omega
    · exact ⟨hpos, Nat.lt_succ_self _⟩
  · rw [appended_append, List.map_append, List.nodup_append]
    refine ⟨h.distinct, List.nodup_singleton _, ?_⟩
    intro n hn n' hn'
    obtain ⟨e, he, rfl⟩ := List.mem_map.mp hn
    have hlt := hnew e he
    rw [List.map_singleton, List.mem_singleton] at hn'
    omega
  · rw [hlog]
    exact hsorted
  · intro e he
    rw [hlog, List.mem_append] at he
    rw [appended_append, List.mem_append]
    exact he.imp (fun he => h.logged e (hsub.subset he)) id
  · intro e he
    rw [hlog]
    rw [appended_append, List.mem_append, List.mem_singleton] at he
    obtain he | rfl := he
    · by_cases hin : e ∈ kept
      · exact .inl (List.mem_append_left _ hin)
      · refine .inr (head?_snoc_of_below fun e' he' => ?_)
        obtain he' | he' := List.mem_append.mp he'
        · obtain hold | ⟨oldest, hhead, hlt⟩ := h.retained e he
          · exact seq_lt_of_dropped h.sorted hkept hold hin he'
          · have hle := head_seq_le h.sorted hhead (hsub.subset he')
            omega
        · rw [List.mem_singleton.mp he']
          exact hnew e he
    · exact .inl (List.mem_append_right _ List.mem_cons_self)
  · exact Nat.succ_le_succ (Nat.zero_le _)

theorem Numbered.step {f f' : Feed σ} {m : FeedMove σ} (h : Numbered f) (hs : FeedStep f m f') :
    Numbered f' := by
  cases hs with
  | append atMs kind => exact h.append atMs kind
  | broadcast hi =>
      have hmem := fun e => mem_appended_broadcast (d := e) hi
      exact {
        below := fun e he => h.below e ((hmem e).mp he)
        distinct := ((appended_broadcast hi).map _).nodup_iff.mpr h.distinct
        sorted := h.sorted
        logged := fun e he => (hmem e).mpr (h.logged e he)
        retained := fun e he => h.retained e ((hmem e).mp he)
        pos := h.pos }
  | change state => exact { h with }

theorem Numbered.start (capacity liveCapacity : Nat) (state : σ) :
    Numbered (Server.start capacity liveCapacity state).feed where
  below := fun _ he => absurd he List.not_mem_nil
  distinct := List.nodup_nil
  sorted := .nil
  logged := fun _ he => absurd he List.not_mem_nil
  retained := fun _ he => absurd he List.not_mem_nil
  pos := Nat.le_refl _

/-! ### What `recent` returns -/

theorem toNat_succ_le (after : UInt64) : (after + 1).toNat ≤ after.toNat + 1 := by
  rw [UInt64.toNat_add]
  exact Nat.mod_le _ _

/-- `recent` returns every event after the given one, or nothing. -/
theorem mem_recent_iff {f : Feed σ} (h : Numbered f) {after : UInt64} {missed : List Event}
    (hr : f.log.recent after = some missed) (e : Event) :
    e ∈ missed ↔ e ∈ f.appended ∧ after.toNat < e.seq := by
  have hle := toNat_succ_le after
  unfold EventLog.recent at hr
  split at hr
  · next hnext =>
      rw [← Option.some.inj hr]
      refine iff_of_false List.not_mem_nil fun he => ?_
      have := (h.below e he.1).2
      omega
  · split at hr
    · next oldest hhead =>
        split at hr
        · next hold =>
            rw [← Option.some.inj hr, List.mem_filter, decide_eq_true_iff]
            refine and_congr_left fun hafter => ⟨h.logged e, fun he => ?_⟩
            obtain hin | ⟨o, ho, hlt⟩ := h.retained e he
            · exact hin
            · rw [hhead] at ho
              obtain rfl := Option.some.inj ho
              omega
        · cases hr
    · cases hr

theorem recent_sorted {f : Feed σ} (h : Numbered f) {after : UInt64} {missed : List Event}
    (hr : f.log.recent after = some missed) : missed.Pairwise fun e e' => e.seq < e'.seq := by
  unfold EventLog.recent at hr
  split at hr
  · exact Option.some.inj hr ▸ .nil
  · split at hr
    · split at hr
      · exact Option.some.inj hr ▸ h.sorted.sublist List.filter_sublist
      · cases hr
    · cases hr

/-! ## Every connection -/

/-- The receiver of a connection. -/
def StreamPc.receiver : StreamPc → Option Nat
  | request => none
  | subscribed next | snapshot next | live next | lagged next => some next

/-- The connection has not written its first messages. -/
def StreamPc.opening : StreamPc → Prop
  | request | subscribed _ | snapshot _ => True
  | live _ | lagged _ => False

/-- The receiver waits for a value that was sent, or for the next one. -/
def Stream.Placed (f : Feed σ) (s : Stream σ) : Prop :=
  ∀ next, s.pc.receiver = some next → next ≤ f.live.sent.length

/-- The event is still to come: it is in the receiver's queue or about to be broadcast. -/
def Stream.ToCome (f : Feed σ) (s : Stream σ) (e : Event) : Prop :=
  ∃ next, s.pc.receiver = some next ∧ (e ∈ f.live.queue next ∨ e ∈ f.pushing)

/-- The head of a queue was sent. -/
theorem head_mem_sent {f : Feed σ} {next : Nat} {head : Event}
    (hqueue : f.live.queue next = head :: f.live.queue (next + 1)) : head ∈ f.live.sent := by
  have hhead : head ∈ f.live.queue next := hqueue ▸ List.mem_cons_self
  exact List.mem_of_mem_drop hhead

theorem Stream.Placed.keep {f f' : Feed σ} {s : Stream σ} {m : FeedMove σ} (h : s.Placed f)
    (hs : FeedStep f m f') : s.Placed f' :=
  fun next hrec => Nat.le_trans (h next hrec) hs.sent_mono.length_le

theorem Stream.Placed.step {f : Feed σ} {s s' : Stream σ} (h : s.Placed f)
    (hs : Stream.Step f s s') : s'.Placed f := by
  intro next' hrec
  cases hs with
  | subscribe hpc => exact Option.some.inj hrec ▸ Nat.le_refl _
  | replay hpc hid hrecent => exact h next' (by rw [hpc]; exact hrec)
  | gap hpc hrecent => exact h next' (by rw [hpc]; exact hrec)
  | snapshot hpc =>
      obtain hpc | hpc := hpc
      · exact h next' (by rw [hpc]; exact hrec)
      · exact h next' (by rw [hpc]; exact hrec)
  | @receive next head hpc hold hqueue =>
      have hlen := congrArg List.length hqueue
      rw [Broadcast.queue, List.length_drop, List.length_cons] at hlen
      obtain rfl := Option.some.inj hrec
      omega
  | lag hpc hbehind => exact Option.some.inj hrec ▸ Nat.sub_le _ _

/-- What is still to come was so before, or was just numbered. -/
theorem Stream.ToCome.of_keep {f f' : Feed σ} {s : Stream σ} {m : FeedMove σ} {e : Event}
    (h : s.ToCome f' e) (hplaced : s.Placed f) (hs : FeedStep f m f') :
    s.ToCome f e ∨ e.seq = f.log.nextSeq := by
  obtain ⟨next, hrec, he⟩ := h
  cases hs with
  | append atMs kind =>
      obtain he | he := he
      · exact .inl ⟨next, hrec, .inl he⟩
      · obtain he | he := List.mem_append.mp he
        · exact .inl ⟨next, hrec, .inr he⟩
        · exact .inr (by rw [List.mem_singleton.mp he])
  | @broadcast i e' hi =>
      have hqueue : (f.broadcast i e').live.queue next = f.live.queue next ++ [e'] :=
        Broadcast.queue_send (hplaced next hrec) e'
      refine .inl ⟨next, hrec, ?_⟩
      obtain he | he := he
      · rw [hqueue, List.mem_append, List.mem_singleton] at he
        obtain he | rfl := he
        · exact .inl he
        · exact .inr (List.mem_of_getElem? hi)
      · exact .inr (List.mem_of_mem_eraseIdx he)
  | change state => exact .inl ⟨next, hrec, he⟩

/-- A connection that subscribes waits for what is about to be broadcast; later it only takes
    from what is to come. -/
theorem Stream.ToCome.of_step {f : Feed σ} {s s' : Stream σ} {e : Event} (h : s'.ToCome f e)
    (hs : Stream.Step f s s') : s.ToCome f e ∨ s.pc = .request ∧ e ∈ f.pushing := by
  obtain ⟨next', hrec, he⟩ := h
  cases hs with
  | subscribe hpc =>
      obtain rfl := Option.some.inj hrec
      obtain he | he := he
      · rw [Broadcast.queue_subscribe] at he
        cases he
      · exact .inr ⟨hpc, he⟩
  | replay hpc hid hrecent => exact .inl ⟨next', by rw [hpc]; exact hrec, he⟩
  | gap hpc hrecent => exact .inl ⟨next', by rw [hpc]; exact hrec, he⟩
  | snapshot hpc =>
      obtain hpc | hpc := hpc
      · exact .inl ⟨next', by rw [hpc]; exact hrec, he⟩
      · exact .inl ⟨next', by rw [hpc]; exact hrec, he⟩
  | @receive next head hpc hold hqueue =>
      obtain rfl := Option.some.inj hrec
      refine .inl ⟨next, by rw [hpc]; rfl, he.imp_left fun he => ?_⟩
      exact hqueue ▸ List.mem_cons_of_mem _ he
  | @lag next hpc hbehind =>
      obtain rfl := Option.some.inj hrec
      refine .inl ⟨next, by rw [hpc]; rfl, he.imp_left fun he => ?_⟩
      exact (List.drop_sublist_drop_left f.live.sent (Nat.le_of_lt hbehind)).subset he

/-- The invariant rule for the feed alone. -/
theorem run_feed {F : Feed σ → Prop} {C : Server σ → FeedMove σ → Prop}
    (hfeed : ∀ p m f', F p.feed → C p m → FeedStep p.feed m f' → F f')
    {p q : Server σ} {moves : List (FeedMove σ)} (hp : F p.feed)
    (hok : (feedSystem σ).Meets C p moves) (hrun : (feedSystem σ).run p moves = some q) :
    F q.feed := by
  refine System.run_induction_meets (P := fun p : Server σ => F p.feed) ?_ hp hok hrun
  intro p m q hp hm hnext
  obtain ⟨hstep, -⟩ | ⟨-, -, hf, -⟩ | ⟨-, -, -, -, -, -, hf, -⟩ := server_cases hnext
  · exact hfeed p m q.feed hp hm hstep
  · exact hf ▸ hp
  · exact hf ▸ hp

/-- The invariant rule for a feed and its connections, in runs whose steps all meet a
    condition. -/
theorem run_streams {F : Feed σ → Prop} {I : Feed σ → Stream σ → Prop}
    {C : Server σ → FeedMove σ → Prop}
    (hfeed : ∀ p m f', F p.feed → C p m → FeedStep p.feed m f' → F f')
    (hkeep : ∀ p m f' s, F p.feed → C p m → FeedStep p.feed m f' → I p.feed s → I f' s)
    (hconnect : ∀ f lastEventId, F f → I f (.connect lastEventId))
    (hstep : ∀ p i s s', F p.feed → C p (.stream i) → p.streams[i]? = some s →
      Stream.Step p.feed s s' → I p.feed s → I p.feed s')
    {p q : Server σ} {moves : List (FeedMove σ)} (hp : F p.feed) (hs : ∀ s ∈ p.streams, I p.feed s)
    (hok : (feedSystem σ).Meets C p moves) (hrun : (feedSystem σ).run p moves = some q) :
    F q.feed ∧ ∀ s ∈ q.streams, I q.feed s := by
  refine System.run_induction_meets
    (P := fun p : Server σ => F p.feed ∧ ∀ s ∈ p.streams, I p.feed s) ?_ ⟨hp, hs⟩ hok hrun
  rintro p m q ⟨hp, hs⟩ hm hnext
  obtain ⟨hstep', hstreams⟩ | ⟨lastEventId, -, hf, hstreams⟩ |
    ⟨i, s, s', rfl, hi, hs', hf, hstreams⟩ := server_cases hnext
  · refine ⟨hfeed p m q.feed hp hm hstep', fun s hmem => ?_⟩
    exact hkeep p m q.feed s hp hm hstep' (hs s (hstreams ▸ hmem))
  · rw [hf, hstreams]
    refine ⟨hp, fun s hmem => ?_⟩
    obtain hmem | hmem := List.mem_append.mp hmem
    · exact hs s hmem
    · rw [List.mem_singleton.mp hmem]
      exact hconnect p.feed lastEventId hp
  · rw [hf, hstreams]
    refine ⟨hp, fun s'' hmem => ?_⟩
    obtain hmem | rfl := List.mem_or_eq_of_mem_set hmem
    · exact hs s'' hmem
    · exact hstep p i s s'' hp hm hi (Stream.step_cases hs') (hs s (List.mem_of_getElem? hi))

/-- The rule for one connection, from some point of a run on. -/
theorem run_stream {F : Feed σ → Prop} {I : Feed σ → Stream σ → Prop}
    {C : Server σ → FeedMove σ → Prop} {i : Nat}
    (hfeed : ∀ p m f', F p.feed → C p m → FeedStep p.feed m f' → F f')
    (hkeep : ∀ p m f' s, F p.feed → C p m → FeedStep p.feed m f' → I p.feed s → I f' s)
    (hstep : ∀ p s s', F p.feed → C p (.stream i) → p.streams[i]? = some s →
      Stream.Step p.feed s s' → I p.feed s → I p.feed s')
    {p q : Server σ} {s : Stream σ} {moves : List (FeedMove σ)} (hp : F p.feed)
    (hi : p.streams[i]? = some s) (hs : I p.feed s) (hok : (feedSystem σ).Meets C p moves)
    (hrun : (feedSystem σ).run p moves = some q) :
    F q.feed ∧ ∃ s', q.streams[i]? = some s' ∧ I q.feed s' := by
  refine System.run_induction_meets
    (P := fun p : Server σ => F p.feed ∧ ∃ s, p.streams[i]? = some s ∧ I p.feed s)
    ?_ ⟨hp, s, hi, hs⟩ hok hrun
  rintro p m q ⟨hp, s, hi, hs⟩ hm hnext
  obtain ⟨hstep', hstreams⟩ | ⟨lastEventId, -, hf, hstreams⟩ |
    ⟨j, s', s'', rfl, hj, hs'', hf, hstreams⟩ := server_cases hnext
  · exact ⟨hfeed p m q.feed hp hm hstep', s, hstreams ▸ hi, hkeep p m q.feed s hp hm hstep' hs⟩
  · rw [hf, hstreams]
    exact ⟨hp, s, getElem?_append_of_some hi, hs⟩
  · rw [hf, hstreams]
    refine ⟨hp, ?_⟩
    by_cases hji : i = j
    · subst hji
      obtain rfl := Option.some.inj (hi.symm.trans hj)
      exact ⟨s'', getElem?_set_self hi, hstep p s s'' hp hm hi (Stream.step_cases hs'') hs⟩
    · exact ⟨s, (getElem?_set_other hji).trans hi, hs⟩

/-- The first step of a connection. -/
def Server.subscribe (p : Server σ) (i : Nat) (s : Stream σ) : Server σ :=
  { p with streams := p.streams.set i { s with pc := .subscribed p.feed.live.subscribe } }

theorem next_subscribe {p : Server σ} {i : Nat} {s : Stream σ} (hi : p.streams[i]? = some s)
    (hpc : s.pc = .request) : (feedSystem σ).next p (.stream i) = some (p.subscribe i s) := by
  have hstep : s.step p.feed = some { s with pc := .subscribed p.feed.live.subscribe } := by
    unfold Stream.step
    rw [hpc]
  show (p.streams[i]?).bind _ = _
  rw [hi, Option.bind_some, hstep, Option.map_some]
  rfl

/-- Every feed of a run is numbered. -/
theorem numbered_run {p q : Server σ} {moves : List (FeedMove σ)} (hp : Numbered p.feed)
    (hrun : (feedSystem σ).run p moves = some q) : Numbered q.feed :=
  run_feed (C := fun _ _ => True) (fun _ _ _ h _ hstep => h.step hstep) hp
    (System.meets_of_forall (fun _ _ => trivial) p moves) hrun

end Michoi
