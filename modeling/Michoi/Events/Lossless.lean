/-
  The event stream loses nothing.

  As long as its receiver does not lag, an event that a connection is to hand on has been
  written, or waits in the receiver's queue, or its push has still to broadcast it
  (`Delivered`). That holds of all events after the client's last id once they were replayed,
  and of all whose push had not ended when the connection subscribed (`Lossless`).
-/
import Michoi.Events.Numbered

namespace Michoi

open Lib

variable {σ : Type}

/-- The event was written, or will be when the queue is read and its push ends. -/
def Delivered (f : Feed σ) (s : Stream σ) (next : Nat) (e : Event) : Prop :=
  .event e ∈ s.written ∨ e ∈ f.live.queue next ∨ e ∈ f.pushing

instance (f : Feed σ) (s : Stream σ) [DecidableEq σ] (next : Nat) (e : Event) :
    Decidable (Delivered f s next e) :=
  inferInstanceAs (Decidable (_ ∨ _))

/-- The connection does not fall behind. -/
def NoLag (i : Nat) (p : Server σ) (m : FeedMove σ) : Prop :=
  m = .stream i → ∀ s ∈ p.streams[i]?, s.lags p.feed = false

instance [DecidableEq σ] (i : Nat) (p : Server σ) (m : FeedMove σ) : Decidable (NoLag i p m) :=
  inferInstanceAs (Decidable (_ → _))

/-- No snapshot was written: the client's last id was answered from the log. -/
def Stream.Resumed (s : Stream σ) : Prop := ∀ m ∈ s.written, m.isSnapshot = false

instance (s : Stream σ) : Decidable s.Resumed :=
  inferInstanceAs (Decidable (∀ m ∈ s.written, m.isSnapshot = false))

/-- What holds of a connection from its subscription on; `done` is what had been broadcast
    by then. -/
structure Lossless (done : List Event) (f : Feed σ) (s : Stream σ) : Prop where
  holds : ∃ next, s.pc.receiver = some next ∧ next ≤ f.live.sent.length ∧
    s.pc ≠ .lagged next ∧ (∀ e ∈ f.appended, e ∉ done → Delivered f s next e) ∧
    (s.pc = .live next → s.Resumed → ∀ after, s.lastEventId = some after →
      ∀ e ∈ f.appended, after.toNat < e.seq → Delivered f s next e)

theorem mem_pushing_iff {f : Feed σ} {i : Nat} {e e' : Event} (h : f.pushing[i]? = some e) :
    e' ∈ f.pushing ↔ e' = e ∨ e' ∈ (f.broadcast i e).pushing := by
  obtain ⟨hi, rfl⟩ := List.getElem?_eq_some_iff.mp h
  rw [← (List.getElem_cons_eraseIdx_perm hi).mem_iff, List.mem_cons]
  rfl

/-- A push or a change of the state loses nothing. -/
theorem Delivered.keep {f f' : Feed σ} {s : Stream σ} {m : FeedMove σ} {next : Nat} {e : Event}
    (h : Delivered f s next e) (hnext : next ≤ f.live.sent.length) (hs : FeedStep f m f') :
    Delivered f' s next e := by
  obtain h | h | h := h
  · exact .inl h
  · refine .inr (.inl ?_)
    cases hs with
    | append atMs kind => exact h
    | broadcast hi =>
        have hqueue := Broadcast.queue_send hnext
        exact (hqueue _).symm ▸ List.mem_append_left _ h
    | change state => exact h
  · cases hs with
    | append atMs kind => exact .inr (.inr (List.mem_append_left _ h))
    | @broadcast i e' hi =>
        obtain rfl | h := (mem_pushing_iff hi).mp h
        · have hqueue : (f.broadcast i e).live.queue next = f.live.queue next ++ [e] :=
            Broadcast.queue_send hnext e
          exact .inr (.inl (hqueue ▸ List.mem_append_right _ List.mem_cons_self))
        · exact .inr (.inr h)
    | change state => exact .inr (.inr h)

/-- What was just pushed is delivered too. -/
theorem delivered_of_new {f f' : Feed σ} {s : Stream σ} {m : FeedMove σ} {next : Nat} {e : Event}
    (hs : FeedStep f m f') (he : e ∈ f'.appended) (hnew : e ∉ f.appended) :
    Delivered f' s next e := by
  cases hs with
  | append atMs kind =>
      rw [appended_append, List.mem_append, List.mem_singleton] at he
      obtain he | rfl := he
      · exact absurd he hnew
      · exact .inr (.inr (List.mem_append_right _ List.mem_cons_self))
  | broadcast hi => exact absurd ((mem_appended_broadcast hi).mp he) hnew
  | change state => exact absurd he hnew

/-- A step of the connection that writes more and keeps its receiver. -/
theorem Delivered.write {f : Feed σ} {s s' : Stream σ} {next : Nat} {e : Event}
    (h : Delivered f s next e) (hwritten : s.written <+: s'.written) : Delivered f s' next e :=
  h.imp_left fun h => hwritten.subset h

/-- A step of the connection that takes the head of its queue. -/
theorem Delivered.receive {f : Feed σ} {s s' : Stream σ} {next : Nat} {e head : Event}
    (h : Delivered f s next e) (hqueue : f.live.queue next = head :: f.live.queue (next + 1))
    (hwritten : s'.written = s.written ++ [.event head]) : Delivered f s' (next + 1) e := by
  obtain h | h | h := h
  · exact .inl (hwritten ▸ List.mem_append_left _ h)
  · rw [hqueue] at h
    obtain rfl | h := List.mem_cons.mp h
    · exact .inl (hwritten ▸ List.mem_append_right _ List.mem_cons_self)
    · exact .inr (.inl h)
  · exact .inr (.inr h)

/-- A connection that just subscribed waits for all that was not broadcast yet. -/
theorem Lossless.subscribed (f : Feed σ) (s : Stream σ) :
    Lossless f.live.sent f { s with pc := .subscribed f.live.subscribe } := by
  refine ⟨f.live.subscribe, rfl, Nat.le_refl _, nofun, fun e he hdone => ?_, nofun⟩
  exact .inr (.inr ((List.mem_append.mp he).resolve_left hdone))

theorem Lossless.keep {done : List Event} {f f' : Feed σ} {s : Stream σ} {m : FeedMove σ}
    (h : Lossless done f s) (hs : FeedStep f m f') : Lossless done f' s := by
  obtain ⟨next, hrec, hnext, hlag, hlive, hresumed⟩ := h.holds
  refine ⟨next, hrec, Nat.le_trans hnext hs.sent_mono.length_le, hlag, ?_, ?_⟩
  · intro e he hdone
    by_cases hold : e ∈ f.appended
    · exact (hlive e hold hdone).keep hnext hs
    · exact delivered_of_new hs he hold
  · intro hpc hr after hid e he hafter
    by_cases hold : e ∈ f.appended
    · exact (hresumed hpc hr after hid e hold hafter).keep hnext hs
    · exact delivered_of_new hs he hold

theorem Lossless.step {done : List Event} {f : Feed σ} {s s' : Stream σ} (h : Lossless done f s)
    (hf : Numbered f) (hlag : s.lags f = false)
    (hs : Stream.Step f s s') : Lossless done f s' := by
  obtain ⟨next, hrec, hnext, hpc', hlive, hresumed⟩ := h.holds
  cases hs with
  | subscribe hpc =>
      rw [hpc] at hrec
      cases hrec
  | @replay next' after missed hpc hid hrecent =>
      rw [hpc] at hrec
      obtain rfl := Option.some.inj hrec
      refine ⟨next', rfl, hnext, by simp, ?_, ?_⟩
      · exact fun e he hdone => (hlive e he hdone).write (List.prefix_append ..)
      · intro _ _ after' hid' e he hafter
        obtain rfl := Option.some.inj (hid.symm.trans hid')
        have hmissed := (mem_recent_iff hf hrecent e).mpr ⟨he, hafter⟩
        exact .inl (List.mem_append_right _ (List.mem_map_of_mem hmissed))
  | @gap next' hpc hrecent =>
      rw [hpc] at hrec
      obtain rfl := Option.some.inj hrec
      exact ⟨next', rfl, hnext, by simp, fun e he hdone => hlive e he hdone, by simp⟩
  | @snapshot next' hpc =>
      obtain hpc | hpc := hpc
      · rw [hpc] at hrec
        obtain rfl := Option.some.inj hrec
        refine ⟨next', rfl, hnext, by simp, ?_, ?_⟩
        · exact fun e he hdone => (hlive e he hdone).write (List.prefix_append ..)
        · intro _ hr
          have := hr _ (List.mem_append_right _ List.mem_cons_self)
          cases this
      · rw [hpc] at hrec
        obtain rfl := Option.some.inj hrec
        exact absurd hpc hpc'
  | @receive next' e hpc hold hqueue =>
      rw [hpc] at hrec
      obtain rfl := Option.some.inj hrec
      have hlen : next' + 1 ≤ f.live.sent.length := by
        have hlt : next' < f.live.sent.length := by
          have := congrArg List.length hqueue
          rw [Broadcast.queue, List.length_drop, List.length_cons] at this
          omega
        exact hlt
      refine ⟨next' + 1, rfl, hlen, by simp, ?_, ?_⟩
      · exact fun e' he' hdone => (hlive e' he' hdone).receive hqueue rfl
      · intro _ hr after hid e' he' hafter
        have hr' : s.Resumed := fun m hm => hr m (List.mem_append_left _ hm)
        exact (hresumed hpc hr' after hid e' he' hafter).receive hqueue rfl
  | @lag next' hpc hbehind =>
      unfold Stream.lags at hlag
      rw [hpc] at hlag
      exact absurd hbehind (of_decide_eq_false hlag)

/-- A connection that has not fallen behind reads its whole queue. -/
theorem exists_run_drained {p : Server σ} {i next : Nat} {s : Stream σ} {queue : List Event}
    (hi : p.streams[i]? = some s) (hpc : s.pc = .live next) (hold : p.feed.live.oldest ≤ next)
    (hqueue : p.feed.live.queue next = queue) :
    ∃ q s', (feedSystem σ).run p (List.replicate queue.length (.stream i)) = some q ∧
      q.streams[i]? = some s' ∧ s'.written = s.written ++ queue.map .event := by
  induction queue generalizing p s next with
  | nil => exact ⟨p, s, rfl, hi, (List.append_nil _).symm⟩
  | cons e queue ih =>
      obtain ⟨e', hrecv, -, htail⟩ | ⟨-, hlag⟩ | ⟨-, hempty⟩ := p.feed.live.recv_cases next
      · rw [hqueue, List.cons.injEq] at htail
        obtain ⟨rfl, htail⟩ := htail
        let s' : Stream σ := { s with pc := .live (next + 1), written := s.written ++ [.event e] }
        have hstep : s.step p.feed = some s' := by
          unfold Stream.step
          rw [hpc]
          dsimp only
          rw [hrecv]
        have hnext : (feedSystem σ).next p (.stream i) =
            some { p with streams := p.streams.set i s' } := by
          show (p.streams[i]?).bind _ = _
          rw [hi, Option.bind_some, hstep, Option.map_some]
        obtain ⟨q, s'', hrun, hq, hwritten⟩ := ih (p := { p with streams := p.streams.set i s' })
          (s := s') (getElem?_set_self hi) rfl (Nat.le_succ_of_le hold)
          htail.symm
        refine ⟨q, s'', ?_, hq, ?_⟩
        · rw [List.length_cons, List.replicate_succ, System.run_cons_of_next _ hnext, hrun]
        · rw [hwritten, List.map_cons, List.append_assoc]
          rfl
      · omega
      · rw [hqueue] at hempty
        cases hempty

end Michoi
