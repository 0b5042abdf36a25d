/-
  The order of the live feed.

  A push numbers its event under the lock and broadcasts it after the lock is released, so
  the feed is in order as long as the calls that have numbered an event broadcast in turn
  (`InTurn`). Then a connection that does not lag writes no event before one that is due and
  older (`Complete`), and a client that comes back with the last id it has gets the rest.
-/
import Michoi.Events.Lossless

namespace Michoi

open Lib

variable {σ : Type}

/-- The call that broadcasts is the one that numbered its event first. -/
def InTurn (p : Server σ) : FeedMove σ → Prop
  | .broadcast i => ∀ e ∈ p.feed.pushing[i]?, ∀ e' ∈ p.feed.pushing, e.seq ≤ e'.seq
  | _ => True

instance (p : Server σ) : ∀ m, Decidable (InTurn p m)
  | .broadcast i =>
      inferInstanceAs
        (Decidable (∀ e ∈ p.feed.pushing[i]?, ∀ e' ∈ p.feed.pushing, e.seq ≤ e'.seq))
  | .append .. | .change _ | .connect _ | .stream _ => inferInstanceAs (Decidable True)

/-! ## The feed -/

structure InOrder (f : Feed σ) : Prop extends Numbered f where
  feed : f.live.sent.Pairwise fun e e' => e.seq < e'.seq
  ahead : ∀ e ∈ f.live.sent, ∀ e' ∈ f.pushing, e.seq < e'.seq

theorem mem_appended {f : Feed σ} {e : Event} :
    e ∈ f.appended ↔ e ∈ f.live.sent ∨ e ∈ f.pushing :=
  List.mem_append

/-- The event that is broadcast has a number of its own. -/
theorem Numbered.ne_of_mem_eraseIdx {f : Feed σ} (h : Numbered f) {i : Nat} {e e' : Event}
    (hi : f.pushing[i]? = some e) (he' : e' ∈ f.pushing.eraseIdx i) : e.seq ≠ e'.seq := by
  have hnodup : (f.pushing.map Event.seq).Nodup := by
    have hdistinct := h.distinct
    rw [Feed.appended, List.map_append, List.nodup_append] at hdistinct
    exact hdistinct.2.1
  obtain ⟨hlt, rfl⟩ := List.getElem?_eq_some_iff.mp hi
  have hperm := (List.getElem_cons_eraseIdx_perm hlt).map Event.seq
  have hcons := hperm.nodup_iff.mpr hnodup
  rw [List.map_cons, List.nodup_cons] at hcons
  intro heq
  exact hcons.1 (heq ▸ List.mem_map_of_mem he')

theorem InOrder.step {p : Server σ} {m : FeedMove σ} {f' : Feed σ} (h : InOrder p.feed)
    (hok : InTurn p m) (hs : FeedStep p.feed m f') : InOrder f' := by
  have hnumbered := h.toNumbered.step hs
  cases hs with
  | append atMs kind =>
      refine { hnumbered with feed := h.feed, ahead := fun e he e' he' => ?_ }
      obtain he' | he' := List.mem_append.mp he'
      · exact h.ahead e he e' he'
      · rw [List.mem_singleton.mp he']
        exact (h.below e (mem_appended.mpr (.inl he))).2
  | @broadcast i e hi =>
      have hmem := List.mem_of_getElem? hi
      refine { hnumbered with feed := ?_, ahead := ?_ }
      · refine List.pairwise_append.mpr ⟨h.feed, List.pairwise_singleton _ _, ?_⟩
        intro e₁ h₁ e₂ h₂
        rw [List.mem_singleton.mp h₂]
        exact h.ahead e₁ h₁ e hmem
      · intro e₁ h₁ e₂ h₂
        have hpush : e₂ ∈ p.feed.pushing := List.mem_of_mem_eraseIdx h₂
        obtain h₁ | h₁ := List.mem_append.mp h₁
        · exact h.ahead e₁ h₁ e₂ hpush
        · rw [List.mem_singleton.mp h₁]
          have hle := hok e hi e₂ hpush
          have hne := h.ne_of_mem_eraseIdx hi h₂
          omega
  | change state => exact { hnumbered with feed := h.feed, ahead := h.ahead }

theorem InOrder.start (capacity liveCapacity : Nat) (state : σ) :
    InOrder (Server.start capacity liveCapacity state).feed where
  toNumbered := Numbered.start capacity liveCapacity state
  feed := .nil
  ahead := fun _ he => absurd he List.not_mem_nil

/-- What any receiver has still to get is in order. -/
theorem InOrder.queue {f : Feed σ} (h : InOrder f) (next : Nat) :
    (f.live.queue next).Pairwise fun e e' => e.seq < e'.seq :=
  h.feed.sublist (List.drop_sublist next _)

/-! ## One connection -/

/-- The events that a connection has to write: those after the client's last id that were
    replayed to it, and those that were broadcast after it subscribed. -/
def Stream.Due (done : List Event) (s : Stream σ) (e : Event) : Prop :=
  (∀ after ∈ s.lastEventId, after.toNat < e.seq) ∧
    (e ∉ done ∨ s.lastEventId.isSome ∧ s.Resumed)

instance (done : List Event) (s : Stream σ) (e : Event) : Decidable (s.Due done e) :=
  inferInstanceAs (Decidable (_ ∧ _))

/-- What the connection wrote before a message includes every event due up to its id. -/
structure Complete (done : List Event) (f : Feed σ) (s : Stream σ) : Prop
    extends Lossless done f s where
  fresh : ∀ next, s.pc = .subscribed next → s.written = []
  below : ∀ m ∈ s.written, m.id < f.log.nextSeq
  upTo : ∀ received m, received ++ [m] <+: s.written → ∀ e ∈ f.appended, s.Due done e →
    e.seq ≤ m.id → .event e ∈ received ++ [m]

theorem Stream.Due.of_prefix {done : List Event} {s s' : Stream σ} {e : Event} (h : s'.Due done e)
    (hid : s'.lastEventId = s.lastEventId) (hwritten : s.written <+: s'.written) :
    s.Due done e := by
  obtain ⟨hafter, hdue⟩ := h
  rw [hid] at hafter hdue
  refine ⟨hafter, hdue.imp_right fun ⟨hsome, hresumed⟩ => ⟨hsome, fun m hm => ?_⟩⟩
  exact hresumed m (hwritten.subset hm)

/-- In an ordered list, what is no newer than an element does not come after it. -/
theorem mem_prefix_of_le {l received : List Event} {m e : Event}
    (hsorted : l.Pairwise fun e e' => e.seq < e'.seq) (hpre : received ++ [m] <+: l)
    (he : e ∈ l) (hle : e.seq ≤ m.seq) : e ∈ received ++ [m] := by
  obtain ⟨rest, rfl⟩ := hpre
  obtain he | he := List.mem_append.mp he
  · exact he
  · have hlt := (List.pairwise_append.mp hsorted).2.2 m (List.mem_append_right _ List.mem_cons_self)
      e he
    omega

/-- What was just pushed is newer than all that was pushed before. -/
theorem FeedStep.nextSeq_le_of_new {f f' : Feed σ} {m : FeedMove σ} (hs : FeedStep f m f')
    {e : Event} (he : e ∈ f'.appended) (hnew : e ∉ f.appended) : f.log.nextSeq ≤ e.seq := by
  cases hs with
  | append atMs kind =>
      rw [appended_append, List.mem_append, List.mem_singleton] at he
      obtain he | rfl := he
      · exact absurd he hnew
      · exact Nat.le_refl _
  | broadcast hi => exact absurd ((mem_appended_broadcast hi).mp he) hnew
  | change state => exact absurd he hnew

theorem Complete.keep {done : List Event} {f f' : Feed σ} {s : Stream σ} {m : FeedMove σ}
    (h : Complete done f s) (hs : FeedStep f m f') : Complete done f' s := by
  refine { h.toLossless.keep hs with fresh := h.fresh, below := ?_, upTo := ?_ }
  · intro m hm
    have hlt := h.below m hm
    have hle := hs.nextSeq_mono
    omega
  · intro received m hpre e he hdue hle
    by_cases hold : e ∈ f.appended
    · exact h.upTo received m hpre e hold hdue hle
    · have hlt := h.below m (hpre.subset (List.mem_append_right _ List.mem_cons_self))
      have hnew := hs.nextSeq_le_of_new he hold
      omega

theorem Complete.delivered {done : List Event} {f : Feed σ} {s : Stream σ} {next : Nat}
    {e : Event} (h : Complete done f s) (hpc : s.pc = .live next) (he : e ∈ f.appended)
    (hdue : s.Due done e) : Delivered f s next e := by
  obtain ⟨next', hrec, -, -, hlive, hresumed⟩ := h.holds
  rw [hpc] at hrec
  obtain rfl := Option.some.inj hrec
  obtain ⟨hafter, hdone | ⟨hsome, hr⟩⟩ := hdue
  · exact hlive e he hdone
  · obtain ⟨after, hid⟩ := Option.isSome_iff_exists.mp hsome
    exact hresumed hpc hr after hid e he (hafter after hid)

/-- In an ordered feed, what is due and no newer than the head of the queue was written or is
    that head. -/
theorem Complete.upTo_head {done : List Event} {f : Feed σ} {s : Stream σ} {next : Nat}
    {head e : Event} (h : Complete done f s) (hf : InOrder f) (hpc : s.pc = .live next)
    (hqueue : f.live.queue next = head :: f.live.queue (next + 1)) (he : e ∈ f.appended)
    (hdue : s.Due done e) (hle : e.seq ≤ head.seq) : .event e ∈ s.written ∨ e = head := by
  have hhead : head ∈ f.live.queue next := hqueue ▸ List.mem_cons_self
  obtain hw | hq | hp := h.delivered hpc he hdue
  · exact .inl hw
  · have hsorted := hf.queue next
    rw [hqueue] at hsorted hq
    obtain rfl | hq := List.mem_cons.mp hq
    · exact .inr rfl
    · have hlt := (List.pairwise_cons.mp hsorted).1 e hq
      omega
  · have hlt := hf.ahead head (List.mem_of_mem_drop hhead) e hp
    omega

theorem Complete.step {done : List Event} {f : Feed σ} {s s' : Stream σ} (h : Complete done f s)
    (hf : InOrder f) (hlag : s.lags f = false) (hs : Stream.Step f s s') :
    Complete done f s' := by
  have hlossless := h.toLossless.step hf.toNumbered hlag hs
  cases hs with
  | subscribe hpc =>
      obtain ⟨next, hrec, -⟩ := h.holds
      rw [hpc] at hrec
      cases hrec
  | @replay next after missed hpc hid hrecent =>
      have hnil := h.fresh next hpc
      refine { hlossless with fresh := nofun, below := ?_, upTo := ?_ }
      · intro m hm
        rw [hnil, List.nil_append] at hm
        obtain ⟨e, he, rfl⟩ := List.mem_map.mp hm
        exact (hf.below e ((mem_recent_iff hf.toNumbered hrecent e).mp he).1).2
      · intro received m hpre e he hdue hle
        rw [hnil, List.nil_append] at hpre
        have hmissed : e ∈ missed :=
          (mem_recent_iff hf.toNumbered hrecent e).mpr ⟨he, hdue.1 after hid⟩
        obtain ⟨rest, hrest⟩ := hpre
        obtain ⟨front, back, rfl, hfront, -⟩ := List.map_eq_append_iff.mp hrest.symm
        obtain ⟨events, last, rfl, hevents, hlast⟩ := List.map_eq_append_iff.mp hfront
        obtain ⟨newest, rfl, rfl⟩ := List.map_eq_singleton_iff.mp hlast
        have hmem := mem_prefix_of_le (recent_sorted hf.toNumbered hrecent)
          (List.prefix_append ..) hmissed hle
        rw [← hfront]
        exact List.mem_map_of_mem hmem
  | gap hpc hrecent =>
      exact { hlossless with fresh := nofun, below := h.below, upTo := h.upTo }
  | snapshot hpc =>
      refine { hlossless with fresh := nofun, below := ?_, upTo := ?_ }
      · exact List.forall_mem_append.mpr ⟨h.below, List.forall_mem_singleton.mpr hf.pos⟩
      · intro received m hpre e he hdue hle
        obtain heq | hpre := List.prefix_concat_iff.mp hpre
        · obtain ⟨-, hm⟩ := List.append_inj' heq rfl
          have hpos := (hf.below e he).1
          rw [List.singleton_inj.mp hm] at hle
          exact absurd hle (Nat.not_le_of_lt hpos)
        · exact h.upTo received m hpre e he (hdue.of_prefix rfl (List.prefix_append ..)) hle
  | @receive next head hpc hold hqueue =>
      refine { hlossless with fresh := nofun, below := ?_, upTo := ?_ }
      · have hlt := (hf.below head (mem_appended.mpr (.inl (head_mem_sent hqueue)))).2
        exact List.forall_mem_append.mpr ⟨h.below, List.forall_mem_singleton.mpr hlt⟩
      · intro received m hpre e he hdue hle
        have hdue' : s.Due done e := hdue.of_prefix rfl (List.prefix_append ..)
        obtain heq | hpre := List.prefix_concat_iff.mp hpre
        · obtain ⟨rfl, hm⟩ := List.append_inj' heq rfl
          rw [List.singleton_inj.mp hm] at hle ⊢
          obtain hw | rfl := h.upTo_head hf hpc hqueue he hdue' hle
          · exact List.mem_append_left _ hw
          · exact List.mem_append_right _ List.mem_cons_self
        · exact h.upTo received m hpre e he hdue' hle
  | lag hpc hbehind =>
      unfold Stream.lags at hlag
      rw [hpc] at hlag
      exact absurd hbehind (of_decide_eq_false hlag)

/-- A connection begins with nothing written. -/
theorem written_opening {p q : Server σ} {moves : List (FeedMove σ)}
    (hp : ∀ s ∈ p.streams, s.pc.opening → s.written = [])
    (hrun : (feedSystem σ).run p moves = some q) :
    ∀ s ∈ q.streams, s.pc.opening → s.written = [] := by
  refine (run_streams (F := fun _ => True) (I := fun _ s => s.pc.opening → s.written = [])
    (C := fun _ _ => True) (fun _ _ _ _ _ _ => trivial) (fun _ _ _ _ _ _ _ h => h)
    (fun _ _ _ _ => rfl) (fun p i s s' _ _ _ hstep h => ?_) trivial hp
    (System.meets_of_forall (fun _ _ => trivial) _ _) hrun).2
  cases hstep with
  | subscribe hpc => exact fun _ => h (by rw [hpc]; trivial)
  | gap hpc hrecent => exact fun _ => h (by rw [hpc]; trivial)
  | replay hpc hid hrecent => exact False.elim
  | snapshot hpc => exact False.elim
  | receive hpc hold hqueue => exact False.elim
  | lag hpc hlag => exact False.elim

/-- A client of the connection that comes back with the last id it has gets every event due
    to it that the log still has, if it had not received it. -/
def Stream.Resumable (done : List Event) (f : Feed σ) (s : Stream σ) : Prop :=
  ∀ received, received <+: s.written → ∀ last ∈ s.clientId received,
    ∀ missed ∈ f.log.recent last, ∀ e ∈ f.log.events, s.Due done e →
      .event e ∈ received ∨ e ∈ missed

theorem Complete.resumable {done : List Event} {f : Feed σ} {s : Stream σ}
    (h : Complete done f s) (hf : Numbered f) : s.Resumable done f := by
  intro received hpre last hlast missed hmissed e he hdue
  have hin := hf.logged e he
  have hiff := mem_recent_iff hf hmissed e
  unfold Stream.clientId at hlast
  split at hlast
  · next m hm =>
      obtain ⟨earlier, rfl⟩ := List.getLast?_eq_some_iff.mp hm
      have hid := toNat_of_parseId hlast
      by_cases hle : e.seq ≤ m.id
      · exact .inl (h.upTo earlier m hpre e hin hdue hle)
      · exact .inr (hiff.mpr ⟨hin, by omega⟩)
  · exact .inr (hiff.mpr ⟨hin, hdue.1 last hlast⟩)

/-! ## Every run -/

theorem inOrder_run {p q : Server σ} {moves : List (FeedMove σ)} (hp : InOrder p.feed)
    (hok : (feedSystem σ).Meets InTurn p moves) (hrun : (feedSystem σ).run p moves = some q) :
    InOrder q.feed :=
  run_feed (fun _ _ _ h hok hstep => h.step hok hstep) hp hok hrun

/-- Calls that broadcast in turn keep the live feed in order, and a client that comes back
    misses nothing. -/
theorem live_feed_in_order (capacity liveCapacity : Nat) (state : σ) {moves : List (FeedMove σ)}
    {q : Server σ}
    (hrun : (feedSystem σ).run (.start capacity liveCapacity state) moves = some q)
    (hturn : (feedSystem σ).Meets InTurn (.start capacity liveCapacity state) moves) :
    (∀ next, (q.feed.live.queue next).Pairwise fun e e' => e.seq < e'.seq) ∧
      ∀ before i after p s₀ s, moves = before ++ .stream i :: after →
        (feedSystem σ).run (.start capacity liveCapacity state) before = some p →
        p.streams[i]? = some s₀ → s₀.pc = .request →
        (feedSystem σ).Meets (NoLag i) p (.stream i :: after) → q.streams[i]? = some s →
        s.Resumable p.feed.live.sent q.feed := by
  have hstart := InOrder.start capacity liveCapacity state
  have hq := inOrder_run hstart hturn hrun
  refine ⟨hq.queue, ?_⟩
  rintro before i after p s₀ s rfl hbefore hi hpc hlag hs
  have hp := inOrder_run hstart hturn.prefix hbefore
  have hempty : s₀.written = [] := by
    refine written_opening (fun s hs => absurd hs List.not_mem_nil) hbefore s₀
      (List.mem_of_getElem? hi) ?_
    rw [hpc]
    trivial
  have hafter : (feedSystem σ).run p (.stream i :: after) = some q := by
    rw [System.run_append, hbefore, Option.bind_some] at hrun
    exact hrun
  have hnext := next_subscribe hi hpc
  have hok := ((hturn.suffix hbefore).and hlag).2 _ hnext
  rw [System.run_cons_of_next _ hnext] at hafter
  have hfirst : Complete p.feed.live.sent p.feed
      { s₀ with pc := .subscribed p.feed.live.subscribe } := by
    refine { Lossless.subscribed p.feed s₀ with
      fresh := fun _ _ => hempty, below := ?_, upTo := ?_ }
    · intro m hm
      rw [hempty] at hm
      cases hm
    · intro received m hpre
      rw [hempty, List.prefix_nil] at hpre
      exact absurd hpre (List.append_ne_nil_of_right_ne_nil _ (List.cons_ne_nil _ _))
  obtain ⟨-, s', hs', hend⟩ := run_stream (F := InOrder) (I := Complete p.feed.live.sent)
    (fun p m f' h hok hstep => h.step hok.1 hstep)
    (fun p m f' s _ _ hstep h => h.keep hstep)
    (fun p s s' h hok hi hstep hs => hs.step h (hok.2 rfl s hi) hstep)
    (p := p.subscribe i s₀) hp (getElem?_set_self hi) hfirst hok hafter
  obtain rfl := Option.some.inj (hs.symm.trans hs')
  exact hend.resumable hq.toNumbered

/-- A client that was cut off after the first of two calls. -/
theorem live_feed_in_order_two : ∃ q s,
    (feedSystem Unit).run (.start 256 64 ()) [.connect none, .stream 0, .stream 0, .stream 0,
      .append 0 (.dialing "S1"), .append 0 (.dialing "S2"), .broadcast 0, .stream 0,
      .broadcast 0] = some q ∧ q.streams[0]? = some s ∧ s.Resumable [] q.feed := by
  let p : Server Unit := { Server.start 256 64 () with streams := [.connect none] }
  let after : List (FeedMove Unit) := [.stream 0, .stream 0, .append 0 (.dialing "S1"),
    .append 0 (.dialing "S2"), .broadcast 0, .stream 0, .broadcast 0]
  have hturn : (feedSystem Unit).Meets InTurn (.start 256 64 ())
      (.connect none :: .stream 0 :: after) := by decide
  have hlag : (feedSystem Unit).Meets (NoLag 0) p (.stream 0 :: after) := by decide
  refine ⟨_, _, rfl, rfl, ?_⟩
  exact (live_feed_in_order 256 64 () rfl hturn).2 [.connect none] 0 after p _ _ rfl rfl rfl rfl
    hlag rfl

/-- The second of two calls broadcasts first: a client that then comes back with the last id
    it has never gets the event of the first. -/
theorem overtaken_event_lost : ∃ (q : Server Unit) (s s' : Stream Unit) (lost : Event),
    (feedSystem Unit).run (.start 256 64 ()) [.connect none, .stream 0, .stream 0, .stream 0,
      .append 0 (.dialing "S1"), .append 0 (.dialing "S2"), .broadcast 1, .stream 0, .broadcast 0,
      .connect (some 2), .stream 1, .stream 1] = some q ∧
      q.streams = [s, s'] ∧ s.clientId s.written = s'.lastEventId ∧
      ¬ (q.feed.live.queue 0).Pairwise (fun e e' => e.seq < e'.seq) ∧
      ¬ s.Resumable [] q.feed ∧
      lost ∈ q.feed.log.events ∧ .event lost ∉ s.written ∧ s'.pc = .live 2 ∧
      ¬ Delivered q.feed s' 2 lost := by
  refine ⟨_, _, _, ⟨1, 0, .dialing "S1"⟩, rfl, rfl, rfl, by decide, fun h => ?_, by decide,
    by decide, rfl, by decide⟩
  have hor := h [.snapshot (), .event ⟨2, 0, .dialing "S2"⟩] List.prefix_rfl 2 rfl [] rfl
    ⟨1, 0, .dialing "S1"⟩ (by decide) ⟨nofun, .inl List.not_mem_nil⟩
  exact absurd hor (by decide)

end Michoi
