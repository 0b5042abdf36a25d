/-
  The seam between a replay and the live feed.

  A connection subscribes before it replays, so nothing falls between the two; but an event
  that was logged and not yet received then is replayed and received again. Where no such
  event is newer than the client's last id (`Apart`), what a resumed connection writes is in
  strict order of ids (`Seamless`).
-/
import Michoi.Events.FeedOrder

namespace Michoi

open Lib

variable {σ : Type}

/-- A call pushes only when the one before it has broadcast. -/
def SinglePusher (p : Server σ) : FeedMove σ → Prop
  | .append .. => p.feed.pushing = []
  | _ => True

instance [DecidableEq σ] (p : Server σ) : ∀ m, Decidable (SinglePusher p m)
  | .append .. => inferInstanceAs (Decidable (p.feed.pushing = []))
  | .broadcast _ | .change _ | .connect _ | .stream _ => inferInstanceAs (Decidable True)

/-- Nothing that a replay will write is still to come on the live channel. -/
def Stream.apart (f : Feed σ) (s : Stream σ) : Bool :=
  match s.pc with
  | .subscribed next =>
      match s.lastEventId with
      | some after =>
          (f.log.recent after).isNone ||
            (f.live.queue next ++ f.pushing).all fun e => e.seq ≤ after.toNat
      | none => true
  | _ => true

/-- The condition at the steps of one connection. -/
def Apart (i : Nat) (p : Server σ) (m : FeedMove σ) : Prop :=
  m = .stream i → ∀ s ∈ p.streams[i]?, s.apart p.feed = true

instance [DecidableEq σ] (i : Nat) (p : Server σ) (m : FeedMove σ) : Decidable (Apart i p m) :=
  inferInstanceAs (Decidable (_ → _))

/-! ## The feed of a single pusher -/

structure OnePush (f : Feed σ) : Prop extends InOrder f where
  one : f.pushing.length ≤ 1

theorem OnePush.step {p : Server σ} {m : FeedMove σ} {f' : Feed σ} (h : OnePush p.feed)
    (hok : SinglePusher p m) (hs : FeedStep p.feed m f') : OnePush f' := by
  have hone := h.one
  cases hs with
  | append atMs kind =>
      have hempty : p.feed.pushing = [] := hok
      refine { h.toInOrder.step (m := .append atMs kind) trivial (.append atMs kind) with
        one := ?_ }
      show (p.feed.pushing ++ _).length ≤ 1
      rw [hempty]
      exact Nat.le_refl _
  | @broadcast i e hi =>
      have hturn : InTurn p (.broadcast i) := by
        intro e₁ h₁ e₂ h₂
        obtain ⟨j, hj⟩ := List.getElem?_of_mem h₂
        obtain ⟨hi', -⟩ := List.getElem?_eq_some_iff.mp h₁
        obtain ⟨hj', -⟩ := List.getElem?_eq_some_iff.mp hj
        obtain rfl : i = j := by omega
        rw [Option.some.inj (h₁.symm.trans hj)]
      refine { h.toInOrder.step hturn (.broadcast hi) with one := ?_ }
      have hle := List.length_eraseIdx_le p.feed.pushing i
      exact Nat.le_trans hle hone
  | change state =>
      exact { h.toInOrder.step (m := .change state) trivial (.change state) with one := hone }

theorem OnePush.start (capacity liveCapacity : Nat) (state : σ) :
    OnePush (Server.start capacity liveCapacity state).feed where
  toInOrder := InOrder.start capacity liveCapacity state
  one := Nat.zero_le _

/-! ## One connection -/

/-- What a receiver has got is older than what it has still to get. -/
theorem InOrder.lt_of_mem {f : Feed σ} (h : InOrder f) {next : Nat} {e e' : Event}
    (he : e ∈ f.appended) (hq : e ∉ f.live.queue next) (hp : e ∉ f.pushing)
    (he' : e' ∈ f.live.queue next ∨ e' ∈ f.pushing) : e.seq < e'.seq := by
  have hsent : e ∈ f.live.sent := (mem_appended.mp he).resolve_right hp
  obtain he' | he' := he'
  · have hsplit := h.feed
    rw [← List.take_append_drop next f.live.sent] at hsent hsplit
    have htake := (List.mem_append.mp hsent).resolve_right hq
    exact (List.pairwise_append.mp hsplit).2.2 e htake e' he'
  · exact h.ahead e hsent e' he'

/-- As long as no snapshot was written: ids are in order, and all that is still to come is
    newer. -/
structure Seamless (f : Feed σ) (s : Stream σ) : Prop where
  fresh : s.pc.opening → s.written = []
  placed : s.Placed f
  sorted : s.Resumed → (s.written.map StreamMessage.id).Pairwise (· < ·)
  below : s.Resumed → ∀ m ∈ s.written, m.id < f.log.nextSeq
  ahead : s.Resumed → ∀ m ∈ s.written, ∀ e, s.ToCome f e → m.id < e.seq

theorem Seamless.connect (f : Feed σ) (lastEventId : Option UInt64) :
    Seamless f (.connect lastEventId) where
  fresh := fun _ => rfl
  placed := nofun
  sorted := fun _ => .nil
  below := fun _ _ hm => absurd hm List.not_mem_nil
  ahead := fun _ _ hm => absurd hm List.not_mem_nil

theorem Seamless.keep {f f' : Feed σ} {s : Stream σ} {m : FeedMove σ} (h : Seamless f s)
    (hs : FeedStep f m f') : Seamless f' s := by
  refine ⟨h.fresh, h.placed.keep hs, h.sorted, ?_, ?_⟩
  · intro hr m hm
    exact Nat.lt_of_lt_of_le (h.below hr m hm) hs.nextSeq_mono
  · intro hr m hm e he
    obtain he | hseq := he.of_keep h.placed hs
    · exact h.ahead hr m hm e he
    · rw [hseq]
      exact h.below hr m hm

/-- Without a snapshot at the end there was none before. -/
theorem Stream.Resumed.of_append {s s' : Stream σ} {messages : List (StreamMessage σ)}
    (h : s'.Resumed) (hwritten : s'.written = s.written ++ messages) : s.Resumed :=
  fun m hm => h m (hwritten ▸ List.mem_append_left _ hm)

theorem not_resumed_of_snapshot {s : Stream σ} {messages : List (StreamMessage σ)} {state : σ}
    (hwritten : s.written = messages ++ [.snapshot state]) : ¬ s.Resumed := by
  intro h
  have hsnap := h (.snapshot state) (hwritten ▸ List.mem_append_right _ List.mem_cons_self)
  cases hsnap

theorem Seamless.step {f : Feed σ} {s s' : Stream σ} (h : Seamless f s) (hf : InOrder f)
    (hapart : s.apart f = true) (hs : Stream.Step f s s') : Seamless f s' := by
  have hplaced := h.placed.step hs
  cases hs with
  | subscribe hpc =>
      have hnil := h.fresh (by rw [hpc]; trivial)
      refine ⟨fun _ => hnil, hplaced, h.sorted, h.below, fun _ m hm => ?_⟩
      rw [hnil] at hm
      cases hm
  | @replay next after missed hpc hid hrecent =>
      have hnil := h.fresh (by rw [hpc]; trivial)
      have hold : ∀ e, e ∈ f.live.queue next ∨ e ∈ f.pushing → e.seq ≤ after.toNat := by
        unfold Stream.apart at hapart
        simp only [hpc, hid, hrecent, Option.isNone_some, Bool.false_or] at hapart
        intro e he
        exact of_decide_eq_true (List.all_eq_true.mp hapart e (List.mem_append.mpr he))
      have hmem : ∀ m ∈ s.written ++ missed.map .event,
          ∃ e, m = .event e ∧ e ∈ f.appended ∧ after.toNat < e.seq := by
        intro m hm
        rw [hnil, List.nil_append] at hm
        obtain ⟨e, he, rfl⟩ := List.mem_map.mp hm
        exact ⟨e, rfl, (mem_recent_iff hf.toNumbered hrecent e).mp he⟩
      refine ⟨False.elim, hplaced, fun _ => ?_, fun _ m hm => ?_, fun _ m hm e' he' => ?_⟩
      · rw [hnil, List.nil_append, List.map_map, List.pairwise_map]
        exact recent_sorted hf.toNumbered hrecent
      · obtain ⟨e, rfl, hin, -⟩ := hmem m hm
        exact (hf.below e hin).2
      · obtain ⟨e, rfl, hin, hafter⟩ := hmem m hm
        obtain ⟨next', hrec, he'⟩ := he'
        obtain rfl := Option.some.inj hrec
        -- What was replayed is newer than the last id, so it is not still to come.
        refine hf.lt_of_mem hin (fun hq => ?_) (fun hp => ?_) he'
        · have hle := hold e (.inl hq)
          omega
        · have hle := hold e (.inr hp)
          omega
  | gap hpc hrecent =>
      have hnil := h.fresh (by rw [hpc]; trivial)
      refine ⟨fun _ => hnil, hplaced, h.sorted, h.below, fun _ m hm => ?_⟩
      rw [hnil] at hm
      cases hm
  | snapshot hpc =>
      exact ⟨False.elim, hplaced, fun hr => absurd hr (not_resumed_of_snapshot rfl),
        fun hr => absurd hr (not_resumed_of_snapshot rfl),
        fun hr => absurd hr (not_resumed_of_snapshot rfl)⟩
  | @receive next head hpc hold hqueue =>
      have hrec : s.pc.receiver = some next := by rw [hpc]; rfl
      have hhead : head ∈ f.live.queue next := hqueue ▸ List.mem_cons_self
      have hsent := head_mem_sent hqueue
      refine ⟨False.elim, hplaced, fun hr => ?_, fun hr => ?_, fun hr m hm e he => ?_⟩
      · have hr' := hr.of_append (s := s) rfl
        rw [List.map_append, List.pairwise_append]
        refine ⟨h.sorted hr', List.pairwise_singleton _ _, ?_⟩
        intro id hid id' hid'
        obtain ⟨m, hm, rfl⟩ := List.mem_map.mp hid
        rw [List.mem_singleton.mp hid']
        exact h.ahead hr' m hm head ⟨next, hrec, .inl hhead⟩
      · have hr' := hr.of_append (s := s) rfl
        have hlt := (hf.below head (mem_appended.mpr (.inl hsent))).2
        exact List.forall_mem_append.mpr ⟨h.below hr', List.forall_mem_singleton.mpr hlt⟩
      · have hr' := hr.of_append (s := s) rfl
        obtain ⟨next', hrec', he⟩ := he
        obtain rfl := Option.some.inj hrec'
        obtain hm | hm := List.mem_append.mp hm
        · refine h.ahead hr' m hm e ⟨next, hrec, he.imp_left fun he => ?_⟩
          exact hqueue ▸ List.mem_cons_of_mem _ he
        · rw [List.mem_singleton.mp hm]
          obtain he | he := he
          · have hsorted := hf.queue next
            rw [hqueue] at hsorted
            exact (List.pairwise_cons.mp hsorted).1 e he
          · exact hf.ahead head hsent e he
  | lag hpc hbehind =>
      refine ⟨False.elim, hplaced, h.sorted, h.below, fun hr m hm e he => ?_⟩
      obtain he | ⟨hpc', -⟩ := he.of_step (.lag hpc hbehind)
      · exact h.ahead hr m hm e he
      · cases hpc.symm.trans hpc'

/-! ## Every run -/

/-- A resumed connection writes each event once, and in order. -/
theorem resumed_stream_sorted (capacity liveCapacity : Nat) (state : σ) {i : Nat}
    {after : UInt64} {before later : List (FeedMove σ)} {p q : Server σ} {s : Stream σ}
    (hbefore : (feedSystem σ).run (.start capacity liveCapacity state) before = some p)
    (hi : p.streams[i]? = some (.connect (some after)))
    (hlater : (feedSystem σ).run p later = some q)
    (hsingle : (feedSystem σ).Meets SinglePusher (.start capacity liveCapacity state)
      (before ++ later))
    (hapart : (feedSystem σ).Meets (Apart i) p later)
    (hs : q.streams[i]? = some s) (hresumed : s.Resumed) :
    (s.written.map StreamMessage.id).Pairwise (· < ·) := by
  have hstart := OnePush.start capacity liveCapacity state
  have hp : OnePush p.feed :=
    run_feed (fun p m f' h hok hstep => h.step hok hstep) hstart hsingle.prefix hbefore
  obtain ⟨-, s', hs', hend⟩ := run_stream (F := OnePush) (I := Seamless)
    (fun p m f' h hok hstep => h.step hok.1 hstep)
    (fun p m f' s _ _ hstep h => h.keep hstep)
    (fun p s s' h hok hi hstep hs => hs.step h.toInOrder (hok.2 rfl s hi) hstep)
    hp hi (Seamless.connect p.feed (some after)) ((hsingle.suffix hbefore).and hapart) hlater
  obtain rfl := Option.some.inj (hs.symm.trans hs')
  exact hend.sorted hresumed

/-- One event replayed, and the next one received. -/
theorem resumed_stream_sorted_two : ∃ (q : Server Unit) (s : Stream Unit),
    (feedSystem Unit).run (.start 256 64 ()) [.append 0 (.dialing "S1"), .broadcast 0,
      .connect (some 0), .stream 0, .stream 0, .append 0 (.dialing "S2"), .broadcast 0,
      .stream 0] = some q ∧ q.streams[0]? = some s ∧ s.written.length = 2 ∧
      (s.written.map StreamMessage.id).Pairwise (· < ·) := by
  let before : List (FeedMove Unit) :=
    [.append 0 (.dialing "S1"), .broadcast 0, .connect (some 0)]
  let later : List (FeedMove Unit) :=
    [.stream 0, .stream 0, .append 0 (.dialing "S2"), .broadcast 0, .stream 0]
  let p : Server Unit := {
    feed := ((Server.start 256 64 ()).feed.append 0 (.dialing "S1")).broadcast 0
      ⟨1, 0, .dialing "S1"⟩
    streams := [.connect (some 0)] }
  have hbefore : (feedSystem Unit).run (.start 256 64 ()) before = some p := rfl
  have hlater : (feedSystem Unit).run p later = some _ := rfl
  have hsingle : (feedSystem Unit).Meets SinglePusher (.start 256 64 ()) (before ++ later) := by
    decide
  have hapart : (feedSystem Unit).Meets (Apart 0) p later := by decide
  refine ⟨_, _, rfl, rfl, rfl, ?_⟩
  exact resumed_stream_sorted 256 64 () hbefore rfl hlater hsingle hapart rfl (by decide)

/-- An event pushed between the subscription and the replay is written twice. -/
theorem replayed_event_twice : ∃ (p q : Server Unit) (s : Stream Unit),
    (feedSystem Unit).run (.start 256 64 ()) [.connect (some 0), .stream 0,
      .append 0 (.dialing "S1"), .broadcast 0] = some p ∧ p.feed.log.recent 0 ≠ none ∧
      (feedSystem Unit).run p [.stream 0, .stream 0] = some q ∧ q.streams[0]? = some s ∧
      (feedSystem Unit).Meets SinglePusher (.start 256 64 ()) [.connect (some 0), .stream 0,
        .append 0 (.dialing "S1"), .broadcast 0, .stream 0, .stream 0] ∧
      (feedSystem Unit).Meets (NoLag 0) p [.stream 0, .stream 0] ∧ s.Resumed ∧
      s.written = [.event ⟨1, 0, .dialing "S1"⟩, .event ⟨1, 0, .dialing "S1"⟩] ∧
      ¬ (s.written.map StreamMessage.id).Pairwise (· < ·) := by
  refine ⟨_, _, _, rfl, by decide, rfl, rfl, by decide, by decide, by decide, rfl, by decide⟩

end Michoi
