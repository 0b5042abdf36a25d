/-
  Coming back after a snapshot.

  A snapshot is written with id 0, which a client that received nothing after it sends back
  as its last id. The log then answers with every event it has, unless the first one is gone.
  Where the id that the client sends stands for all it has (`Forward`), the new connection
  writes only events that were pushed after the snapshot and not received (`Missed`).
-/
import Michoi.Events.FeedOrder

namespace Michoi

open Lib

variable {σ : Type}

/-- The log will answer with no event numbered below `first` and none of those received, and
    no such event is still to be broadcast. -/
def Stream.forward (first : Nat) (received : List Event) (f : Feed σ) (s : Stream σ) : Bool :=
  match s.pc with
  | .request => f.pushing.all fun e => first ≤ e.seq
  | .subscribed _ =>
      match s.lastEventId with
      | some last =>
          (f.log.recent last).isNone ||
            (first ≤ last.toNat + 1 && received.all fun e => e.seq ≤ last.toNat)
      | none => true
  | _ => true

/-- The condition at the steps of one connection. -/
def Forward (i first : Nat) (received : List Event) (p : Server σ) (m : FeedMove σ) : Prop :=
  m = .stream i → ∀ s ∈ p.streams[i]?, s.forward first received p.feed = true

instance [DecidableEq σ] (i first : Nat) (received : List Event) (p : Server σ)
    (m : FeedMove σ) : Decidable (Forward i first received p m) :=
  inferInstanceAs (Decidable (_ → _))

/-! ## The first connection -/

/-- From its snapshot on, a connection writes what was broadcast. -/
structure LiveOnly (f : Feed σ) (s : Stream σ) : Prop where
  started : s.pc ≠ .request ∧ ∀ next, s.pc ≠ .subscribed next
  sent : ∀ e, .event e ∈ s.written → e ∈ f.live.sent

theorem LiveOnly.keep {f f' : Feed σ} {s : Stream σ} {m : FeedMove σ} (h : LiveOnly f s)
    (hs : FeedStep f m f') : LiveOnly f' s where
  started := h.started
  sent := fun e he => hs.sent_mono.subset (h.sent e he)

theorem LiveOnly.step {f : Feed σ} {s s' : Stream σ} (h : LiveOnly f s)
    (hs : Stream.Step f s s') : LiveOnly f s' := by
  cases hs with
  | subscribe hpc => exact absurd hpc h.started.1
  | replay hpc hid hrecent => exact absurd hpc (h.started.2 _)
  | gap hpc hrecent => exact absurd hpc (h.started.2 _)
  | snapshot hpc =>
      refine ⟨⟨nofun, nofun⟩, fun e he => ?_⟩
      obtain he | he := List.mem_append.mp he
      · exact h.sent e he
      · cases List.mem_singleton.mp he
  | @receive next head hpc hold hqueue =>
      refine ⟨⟨nofun, nofun⟩, fun e he => ?_⟩
      obtain he | he := List.mem_append.mp he
      · exact h.sent e he
      · obtain rfl := StreamMessage.event.inj (List.mem_singleton.mp he)
        exact head_mem_sent hqueue
  | lag hpc hlag => exact ⟨⟨nofun, nofun⟩, h.sent⟩

/-! ## The second connection -/

/-- The feed after the client was cut off. -/
structure Since (first : Nat) (received : List Event) (f : Feed σ) : Prop extends Numbered f where
  first : first ≤ f.log.nextSeq
  received : ∀ e ∈ received, e ∈ f.live.sent

/-- Pushed after the snapshot, and not received. -/
def Missed (first : Nat) (received : List Event) (e : Event) : Prop :=
  first ≤ e.seq ∧ e ∉ received

variable {first : Nat} {received : List Event}

theorem Since.step {f f' : Feed σ} {m : FeedMove σ} (h : Since first received f)
    (hs : FeedStep f m f') : Since first received f' :=
  { h.toNumbered.step hs with
    first := Nat.le_trans h.first hs.nextSeq_mono
    received := fun e he => hs.sent_mono.subset (h.received e he) }

/-- What has still to be broadcast was not received. -/
theorem Since.not_mem_of_pushing {f : Feed σ} (h : Since first received f) {e : Event}
    (he : e ∈ f.pushing) : e ∉ received := by
  intro hr
  have hdistinct := h.distinct
  rw [Feed.appended, List.map_append, List.nodup_append] at hdistinct
  exact hdistinct.2.2 e.seq (List.mem_map_of_mem (h.received e hr)) e.seq (List.mem_map_of_mem he)
    rfl

/-- What the connection wrote, and what it will receive. -/
structure MissedOnly (first : Nat) (received : List Event) (f : Feed σ) (s : Stream σ) :
    Prop where
  placed : s.Placed f
  written : ∀ e, .event e ∈ s.written → Missed first received e
  ahead : ∀ e, s.ToCome f e → Missed first received e

theorem MissedOnly.connect (f : Feed σ) (lastEventId : Option UInt64) :
    MissedOnly first received f (.connect lastEventId) where
  placed := nofun
  written := fun _ he => absurd he List.not_mem_nil
  ahead := nofun

theorem MissedOnly.keep {f f' : Feed σ} {s : Stream σ} {m : FeedMove σ}
    (h : MissedOnly first received f s) (hf : Since first received f) (hs : FeedStep f m f') :
    MissedOnly first received f' s := by
  refine ⟨h.placed.keep hs, h.written, fun e he => ?_⟩
  obtain he | hseq := he.of_keep h.placed hs
  · exact h.ahead e he
  · refine ⟨hseq ▸ hf.first, fun hr => ?_⟩
    have hlt := (hf.below e (mem_appended.mpr (.inl (hf.received e hr)))).2
    omega

theorem MissedOnly.step {f : Feed σ} {s s' : Stream σ} (h : MissedOnly first received f s)
    (hf : Since first received f) (hok : s.forward first received f = true)
    (hs : Stream.Step f s s') : MissedOnly first received f s' := by
  have hahead : ∀ e, s'.ToCome f e → Missed first received e := by
    intro e he
    obtain he | ⟨hpc, he⟩ := he.of_step hs
    · exact h.ahead e he
    · unfold Stream.forward at hok
      rw [hpc] at hok
      exact ⟨of_decide_eq_true (List.all_eq_true.mp hok e he), hf.not_mem_of_pushing he⟩
  refine ⟨h.placed.step hs, fun e he => ?_, hahead⟩
  cases hs with
  | subscribe hpc => exact h.written e he
  | @replay next last missed hpc hid hrecent =>
      obtain he | he := List.mem_append.mp he
      · exact h.written e he
      · obtain ⟨e', he', heq⟩ := List.mem_map.mp he
        obtain rfl := StreamMessage.event.inj heq
        have hafter := ((mem_recent_iff hf.toNumbered hrecent e').mp he').2
        unfold Stream.forward at hok
        simp only [hpc, hid, hrecent, Option.isNone_some, Bool.false_or, Bool.and_eq_true,
          decide_eq_true_eq, List.all_eq_true] at hok
        refine ⟨by omega, fun hr => ?_⟩
        have hle := hok.2 e' hr
        omega
  | gap hpc hrecent => exact h.written e he
  | snapshot hpc =>
      obtain he | he := List.mem_append.mp he
      · exact h.written e he
      · cases List.mem_singleton.mp he
  | @receive next head hpc hold hqueue =>
      obtain he | he := List.mem_append.mp he
      · exact h.written e he
      · obtain rfl := StreamMessage.event.inj (List.mem_singleton.mp he)
        refine h.ahead e ⟨next, by rw [hpc]; rfl, .inl ?_⟩
        exact hqueue ▸ List.mem_cons_self
  | lag hpc hbehind => exact h.written e he

/-! ## Every run -/

/-- A client that comes back after a snapshot gets a new one, or events that it has not seen. -/
theorem reconnect_after_snapshot (capacity liveCapacity : Nat) (state : σ) {i next : Nat}
    {before between after : List (FeedMove σ)} {p q r : Server σ} {s₀ s s' : Stream σ}
    {received : List Event} {got : List (StreamMessage σ)}
    (hbefore : (feedSystem σ).run (.start capacity liveCapacity state) before = some p)
    (hi : p.streams[i]? = some s₀) (hpc : s₀.pc = .snapshot next)
    (hbetween : (feedSystem σ).run p (.stream i :: between) = some q)
    (hs : q.streams[i]? = some s)
    (hgot : got = .snapshot p.feed.state :: received.map .event) (hpre : got <+: s.written)
    (hafter : (feedSystem σ).run q (.connect (s.clientId got) :: after) = some r)
    (hforward : (feedSystem σ).Meets (Forward q.streams.length p.feed.log.nextSeq received) q
      (.connect (s.clientId got) :: after))
    (hs' : r.streams[q.streams.length]? = some s') :
    ∀ e, .event e ∈ s'.written → p.feed.log.nextSeq ≤ e.seq ∧ e ∉ received := by
  have hp := numbered_run (Numbered.start capacity liveCapacity state) hbefore
  have hq := numbered_run hp hbetween
  have hempty : s₀.written = [] := by
    refine written_opening (fun s hs => absurd hs List.not_mem_nil) hbefore s₀
      (List.mem_of_getElem? hi) ?_
    rw [hpc]
    trivial
  have hlive : LiveOnly p.feed s₀ := by
    refine ⟨⟨by rw [hpc]; nofun, by rw [hpc]; nofun⟩, fun e he => ?_⟩
    rw [hempty] at he
    cases he
  obtain ⟨hfirst, t, ht, hsent⟩ := run_stream
    (F := fun f => p.feed.log.nextSeq ≤ f.log.nextSeq) (I := LiveOnly) (C := fun _ _ => True)
    (fun _ _ _ h _ hstep => Nat.le_trans h hstep.nextSeq_mono)
    (fun _ _ _ _ _ _ hstep h => h.keep hstep) (fun _ _ _ _ _ _ hstep h => h.step hstep)
    (Nat.le_refl _) hi hlive (System.meets_of_forall (fun _ _ => trivial) _ _) hbetween
  obtain rfl := Option.some.inj (hs.symm.trans ht)
  have hsince : Since p.feed.log.nextSeq received q.feed := by
    refine { hq with first := hfirst, received := fun e he => hsent.sent e ?_ }
    exact hpre.subset (hgot ▸ List.mem_cons_of_mem _ (List.mem_map_of_mem he))
  let q' : Server σ := { q with streams := q.streams ++ [.connect (s.clientId got)] }
  have hnext : (feedSystem σ).next q (.connect (s.clientId got)) = some q' := rfl
  rw [System.run_cons_of_next _ hnext] at hafter
  have hj : q'.streams[q.streams.length]? = some (.connect (s.clientId got)) :=
    List.getElem?_concat_length
  obtain ⟨-, t', ht', hend⟩ := run_stream (p := q') (F := Since p.feed.log.nextSeq received)
    (I := MissedOnly p.feed.log.nextSeq received)
    (fun _ _ _ h _ hstep => h.step hstep)
    (fun _ _ _ _ hf _ hstep h => h.keep hf hstep)
    (fun _ s _ hf hok hi hstep h => h.step hf (hok rfl s hi) hstep)
    hsince hj (MissedOnly.connect q.feed (s.clientId got)) (hforward.2 q' hnext) hafter
  obtain rfl := Option.some.inj (hs'.symm.trans ht')
  exact hend.written

/-- A client that had received one event, and missed the next. -/
theorem reconnect_after_snapshot_one : ∃ (p q r : Server Unit) (s' : Stream Unit),
    (feedSystem Unit).run (.start 256 64 ()) [.connect none, .stream 0, .stream 0] = some p ∧
      (feedSystem Unit).run p [.stream 0, .append 0 (.dialing "S1"), .broadcast 0, .stream 0,
        .append 0 (.dialing "S2"), .broadcast 0] = some q ∧
      (feedSystem Unit).run q [.connect (some 1), .stream 1, .stream 1] = some r ∧
      r.streams[1]? = some s' ∧ s'.written = [.event ⟨2, 0, .dialing "S2"⟩] ∧
      ∀ e, .event e ∈ s'.written → 1 ≤ e.seq ∧ e ∉ [⟨1, 0, .dialing "S1"⟩] := by
  let p : Server Unit := { Server.start 256 64 () with
    streams := [{ lastEventId := none, pc := .snapshot 0, written := [] }] }
  let between : List (FeedMove Unit) := [.append 0 (.dialing "S1"), .broadcast 0, .stream 0,
    .append 0 (.dialing "S2"), .broadcast 0]
  let got : List (StreamMessage Unit) := [.snapshot (), .event ⟨1, 0, .dialing "S1"⟩]
  let s : Stream Unit := { lastEventId := none, pc := .live 1, written := got }
  let q : Server Unit := {
    feed := ((((Server.start 256 64 ()).feed.append 0 (.dialing "S1")).broadcast 0
      ⟨1, 0, .dialing "S1"⟩).append 0 (.dialing "S2")).broadcast 0 ⟨2, 0, .dialing "S2"⟩
    streams := [s] }
  have hbefore : (feedSystem Unit).run (.start 256 64 ()) [.connect none, .stream 0, .stream 0] =
      some p := rfl
  have hbetween : (feedSystem Unit).run p (.stream 0 :: between) = some q := rfl
  have hafter : (feedSystem Unit).run q [.connect (s.clientId got), .stream 1, .stream 1] =
      some _ := rfl
  have hgot : got = .snapshot p.feed.state :: [⟨1, 0, .dialing "S1"⟩].map .event := rfl
  have hforward : (feedSystem Unit).Meets (Forward 1 1 [⟨1, 0, .dialing "S1"⟩]) q
      [.connect (s.clientId got), .stream 1, .stream 1] := by decide
  refine ⟨p, q, _, _, hbefore, hbetween, rfl, rfl, rfl, ?_⟩
  exact reconnect_after_snapshot 256 64 () hbefore rfl rfl hbetween rfl hgot
    (List.prefix_refl got) hafter hforward rfl

/-- A client that received the snapshot and nothing else gets an event from before it. -/
theorem snapshot_then_replay : ∃ (p q r : Server Unit) (s s' : Stream Unit),
    (feedSystem Unit).run (.start 256 64 ()) [.append 0 (.callStarted "S1" "D1" "R1"),
      .broadcast 0, .connect none, .stream 0, .stream 0] = some p ∧
      (feedSystem Unit).run p [.stream 0] = some q ∧ q.streams = [s] ∧
      s.written = [.snapshot p.feed.state] ∧
      (feedSystem Unit).run q [.connect (s.clientId s.written), .stream 1, .stream 1] = some r ∧
      r.streams[1]? = some s' ∧ s'.written = [.event ⟨1, 0, .callStarted "S1" "D1" "R1"⟩] ∧
      ¬ ∀ e, .event e ∈ s'.written → p.feed.log.nextSeq ≤ e.seq ∧ e ∉ ([] : List Event) := by
  refine ⟨_, _, _, _, _, rfl, rfl, rfl, rfl, rfl, rfl, rfl, fun h => ?_⟩
  have hle := (h _ List.mem_cons_self).1
  exact absurd hle (by decide)

end Michoi
