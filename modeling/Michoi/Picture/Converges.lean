/-
  The browser's picture comes to agree with the call.

  Every event is broadcast in the step that numbers it, so the event with number `i + 1` is the
  `i`th on the live channel, and the last id of a browser says how many events it has seen.
  `Following`: after every message, received or still on the way, the browser knows the call
  unless an event after that id tells of it (`Register.Knows`); after all of them it knows as
  much as where its receiver stands. That survives a cut, a replay, a lag and a snapshot with
  an older id, since to go back in the log is to know no less.
-/
import Michoi.Picture.Told

namespace Michoi

open Lib

variable {W : Type}

/-- What an event tells of the call. -/
abbrev eventView (e : Event) : Option CallView := e.kind.view

/-! ## The log and its channel -/

/-- The events on the channel are the log's, each at the place of its number. -/
structure Counted (log : EventLog) (live : Broadcast Event) : Prop where
  place : ∀ i e, live.sent[i]? = some e → e.seq = i + 1
  next : log.nextSeq = live.sent.length + 1

theorem Counted.mem_drop {log : EventLog} {live : Broadcast Event} (h : Counted log live)
    {k : Nat} {e : Event} : e ∈ live.sent.drop k ↔ e ∈ live.sent ∧ k < e.seq := by
  constructor
  · intro he
    obtain ⟨i, hi⟩ := List.getElem?_of_mem he
    rw [List.getElem?_drop] at hi
    have hseq := h.place _ _ hi
    exact ⟨List.mem_of_getElem? hi, by omega⟩
  · rintro ⟨he, hk⟩
    obtain ⟨i, hi⟩ := List.getElem?_of_mem he
    have hseq := h.place _ _ hi
    refine List.mem_of_getElem? (i := i - k) ?_
    rw [List.getElem?_drop, Nat.add_sub_cancel' (by omega)]
    exact hi

theorem Counted.sorted {log : EventLog} {live : Broadcast Event} (h : Counted log live) :
    live.sent.Pairwise fun e e' => e.seq < e'.seq := by
  rw [List.pairwise_iff_getElem]
  intro i j hi hj hij
  have hi' := h.place i _ (List.getElem?_eq_getElem hi)
  have hj' := h.place j _ (List.getElem?_eq_getElem hj)
  omega

/-- Two ordered lists of the same events are equal. -/
theorem eq_of_sorted_of_mem_iff {l l' : List Event}
    (hl : l.Pairwise fun e e' => e.seq < e'.seq) (hl' : l'.Pairwise fun e e' => e.seq < e'.seq)
    (hmem : ∀ e, e ∈ l ↔ e ∈ l') : l = l' := by
  have hnodup : ∀ {l : List Event}, (l.Pairwise fun e e' => e.seq < e'.seq) → l.Nodup :=
    fun h => h.imp fun hlt heq => absurd (congrArg Event.seq heq) (Nat.ne_of_lt hlt)
  have hperm := (List.perm_ext_iff_of_nodup (hnodup hl) (hnodup hl')).mpr hmem
  refine hperm.eq_of_pairwise (fun e e' _ _ hlt hlt' => ?_) hl hl'
  omega

/-- A replay is the rest of the channel. -/
theorem recent_eq_drop {f : Feed CallView} (hf : Numbered f) (hcount : Counted f.log f.live)
    (hpushing : f.pushing = []) {after : UInt64} {missed : List Event}
    (hr : f.log.recent after = some missed) : missed = f.live.sent.drop after.toNat := by
  refine eq_of_sorted_of_mem_iff (recent_sorted hf hr)
    (hcount.sorted.sublist (List.drop_sublist _ _)) fun e => ?_
  have happended : f.appended = f.live.sent := by
    unfold Feed.appended
    rw [hpushing, List.append_nil]
  rw [mem_recent_iff hf hr, hcount.mem_drop, happended]

/-! ## The browser and its stream -/

/-- After each of the messages the browser knows the call as of the message's id. -/
def Sound (log : List Event) (view : CallView) : Browser → List (StreamMessage CallView) → Prop
  | _, [] => True
  | b, m :: rest =>
      m.id ≤ log.length ∧ Register.Knows eventView log view (b.receive m).view m.id ∧
        Sound log view (b.receive m) rest

section

variable {log : List Event} {view : CallView} {b : Browser}

theorem Sound.snoc {messages : List (StreamMessage CallView)} {m : StreamMessage CallView}
    (h : Sound log view b messages) (hid : m.id ≤ log.length)
    (hknows : Register.Knows eventView log view
      ((messages.foldl Browser.receive b).receive m).view m.id) :
    Sound log view b (messages ++ [m]) := by
  induction messages generalizing b with
  | nil => exact ⟨hid, hknows, trivial⟩
  | cons m' rest ih => exact ⟨h.1, h.2.1, ih h.2.2 hknows⟩

theorem Sound.push {messages : List (StreamMessage CallView)} (h : Sound log view b messages)
    (e : Event) : Sound (log ++ [e]) (Register.after eventView view e) b messages := by
  induction messages generalizing b with
  | nil => trivial
  | cons m rest ih =>
      obtain ⟨hid, hknows, hrest⟩ := h
      refine ⟨?_, hknows.push hid e, ih hrest⟩
      rw [List.length_append]
      omega

/-- A browser that is sent the rest of the log knows the call at its end. -/
theorem sound_replay (hplace : ∀ i e, log[i]? = some e → e.seq = i + 1)
    (hholds : Register.Holds eventView log view) {rest : List Event} {k : Nat}
    (hrest : log.drop k = rest) (hk : k ≤ log.length)
    (h : Register.Knows eventView log view b.view k) :
    Sound log view b (rest.map .event) ∧ Register.Knows eventView log view
      ((rest.map StreamMessage.event).foldl Browser.receive b).view log.length := by
  induction rest generalizing b k with
  | nil =>
      have hend : log.length ≤ k := List.drop_eq_nil_iff.mp hrest
      obtain rfl : k = log.length := Nat.le_antisymm hk hend
      exact ⟨trivial, h⟩
  | cons e rest ih =>
      have hget : log[k]? = some e := by
        rw [← List.head?_drop, hrest]
        rfl
      have htail : log.drop (k + 1) = rest := by
        rw [← List.tail_drop, hrest]
        rfl
      have hseq := hplace k e hget
      have hlt : k < log.length := (List.getElem?_eq_some_iff.mp hget).1
      have hread : Register.Knows eventView log view (b.receive (.event e)).view (k + 1) := by
        rw [Browser.receive_event_view]
        exact h.read hholds (by rw [hrest, htail])
      obtain ⟨hsound, hknows⟩ := ih htail hlt hread
      refine ⟨⟨?_, ?_, hsound⟩, hknows⟩
      · show e.seq ≤ log.length
        omega
      · rw [show (StreamMessage.event e : StreamMessage CallView).id = k + 1 from hseq]
        exact hread

end

/-- What holds of the connection; `delivered` of its messages reached the browser. -/
structure Fed (f : Feed CallView) (b : Browser) (delivered : Nat) (s : Stream CallView) :
    Prop where
  placed : s.Placed f
  bound : delivered ≤ s.written.length
  opening : s.pc.opening → s.written = []
  asked : s.pc.opening → s.lastEventId = b.lastEventId.bind parseId
  sound : Sound f.live.sent f.state b (s.written.drop delivered)
  known : ∀ next, s.pc = .live next → Register.Knows eventView f.live.sent f.state
    ((s.written.drop delivered).foldl Browser.receive b).view next

/-- What holds of the feed, the browser and its connection. -/
structure Following (f : Feed CallView) (b : Browser) (stream : Option (Stream CallView))
    (delivered : Nat) : Prop where
  numbered : Numbered f
  counted : Counted f.log f.live
  pushing : f.pushing = []
  holds : Register.Holds eventView f.live.sent f.state
  browser : ∀ last, b.lastEventId = some last → last ≤ f.live.sent.length ∧
    Register.Knows eventView f.live.sent f.state b.view last
  stream : ∀ s, stream = some s → Fed f b delivered s

/-! ## A handler runs -/

/-- The feed after a handler that pushed an event and did what it tells. -/
def Feed.tell (f : Feed CallView) (atMs : Nat) (kind : EventKind) : Feed CallView :=
  { (f.append atMs kind).broadcast 0 (f.newEvent atMs kind) with state := kind.view.getD f.state }

theorem Counted.push {log : EventLog} {live : Broadcast Event} (h : Counted log live)
    (atMs : Nat) (kind : EventKind) :
    Counted (log.push atMs kind) (live.send ⟨log.nextSeq, atMs, kind⟩) := by
  have hnext := h.next
  refine ⟨fun i e hi => ?_, ?_⟩
  · rw [Broadcast.send_sent] at hi
    by_cases hlt : i < live.sent.length
    · rw [List.getElem?_append_left hlt] at hi
      exact h.place i e hi
    · rw [List.getElem?_append_right (Nat.le_of_not_lt hlt), List.getElem?_singleton] at hi
      split at hi
      · obtain rfl := Option.some.inj hi
        show log.nextSeq = i + 1
        omega
      · cases hi
  · rw [Broadcast.send_sent, List.length_append, EventLog.push_nextSeq, hnext]
    rfl

theorem Numbered.tell {f : Feed CallView} (h : Numbered f) (hpushing : f.pushing = [])
    (atMs : Nat) (kind : EventKind) : Numbered (f.tell atMs kind) := by
  have hfirst : (f.append atMs kind).pushing[0]? = some (f.newEvent atMs kind) := by
    show (f.pushing ++ [f.newEvent atMs kind])[0]? = _
    rw [hpushing]
    rfl
  have hsent := (h.append atMs kind).step (.broadcast hfirst)
  exact hsent.step (.change _)

theorem tell_length (f : Feed CallView) (atMs : Nat) (kind : EventKind) :
    f.live.sent.length ≤ (f.tell atMs kind).live.sent.length := by
  show _ ≤ (f.live.sent ++ [f.newEvent atMs kind]).length
  rw [List.length_append]
  omega

theorem Fed.tell {f : Feed CallView} {b : Browser} {delivered : Nat} {s : Stream CallView}
    (h : Fed f b delivered s) (atMs : Nat) (kind : EventKind) :
    Fed (f.tell atMs kind) b delivered s where
  placed := fun next hrec => Nat.le_trans (h.placed next hrec) (tell_length f atMs kind)
  bound := h.bound
  opening := h.opening
  asked := h.asked
  sound := h.sound.push (f.newEvent atMs kind)
  known := fun next hpc =>
    (h.known next hpc).push (h.placed next (by rw [hpc]; rfl)) (f.newEvent atMs kind)

theorem Following.tell {f : Feed CallView} {b : Browser} {stream : Option (Stream CallView)}
    {delivered : Nat} (h : Following f b stream delivered) (atMs : Nat) (kind : EventKind) :
    Following (f.tell atMs kind) b stream delivered where
  numbered := h.numbered.tell h.pushing atMs kind
  counted := h.counted.push atMs kind
  pushing := by
    show (f.pushing ++ [f.newEvent atMs kind]).eraseIdx 0 = []
    rw [h.pushing]
    rfl
  holds := h.holds.push (f.newEvent atMs kind)
  browser := fun last hlast => by
    obtain ⟨hle, hknows⟩ := h.browser last hlast
    exact ⟨Nat.le_trans hle (tell_length f atMs kind), hknows.push hle (f.newEvent atMs kind)⟩
  stream := fun s hs => (h.stream s hs).tell atMs kind

/-! ## The connection -/

section

variable {f : Feed CallView} {b : Browser} {delivered : Nat} {s s' : Stream CallView}

/-- A browser that has not connected yet was told nothing. -/
theorem Fed.connect (f : Feed CallView) (b : Browser) :
    Fed f b 0 (.connect (b.lastEventId.bind parseId)) where
  placed := nofun
  bound := Nat.le_refl _
  opening := fun _ => rfl
  asked := fun _ => rfl
  sound := trivial
  known := nofun

theorem todo_append {written messages : List (StreamMessage CallView)}
    (h : delivered ≤ written.length) :
    (written ++ messages).drop delivered = written.drop delivered ++ messages :=
  List.drop_append_of_le_length h

/-- One more message on its way. -/
theorem Fed.write {m : StreamMessage CallView} {pc : StreamPc} {next : Nat}
    (h : Fed f b delivered s) (hpc : pc = .live next) (hnext : next ≤ f.live.sent.length)
    (hid : m.id ≤ f.live.sent.length)
    (hknows : ∀ k, k = m.id ∨ k = next → Register.Knows eventView f.live.sent f.state
      (((s.written.drop delivered).foldl Browser.receive b).receive m).view k) :
    Fed f b delivered { s with pc, written := s.written ++ [m] } := by
  subst hpc
  refine ⟨?_, ?_, nofun, nofun, ?_, ?_⟩
  · intro next' hrec
    exact Option.some.inj hrec ▸ hnext
  · exact Nat.le_trans h.bound (List.length_append ▸ Nat.le_add_right _ _)
  · dsimp only
    rw [todo_append h.bound]
    exact h.sound.snoc hid (hknows m.id (.inl rfl))
  · intro next' hlive
    obtain rfl := StreamPc.live.inj hlive
    dsimp only
    rw [todo_append h.bound, List.foldl_append]
    exact hknows next (.inr rfl)

theorem Fed.serve (hf : Following f b (some s) delivered) (hs : Stream.Step f s s') :
    Fed f b delivered s' := by
  have h := hf.stream s rfl
  have hplaced := h.placed.step hs
  cases hs with
  | subscribe hpc =>
      have hopening : s.pc.opening := by rw [hpc]; trivial
      exact ⟨hplaced, h.bound, fun _ => h.opening hopening, fun _ => h.asked hopening, h.sound,
        nofun⟩
  | @replay next after missed hpc hid hrecent =>
      have hopening : s.pc.opening := by rw [hpc]; trivial
      have hnil := h.opening hopening
      have hasked := h.asked hopening
      rw [hid] at hasked
      obtain ⟨last, hlast, hparse⟩ := Option.bind_eq_some_iff.mp hasked.symm
      have hbound := h.bound
      rw [hnil, List.length_nil, Nat.le_zero] at hbound
      subst hbound
      obtain ⟨hle, hknows⟩ := hf.browser last hlast
      have hmissed : f.live.sent.drop last = missed := by
        rw [recent_eq_drop hf.numbered hf.counted hf.pushing hrecent, toNat_of_parseId hparse]
      obtain ⟨hsound, hknown⟩ := sound_replay hf.counted.place hf.holds hmissed hle hknows
      refine ⟨hplaced, Nat.zero_le _, False.elim, False.elim, ?_, ?_⟩
      · dsimp only
        rw [hnil]
        exact hsound
      · intro next' hlive
        dsimp only
        rw [hnil]
        exact hknown.mono (hplaced next' (by rw [hlive]; rfl))
  | gap hpc hrecent =>
      have hopening : s.pc.opening := by rw [hpc]; trivial
      exact ⟨hplaced, h.bound, fun _ => h.opening hopening, fun _ => h.asked hopening, h.sound,
        nofun⟩
  | @snapshot next hpc =>
      have hnext : next ≤ f.live.sent.length := by
        obtain hpc | hpc := hpc
        · exact h.placed next (by rw [hpc]; rfl)
        · exact h.placed next (by rw [hpc]; rfl)
      exact h.write rfl hnext (Nat.zero_le _) fun k _ => Register.knows_self _ _ k
  | @receive next e hpc hold hqueue =>
      have hget : f.live.sent[next]? = some e := by
        rw [← List.head?_drop]
        exact congrArg List.head? hqueue
      have hseq := hf.counted.place next e hget
      have hlt : next < f.live.sent.length := (List.getElem?_eq_some_iff.mp hget).1
      have hread := (h.known next hpc).read hf.holds hqueue
      refine h.write rfl hlt ?_ fun k hk => ?_
      · show e.seq ≤ f.live.sent.length
        omega
      · have hk' : k = next + 1 := hk.elim (fun hid => hid.trans hseq) id
        rw [Browser.receive_event_view, hk']
        exact hread
  | lag hpc hbehind =>
      exact ⟨hplaced, h.bound, False.elim, False.elim, h.sound, nofun⟩

/-- A message reaches the browser. -/
theorem Following.deliver {m : StreamMessage CallView} (hf : Following f b (some s) delivered)
    (hm : s.written[delivered]? = some m) :
    Following f (b.receive m) (some s) (delivered + 1) := by
  have h := hf.stream s rfl
  have hlt : delivered < s.written.length := (List.getElem?_eq_some_iff.mp hm).1
  have hdrop : s.written.drop delivered = m :: s.written.drop (delivered + 1) := by
    rw [List.drop_eq_getElem_cons hlt, (List.getElem?_eq_some_iff.mp hm).2]
  have hwriting : ¬ s.pc.opening := by
    intro hopening
    rw [h.opening hopening] at hlt
    cases hlt
  obtain ⟨hid, hknows, hrest⟩ : Sound f.live.sent f.state b (m :: s.written.drop (delivered + 1)) :=
    hdrop ▸ h.sound
  refine ⟨hf.numbered, hf.counted, hf.pushing, hf.holds, ?_, ?_⟩
  · intro last hlast
    rw [Browser.receive_lastEventId] at hlast
    obtain rfl := Option.some.inj hlast
    exact ⟨hid, hknows⟩
  · intro s' hs'
    obtain rfl := Option.some.inj hs'
    refine ⟨h.placed, hlt, fun ho => absurd ho hwriting, fun ho => absurd ho hwriting, hrest, ?_⟩
    intro next hpc
    have hknown := h.known next hpc
    rw [hdrop] at hknown
    exact hknown

end

/-! ## Every run -/

/-- What holds of the Agent with its browser. -/
structure Watching (p : Watched W) : Prop where
  consistent : p.agent.call.machine.Consistent
  following : Following p.feed p.browser p.stream p.delivered

/-- What a handler broadcast, when it pushed nothing. -/
theorem pushed_of_quiet {p : Watched W} (h : Numbered p.feed) {a : Agent W}
    (hevents : a.events = p.agent.events) : p.agent.pushed a = [] := by
  unfold Agent.pushed
  rw [hevents, List.filter_eq_nil_iff]
  intro e he
  have hlt := (h.below e (h.logged e he)).2
  exact fun hge => absurd (of_decide_eq_true hge) (Nat.not_le_of_lt hlt)

/-- And when it pushed one event. -/
theorem pushed_of_pushed {p : Watched W} (h : Numbered p.feed) {a : Agent W} {atMs : Nat}
    {kind : EventKind} (hevents : a.events = p.agent.events.push atMs kind) :
    p.agent.pushed a = [p.feed.newEvent atMs kind] := by
  obtain ⟨kept, hlog, hkept⟩ := push_events p.agent.events atMs kind
  have hsub : kept.Sublist p.agent.events.events := by
    obtain rfl | rfl := hkept
    · exact List.Sublist.refl _
    · exact List.tail_sublist _
  have hold : kept.filter (fun e => p.agent.events.nextSeq ≤ e.seq) = [] := by
    rw [List.filter_eq_nil_iff]
    intro e he
    have hlt := (h.below e (h.logged e (hsub.subset he))).2
    exact fun hge => absurd (of_decide_eq_true hge) (Nat.not_le_of_lt hlt)
  unfold Agent.pushed
  rw [hevents, hlog, List.filter_append, hold, List.nil_append]
  exact List.filter_cons_of_pos (decide_eq_true (Nat.le_refl _))

/-- A handler that told what it did leaves the feed as it was, or tells one event. -/
theorem feed_handled {p : Watched W} (h : Numbered p.feed) {a : Agent W}
    (htold : Told p.agent a) :
    (p.handled a).feed = p.feed ∨ ∃ atMs kind, (p.handled a).feed = p.feed.tell atMs kind := by
  unfold Watched.handled
  cases htold with
  | quiet hevents hview =>
      refine .inl ?_
      rw [pushed_of_quiet h hevents]
      show Feed.mk a.events p.live [] a.call.machine.view = p.feed
      rw [hevents, hview]
      rfl
  | pushed atMs kind hevents hview =>
      refine .inr ⟨atMs, kind, ?_⟩
      rw [pushed_of_pushed h hevents]
      show Feed.mk a.events (p.live.send (p.feed.newEvent atMs kind)) [] a.call.machine.view = _
      rw [hevents, hview]
      rfl

theorem Watching.handled {p : Watched W} (h : Watching p) {a : Agent W}
    (htold : Told p.agent a) : Watching (p.handled a) := by
  refine ⟨htold.consistent h.consistent, ?_⟩
  show Following (p.handled a).feed p.browser p.stream p.delivered
  obtain hfeed | ⟨atMs, kind, hfeed⟩ := feed_handled h.following.numbered htold
  · rw [hfeed]
    exact h.following
  · rw [hfeed]
    exact h.following.tell atMs kind

theorem Watching.start (wire : W) (peers : Peers) (cooldown : Nat) (policy : Bool)
    (history : MediaRing) (elevatorDoor : Option String) (liveCapacity : Nat) :
    Watching (.start (.new wire peers cooldown policy history elevatorDoor) liveCapacity) where
  consistent := CallMachine.consistent_withPolicy cooldown policy
  following := {
    numbered := Numbered.start 256 liveCapacity (CallMachine.withPolicy cooldown policy).view
    counted := ⟨nofun, rfl⟩
    pushing := rfl
    holds := Register.holds_nil _
    browser := nofun
    stream := nofun }

/-- A browser that has received all there is shows the call. -/
theorem Watching.view_of_drained {p : Watched W} (h : Watching p) (hdrained : p.Drained) :
    p.browser.view = p.agent.call.machine.view := by
  obtain ⟨s, hs, hdelivered, next, hnext, hqueue⟩ := hdrained
  have hpc : s.pc = .live next := by
    cases hpc : s.pc with
    | live next' =>
        rw [hpc] at hnext
        rw [Option.some.inj hnext]
    | request | subscribed | snapshot | lagged =>
        rw [hpc] at hnext
        cases hnext
  have hknown := (h.following.stream s hs).known next hpc
  rw [List.drop_eq_nil_of_le hdelivered] at hknown
  exact hknown.done (List.drop_eq_nil_iff.mp hqueue)

variable [Wire W]

/-- Every packet that a command builds is sent. -/
def SendsSucceed (p : Watched W) : WatchMove → Prop
  | .execute env action _ => SendSucceeds p.agent env action
  | _ => True

/-- Every claim and hangup that changes the call can build its packet. -/
def CommandsTell (p : Watched W) : WatchMove → Prop
  | .execute env action commandId => CanTell p.agent env action commandId
  | _ => True

instance (p : Watched W) : ∀ m, Decidable (SendsSucceed p m)
  | .execute env action _ => inferInstanceAs (Decidable (SendSucceeds p.agent env action))
  | .onWire .. | .background _ | .connect | .serve | .deliver | .cut => isTrue trivial

instance (p : Watched W) : ∀ m, Decidable (CommandsTell p m)
  | .execute env action commandId =>
      inferInstanceAs (Decidable (CanTell p.agent env action commandId))
  | .onWire .. | .background _ | .connect | .serve | .deliver | .cut => isTrue trivial

theorem Watching.step {p q : Watched W} {m : WatchMove} (h : Watching p)
    (hsends : SendsSucceed p m) (htells : CommandsTell p m)
    (hnext : (watchedSystem W).next p m = some q) : Watching q := by
  cases m with
  | onWire env side raw =>
      obtain rfl := Option.some.inj hnext
      exact h.handled (onWire_told h.consistent side raw)
  | execute env action commandId =>
      obtain rfl := Option.some.inj hnext
      exact h.handled (execute_told hsends htells)
  | background b =>
      obtain rfl := Option.some.inj hnext
      exact h.handled (background_told b)
  | connect =>
      cases hstream : p.stream with
      | none =>
          simp only [watchedSystem, Watched.next, hstream] at hnext
          obtain rfl := Option.some.inj hnext
          refine ⟨h.consistent, { h.following with stream := ?_ }⟩
          intro s hs
          obtain rfl := Option.some.inj hs
          exact Fed.connect p.feed p.browser
      | some s =>
          simp only [watchedSystem, Watched.next, hstream] at hnext
          cases hnext
  | serve =>
      obtain ⟨s, hs, hnext⟩ := Option.bind_eq_some_iff.mp hnext
      obtain ⟨s', hs', rfl⟩ := Option.map_eq_some_iff.mp hnext
      refine ⟨h.consistent, { h.following with stream := ?_ }⟩
      intro s'' hs''
      obtain rfl := Option.some.inj hs''
      exact Fed.serve (hs ▸ h.following) (Stream.step_cases hs')
  | deliver =>
      obtain ⟨s, hs, hnext⟩ := Option.bind_eq_some_iff.mp hnext
      obtain ⟨m, hm, rfl⟩ := Option.map_eq_some_iff.mp hnext
      refine ⟨h.consistent, ?_⟩
      show Following p.feed (p.browser.receive m) p.stream (p.delivered + 1)
      have hfollowing := h.following
      rw [hs] at hfollowing ⊢
      exact hfollowing.deliver hm
  | cut =>
      obtain ⟨s, hs, rfl⟩ := Option.map_eq_some_iff.mp hnext
      exact ⟨h.consistent, { h.following with stream := fun s hs => by cases hs }⟩

/-- The browser's picture comes to agree with the call. -/
theorem picture_converges (wire : W) (peers : Peers) (cooldown : Nat) (policy : Bool)
    (history : MediaRing) (elevatorDoor : Option String) (liveCapacity : Nat)
    {moves : List WatchMove} {q : Watched W}
    (hrun : (watchedSystem W).run
      (.start (.new wire peers cooldown policy history elevatorDoor) liveCapacity) moves = some q)
    (hsends : (watchedSystem W).Meets SendsSucceed
      (.start (.new wire peers cooldown policy history elevatorDoor) liveCapacity) moves)
    (htells : (watchedSystem W).Meets CommandsTell
      (.start (.new wire peers cooldown policy history elevatorDoor) liveCapacity) moves)
    (hdrained : q.Drained) : q.browser.view = q.agent.call.machine.view := by
  have hstart := Watching.start wire peers cooldown policy history elevatorDoor liveCapacity
  have hq : Watching q := System.run_induction_meets
    (fun p m q h hok hnext => Watching.step h hok.1 hok.2 hnext) hstart (hsends.and htells) hrun
  exact hq.view_of_drained hdrained

/-! ## Two runs -/

/-- The moves of a page that loads, and of one message that the server writes and it receives. -/
def loadPage : List WatchMove := [.connect, .serve, .serve, .serve, .deliver]

def nextMessage : List WatchMove := [.serve, .deliver]

/-- A ring with 20 bytes as the door's id that are not UTF-8: read as 20 replacement characters,
    they are too long for an endpoint block. -/
def strangeRing : Bytes :=
  packet familySession opRequest 254 (List.replicate 20 0xff ++ [192, 168, 124, 2] ++
    resize (asBytes "S00000000000") 20 ++ [192, 168, 124, 61] ++ sessionRequestCapability)

/-- An Agent that serves as the Pad and knows no door yet. -/
def newPadAgent : Agent UdpWire :=
  .new .bind ⟨Endpoints.captured.room, none, none, none, 10000⟩ 5000 false (.new 0 0) none

/-- A page is loaded, the door rings, the page is cut off and answers meanwhile, and then
    reconnects with the id of the ring. -/
theorem picture_after_cut : ∃ q, (watchedSystem UdpWire).run (.start newPadAgent 64)
    (.background (.noteSender ⟨.v4 ⟨192, 168, 124, 2⟩, 10000⟩) :: loadPage ++
      .onWire { } .door capturedRing :: nextMessage ++
      [.cut, .execute { } .claim "C1", .connect, .serve, .serve, .deliver]) = some q ∧
      q.browser.view = q.agent.call.machine.view := by
  let moves : List WatchMove :=
    .background (.noteSender ⟨.v4 ⟨192, 168, 124, 2⟩, 10000⟩) :: loadPage ++
      .onWire { } .door capturedRing :: nextMessage ++
      [.cut, .execute { } .claim "C1", .connect, .serve, .serve, .deliver]
  have hdrained : ∃ q ∈ (watchedSystem UdpWire).run (.start newPadAgent 64) moves, q.Drained := by
    decide +kernel
  have hsends : (watchedSystem UdpWire).Meets SendsSucceed (.start newPadAgent 64) moves := by
    decide +kernel
  have htells : (watchedSystem UdpWire).Meets CommandsTell (.start newPadAgent 64) moves := by
    decide +kernel
  obtain ⟨q, hmem, hq⟩ := hdrained
  have hrun : (watchedSystem UdpWire).run (.start newPadAgent 64) moves = some q := hmem
  refine ⟨q, hrun, ?_⟩
  exact picture_converges UdpWire.bind ⟨Endpoints.captured.room, none, none, none, 10000⟩ 5000 false
    (.new 0 0) none 64 hrun hsends htells hq

/-- The door rings with the strange id, and a claim answers the call, but cannot build its
    packet: a browser that has received all there is shows a call that rings. -/
theorem picture_stays_ringing : ∃ q, (watchedSystem UdpWire).run (.start newPadAgent 64)
    (.background (.noteSender ⟨.v4 ⟨192, 168, 124, 2⟩, 10000⟩) ::
      .onWire { } .door strangeRing :: loadPage ++ [.execute { } .claim "C1"]) = some q ∧
      (watchedSystem UdpWire).Meets SendsSucceed (.start newPadAgent 64)
        (.background (.noteSender ⟨.v4 ⟨192, 168, 124, 2⟩, 10000⟩) ::
          .onWire { } .door strangeRing :: loadPage ++ [.execute { } .claim "C1"]) ∧
      q.Drained ∧ q.browser.view = (.ringing, .none) ∧
      q.agent.call.machine.view = (.connected, .remote) := by
  have hend : ∃ q ∈ (watchedSystem UdpWire).run (.start newPadAgent 64)
      (.background (.noteSender ⟨.v4 ⟨192, 168, 124, 2⟩, 10000⟩) ::
        .onWire { } .door strangeRing :: loadPage ++ [.execute { } .claim "C1"]),
      q.Drained ∧ q.browser.view = (.ringing, .none) ∧
        q.agent.call.machine.view = (.connected, .remote) := by
    decide +kernel
  obtain ⟨q, hrun, hq⟩ := hend
  exact ⟨q, hrun, by decide +kernel, hq⟩

end Michoi
