/-
  The event stream on the wire (`events_stream` of `agent_server.rs`), and the browser at the
  other end.

  `EventStream` is a connection of `Events.lean` with the chunks that it writes, heartbeats and
  hints among them; the texts of `serde_json` are parameters. The browser decodes the chunks
  and reads them with `EventSource`. `event_source_follows`: wherever the bytes break off, the
  browser has the first messages of the connection, and the id that it comes back with is the
  one the server resumes from.

  Left out: a request that does not accept event streams, which is answered before anything
  here, and a client that goes away, whose connection takes no more steps.
-/
import Michoi.AgentServer.Client
import Michoi.Events
import Michoi.Lib.EventSource
import Michoi.Lib.Refinement

namespace Michoi

open Lib

variable {σ : Type}

/-! ## What is written -/

/-- `EventKind::name`. -/
def EventKind.name : EventKind → String
  | callStarted .. => "call_started"
  | padAnswered _ => "pad_answered"
  | remoteAnswered _ => "remote_answered"
  | unlocked .. => "unlocked"
  | callEnded .. => "call_ended"
  | monitorStarted _ => "monitor_started"
  | monitorStopped .. => "monitor_stopped"
  | elevatorCalled _ => "elevator_called"
  | dialing _ => "dialing"
  | callConnected _ => "call_connected"
  | callHungUp .. => "call_hung_up"

/-- `sse_message`. -/
def sseMessage (id : Nat) (event data : String) : Bytes :=
  asBytes ("id: " ++ toString id ++ "\nevent: " ++ event ++ "\ndata: " ++ data ++ "\n\n")

/-- `serde_json::to_string` of an event, and of a snapshot at its time: control characters are
    escaped in it. -/
structure EventJson (σ : Type) where
  event : Event → String
  snapshot : Nat → σ → String
  event_oneLine : ∀ e, OneLine (asBytes (event e))
  snapshot_oneLine : ∀ now state, OneLine (asBytes (snapshot now state))

namespace StreamMessage

/-- The `event:` line of a message. -/
def name : StreamMessage σ → String
  | event e => e.kind.name
  | snapshot _ => "snapshot"

/-- The `data:` line, of a message made at a time. -/
def data (json : EventJson σ) (now : Nat) : StreamMessage σ → String
  | event e => json.event e
  | snapshot state => json.snapshot now state

def text (json : EventJson σ) (now : Nat) (m : StreamMessage σ) : Bytes :=
  sseMessage m.id m.name (m.data json now)

end StreamMessage

def resumedComment : Bytes := asBytes ": resumed\n\n"

def retryHint : Bytes := asBytes "retry: 1000\n\n"

def keepAliveComment : Bytes := asBytes ": keep-alive\n\n"

/-- The head of the response. -/
def eventsHead : Bytes :=
  asBytes ("HTTP/1.1 200 OK\r\nContent-Type: text/event-stream; charset=utf-8\r\n" ++
    "Cache-Control: no-cache\r\nTransfer-Encoding: chunked\r\nConnection: close\r\n\r\n")

/-! ## The connections -/

/-- A connection with what it writes. -/
structure EventStream (σ : Type) where
  stream : Stream σ
  /-- What `write_chunk` was called with. -/
  chunks : List Bytes
  /-- The zero chunk was written. -/
  ended : Bool
  deriving DecidableEq, Repr

namespace EventStream

def connect (lastEventId : Option UInt64) : EventStream σ := ⟨.connect lastEventId, [], false⟩

/-- What one step of `events_stream` writes. -/
def chunk (json : EventJson σ) (now : Nat) (f : Feed σ) (s : Stream σ) : List Bytes :=
  match s.pc with
  | .request => []
  | .subscribed _ =>
      match s.lastEventId.bind f.log.recent with
      | some missed =>
          let initial := missed.flatMap fun e => (StreamMessage.event e).text json now
          let initial := if initial = [] then resumedComment else initial
          [initial ++ retryHint]
      | none => []
  | .snapshot _ => [(StreamMessage.snapshot f.state).text json now ++ retryHint]
  | .lagged _ => [(StreamMessage.snapshot f.state).text json now]
  | .live next =>
      match f.live.recv next with
      | (.value e, _) => [(StreamMessage.event e).text json now]
      | _ => []

def step (json : EventJson σ) (now : Nat) (f : Feed σ) (c : EventStream σ) :
    Option (EventStream σ) :=
  if c.ended then none
  else (c.stream.step f).map fun s =>
    { c with stream := s, chunks := c.chunks ++ chunk json now f c.stream }

/-- In its loop, where a connection waits for the next event. -/
def waits (c : EventStream σ) : Bool :=
  match c.stream.pc with
  | .live _ => !c.ended
  | _ => false

/-- What is on the wire: the head is written before the client's id is looked up. -/
def bytes (c : EventStream σ) : Bytes :=
  match c.stream.pc with
  | .request => []
  | _ => eventsHead ++ (c.chunks.flatMap writeChunk ++ if c.ended then zeroChunk else [])

end EventStream

structure EventServer (σ : Type) where
  feed : Feed σ
  streams : List (EventStream σ)

/-- A move of the feed, or of one connection: a step, a heartbeat, or the end of its lifetime. -/
inductive EventMove (σ : Type) where
  | append (atMs : Nat) (kind : EventKind)
  | broadcast (i : Nat)
  | change (state : σ)
  | connect (lastEventId : Option UInt64)
  | stream (i now : Nat)
  | heartbeat (i : Nat)
  | deadline (i : Nat)

namespace EventServer

def start (capacity liveCapacity : Nat) (state : σ) : EventServer σ :=
  ⟨(Server.start capacity liveCapacity state).feed, []⟩

/-- One step of a connection. -/
def stepAt (p : EventServer σ) (i : Nat) (f : EventStream σ → Option (EventStream σ)) :
    Option (EventServer σ) :=
  (p.streams[i]?).bind fun c => (f c).map fun c' => { p with streams := p.streams.set i c' }

def next (json : EventJson σ) (p : EventServer σ) : EventMove σ → Option (EventServer σ)
  | .append atMs kind => some { p with feed := p.feed.append atMs kind }
  | .broadcast i => (p.feed.pushing[i]?).map fun e => { p with feed := p.feed.broadcast i e }
  | .change state => some { p with feed := { p.feed with state } }
  | .connect lastEventId => some { p with streams := p.streams ++ [.connect lastEventId] }
  | .stream i now => p.stepAt i (EventStream.step json now p.feed)
  | .heartbeat i => p.stepAt i fun c =>
      if c.waits then some { c with chunks := c.chunks ++ [keepAliveComment] } else none
  | .deadline i => p.stepAt i fun c => if c.waits then some { c with ended := true } else none

/-- The server without what it writes. -/
def server (p : EventServer σ) : Server σ := ⟨p.feed, p.streams.map EventStream.stream⟩

end EventServer

/-- All interleavings. -/
def eventSystem (json : EventJson σ) : System (EventServer σ) (EventMove σ) where
  next := EventServer.next json

/-! ## The browser -/

/-- An `EventSource` that connected with an id, after it got some bytes. -/
def readEvents (lastId got : Bytes) : EventSource :=
  (EventSource.start lastId).feedAll (decode (bodyOf got)).data

/-- `v.trim().parse::<u64>().ok()` of the header `Last-Event-ID`. -/
def lastEventIdOf (value : Bytes) : Option UInt64 :=
  (fromStrRadix 64 10 (trimChars (lossyChars 0 value))).map UInt64.ofNat

/-- What a listener makes of a message: its name, its text at some time, and its id. -/
def EventShown (json : EventJson σ) (e : SourceEvent) (m : StreamMessage σ) : Prop :=
  e.type = asBytes m.name ∧ e.lastId = asBytes (toString m.id) ∧
    ∃ now, e.data = asBytes (m.data json now)

/-! ## Texts are blocks -/

namespace StreamMessage

variable {json : EventJson σ} {now : Nat}

/-- A message as a block of the stream. -/
def block (json : EventJson σ) (now : Nat) (m : StreamMessage σ) : SourceBlock :=
  .message (asBytes (toString m.id)) (asBytes m.name) (asBytes (m.data json now))

theorem text_eq (m : StreamMessage σ) : m.text json now = (m.block json now).bytes := by
  have hid : asBytes "id: " = EventSource.idName ++ [EventSource.colon, EventSource.space] := by
    decide
  have hevent : asBytes "\nevent: " = [EventSource.lf] ++
      (EventSource.eventName ++ [EventSource.colon, EventSource.space]) := by decide
  have hdata : asBytes "\ndata: " = [EventSource.lf] ++
      (EventSource.dataName ++ [EventSource.colon, EventSource.space]) := by decide
  have hend : asBytes "\n\n" = [EventSource.lf] ++ [EventSource.lf] := by decide
  unfold text sseMessage
  rw [asBytes_append, asBytes_append, asBytes_append, asBytes_append, asBytes_append,
    asBytes_append, hid, hevent, hdata, hend]
  simp [block, SourceBlock.bytes, SourceBlock.lines, EventSource.blockBytes]

theorem plain_digits (n : Nat) :
    EventSource.Plain (asBytes (toString n)) ∧ 0 ∉ asBytes (toString n) := by
  have hbyte := visible_digits n
  refine ⟨fun b hb => ⟨?_, ?_⟩, fun h0 => absurd (hbyte 0 h0) (by decide)⟩
  · rintro rfl
    exact absurd (hbyte _ hb) (by decide)
  · rintro rfl
    exact absurd (hbyte _ hb) (by decide)

theorem plain_name (m : StreamMessage σ) :
    EventSource.Plain (asBytes m.name) ∧ asBytes m.name ≠ [] := by
  cases m with
  | event e => cases hk : e.kind <;> simp only [name, hk, EventKind.name] <;> decide
  | snapshot => simp only [name]; decide

theorem plain_data (m : StreamMessage σ) : EventSource.Plain (asBytes (m.data json now)) := by
  cases m with
  | event e => exact json.event_oneLine e
  | snapshot state => exact json.snapshot_oneLine now state

theorem wellFormed_block (m : StreamMessage σ) : (m.block json now).WellFormed :=
  ⟨plain_digits m.id, plain_name m, plain_data m⟩

theorem shown_block (m : StreamMessage σ) :
    List.Forall₂ (EventShown json) (m.block json now).events [m] :=
  .cons ⟨rfl, rfl, now, rfl⟩ .nil

end StreamMessage

theorem resumedComment_eq : resumedComment = (SourceBlock.comment (asBytes "resumed")).bytes := by
  decide

theorem keepAliveComment_eq :
    keepAliveComment = (SourceBlock.comment (asBytes "keep-alive")).bytes := by
  decide

theorem retryHint_eq : retryHint = (SourceBlock.hint (asBytes "1000")).bytes := by
  decide

/-! ## What a connection has written -/

/-- The chunks are these blocks, and their events are these messages. -/
structure Rendered (json : EventJson σ) (chunks : List Bytes) (blocks : List SourceBlock)
    (messages : List (StreamMessage σ)) : Prop where
  wellFormed : ∀ b ∈ blocks, b.WellFormed
  text : chunks.flatten = blocks.flatMap SourceBlock.bytes
  nonempty : ∀ data ∈ chunks, data ≠ []
  shown : List.Forall₂ (EventShown json) (blocks.flatMap SourceBlock.events) messages

namespace Rendered

variable {json : EventJson σ} {now : Nat}

theorem nil : Rendered json [] [] [] := ⟨nofun, rfl, nofun, .nil⟩

theorem append {chunks chunks' : List Bytes} {blocks blocks' : List SourceBlock}
    {messages messages' : List (StreamMessage σ)} (h : Rendered json chunks blocks messages)
    (h' : Rendered json chunks' blocks' messages') :
    Rendered json (chunks ++ chunks') (blocks ++ blocks') (messages ++ messages') where
  wellFormed := List.forall_mem_append.mpr ⟨h.wellFormed, h'.wellFormed⟩
  text := by rw [List.flatten_append, h.text, h'.text, List.flatMap_append]
  nonempty := List.forall_mem_append.mpr ⟨h.nonempty, h'.nonempty⟩
  shown := by
    rw [List.flatMap_append]
    exact List.rel_append h.shown h'.shown

/-- One chunk more. -/
theorem chunk {data : Bytes} {blocks : List SourceBlock} {messages : List (StreamMessage σ)}
    (hblocks : ∀ b ∈ blocks, b.WellFormed) (hdata : data = blocks.flatMap SourceBlock.bytes)
    (hne : blocks ≠ []) (hshown : List.Forall₂ (EventShown json)
      (blocks.flatMap SourceBlock.events) messages) : Rendered json [data] blocks messages where
  wellFormed := hblocks
  text := by rw [List.flatten_singleton, hdata]
  nonempty := by
    obtain ⟨b, rest, rfl⟩ := List.exists_cons_of_ne_nil hne
    rw [List.forall_mem_singleton, hdata]
    simp [SourceBlock.bytes, EventSource.blockBytes]
  shown := hshown

theorem comment {text : Bytes} (h : EventSource.Plain text) :
    Rendered json [(SourceBlock.comment text).bytes] [.comment text] [] :=
  chunk (List.forall_mem_singleton.mpr h) (List.flatMap_singleton ..).symm (by simp) .nil

theorem message (m : StreamMessage σ) :
    Rendered json [m.text json now] [m.block json now] [m] :=
  chunk (List.forall_mem_singleton.mpr m.wellFormed_block)
    (m.text_eq.trans (List.flatMap_singleton ..).symm) (by simp)
    ((List.flatMap_singleton ..).symm ▸ m.shown_block)

theorem hint : (SourceBlock.hint (asBytes "1000")).WellFormed := by
  change ∀ b ∈ asBytes "1000", EventSource.isDigit b = true
  exact List.all_eq_true.mp (by decide)

/-- The hint in the same chunk. -/
theorem withHint {data : Bytes} {blocks : List SourceBlock} {messages : List (StreamMessage σ)}
    (h : Rendered json [data] blocks messages) :
    Rendered json [data ++ retryHint] (blocks ++ [.hint (asBytes "1000")]) messages where
  wellFormed := List.forall_mem_append.mpr ⟨h.wellFormed, List.forall_mem_singleton.mpr hint⟩
  text := by
    have htext := h.text
    rw [List.flatten_singleton] at htext
    rw [List.flatten_singleton, htext, retryHint_eq, List.flatMap_append]
    rfl
  nonempty := by
    rw [List.forall_mem_singleton]
    exact List.append_ne_nil_of_right_ne_nil _ (by decide)
  shown := by
    rw [List.flatMap_append]
    exact (List.append_nil _).symm ▸ h.shown

/-- The messages of a replay. -/
theorem replay {missed : List Event} (hne : missed ≠ []) :
    Rendered json [missed.flatMap fun e => (StreamMessage.event e).text json now]
      (missed.map fun e => (StreamMessage.event e).block json now) (missed.map .event) := by
  refine chunk ?_ ?_ (by simpa using hne) ?_
  · rw [List.forall_mem_map]
    exact fun e _ => StreamMessage.wellFormed_block _
  · rw [List.flatMap_map]
    exact List.flatMap_congr fun e _ => StreamMessage.text_eq _
  · clear hne
    induction missed with
    | nil => exact .nil
    | cons e missed ih => exact List.rel_append (StreamMessage.shown_block _) ih

/-- The first chunk of a connection: its messages, or the comment that there are none, and the
    hint. -/
theorem opening (json : EventJson σ) (now : Nat) (missed : List Event) :
    ∃ blocks, Rendered json
      [(if missed.flatMap (fun e => (StreamMessage.event e).text json now) = [] then
          resumedComment
        else missed.flatMap fun e => (StreamMessage.event e).text json now) ++ retryHint]
      blocks (missed.map .event) := by
  cases missed with
  | nil =>
      have hresumed : (SourceBlock.comment (asBytes "resumed")).WellFormed := by
        change EventSource.Plain _
        decide
      exact ⟨_, resumedComment_eq ▸ (comment hresumed).withHint⟩
  | cons e missed =>
      have hsome : (e :: missed).flatMap
          (fun e => (StreamMessage.event e).text json now) ≠ [] := by
        simp [StreamMessage.text_eq, SourceBlock.bytes, EventSource.blockBytes]
      rw [if_neg hsome]
      exact ⟨_, (replay (List.cons_ne_nil e missed)).withHint⟩

end Rendered

/-- **What a step writes** is what it adds to the messages. -/
theorem rendered_of_step (json : EventJson σ) {f : Feed σ} {s s' : Stream σ}
    (h : s.step f = some s') (now : Nat) : ∃ blocks messages,
      Rendered json (EventStream.chunk json now f s) blocks messages ∧
        s'.written = s.written ++ messages := by
  have hnone : Rendered json [] [] ([] : List (StreamMessage σ)) := .nil
  unfold Stream.step at h
  unfold EventStream.chunk
  cases hpc : s.pc with
  | request =>
      rw [hpc] at h
      cases h
      exact ⟨[], [], hnone, (List.append_nil _).symm⟩
  | subscribed next =>
      rw [hpc] at h
      dsimp only at h ⊢
      cases hrecent : s.lastEventId.bind f.log.recent with
      | some missed =>
          rw [hrecent] at h
          cases h
          obtain ⟨blocks, hblocks⟩ := Rendered.opening json now missed
          exact ⟨blocks, _, hblocks, rfl⟩
      | none =>
          rw [hrecent] at h
          cases h
          exact ⟨[], [], hnone, (List.append_nil _).symm⟩
  | snapshot next =>
      rw [hpc] at h
      cases h
      have hmessage : Rendered json [(StreamMessage.snapshot f.state).text json now] _ _ :=
        .message _
      exact ⟨_, _, hmessage.withHint, rfl⟩
  | lagged next =>
      rw [hpc] at h
      cases h
      exact ⟨_, _, .message _, rfl⟩
  | live next =>
      rw [hpc] at h
      dsimp only at h ⊢
      obtain ⟨e, hrecv, -⟩ | ⟨hrecv, -⟩ | ⟨hrecv, -⟩ := f.live.recv_cases next
      all_goals
        rw [hrecv] at h ⊢
        cases h
      · exact ⟨_, _, .message _, rfl⟩
      · exact ⟨[], [], hnone, (List.append_nil _).symm⟩

/-- What holds of a connection: it has written nothing before its subscription. -/
structure EventStream.Faithful (json : EventJson σ) (c : EventStream σ) : Prop where
  rendered : ∃ blocks, Rendered json c.chunks blocks c.stream.written
  silent : c.stream.pc = .request → c.chunks = []

theorem EventStream.Faithful.step {json : EventJson σ} {f : Feed σ} {c c' : EventStream σ}
    {now : Nat} (h : c.Faithful json) (hs : c.step json now f = some c') :
    c'.Faithful json := by
  unfold EventStream.step at hs
  split at hs
  · cases hs
  · obtain ⟨s, hstep, rfl⟩ := Option.map_eq_some_iff.mp hs
    obtain ⟨blocks, hblocks⟩ := h.rendered
    obtain ⟨more, messages, hmore, hwritten⟩ := rendered_of_step json hstep now
    refine ⟨⟨blocks ++ more, ?_⟩, fun hpc => ?_⟩
    · exact hwritten ▸ hblocks.append hmore
    · -- No step leads back to the request.
      cases Stream.step_cases hstep <;> cases hpc

theorem EventStream.Faithful.heartbeat {json : EventJson σ} {c : EventStream σ}
    (h : c.Faithful json) (hwaits : c.waits = true) :
    ({ c with chunks := c.chunks ++ [keepAliveComment] } : EventStream σ).Faithful json := by
  obtain ⟨blocks, hblocks⟩ := h.rendered
  have hplain : EventSource.Plain (asBytes "keep-alive") := by decide
  have hmore := hblocks.append (keepAliveComment_eq ▸ Rendered.comment hplain)
  rw [List.append_nil] at hmore
  refine ⟨⟨_, hmore⟩, fun hpc => ?_⟩
  change c.stream.pc = .request at hpc
  unfold EventStream.waits at hwaits
  rw [hpc] at hwaits
  cases hwaits

namespace EventServer

variable {json : EventJson σ} {p q : EventServer σ} {m : EventMove σ}

theorem stepAt_cases {i : Nat} {f : EventStream σ → Option (EventStream σ)}
    (h : p.stepAt i f = some q) : ∃ c c', p.streams[i]? = some c ∧ f c = some c' ∧
      q = { p with streams := p.streams.set i c' } := by
  obtain ⟨c, hc, h⟩ := Option.bind_eq_some_iff.mp h
  obtain ⟨c', hc', rfl⟩ := Option.map_eq_some_iff.mp h
  exact ⟨c, c', hc, hc', rfl⟩

/-- A connection steps, sends a heartbeat, or comes to its end. -/
inductive StreamStep (json : EventJson σ) (f : Feed σ) (c : EventStream σ) :
    EventStream σ → Prop where
  | step {now c'} (h : c.step json now f = some c') : StreamStep json f c c'
  | heartbeat (h : c.waits = true) :
      StreamStep json f c { c with chunks := c.chunks ++ [keepAliveComment] }
  | deadline (h : c.waits = true) : StreamStep json f c { c with ended := true }

/-- A move changes the feed, or one connection. -/
theorem next_cases (h : (eventSystem json).next p m = some q) :
    (∃ f m', q = { p with feed := f } ∧
        ∀ streams, (feedSystem σ).next ⟨p.feed, streams⟩ m' = some ⟨f, streams⟩) ∨
      (∃ lastEventId, q = { p with streams := p.streams ++ [.connect lastEventId] }) ∨
      ∃ i c c', p.streams[i]? = some c ∧ StreamStep json p.feed c c' ∧
        q = { p with streams := p.streams.set i c' } := by
  cases m with
  | append atMs kind => cases h; exact .inl ⟨_, .append atMs kind, rfl, fun _ => rfl⟩
  | broadcast i =>
      obtain ⟨e, he, rfl⟩ := Option.map_eq_some_iff.mp h
      refine .inl ⟨_, .broadcast i, rfl, fun streams => ?_⟩
      change (p.feed.pushing[i]?).map _ = _
      rw [he]
      rfl
  | change state => cases h; exact .inl ⟨_, .change state, rfl, fun _ => rfl⟩
  | connect lastEventId => cases h; exact .inr (.inl ⟨lastEventId, rfl⟩)
  | stream i now =>
      obtain ⟨c, c', hc, hc', rfl⟩ := stepAt_cases h
      exact .inr (.inr ⟨i, c, c', hc, .step hc', rfl⟩)
  | heartbeat i =>
      obtain ⟨c, c', hc, hc', rfl⟩ := stepAt_cases h
      split at hc'
      · next hwaits => cases hc'; exact .inr (.inr ⟨i, c, _, hc, .heartbeat hwaits, rfl⟩)
      · cases hc'
  | deadline i =>
      obtain ⟨c, c', hc, hc', rfl⟩ := stepAt_cases h
      split at hc'
      · next hwaits => cases hc'; exact .inr (.inr ⟨i, c, _, hc, .deadline hwaits, rfl⟩)
      · cases hc'

theorem faithful_of_streamStep {f : Feed σ} {c c' : EventStream σ} (h : c.Faithful json)
    (hs : StreamStep json f c c') : c'.Faithful json := by
  cases hs with
  | step hs => exact h.step hs
  | heartbeat hwaits => exact h.heartbeat hwaits
  | deadline => exact ⟨h.rendered, h.silent⟩

/-- Every connection of a run is faithful. -/
theorem faithful_run {capacity liveCapacity : Nat} {state : σ} {moves : List (EventMove σ)}
    (hrun : (eventSystem json).run (.start capacity liveCapacity state) moves = some q) :
    ∀ c ∈ q.streams, c.Faithful json := by
  refine System.run_induction (P := fun p => ∀ c ∈ p.streams, c.Faithful json)
    (fun p m q hp hq => ?_) (fun _ h => absurd h List.not_mem_nil) hrun
  rcases next_cases hq with ⟨f, m', rfl, -⟩ | ⟨lastEventId, rfl⟩ | ⟨i, c, c', hc, hs, rfl⟩
  · exact hp
  · exact List.forall_mem_append.mpr
      ⟨hp, List.forall_mem_singleton.mpr ⟨⟨[], .nil⟩, fun _ => rfl⟩⟩
  · intro d hd
    rcases List.mem_or_eq_of_mem_set hd with hd | rfl
    · exact hp d hd
    · exact faithful_of_streamStep (hp c (List.mem_of_getElem? hc)) hs

/-- **Without its bytes it is the server of the feed**: heartbeats and ends show only on the
    wire. -/
theorem refines_feed : System.Refines (eventSystem json) (fun _ => True) (fun _ => True)
    server fun p q => ∃ m, (feedSystem σ).next p m = some q where
  keeps _ _ _ _ _ _ := trivial
  step p m q _ _ hq := by
    rcases next_cases hq with ⟨f, m', rfl, hm⟩ | ⟨lastEventId, rfl⟩ | ⟨i, c, c', hc, hs, rfl⟩
    · exact .inr ⟨m', hm _⟩
    · refine .inr ⟨.connect lastEventId, ?_⟩
      unfold server
      rw [List.map_append]
      rfl
    · have hsame (hstream : c'.stream = c.stream) :
          server { p with streams := p.streams.set i c' } = server p := by
        have hat : (p.streams.map EventStream.stream)[i]? = some c.stream := by
          rw [List.getElem?_map, hc, Option.map_some]
        obtain ⟨hi, heq⟩ := List.getElem?_eq_some_iff.mp hat
        unfold server
        rw [List.map_set, hstream, ← heq, List.set_getElem_self]
      cases hs with
      | step hs =>
          unfold EventStream.step at hs
          split at hs
          · cases hs
          · obtain ⟨s, hstep, rfl⟩ := Option.map_eq_some_iff.mp hs
            refine .inr ⟨.stream i, ?_⟩
            change ((server p).streams[i]?).bind _ = _
            unfold server
            rw [List.getElem?_map, hc, Option.map_some, Option.bind_some, hstep, List.map_set]
            rfl
      | heartbeat | deadline => exact .inl (hsame rfl)

end EventServer

/-! ## What the browser has -/

theorem eventsHead_ends : EndsFirst [cr, lf, cr, lf] eventsHead := by
  let lines := ["HTTP/1.1 200 OK", "Content-Type: text/event-stream; charset=utf-8",
    "Cache-Control: no-cache", "Transfer-Encoding: chunked", "Connection: close"].map asBytes
  have hlines : eventsHead = headLines cr lf lines ++ [cr, lf] := by decide +kernel
  have hplain : ∀ line ∈ lines, cr ∉ line ∧ line ≠ [] := by decide +kernel
  rw [hlines]
  exact endsFirst_lines (by decide) hplain (by decide)

/-- The end of a body, or none, has no data. -/
theorem decodeLoop_end (ended : Bool) (n : Nat) (got : Bytes)
    (h : got <+: if ended then zeroChunk else []) : (decodeLoop n got).data = [] := by
  cases n with
  | zero => rfl
  | succ n =>
      cases ended with
      | false => rw [List.prefix_nil.mp h, decodeLoop_nil]
      | true =>
          have hzero : zeroChunk = asBytes "0" ++ crlf ++ crlf := by decide
          have hsize : digitsValue 16 0 "0".toList = some 0 := by decide
          rw [if_pos rfl, hzero] at h
          by_cases hline : asBytes "0" ++ crlf <+: got
          · obtain ⟨more, rfl⟩ := hline
            rw [decodeLoop, decodeSize_line (by decide) hsize]
            rfl
          · have hpart : got <+: asBytes "0" ++ crlf :=
              (List.prefix_or_prefix_of_prefix h (List.prefix_append ..)).resolve_right hline
            have hne : got ≠ asBytes "0" ++ crlf := fun heq => hline (heq ▸ List.prefix_rfl)
            rw [decodeLoop, decodeSize_part hsize hpart hne]

namespace EventStream.Faithful

variable {json : EventJson σ} {c : EventStream σ} {got : Bytes}

theorem data_prefix (h : c.Faithful json) (hgot : got <+: c.bytes) :
    (decode (bodyOf got)).data <+: c.chunks.flatten ∧
      (got = c.bytes → (decode (bodyOf got)).data = c.chunks.flatten) := by
  obtain ⟨blocks, hblocks⟩ := h.rendered
  unfold EventStream.bytes at hgot ⊢
  split at hgot
  · next hpc =>
      obtain rfl := List.prefix_nil.mp hgot
      rw [h.silent hpc]
      exact ⟨List.prefix_rfl, fun _ => rfl⟩
  · obtain ⟨hbody, hall⟩ := bodyOf_prefix eventsHead_ends hgot
    refine ⟨decodeLoop_of_part hblocks.nonempty (decodeLoop_end c.ended) _ hbody, fun heq => ?_⟩
    obtain ⟨n, hdecode⟩ := decode_writeChunks hblocks.nonempty (if c.ended then zeroChunk else [])
    rw [hall heq, hdecode, decodeLoop_end c.ended (n + 1) _ List.prefix_rfl, List.append_nil]

end EventStream.Faithful

/-- The id that the server wrote is the id that it parses. -/
theorem lastEventIdOf_toString (n : Nat) : lastEventIdOf (asBytes (toString n)) = parseId n := by
  have hvisible : ∀ ch ∈ (toString n).toList, isWhitespace ch = false := fun ch hch =>
    not_isWhitespace_of_isVisible
      (isVisible_of_toDigit (toDigit_of_digitsValue (digitsValue_toString n) ch hch))
  unfold lastEventIdOf
  rw [lossyChars_asBytes, trimChars_eq (toString_ne_nil n) hvisible,
    fromStrRadix_eq (toString_ne_nil n) (digitsValue_toString n)]
  change Option.map UInt64.ofNat (if n < 2 ^ 64 then some n else none) =
    if n < 2 ^ 64 then some (UInt64.ofNat n) else none
  by_cases hn : n < 2 ^ 64
  · rw [if_pos hn, if_pos hn, Option.map_some]
  · rw [if_neg hn, if_neg hn, Option.map_none]

/-- The last id of what was handed on. -/
theorem lastId_of_shown {json : EventJson σ} {events : List SourceEvent}
    {received : List (StreamMessage σ)} (h : List.Forall₂ (EventShown json) events received)
    {s : Stream σ} {lastId : Bytes} (hid : lastEventIdOf lastId = s.lastEventId) :
    lastEventIdOf ((events.getLast?.map SourceEvent.lastId).getD lastId) =
      s.clientId received := by
  unfold Stream.clientId
  have hlast : Option.Rel (EventShown json) events.getLast? received.getLast? := by
    have hreverse := List.rel_reverse h
    rw [← List.head?_reverse, ← List.head?_reverse]
    generalize events.reverse = es at hreverse ⊢
    generalize received.reverse = ms at hreverse ⊢
    cases hreverse with
    | nil => exact .none
    | cons hfirst => exact .some hfirst
  generalize events.getLast? = e at hlast ⊢
  generalize received.getLast? = m at hlast ⊢
  cases hlast with
  | none => exact hid
  | some hshown =>
      rw [Option.map_some, Option.getD_some, hshown.2.1]
      exact lastEventIdOf_toString _

/-- **The browser follows the event stream**, in every interleaving of the feed and all its
    connections, and wherever the bytes of its connection break off: it has the first messages
    that the connection wrote, all of them when all bytes came, and the id with which it comes
    back is the one that the server takes for the last of them. -/
theorem event_source_follows (json : EventJson σ) (capacity liveCapacity : Nat) (state : σ)
    {moves : List (EventMove σ)} {q : EventServer σ}
    (hrun : (eventSystem json).run (.start capacity liveCapacity state) moves = some q)
    {c : EventStream σ} (hc : c ∈ q.streams) {lastId : Bytes}
    (hid : lastEventIdOf lastId = c.stream.lastEventId) {got : Bytes} (hgot : got <+: c.bytes) :
    (feedSystem σ).Reaches (.start capacity liveCapacity state) q.server ∧
      ∃ received, received <+: c.stream.written ∧
        List.Forall₂ (EventShown json) (readEvents lastId got).events received ∧
        lastEventIdOf (readEvents lastId got).lastId = c.stream.clientId received ∧
        (got = c.bytes → received = c.stream.written) := by
  refine ⟨System.run_refines_reaches EventServer.refines_feed trivial (fun _ _ => trivial) hrun,
    ?_⟩
  have hfaithful := EventServer.faithful_run hrun c hc
  obtain ⟨blocks, hblocks⟩ := hfaithful.rendered
  obtain ⟨hdata, hall⟩ := hfaithful.data_prefix hgot
  rw [hblocks.text] at hdata hall
  obtain ⟨whole, hwhole, hevents, hlast, hwholeAll⟩ :=
    (EventSource.Rests.start lastId).feedAll_of_part hblocks.wellFormed hdata
  obtain ⟨rest, rfl⟩ := hwhole
  have hshown := hblocks.shown
  rw [List.flatMap_append] at hshown
  -- The messages of the blocks that came in whole.
  have hreceived := List.forall₂_take (whole.flatMap SourceBlock.events).length hshown
  rw [List.take_left] at hreceived
  refine ⟨c.stream.written.take (whole.flatMap SourceBlock.events).length,
    List.take_prefix _ _, ?_, ?_, fun heq => ?_⟩
  · exact hevents ▸ hreceived
  · have hid' := lastId_of_shown hreceived hid
    rw [← SourceBlock.foldl_lastId] at hid'
    exact hlast ▸ hid'
  · have hrest : rest = [] := List.self_eq_append_right.mp (hwholeAll (hall heq))
    rw [hrest, List.flatMap_nil, List.append_nil] at hshown
    rw [hshown.length_eq, List.take_length]

/-- The text of one event, for all events. -/
def dialingText : String :=
  "\x7b\"seq\":1,\"at_ms\":0,\"type\":\"dialing\",\"callee_id\":\"S1\"\x7d"

def dialingJson : EventJson Unit where
  event _ := dialingText
  snapshot _ _ := dialingText
  event_oneLine _ := by decide +kernel
  snapshot_oneLine _ _ := by decide +kernel

/-- A client comes back with the id of its snapshot. -/
def dialingFollowed : List (EventMove Unit) := [.append 0 (.dialing "S1"), .broadcast 0,
  .connect (some 0), .stream 0 7, .stream 0 7, .heartbeat 0]

/-- It gets the event after it. -/
theorem dialing_followed : ∃ (q : EventServer Unit) (c : EventStream Unit),
    (eventSystem dialingJson).run (.start 256 64 ()) dialingFollowed = some q ∧ c ∈ q.streams ∧
      List.Forall₂ (EventShown dialingJson) (readEvents (asBytes "0") c.bytes).events
        [.event ⟨1, 0, .dialing "S1"⟩] ∧
      lastEventIdOf (readEvents (asBytes "0") c.bytes).lastId = some 1 := by
  have hend : ((eventSystem dialingJson).run (.start 256 64 ()) dialingFollowed).map
      (fun q => q.streams.map EventStream.stream) =
        some [⟨some 0, .live 1, [.event ⟨1, 0, .dialing "S1"⟩]⟩] := by
    decide +kernel
  obtain ⟨q, hrun, hq⟩ := Option.map_eq_some_iff.mp hend
  obtain ⟨c, rest, hstreams, hc, -⟩ := List.map_eq_cons_iff.mp hq
  have hmem : c ∈ q.streams := hstreams ▸ List.mem_cons_self
  have hid : lastEventIdOf (asBytes "0") = c.stream.lastEventId := by
    rw [hc]
    decide
  obtain ⟨-, received, -, hshown, hlast, hall⟩ :=
    event_source_follows dialingJson 256 64 () hrun hmem hid List.prefix_rfl
  rw [hall rfl, hc] at hshown hlast
  exact ⟨q, c, hrun, hmem, hshown, hlast⟩

end Michoi
