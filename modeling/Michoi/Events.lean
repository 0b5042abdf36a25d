/-
  The event stream (`EventLog` of `agent_api.rs`, `events_stream` of `agent_server.rs`):
  one log with a live channel, any number of calls that push to it, and any number of
  connections that read from it.

  `push` is two atomic steps: under the lock it numbers and keeps the event, then it
  broadcasts it. A connection subscribes, then answers the client's last id from the log or
  else reads the Agent's state, and then hands on what it receives. The state that snapshots
  show may change at any time.

  Heartbeats, the retry hint and the comment for a client that missed nothing carry no id
  and no data, and are left out. A connection may end at any time: it takes no more steps.
-/
import Michoi.AgentApi
import Michoi.Lib.Broadcast
import Michoi.Lib.System

namespace Michoi

open Lib

/-! ## The log and its live channel -/

structure Feed (σ : Type) where
  log : EventLog
  live : Broadcast Event
  /-- The calls of `push` that have kept their event and are about to broadcast it. -/
  pushing : List Event
  /-- What `agent.state()` returns. -/
  state : σ
  deriving DecidableEq, Repr

namespace Feed

variable {σ : Type}

/-- The first step of `EventLog::push`, under the lock. -/
def append (f : Feed σ) (atMs : Nat) (kind : EventKind) : Feed σ :=
  { f with
    log := f.log.push atMs kind
    pushing := f.pushing ++ [{ seq := f.log.nextSeq, atMs, kind }] }

/-- The second step of `EventLog::push`, of the call at a place of `pushing`. -/
def broadcast (f : Feed σ) (i : Nat) (e : Event) : Feed σ :=
  { f with live := f.live.send e, pushing := f.pushing.eraseIdx i }

/-- Every event pushed so far. -/
def appended (f : Feed σ) : List Event := f.live.sent ++ f.pushing

end Feed

/-! ## One connection -/

/-- A message of the stream. -/
inductive StreamMessage (σ : Type) where
  | event (e : Event)
  | snapshot (state : σ)
  deriving DecidableEq, Repr

namespace StreamMessage

variable {σ : Type}

/-- The `id:` line of `sse_message`. -/
def id : StreamMessage σ → Nat
  | event e => e.seq
  | snapshot _ => 0

def isSnapshot : StreamMessage σ → Bool
  | event _ => false
  | snapshot _ => true

end StreamMessage

/-- Where a connection stands. From its subscription on it holds a receiver. -/
inductive StreamPc where
  | request
  | subscribed (next : Nat)
  | snapshot (next : Nat)
  | live (next : Nat)
  | lagged (next : Nat)
  deriving DecidableEq, Repr

structure Stream (σ : Type) where
  /-- The parsed `Last-Event-ID` of the request. -/
  lastEventId : Option UInt64
  pc : StreamPc
  /-- The messages written to the connection, oldest first. -/
  written : List (StreamMessage σ)
  deriving DecidableEq, Repr

/-- `v.trim().parse::<u64>().ok()` of a number. -/
def parseId (id : Nat) : Option UInt64 :=
  if id < UInt64.size then some (UInt64.ofNat id) else none

/-- What is parsed is the number. -/
theorem toNat_of_parseId {n : Nat} {id : UInt64} (h : parseId n = some id) : id.toNat = n := by
  unfold parseId at h
  split at h
  · next hn =>
      obtain rfl := Option.some.inj h
      exact Nat.mod_eq_of_lt hn
  · cases h

namespace Stream

variable {σ : Type}

/-- A connection whose request was read. -/
def connect (lastEventId : Option UInt64) : Stream σ where
  lastEventId := lastEventId
  pc := .request
  written := []

/-- The id that a client has who received these messages of the connection: the browser
    sends it as `Last-Event-ID` of its next request. -/
def clientId (s : Stream σ) (received : List (StreamMessage σ)) : Option UInt64 :=
  match received.getLast? with
  | some m => parseId m.id
  | none => s.lastEventId

/-- One step of `events_stream`; `none` while it waits for the channel. -/
def step (f : Feed σ) (s : Stream σ) : Option (Stream σ) :=
  match s.pc with
  | .request => some { s with pc := .subscribed f.live.subscribe }
  | .subscribed next =>
      match s.lastEventId.bind f.log.recent with
      | some missed => some { s with
          pc := .live next, written := s.written ++ missed.map .event }
      | none => some { s with pc := .snapshot next }
  | .snapshot next | .lagged next => some { s with
      pc := .live next, written := s.written ++ [.snapshot f.state] }
  | .live next =>
      match f.live.recv next with
      | (.value e, next) => some { s with
          pc := .live next, written := s.written ++ [.event e] }
      | (.lagged, next) => some { s with pc := .lagged next }
      | (.empty, _) => none

/-- The value the connection waits for is no longer there. -/
def lags (f : Feed σ) (s : Stream σ) : Bool :=
  match s.pc with
  | .live next => next < f.live.oldest
  | _ => false

/-- Everything one step can do. -/
inductive Step (f : Feed σ) (s : Stream σ) : Stream σ → Prop where
  | subscribe (hpc : s.pc = .request) : Step f s { s with pc := .subscribed f.live.subscribe }
  | replay {next : Nat} {after : UInt64} {missed : List Event} (hpc : s.pc = .subscribed next)
      (hid : s.lastEventId = some after) (hrecent : f.log.recent after = some missed) :
      Step f s { s with pc := .live next, written := s.written ++ missed.map .event }
  | gap {next : Nat} (hpc : s.pc = .subscribed next)
      (hrecent : s.lastEventId.bind f.log.recent = none) :
      Step f s { s with pc := .snapshot next }
  | snapshot {next : Nat} (hpc : s.pc = .snapshot next ∨ s.pc = .lagged next) :
      Step f s { s with pc := .live next, written := s.written ++ [.snapshot f.state] }
  | receive {next : Nat} {e : Event} (hpc : s.pc = .live next) (hold : f.live.oldest ≤ next)
      (hqueue : f.live.queue next = e :: f.live.queue (next + 1)) :
      Step f s { s with pc := .live (next + 1), written := s.written ++ [.event e] }
  | lag {next : Nat} (hpc : s.pc = .live next) (hlag : next < f.live.oldest) :
      Step f s { s with pc := .lagged f.live.oldest }

theorem step_cases {f : Feed σ} {s s' : Stream σ} (h : s.step f = some s') : Step f s s' := by
  unfold step at h
  split at h
  · next hpc => exact Option.some.inj h ▸ .subscribe hpc
  · next next hpc =>
      split at h
      · next missed hrecent =>
          obtain ⟨after, hid, hmissed⟩ := Option.bind_eq_some_iff.mp hrecent
          exact Option.some.inj h ▸ .replay hpc hid hmissed
      · next hrecent => exact Option.some.inj h ▸ .gap hpc hrecent
  · next next hpc => exact Option.some.inj h ▸ .snapshot (.inl hpc)
  · next next hpc => exact Option.some.inj h ▸ .snapshot (.inr hpc)
  · next next hpc =>
      obtain ⟨e, hrecv, hold, hqueue⟩ | ⟨hrecv, hlag⟩ | ⟨hrecv, -⟩ := f.live.recv_cases next
      · rw [hrecv] at h
        exact Option.some.inj h ▸ .receive hpc hold hqueue
      · rw [hrecv] at h
        exact Option.some.inj h ▸ .lag hpc hlag
      · rw [hrecv] at h
        cases h

end Stream

/-! ## All connections and pushes -/

structure Server (σ : Type) where
  feed : Feed σ
  streams : List (Stream σ)
  deriving DecidableEq, Repr

/-- One atomic step of a push or a connection, a new connection, or a change of the state. -/
inductive FeedMove (σ : Type) where
  | append (atMs : Nat) (kind : EventKind)
  | broadcast (i : Nat)
  | change (state : σ)
  | connect (lastEventId : Option UInt64)
  | stream (i : Nat)
  deriving DecidableEq, Repr

namespace Server

variable {σ : Type}

/-- `EventLog::new`, and nobody connected. -/
def start (capacity liveCapacity : Nat) (state : σ) : Server σ where
  feed := { log := .new capacity, live := .new liveCapacity, pushing := [], state }
  streams := []

def next (p : Server σ) : FeedMove σ → Option (Server σ)
  | .append atMs kind => some { p with feed := p.feed.append atMs kind }
  | .broadcast i => (p.feed.pushing[i]?).map fun e => { p with feed := p.feed.broadcast i e }
  | .change state => some { p with feed := { p.feed with state } }
  | .connect lastEventId => some { p with streams := p.streams ++ [.connect lastEventId] }
  | .stream i =>
      (p.streams[i]?).bind fun s =>
        (s.step p.feed).map fun s' => { p with streams := p.streams.set i s' }

end Server

/-- All interleavings. -/
def feedSystem (σ : Type) : System (Server σ) (FeedMove σ) where
  next := Server.next

variable {σ : Type}

/-- Everything a push or a change of the state does to the feed. -/
inductive FeedStep (f : Feed σ) : FeedMove σ → Feed σ → Prop where
  | append (atMs : Nat) (kind : EventKind) : FeedStep f (.append atMs kind) (f.append atMs kind)
  | broadcast {i : Nat} {e : Event} (he : f.pushing[i]? = some e) :
      FeedStep f (.broadcast i) (f.broadcast i e)
  | change (state : σ) : FeedStep f (.change state) { f with state }

/-- A move changes the feed, or the connections. -/
theorem server_cases {p q : Server σ} {m : FeedMove σ} (h : (feedSystem σ).next p m = some q) :
    (FeedStep p.feed m q.feed ∧ q.streams = p.streams) ∨
      (∃ lastEventId, m = .connect lastEventId ∧ q.feed = p.feed ∧
        q.streams = p.streams ++ [.connect lastEventId]) ∨
      ∃ i s s', m = .stream i ∧ p.streams[i]? = some s ∧ s.step p.feed = some s' ∧
        q.feed = p.feed ∧ q.streams = p.streams.set i s' := by
  cases m with
  | append atMs kind =>
      obtain rfl := Option.some.inj h
      exact .inl ⟨.append atMs kind, rfl⟩
  | broadcast i =>
      obtain ⟨e, he, rfl⟩ := Option.map_eq_some_iff.mp h
      exact .inl ⟨.broadcast he, rfl⟩
  | change state =>
      obtain rfl := Option.some.inj h
      exact .inl ⟨.change state, rfl⟩
  | connect lastEventId =>
      obtain rfl := Option.some.inj h
      exact .inr (.inl ⟨lastEventId, rfl, rfl, rfl⟩)
  | stream i =>
      obtain ⟨s, hs, h⟩ := Option.bind_eq_some_iff.mp h
      obtain ⟨s', hs', rfl⟩ := Option.map_eq_some_iff.mp h
      exact .inr (.inr ⟨i, s, s', rfl, hs, hs', rfl, rfl⟩)

end Michoi
