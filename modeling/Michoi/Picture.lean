/-
  The picture of the call that a browser Pad keeps (`pad.html`), next to the Agent.

  `Watched` is the Agent with the live channel of its event log, one browser and the event
  stream it is connected to. Each handler of the Agent is one step here, and so is each step
  of `events_stream`; what the server has written reaches the browser message by message. The
  connection may be cut at any point and with any messages still on the way; the browser then
  connects again with the last id it received.
-/
import Michoi.Events.Numbered
import Michoi.Lib.Register
import Michoi.Task.History

namespace Michoi

open Lib

/-- The phase and owner of a call, as `CallState` shows them. -/
abbrev CallView := CallPhase × Owner

/-! ## The browser -/

/-- The script's `state` as far as the call goes, and the `EventSource`'s last id. -/
structure Browser where
  phase : CallPhase
  owner : Owner
  lastEventId : Option Nat
  deriving DecidableEq, Repr

namespace Browser

/-- The page was just loaded. -/
def loaded : Browser where
  phase := .idle
  owner := .none
  lastEventId := none

def view (b : Browser) : CallView := (b.phase, b.owner)

/-- `applyState`. -/
def applyState (b : Browser) (s : CallView) : Browser := { b with phase := s.1, owner := s.2 }

/-- The listeners of `connectEvents`. -/
def listen (b : Browser) : StreamMessage CallView → Browser
  | .snapshot state => b.applyState state
  | .event e =>
      match e.kind with
      | .callStarted .. => { b with phase := .ringing, owner := .none }
      | .padAnswered _ => { b with phase := .connected, owner := .pad }
      | .remoteAnswered _ => { b with phase := .connected, owner := .remote }
      | .callEnded .. => { b with phase := .idle, owner := .none }
      | .unlocked .. | .monitorStarted _ | .monitorStopped .. | .elevatorCalled _ | .dialing _
      | .callConnected _ | .callHungUp .. => b

/-- One message: the `EventSource` notes its id. -/
def receive (b : Browser) (m : StreamMessage CallView) : Browser :=
  { b.listen m with lastEventId := some m.id }

@[simp] theorem receive_lastEventId (b : Browser) (m : StreamMessage CallView) :
    (b.receive m).lastEventId = some m.id := rfl

/-- The listeners set what the event tells. -/
theorem receive_event_view (b : Browser) (e : Event) :
    (b.receive (.event e)).view = Register.after (fun e => e.kind.view) b.view e := by
  obtain ⟨seq, atMs, kind⟩ := e
  cases kind <;> rfl

end Browser

/-! ## The Agent, its channel and the connection -/

/-- The receiver of a connection that hands on what it receives. -/
def StreamPc.reads : StreamPc → Option Nat
  | live next => some next
  | request | subscribed _ | snapshot _ | lagged _ => none

/-- What the handler broadcast that took the Agent from one state to the other. -/
def Agent.pushed {W : Type} (a a' : Agent W) : List Event :=
  a'.events.events.filter fun e => a.events.nextSeq ≤ e.seq

structure Watched (W : Type) where
  agent : Agent W
  live : Broadcast Event
  browser : Browser
  stream : Option (Stream CallView)
  /-- How many messages of the connection reached the browser. -/
  delivered : Nat

inductive WatchMove where
  | onWire (env : Env) (side : Side) (raw : Bytes)
  | execute (env : Env) (action : CallAction) (commandId : String)
  | background (b : Background)
  | connect
  | serve
  | deliver
  | cut

namespace Watched

variable {W : Type}

/-- An Agent and a browser that is not connected yet. -/
def start (a : Agent W) (liveCapacity : Nat) : Watched W where
  agent := a
  live := .new liveCapacity
  browser := .loaded
  stream := none
  delivered := 0

/-- What the connection reads. -/
def feed (p : Watched W) : Feed CallView where
  log := p.agent.events
  live := p.live
  pushing := []
  state := p.agent.call.machine.view

/-- A handler ran. -/
def handled (p : Watched W) (a : Agent W) : Watched W :=
  { p with agent := a, live := (p.agent.pushed a).foldl Broadcast.send p.live }

def next [Wire W] (p : Watched W) : WatchMove → Option (Watched W)
  | .onWire env side raw => some (p.handled (p.agent.onWire env side raw))
  | .execute env action commandId => some (p.handled (p.agent.execute env action commandId).2)
  | .background b => some (p.handled (b.act p.agent))
  | .connect =>
      match p.stream with
      | none => some { p with
          stream := some (.connect (p.browser.lastEventId.bind parseId)), delivered := 0 }
      | some _ => none
  | .serve =>
      p.stream.bind fun s => (s.step p.feed).map fun s => { p with stream := some s }
  | .deliver =>
      p.stream.bind fun s => (s.written[p.delivered]?).map fun m =>
        { p with browser := p.browser.receive m, delivered := p.delivered + 1 }
  | .cut => p.stream.map fun _ => { p with stream := none }

/-- The browser is connected and has received all there is. -/
def Drained (p : Watched W) : Prop :=
  ∃ s ∈ p.stream, s.written.length ≤ p.delivered ∧
    ∃ next ∈ s.pc.reads, p.live.queue next = []

instance (p : Watched W) : Decidable p.Drained :=
  inferInstanceAs (Decidable (∃ s ∈ p.stream, _))

end Watched

def watchedSystem (W : Type) [Wire W] : System (Watched W) WatchMove where
  next := Watched.next

end Michoi
