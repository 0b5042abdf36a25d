/-
  The Agent under concurrency: HTTP tasks execute commands while the receive loop of the
  wire hands on messages.

  A handler is a program counter that carries the handler's local variables. Each step is
  one atomic piece of the source: a region under a lock, a call of the wire, an event
  push, an await, or a check between two of them. `agentProgram` puts any number of
  handlers over one Agent. There is one receive loop, so a message is handled when the
  one before it is done.

  The media buffers are written by the receive loop only, so feeding them is one step.
-/
import Michoi.Agent
import Michoi.Lib.Pool

namespace Michoi

open Lib

/-! ## Commands -/

/-- Where an `execute` call stands. -/
inductive CommandPc where
  | lookup
  | readPeers
  | readSession (peers : Peers)
  | transition (peers : Peers) (session : String)
  | send (peers : Peers) (event : EventKind) (packet : Bytes)
  | notify (peers : Peers) (event : EventKind)
  | publish (event : EventKind)
  | store (result : CommandResult)
  | done (result : CommandResult)
  deriving DecidableEq, Repr

/-- Where a `call_elevator_now` call stands. -/
inductive ElevatorPc where
  | lookup
  | readRoom
  | locate (roomId : String)
  | register (roomId : String) (ip : Ipv4Addr)
  | fire (roomId : String) (ip : Ipv4Addr) (waiter : Nat)
  | await (roomId : String) (waiter : Nat)
  | publish (roomId : String)
  | store (result : CommandResult)
  | done (result : CommandResult)
  | panicked
  deriving DecidableEq, Repr

/-- Where an `on_wire` call stands. -/
inductive WirePc where
  | received (side : Side) (raw : Bytes)
  | bootstrap
  | bootstrapReply (reply : Bytes) (peers : Peers)
  | feed (media : MediaFragment)
  | stopMonitor
  | outboundCheck (side : Side) (message : Message)
  | outboundAnswered
  | outboundHangup
  | wakeElevator
  | accept (side : Side) (message : Message) (e : Endpoints)
  | ringReply (reply : Bytes) (peers : Peers) (e : Endpoints)
  | ringStart (e : Endpoints)
  | padAnswer
  | padUnlock
  | hangup (peers : Peers)
  | callEnd (peers : Peers) (event : EventKind)
  | publish (event : EventKind)
  | done
  deriving DecidableEq, Repr

/-- A handler that was called. -/
inductive Task where
  | command (action : CallAction) (commandId : String) (pc : CommandPc)
  | elevator (commandId : String) (room : Option String) (pc : ElevatorPc)
  | wire (pc : WirePc)
  deriving DecidableEq, Repr

variable {W : Type} [Wire W]

/-- One step of `execute`. -/
def commandStep (env : Env) (a : Agent W) (action : CallAction) (commandId : String) :
    CommandPc → Option (Agent W × CommandPc)
  | .lookup =>
      match a.commands.get commandId with
      | some replayed => some (a, .done replayed)
      | none => some (a, .readPeers)
  | .readPeers => some (a, .readSession a.peers)
  | .readSession peers => some (a, .transition peers a.sessionString)
  | .transition peers session =>
      match a.build env action peers session with
      | (.ok (event, packet), a) => some (a, .send peers event packet)
      | (.error error, a) => some (a, .store (.rejected commandId error))
  | .send peers event packet =>
      match a.sendAsPad env packet peers with
      | (.ok (), a) => some (a, .notify peers event)
      | (.error _, a) => some (a, .store (.rejected commandId .agentOffline))
  | .notify peers event => some (a.notify env action peers, .publish event)
  | .publish event => some (a.publish env event, .store (.accepted commandId))
  | .store result => some (a.store result, .done result)
  | .done _ => none

/-- The room whose floor the elevator is to serve; `none` where the expansion panics. -/
def elevatorRoom (local_ : String) (room : Option String) : Option String :=
  match room with
  | none => some local_
  | some r => if (trim r).isEmpty then some local_ else expandStationNumber local_ (trim r)

/-- Where the elevator's door is: the configured one by discovery, else the learned door. -/
def elevatorDoorIp (env : Env) (a : Agent W) : Option Ipv4Addr :=
  match a.elevatorDoor with
  | some _ => env.resolved
  | none => (a.peers.door.map Station.ip).filter fun ip => !ip.isUnspecified

/-- `send_elevator`: binding and connecting come before the encoding, and every failure is
    the same to the caller. -/
def sendElevator (env : Env) (roomId : String) : Bool :=
  env.elevatorSent && (elevatorRequest roomId).toBool

/-- One step of `call_elevator_now`. -/
def elevatorStep (env : Env) (a : Agent W) (commandId : String) (room : Option String) :
    ElevatorPc → Option (Agent W × ElevatorPc)
  | .lookup =>
      match a.commands.get commandId with
      | some replayed => some (a, .done replayed)
      | none => some (a, .readRoom)
  | .readRoom =>
      match elevatorRoom a.peers.room.id room with
      | some roomId => some (a, .locate roomId)
      | none => some (a, .panicked)
  | .locate roomId =>
      match elevatorDoorIp env a with
      | none => some (a, .store (.rejected commandId .noCall))
      | some ip => some (a, .register roomId ip)
  | .register roomId ip =>
      some ({ a with
        elevatorAcks := a.elevatorAcks ++ [a.nextWaiter]
        nextWaiter := a.nextWaiter + 1 }, .fire roomId ip a.nextWaiter)
  | .fire roomId _ waiter =>
      if sendElevator env roomId then some (a, .await roomId waiter)
      else some (a, .store (.rejected commandId .agentOffline))
  | .await roomId waiter =>
      if waiter ∈ a.elevatorAcked then some (a, .publish roomId)
      else if env.timedOut then some (a, .store (.rejected commandId .agentOffline))
      else none
  | .publish roomId => some (a.publish env (.elevatorCalled roomId), .store (.accepted commandId))
  | .store result => some (a.store result, .done result)
  | .done _ => none
  | .panicked => none

/-! ## Messages from the wire -/

namespace WirePc

/-- A media message goes on to the buffers if it holds a fragment. -/
def media (message : Message) : WirePc :=
  match message.media with
  | some media => .feed media
  | none => .done

/-- After the bootstrap check: the monitor takes the session-like messages. -/
def route (monitoring : Bool) (side : Side) (message : Message) : WirePc :=
  if monitoring && message.isSessionLike then
    if message.opcode = opMedia then media message
    else if message.opcode = opHangup then .stopMonitor
    else .done
  else .outboundCheck side message

/-- After the monitor: an outbound call takes them, then come the elevator and the call. -/
def routeCall (calling : Bool) (side : Side) (message : Message) : WirePc :=
  if calling && message.isSessionLike then
    if message.opcode = opAnswer then .outboundAnswered
    else if message.opcode = opMedia then media message
    else if message.opcode = opHangup then .outboundHangup
    else .done
  else if message.family = familyElevator ∧ message.opcode ≠ opRequest then .wakeElevator
  else if message.family ≠ familySession then .done
  else
    match message.endpoints with
    | none => .done
    | some e => .accept side message e

/-- What an accepted session message does. -/
def session (side : Side) (message : Message) (e : Endpoints) (peers : Peers) : WirePc :=
  if message.opcode = opRequest ∧ side = .door then
    match sessionReply e with
    | .ok reply => .ringReply reply peers e
    | .error _ => .ringStart e
  else if message.opcode = opAnswer ∧ side = .pad then .padAnswer
  else if message.opcode = opUnlock ∧ side = .pad then .padUnlock
  else if message.opcode = opHangup then .hangup peers
  else if message.opcode = opMedia ∧ side = .door then media message
  else .done

end WirePc

/-- One step of `on_wire`. -/
def wireStep (env : Env) (a : Agent W) : WirePc → Option (Agent W × WirePc)
  | .received side raw =>
      match Message.parse raw with
      | .error _ => some (a, .done)
      | .ok message =>
          if message.family = familyBootstrap ∧ message.opcode = opRequest then
            some (a, if side = .door then .bootstrap else .done)
          else some (a, .route a.monitor.isSome side message)
  | .bootstrap =>
      match bootstrapReply a.peers.room with
      | .ok reply => some (a, .bootstrapReply reply a.peers)
      | .error _ => some (a, .done)
  | .bootstrapReply reply peers => some (a.handshakeReply env reply peers, .done)
  | .feed media => some (a.feed env media, .done)
  | .stopMonitor => some (a.stopMonitorNow, .done)
  | .outboundCheck side message => some (a, .routeCall a.callSession.isSome side message)
  | .outboundAnswered => some (a.outboundAnswered env, .done)
  | .outboundHangup =>
      match a.takeCallSession with
      | (none, a) => some (a, .done)
      | (some callee, a) => some (a, .publish (.callHungUp callee.id "callee_hangup"))
  | .wakeElevator => some (a.wakeElevator, .done)
  | .accept side message e =>
      match a.acceptEndpoints e with
      | (none, a) => some (a, .done)
      | (some peers, a) => some (a, .session side message e peers)
  | .ringReply reply peers e => some (a.handshakeReply env reply peers, .ringStart e)
  | .ringStart e =>
      match a.call.started env with
      | (none, call) => some (a.withCall call, .done)
      | (some id, call) =>
          some (a.withCall call, .publish (.callStarted (toString id) e.door.id e.room.id))
  | .padAnswer =>
      match a.call.padAnswered env with
      | ((true, id), call) => some (a.withCall call, .publish (.padAnswered (toString id)))
      | ((false, _), call) => some (a.withCall call, .done)
  | .padUnlock =>
      match a.call.padUnlocked with
      | (true, id) => some (a, .publish (.unlocked (toString id) .pad))
      | (false, _) => some (a, .done)
  | .hangup peers =>
      match a.call.wireHungUp env with
      | ((true, id), call) =>
          some (a.withCall call, .callEnd peers (.callEnded (toString id) "wire_hangup"))
      | ((false, _), call) => some (a.withCall call, .done)
  | .callEnd peers event => some (a.onCallEnd peers, .publish event)
  | .publish event => some (a.publish env event, .done)
  | .done => none

/-! ## All handlers over one Agent -/

namespace Task

/-- One step of a handler. -/
def step (env : Env) (a : Agent W) : Task → Option (Agent W × Task)
  | command action commandId pc =>
      (commandStep env a action commandId pc).map fun r => (r.1, command action commandId r.2)
  | elevator commandId room pc =>
      (elevatorStep env a commandId room pc).map fun r => (r.1, elevator commandId room r.2)
  | wire pc => (wireStep env a pc).map fun r => (r.1, wire r.2)

/-- The handler has returned or panicked. -/
def finished : Task → Bool
  | command _ _ (.done _) => true
  | elevator _ _ (.done _) => true
  | elevator _ _ .panicked => true
  | wire .done => true
  | _ => false

/-- A message of the receive loop. -/
def isWire : Task → Bool
  | wire _ => true
  | _ => false

/-- The handler has just been called. -/
def fresh : Task → Bool
  | command _ _ .lookup => true
  | elevator _ _ .lookup => true
  | wire (.received _ _) => true
  | _ => false

/-- A handler may be called at any time, a message of the wire when the receive loop is
    done with the one before. -/
def mayStart (tasks : List Task) (t : Task) : Bool :=
  t.fresh && (!t.isWire || tasks.all fun u => !u.isWire || u.finished)

end Task

/-- What the Agent's other tasks do: the receive loop before it hands a message on, and the
    monitor and outbound-call tasks, which set their own slots and publish events of their
    own. -/
inductive Background where
  | noteSender (sender : SocketAddr)
  | setRoomIpIfUnset (ip : Ipv4Addr)
  | learnAddress (side : Side) (ip : Ipv4Addr)
  | pinMac (side : Side) (mac : MacAddress)
  | setMonitor (handle : Option MonitorHandle)
  | setCallSession (handle : Option CallHandle)
  | sendAsPad (env : Env) (payload : Bytes)
  | publish (env : Env) (event : { k : EventKind // k.view = none })

/-- The effect of a background step on the Agent. -/
def Background.act (a : Agent W) : Background → Agent W
  | noteSender sender => a.withWire (Wire.noteSender a.wire sender)
  | setRoomIpIfUnset ip => a.setRoomIpIfUnset ip
  | learnAddress side ip => (a.learnAddress side ip).2
  | pinMac side mac => (a.pinMac side mac).2
  | setMonitor handle => { a with monitor := handle }
  | setCallSession handle => { a with callSession := handle }
  | sendAsPad env payload => (a.sendAsPad env payload a.peers).2
  | publish env event => a.publish env event.1

/-- The Agent with all its handlers. -/
def agentProgram (W : Type) [Wire W] : Program (Agent W) Task Env Background where
  mayStart := Task.mayStart
  step := Task.step
  outside b a := b.act a

/-- The Agent and the handlers that were called so far. -/
abbrev AgentPool (W : Type) := Pool (Agent W) Task

/-- One move of the Agent's environment or of one of its handlers. -/
abbrev AgentMove := Move Task Env Background

/-- No handler is in progress. -/
def Quiescent {W : Type} (p : AgentPool W) : Prop := ∀ t ∈ p.threads, t.finished = true

instance {W : Type} (p : AgentPool W) : Decidable (Quiescent p) :=
  inferInstanceAs (Decidable (∀ t ∈ p.threads, t.finished = true))

/-- An Agent that serves no handler yet. -/
def idlePool {W : Type} (a : Agent W) : AgentPool W := ⟨a, []⟩

end Michoi
