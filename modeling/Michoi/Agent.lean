/-
  The Agent (`agent.rs`): one object that stands for the household's Pad on the wire and
  executes the commands of the control plane.

  The state keeps the fields behind the source's locks. `Call` and `Agent` have one
  function for each region the source runs under a lock, and `execute` and `onWire` are
  the handlers put together from them. What a handler reads from its environment (clocks,
  the outcome of socket calls, the answer of discovery, a timeout) comes in an `Env`.

  Left out: log lines, the live broadcast channels (`pushAudio` and `pushVideo` keep what the
  history and the snapshot keep; who listens live gets each chunk and frame besides), and the
  tasks that own the sockets of a monitor or an outbound call.
-/
import Michoi.AgentApi
import Michoi.Media
import Michoi.Wire

namespace Michoi

/-- What a handler reads from outside. Each reading is used at one place of a handler. -/
structure Env where
  /-- `now_ms()` where `since_ms` is set. -/
  sinceMs : Nat := 0
  /-- `now_ms()` where an event is pushed. -/
  eventMs : Nat := 0
  /-- `Instant::now()`. -/
  instant : Nat := 0
  /-- `started.elapsed()` in microseconds. -/
  elapsedUs : Nat := 0
  /-- The outcome of a handshake reply, of a packet sent as the Pad, and of the hangup
      injected toward the Pad. -/
  reply : Outcome := .sent
  send : Outcome := .sent
  reset : Outcome := .sent
  /-- What UDP discovery answers for the elevator's door. -/
  resolved : Option Ipv4Addr := none
  /-- The elevator socket could be bound, connected and written. -/
  elevatorSent : Bool := true
  /-- The wait for the elevator's acknowledgement is over. -/
  timedOut : Bool := false

/-! ## The call -/

structure Call where
  machine : CallMachine
  sinceMs : Option Nat
  /-- A `u64` in the source: an Agent hears fewer than 2^64 rings. -/
  nextSession : Nat
  deriving DecidableEq, Repr

/-- The opcode a command sends to the door. -/
def CallAction.opcode : CallAction → UInt32
  | claim => opAnswer
  | unlock => opUnlock
  | hangup => opHangup

/-- The event a command publishes. -/
def CallAction.event (session : String) : CallAction → EventKind
  | claim => .remoteAnswered session
  | unlock => .unlocked session .remote
  | hangup => .callEnded session "remote_hangup"

/-- The end of each branch of `execute`'s locked region: the event with its packet. -/
def packed (action : CallAction) (session : String) (e : Endpoints) :
    Except CallError (EventKind × Bytes) :=
  match sessionControl action.opcode e with
  | .ok packet => .ok (action.event session, packet)
  | .error _ => .error .agentOffline

namespace Call

/-- The locked region of `on_call_started`: the new session, if the call was idle. -/
def started (c : Call) (env : Env) : Option Nat × Call :=
  if c.machine.state.phase ≠ .idle then (none, c)
  else
    (some c.nextSession, {
      machine := c.machine.startCall c.nextSession
      sinceMs := some env.sinceMs
      nextSession := c.nextSession + 1 })

/-- The locked region of `on_pad_answer`: whether it was accepted, and the session. -/
def padAnswered (c : Call) (env : Env) : (Bool × Nat) × Call :=
  let id := c.machine.state.sessionId
  match c.machine.padAnswer with
  | (.ok (), machine) => ((true, id), { c with machine, sinceMs := some env.sinceMs })
  | (.error _, machine) => ((false, id), { c with machine })

/-- The locked region of `on_pad_unlock`: whether the Pad owns the call, and the session. -/
def padUnlocked (c : Call) : Bool × Nat :=
  (c.machine.state.owner == .pad, c.machine.state.sessionId)

/-- The locked region of `on_wire_hangup`: whether a call was active, and its session. -/
def wireHungUp (c : Call) (env : Env) : (Bool × Nat) × Call :=
  ((c.machine.state.phase != .idle, c.machine.state.sessionId),
    { c with machine := c.machine.hangup, sinceMs := some env.sinceMs })

/-- The locked region of `execute`. -/
def command (c : Call) (env : Env) (action : CallAction) (session : String) (e : Endpoints) :
    Except CallError (EventKind × Bytes) × Call :=
  match action with
  | .claim =>
      match c.machine.remoteAnswer with
      | (.error error, machine) => (.error (.from error), { c with machine })
      | (.ok (), machine) =>
          (packed .claim session e, { c with machine, sinceMs := some env.sinceMs })
  | .unlock =>
      match c.machine.unlock env.instant with
      | (.error error, machine) => (.error (.from error), { c with machine })
      | (.ok (), machine) => (packed .unlock session e, { c with machine })
  | .hangup =>
      if c.machine.state.phase = .idle then (.error .noCall, c)
      else
        (packed .hangup session e,
          { c with machine := c.machine.hangup, sinceMs := some env.sinceMs })

/-- The machine lets the action through. -/
def admits (c : Call) (env : Env) : CallAction → Prop
  | .claim => c.machine.accepts .remoteAnswer
  | .unlock => c.machine.accepts (.unlock env.instant)
  | .hangup => c.machine.state.phase ≠ .idle

instance (c : Call) (env : Env) : ∀ action, Decidable (c.admits env action)
  | .claim => inferInstanceAs (Decidable (_ = _))
  | .unlock => inferInstanceAs (Decidable (_ = _))
  | .hangup => inferInstanceAs (Decidable (_ ≠ _))

end Call

/-! ## The Agent -/

/-- The active camera monitor: its camera and its cancel signal. -/
structure MonitorHandle where
  camera : Station
  cancel : Nat
  deriving DecidableEq, Repr

/-- The active outbound call: whom it called, its cancel signal, and whether it was
    answered. -/
structure CallHandle where
  callee : Station
  cancel : Nat
  answered : Bool
  deriving DecidableEq, Repr

structure Agent (W : Type) where
  wire : W
  peers : Peers
  call : Call
  events : EventLog
  commands : CommandCache
  latest : Option VideoFrame
  history : MediaRing
  jpeg : Reassembler
  /-- Station id of the door that fronts the elevator. -/
  elevatorDoor : Option String
  /-- Waiters for the elevator's acknowledgement, and those that were woken. -/
  elevatorAcks : List Nat
  elevatorAcked : List Nat
  nextWaiter : Nat
  monitor : Option MonitorHandle
  callSession : Option CallHandle
  /-- Cancel signals that were sent. -/
  cancelled : List Nat

namespace Agent

variable {W : Type}

/-- `Agent::new`. -/
def new (wire : W) (peers : Peers) (cooldown : Nat) (unlockRequiresAnswer : Bool)
    (history : MediaRing) (elevatorDoor : Option String) : Agent W where
  wire := wire
  peers := peers
  call := {
    machine := .withPolicy cooldown unlockRequiresAnswer, sinceMs := none, nextSession := 1 }
  events := .new 256
  commands := .new 256
  latest := none
  history := history
  jpeg := .default
  elevatorDoor := elevatorDoor
  elevatorAcks := []
  elevatorAcked := []
  nextWaiter := 0
  monitor := none
  callSession := none
  cancelled := []

/-- The Agent after a region under the `call` lock. -/
@[simps]
def withCall (a : Agent W) (call : Call) : Agent W := { a with call }

/-- The Agent after a wire call. -/
@[simps]
def withWire (a : Agent W) (wire : W) : Agent W := { a with wire }

/-- `Agent::session_string`. -/
def sessionString (a : Agent W) : String := toString a.call.machine.state.sessionId

/-- `self.events.push(kind)`. -/
def publish (a : Agent W) (env : Env) (kind : EventKind) : Agent W :=
  { a with events := a.events.push env.eventMs kind }

/-- `Agent::push_video`. -/
def pushVideo (a : Agent W) (frame : VideoFrame) : Agent W :=
  { a with latest := some frame, history := a.history.pushVideo frame }

/-- `Agent::push_audio`. -/
def pushAudio (a : Agent W) (chunk : AudioChunk) : Agent W :=
  { a with history := a.history.pushAudio chunk }

/-- A media fragment goes to the audio buffer or to the reassembler, and a frame it
    completes to the video buffer. -/
def feed (a : Agent W) (env : Env) (media : MediaFragment) : Agent W :=
  if media.mediaType = mediaAudio then
    a.pushAudio { ptsUs := env.elapsedUs, pcm := media.data }
  else
    match a.jpeg.push media with
    | (some jpeg, reassembler) =>
        { a with jpeg := reassembler }.pushVideo { ptsUs := env.elapsedUs, jpeg }
    | (none, reassembler) => { a with jpeg := reassembler }

/-- `Agent::stop_monitor_now`. -/
def stopMonitorNow (a : Agent W) : Agent W :=
  match a.monitor with
  | none => a
  | some handle => { a with monitor := none, cancelled := a.cancelled ++ [handle.cancel] }

/-- `Agent::hangup_call_now` up to the event: the callee that was hung up. -/
def takeCallSession (a : Agent W) : Option Station × Agent W :=
  match a.callSession with
  | none => (none, a)
  | some handle =>
      (some handle.callee,
        { a with callSession := none, cancelled := a.cancelled ++ [handle.cancel] })

/-- `Agent::hangup_call_now`. -/
def hangupCallNow (a : Agent W) (env : Env) (reason : String) : Agent W :=
  match a.takeCallSession with
  | (none, a) => a
  | (some callee, a) => a.publish env (.callHungUp callee.id reason)

/-- The callee of the outbound call answered: the first answer publishes an event, all
    under the `call_session` lock. -/
def outboundAnswered (a : Agent W) (env : Env) : Agent W :=
  match a.callSession with
  | none => a
  | some handle =>
      if handle.answered then a
      else
        { a with callSession := some { handle with answered := true } }.publish env
          (.callConnected handle.callee.id)

/-- The elevator's acknowledgement wakes every waiter. -/
def wakeElevator (a : Agent W) : Agent W :=
  { a with elevatorAcks := [], elevatorAcked := a.elevatorAcked ++ a.elevatorAcks }

variable [Wire W]

/-- `self.wire.handshake_reply`, whose failure is only logged. -/
def handshakeReply (a : Agent W) (env : Env) (payload : Bytes) (peers : Peers) : Agent W :=
  a.withWire (Wire.handshakeReply a.wire env.reply payload peers).2

/-- `self.wire.send_as_pad`. -/
def sendAsPad (a : Agent W) (env : Env) (payload : Bytes) (peers : Peers) :
    WireResult × Agent W :=
  let r := Wire.sendAsPad a.wire env.send payload peers
  (r.1, a.withWire r.2)

/-- `self.wire.on_call_end`. -/
def onCallEnd (a : Agent W) (peers : Peers) : Agent W :=
  a.withWire (Wire.onCallEnd a.wire peers)

/-- What `execute` tells the wire after its packet went out. -/
def notify (a : Agent W) (env : Env) (action : CallAction) (peers : Peers) : Agent W :=
  match action with
  | .claim => a.withWire (Wire.onRemoteClaim a.wire env.reset peers)
  | .hangup => a.onCallEnd peers
  | .unlock => a

/-! ## Identity -/

/-- `Agent::set_room_ip_if_unset`. -/
def setRoomIpIfUnset (a : Agent W) (ip : Ipv4Addr) : Agent W :=
  { a with peers := a.peers.setRoomIpIfUnset ip }

/-- `Agent::learn_address`. -/
def learnAddress (a : Agent W) (side : Side) (ip : Ipv4Addr) : Bool × Agent W :=
  let r := a.peers.learnAddress side ip
  (r.1, { a with peers := r.2 })

/-- `Agent::pin_mac`. -/
def pinMac (a : Agent W) (side : Side) (mac : MacAddress) : Bool × Agent W :=
  let r := a.peers.pinMac side mac
  (r.1, { a with peers := r.2 })

/-- `Agent::accept_endpoints`. -/
def acceptEndpoints (a : Agent W) (e : Endpoints) : Option Peers × Agent W :=
  let r := a.peers.acceptEndpoints e
  (r.1, { a with peers := r.2 })

/-! ## Wire in -/

/-- `Agent::on_call_started`. -/
def onCallStarted (a : Agent W) (env : Env) (e : Endpoints) : Agent W :=
  match a.call.started env with
  | (none, call) => a.withCall call
  | (some id, call) =>
      (a.withCall call).publish env (.callStarted (toString id) e.door.id e.room.id)

/-- `Agent::on_pad_answer`. -/
def onPadAnswer (a : Agent W) (env : Env) : Agent W :=
  match a.call.padAnswered env with
  | ((true, id), call) => (a.withCall call).publish env (.padAnswered (toString id))
  | ((false, _), call) => a.withCall call

/-- `Agent::on_pad_unlock`. -/
def onPadUnlock (a : Agent W) (env : Env) : Agent W :=
  match a.call.padUnlocked with
  | (true, id) => a.publish env (.unlocked (toString id) .pad)
  | (false, _) => a

/-- `Agent::on_wire_hangup`. -/
def onWireHangup (a : Agent W) (env : Env) (peers : Peers) : Agent W :=
  match a.call.wireHungUp env with
  | ((true, id), call) =>
      ((a.withCall call).onCallEnd peers).publish env (.callEnded (toString id) "wire_hangup")
  | ((false, _), call) => a.withCall call

/-- The bootstrap branch of `on_wire`. -/
def onBootstrap (a : Agent W) (env : Env) (side : Side) : Agent W :=
  match side with
  | .pad => a
  | .door =>
      match bootstrapReply a.peers.room with
      | .ok reply => a.handshakeReply env reply a.peers
      | .error _ => a

/-- The branch of `on_wire` for a message while a camera is monitored. -/
def onMonitorMessage (a : Agent W) (env : Env) (message : Message) : Agent W :=
  if message.opcode = opMedia then
    match message.media with
    | some media => a.feed env media
    | none => a
  else if message.opcode = opHangup then a.stopMonitorNow
  else a

/-- The branch of `on_wire` for a message during an outbound call. -/
def onOutboundMessage (a : Agent W) (env : Env) (message : Message) : Agent W :=
  if message.opcode = opAnswer then a.outboundAnswered env
  else if message.opcode = opMedia then
    match message.media with
    | some media => a.feed env media
    | none => a
  else if message.opcode = opHangup then a.hangupCallNow env "callee_hangup"
  else a

/-- The dispatch of an accepted `00b7` message. -/
def onSession (a : Agent W) (env : Env) (side : Side) (message : Message) (e : Endpoints)
    (peers : Peers) : Agent W :=
  if message.opcode = opRequest ∧ side = .door then
    match sessionReply e with
    | .ok reply => (a.handshakeReply env reply peers).onCallStarted env e
    | .error _ => a.onCallStarted env e
  else if message.opcode = opAnswer ∧ side = .pad then a.onPadAnswer env
  else if message.opcode = opUnlock ∧ side = .pad then a.onPadUnlock env
  else if message.opcode = opHangup then a.onWireHangup env peers
  else if message.opcode = opMedia ∧ side = .door then
    match message.media with
    | some media => a.feed env media
    | none => a
  else a

/-- The rest of `on_wire`: elevator acknowledgements and the call. -/
def onCallMessage (a : Agent W) (env : Env) (side : Side) (message : Message) : Agent W :=
  if message.family = familyElevator ∧ message.opcode ≠ opRequest then a.wakeElevator
  else if message.family ≠ familySession then a
  else
    match message.endpoints with
    | none => a
    | some e =>
        match a.acceptEndpoints e with
        | (none, a) => a
        | (some peers, a) => a.onSession env side message e peers

/-- `Agent::on_wire`. -/
def onWire (a : Agent W) (env : Env) (side : Side) (raw : Bytes) : Agent W :=
  match Message.parse raw with
  | .error _ => a
  | .ok message =>
      if message.family = familyBootstrap ∧ message.opcode = opRequest then
        a.onBootstrap env side
      else if a.monitor.isSome && message.isSessionLike then a.onMonitorMessage env message
      else if a.callSession.isSome && message.isSessionLike then a.onOutboundMessage env message
      else a.onCallMessage env side message

/-! ## Commands -/

/-- `execute` from its locked region to its send: what is to be sent, or why the command
    is rejected. -/
def build (a : Agent W) (env : Env) (action : CallAction) (peers : Peers) (session : String) :
    Except CallError (EventKind × Bytes) × Agent W :=
  match peers.endpoints with
  | none => (.error .noCall, a)
  | some e =>
      let r := a.call.command env action session e
      (r.1, a.withCall r.2)

/-- `self.commands.store(&result)`. -/
def store (a : Agent W) (result : CommandResult) : Agent W :=
  { a with commands := a.commands.store result }

/-- `execute` after its locked region: send, tell the wire, publish. -/
def deliver (a : Agent W) (env : Env) (action : CallAction) (commandId : String)
    (peers : Peers) (event : EventKind) (packet : Bytes) : CommandResult × Agent W :=
  match a.sendAsPad env packet peers with
  | (.ok (), a) => (.accepted commandId, (a.notify env action peers).publish env event)
  | (.error _, a) => (.rejected commandId .agentOffline, a)

/-- `execute` for a command that is not in the cache, before its result is stored. -/
def run (a : Agent W) (env : Env) (action : CallAction) (commandId : String) :
    CommandResult × Agent W :=
  match a.build env action a.peers a.sessionString with
  | (.ok (event, packet), built) => built.deliver env action commandId a.peers event packet
  | (.error error, built) => (.rejected commandId error, built)

/-- `Agent::execute`. -/
def execute (a : Agent W) (env : Env) (action : CallAction) (commandId : String) :
    CommandResult × Agent W :=
  match a.commands.get commandId with
  | some replayed => (replayed, a)
  | none =>
      let r := a.run env action commandId
      (r.1, r.2.store r.1)

end Agent

/-! ## Short numbers -/

/-- `expand_station_number`; `none` where slicing the local id inside a character
    panics. -/
def expandStationNumber (local_ input : String) : Option String :=
  let length := (asBytes input).length
  if input.isEmpty || !(asBytes input).all (fun b => 0x30 ≤ b && b ≤ 0x39) then some input
  else if length + 1 < (asBytes local_).length then
    match splitAtByte ((asBytes local_).length - 1 - length) local_.toList,
        splitAtByte ((asBytes local_).length - 1) local_.toList with
    | some (front, _), some (_, back) =>
        some (String.ofList front ++ input ++ String.ofList back)
    | _, _ => none
  else some input

example : expandStationNumber "S00000000000" "3003" = some "S00000030030" := by decide

end Michoi
