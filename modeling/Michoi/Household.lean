/-
  The Agent with all its requests and tasks: next to the handlers of `Task`, viewing a
  camera, calling another station, talking, the keepalive of `pad` mode, and the receive
  loop of `pad` mode.

  As in `Task`, a handler is a program counter with the handler's local variables, and a
  step is one atomic piece of the source: a region under a lock, a socket call, an event
  push, an await. A request that spawns a task goes on as that task.

  A monitor and an outbound call each have one number for their socket and their cancel
  signal. A signal counts as cancelled when it was sent, and when its handle was dropped,
  which closes the channel: the tasks treat both alike.

  Left out: the camera list and what else only reads the Agent, the count of monitor
  frames, and log lines.
-/
import Michoi.Protocol.Split
import Michoi.Task

namespace Michoi

open Lib

/-- `AgentMode`. -/
inductive AgentMode where
  | pad | tap
  deriving DecidableEq, Repr

/-- What the handlers read from outside. -/
structure HouseEnv extends Env where
  /-- The socket could be bound, and connected. -/
  bound : Bool := true
  connected : Bool := true
  /-- Our IPv4 address on that socket, and `local_ip_toward` a sender. -/
  localAddr : Option Ipv4Addr := none
  /-- The socket took the datagram. -/
  took : Bool := true
  /-- `select!` goes for the keepalive tick, not for the cancel signal. -/
  tick : Bool := false

/-- What `CallHandle` holds for the senders of an outbound call. -/
structure Line where
  endpoints : Endpoints
  aseq : UInt32
  vseq : UInt32
  deriving DecidableEq, Repr

structure Household (W : Type) where
  agent : Agent W
  /-- The outbound calls that were set up, by number. -/
  lines : Nat → Option Line
  /-- What the sockets of monitors and calls took, oldest first. -/
  sent : List (Nat × Bytes)
  nextSignal : Nat
  audioSeq : UInt32

namespace Household

variable {W : Type}

/-- A household that serves no monitor and no call yet. -/
def new (agent : Agent W) : Household W where
  agent := agent
  lines _ := none
  sent := []
  nextSignal := 0
  audioSeq := 0

@[simps]
def withAgent (h : Household W) (agent : Agent W) : Household W := { h with agent }

/-- `let _ = socket.send(..)`. -/
@[simps]
def send (h : Household W) (env : HouseEnv) (signal : Nat) (packet : Bytes) : Household W :=
  { h with sent := if env.took then h.sent ++ [(signal, packet)] else h.sent }

/-- A new monitor's handle goes into the slot; the handle that was there is dropped. -/
def installMonitor (h : Household W) (camera : Station) : Household W :=
  { h with
    agent := { h.agent with
      monitor := some { camera, cancel := h.nextSignal }
      cancelled := h.agent.cancelled ++ (h.agent.monitor.map MonitorHandle.cancel).toList }
    nextSignal := h.nextSignal + 1 }

/-- `agent.monitor.lock().unwrap().take()`: whatever handle is in the slot is dropped. -/
def dropMonitor (h : Household W) : Household W :=
  { h with
    agent := { h.agent with
      monitor := none
      cancelled := h.agent.cancelled ++ (h.agent.monitor.map MonitorHandle.cancel).toList } }

/-- A new call's handle goes into the slot; the handle that was there is dropped. -/
def installCall (h : Household W) (signal : Nat) (e : Endpoints) : Household W :=
  { h with
    agent := { h.agent with
      callSession := some { callee := e.room, cancel := signal, answered := false }
      cancelled := h.agent.cancelled ++ (h.agent.callSession.map CallHandle.cancel).toList }
    lines := Function.update h.lines signal (some { endpoints := e, aseq := 0, vseq := 1 }) }

end Household

/-! ## Viewing a camera -/

/-- Where `start_monitor_now` and the task it spawns stand. -/
inductive MonitorPc where
  | check
  | resolve
  | replace (camera : Station)
  | install (camera : Station)
  | publish (signal : Nat) (camera : Station)
  | connect (signal : Nat) (camera : Station)
  | identify (signal : Nat) (camera : Station) (ourIp : Ipv4Addr)
  | request (signal : Nat) (camera : Station) (block packet : Bytes)
  | watch (signal : Nat) (camera : Station) (block : Bytes)
  | bye (signal : Nat) (camera : Station) (block : Bytes)
  | cleanup (signal : Nat) (camera : Station) (reason : String)
  | stopped (camera : Station) (reason : String)
  | done
  | failed (error : CallError)
  deriving DecidableEq, Repr

variable {W : Type}

/-- The block of a monitor's packets: us, then the camera. -/
def monitorBlock (us camera : Station) : Except ProtocolError Bytes := do
  let us ← us.pack
  let camera ← camera.pack
  return us ++ camera

/-- One step of `start_monitor_now` and of `run_monitor_session`. -/
def monitorStep (env : HouseEnv) (h : Household W) (cameraId : String) :
    MonitorPc → Option (Household W × MonitorPc)
  | .check =>
      if h.agent.call.machine.state.phase ≠ .idle then some (h, .failed .padOwnsCall)
      else some (h, .resolve)
  | .resolve =>
      match env.resolved with
      | none => some (h, .failed .agentOffline)
      | some ip => some (h, .replace { id := cameraId, ip })
  | .replace camera => some (h.withAgent h.agent.stopMonitorNow, .install camera)
  | .install camera => some (h.installMonitor camera, .publish h.nextSignal camera)
  | .publish signal camera =>
      some (h.withAgent (h.agent.publish env.toEnv (.monitorStarted cameraId)),
        .connect signal camera)
  | .connect signal camera =>
      if !env.bound then some (h, .cleanup signal camera "socket_error")
      else if !env.connected then some (h, .cleanup signal camera "connect_error")
      else some (h, .identify signal camera (env.localAddr.getD .unspecified))
  | .identify signal camera ourIp =>
      let us : Station := { id := h.agent.peers.room.id, ip := ourIp }
      match monitorBlock us camera, monitorRequest us camera with
      | .error _, _ => some (h, .cleanup signal camera "pack_error")
      | .ok _, .error _ => some (h, .cleanup signal camera "build_error")
      | .ok block, .ok packet => some (h, .request signal camera block packet)
  | .request signal camera block packet =>
      some (h.send env signal packet, .watch signal camera block)
  | .watch signal camera block =>
      if env.tick then
        some (h.send env signal (packet familyMonitor opKeepalive 80 block),
          .watch signal camera block)
      else if signal ∈ h.agent.cancelled then some (h, .bye signal camera block)
      else none
  | .bye signal camera block =>
      some (h.send env signal (packet familyMonitor opHangup 80 block),
        .cleanup signal camera "stopped")
  | .cleanup _ camera reason => some (h.dropMonitor, .stopped camera reason)
  | .stopped camera reason =>
      some (h.withAgent (h.agent.publish env.toEnv (.monitorStopped camera.id reason)), .done)
  | .done => none
  | .failed _ => none

/-- Where a `stop_monitor` call stands. -/
inductive StopPc where
  | take
  | done (stopped : Bool)
  deriving DecidableEq, Repr

/-- One step of `stop_monitor`. -/
def stopStep (h : Household W) : StopPc → Option (Household W × StopPc)
  | .take => some (h.withAgent h.agent.stopMonitorNow, .done h.agent.monitor.isSome)
  | .done _ => none

/-! ## Calling another station -/

/-- Where `dial_now` and the keepalive task it spawns stand. -/
inductive DialPc where
  | checkIdle
  | checkSlots
  | expand
  | resolve (calleeId : String)
  | connect (callee : Station)
  | identify (signal : Nat) (callee : Station) (ourIp : Ipv4Addr)
  | setup (signal : Nat) (e : Endpoints) (packets : List Bytes)
  | install (signal : Nat) (e : Endpoints)
  | publish (signal : Nat) (e : Endpoints)
  | watch (signal : Nat) (e : Endpoints)
  | bye (signal : Nat) (e : Endpoints)
  | done
  | failed (error : CallError)
  | panicked
  deriving DecidableEq, Repr

/-- What `dial_now` sends before the call is set: the bootstrap request, the invite, and the
    call request three times. -/
def setupPackets (e : Endpoints) : List Bytes :=
  packet familyBootstrap opRequest 32 [] ::
    ((callSetup e.door e.room).toOption.toList ++
      ((callRequest e.door e.room).toOption.map (List.replicate 3)).getD [])

/-- One step of `dial_now` and of its keepalive task. -/
def dialStep (env : HouseEnv) (h : Household W) (calleeId : String) :
    DialPc → Option (Household W × DialPc)
  | .checkIdle =>
      if h.agent.call.machine.state.phase ≠ .idle then some (h, .failed .padOwnsCall)
      else some (h, .checkSlots)
  | .checkSlots =>
      -- One step: the guard of the monitor slot is held to the end of the condition.
      if h.agent.monitor.isSome || h.agent.callSession.isSome then
        some (h, .failed .padOwnsCall)
      else some (h, .expand)
  | .expand =>
      match expandStationNumber h.agent.peers.room.id calleeId with
      | some calleeId => some (h, .resolve calleeId)
      | none => some (h, .panicked)
  | .resolve calleeId =>
      match env.resolved with
      | none => some (h, .failed .calleeUnreachable)
      | some ip => some (h, .connect { id := calleeId, ip })
  | .connect callee =>
      if !env.bound || !env.connected then some (h, .failed .agentOffline)
      else
        some ({ h with nextSignal := h.nextSignal + 1 },
          .identify h.nextSignal callee (env.localAddr.getD .unspecified))
  | .identify signal callee ourIp =>
      let us : Station := { id := h.agent.peers.room.id, ip := ourIp }
      let e : Endpoints := { door := us, room := callee }
      some (h, .setup signal e (setupPackets e))
  | .setup signal e [] => some (h, .install signal e)
  | .setup signal e (packet :: packets) =>
      some (h.send env signal packet, .setup signal e packets)
  | .install signal e => some (h.installCall signal e, .publish signal e)
  | .publish signal e =>
      some (h.withAgent (h.agent.publish env.toEnv (.dialing e.room.id)), .watch signal e)
  | .watch signal e =>
      if env.tick then
        match sessionControl opKeepalive e with
        | .ok packet => some (h.send env signal packet, .watch signal e)
        | .error _ => some (h, .watch signal e)
      else if signal ∈ h.agent.cancelled then some (h, .bye signal e)
      else none
  | .bye signal e =>
      match sessionControl opHangup e with
      | .ok packet => some (h.send env signal packet, .done)
      | .error _ => some (h, .done)
  | .done => none
  | .failed _ => none
  | .panicked => none

/-- Where a `hangup_call` call stands. -/
inductive HangupPc where
  | take
  | publish (callee : Station)
  | done (ended : Bool)
  deriving DecidableEq, Repr

/-- One step of `hangup_call`. -/
def hangupStep (env : HouseEnv) (h : Household W) : HangupPc → Option (Household W × HangupPc)
  | .take =>
      match h.agent.takeCallSession with
      | (none, agent) => some (h.withAgent agent, .done false)
      | (some callee, agent) => some (h.withAgent agent, .publish callee)
  | .publish callee =>
      some (h.withAgent (h.agent.publish env.toEnv (.callHungUp callee.id "local_hangup")),
        .done true)
  | .done _ => none

/-! ## Talking -/

/-- Where a `talk` call stands. -/
inductive TalkPc where
  | call
  | sending (signal : Nat) (packets : List Bytes)
  | check
  | readPeers
  | number (peers : Peers) (e : Endpoints) (frames : List Bytes)
  | send (peers : Peers) (e : Endpoints) (packet : Bytes) (frames : List Bytes)
  | done (result : Except CallError Unit)

/-- The packets of a chunk on an outbound call, numbered under the `call_session` lock. -/
def Line.audioPackets (line : Line) : List Bytes → List Bytes × Line
  | [] => ([], line)
  | frame :: frames =>
      let packet := audioPacket line.aseq.toUInt16 (resize frame 512) line.endpoints
      let rest := { line with aseq := line.aseq + 1 }.audioPackets frames
      (packet.toOption.toList ++ rest.1, rest.2)

variable [Wire W]

/-- One step of `talk`. -/
def talkStep (env : HouseEnv) (h : Household W) (pcm : Bytes) :
    TalkPc → Option (Household W × TalkPc)
  | .call =>
      match h.agent.callSession with
      | none => some (h, .check)
      | some handle =>
          match h.lines handle.cancel with
          | none => some (h, .sending handle.cancel [])
          | some line =>
              let r := line.audioPackets (chunks 512 pcm)
              some ({ h with lines := Function.update h.lines handle.cancel (some r.2) },
                .sending handle.cancel r.1)
  | .sending _ [] => some (h, .done (.ok ()))
  | .sending signal (packet :: packets) =>
      some (h.send env signal packet, .sending signal packets)
  | .check =>
      if h.agent.call.machine.remoteMediaAllowed h.agent.call.machine.state.sessionId then
        some (h, .readPeers)
      else some (h, .done (.error .unlockNotAllowed))
  | .readPeers =>
      match h.agent.peers.endpoints with
      | none => some (h, .done (.error .agentOffline))
      | some e => some (h, .number h.agent.peers e (chunks 512 pcm))
  | .number _ _ [] => some (h, .done (.ok ()))
  | .number peers e (frame :: frames) =>
      match audioPacket h.audioSeq.toUInt16 (resize frame 512) e with
      | .error _ =>
          some ({ h with audioSeq := h.audioSeq + 1 }, .done (.error .agentOffline))
      | .ok packet =>
          some ({ h with audioSeq := h.audioSeq + 1 }, .send peers e packet frames)
  | .send peers e packet frames =>
      match h.agent.sendAsPad env.toEnv packet peers with
      | (.ok (), agent) => some (h.withAgent agent, .number peers e frames)
      | (.error _, agent) => some (h.withAgent agent, .done (.error .agentOffline))
  | .done _ => none

/-- Where a `talk_video` call stands. -/
inductive VideoPc where
  | call
  | sending (signal : Nat) (packets : List Bytes)
  | done
  deriving DecidableEq, Repr

omit [Wire W] in
/-- One step of `talk_video`. -/
def videoStep (env : HouseEnv) (h : Household W) (jpeg : Bytes) :
    VideoPc → Option (Household W × VideoPc)
  | .call =>
      match h.agent.callSession with
      | none => some (h, .done)
      | some handle =>
          if handle.answered then
            match h.lines handle.cancel with
            | none => some (h, .done)
            | some line =>
                let h := { h with
                  lines := Function.update h.lines handle.cancel
                    (some { line with vseq := line.vseq + 1 }) }
                match jpegPackets line.vseq.toUInt16 jpeg line.endpoints with
                | .ok packets => some (h, .sending handle.cancel packets)
                | .error _ => some (h, .done)
          else some (h, .done)
  | .sending _ [] => some (h, .done)
  | .sending signal (packet :: packets) =>
      some (h.send env signal packet, .sending signal packets)
  | .done => none

/-! ## The keepalive and the receive loop of `pad` mode -/

/-- Where a `send_keepalive` call stands. -/
inductive KeepalivePc where
  | readPeers
  | check (peers : Peers)
  | send (peers : Peers) (packet : Bytes)
  | done
  deriving DecidableEq, Repr

/-- One step of `send_keepalive`. -/
def keepaliveStep (env : HouseEnv) (h : Household W) :
    KeepalivePc → Option (Household W × KeepalivePc)
  | .readPeers => some (h, .check h.agent.peers)
  | .check peers =>
      if h.agent.call.machine.state.phase = .idle then some (h, .done)
      else
        match peers.endpoints.map (sessionControl opKeepalive) with
        | some (.ok packet) => some (h, .send peers packet)
        | some (.error _) => some (h, .done)
        | none => some (h, .done)
  | .send peers packet => some (h.withAgent (h.agent.sendAsPad env.toEnv packet peers).2, .done)
  | .done => none

/-- Where one round of `UdpWire::run` stands. -/
inductive DatagramPc where
  | received
  | learnRoom (doorIp : Ipv4Addr)
  | learnDoor (doorIp : Ipv4Addr)
  | messages (rest : List Bytes)
  | onWire (pc : WirePc) (rest : List Bytes)
  | done
  deriving DecidableEq, Repr

/-- One step of a round of `UdpWire::run`. -/
def datagramStep (env : HouseEnv) (h : Household W) (sender : SocketAddr) (payload : Bytes) :
    DatagramPc → Option (Household W × DatagramPc)
  | .received =>
      let h := h.withAgent (h.agent.withWire (Wire.noteSender h.agent.wire sender))
      match sender.ip with
      | .v4 doorIp => some (h, .learnRoom doorIp)
      | .v6 _ => some (h, .messages (splitCoalesced payload))
  | .learnRoom doorIp =>
      match env.localAddr with
      | some ip => some (h.withAgent (h.agent.setRoomIpIfUnset ip), .learnDoor doorIp)
      | none => some (h, .learnDoor doorIp)
  | .learnDoor doorIp =>
      some (h.withAgent (h.agent.learnAddress .door doorIp).2,
        .messages (splitCoalesced payload))
  | .messages [] => some (h, .done)
  | .messages (raw :: rest) => some (h, .onWire (.received .door raw) rest)
  | .onWire .done rest => some (h, .messages rest)
  | .onWire pc rest =>
      (wireStep env.toEnv h.agent pc).map fun r => (h.withAgent r.1, .onWire r.2 rest)
  | .done => none

/-! ## All handlers over one household -/

/-- A handler that was called, or a task that was spawned. -/
inductive HouseTask where
  | agent (t : Task)
  | startMonitor (cameraId : String) (pc : MonitorPc)
  | stopMonitor (pc : StopPc)
  | dial (calleeId : String) (pc : DialPc)
  | hangupCall (pc : HangupPc)
  | talk (pcm : Bytes) (pc : TalkPc)
  | talkVideo (jpeg : Bytes) (pc : VideoPc)
  | keepalive (pc : KeepalivePc)
  | datagram (sender : SocketAddr) (payload : Bytes) (pc : DatagramPc)

namespace HouseTask

/-- One step of a handler. -/
def step (env : HouseEnv) (h : Household W) : HouseTask → Option (Household W × HouseTask)
  | agent t => (t.step env.toEnv h.agent).map fun r => (h.withAgent r.1, agent r.2)
  | startMonitor cameraId pc =>
      (monitorStep env h cameraId pc).map fun r => (r.1, startMonitor cameraId r.2)
  | stopMonitor pc => (stopStep h pc).map fun r => (r.1, stopMonitor r.2)
  | dial calleeId pc => (dialStep env h calleeId pc).map fun r => (r.1, dial calleeId r.2)
  | hangupCall pc => (hangupStep env h pc).map fun r => (r.1, hangupCall r.2)
  | talk pcm pc => (talkStep env h pcm pc).map fun r => (r.1, talk pcm r.2)
  | talkVideo jpeg pc => (videoStep env h jpeg pc).map fun r => (r.1, talkVideo jpeg r.2)
  | keepalive pc => (keepaliveStep env h pc).map fun r => (r.1, keepalive r.2)
  | datagram sender payload pc =>
      (datagramStep env h sender payload pc).map fun r => (r.1, datagram sender payload r.2)

/-- The handler has just been called. -/
def fresh : HouseTask → Bool
  | agent t => t.fresh
  | startMonitor _ .check => true
  | stopMonitor .take => true
  | dial _ .checkIdle => true
  | hangupCall .take => true
  | talk _ .call => true
  | talkVideo _ .call => true
  | keepalive .readPeers => true
  | datagram _ _ .received => true
  | _ => false

/-- The handler belongs to the receive loop and has not returned. -/
def receiving : HouseTask → Bool
  | agent t => t.isWire && !t.finished
  | datagram _ _ .done => false
  | datagram _ _ _ => true
  | _ => false

/-- The mode has this handler: the receive loop of `tap` mode hands on single messages, the
    one of `pad` mode datagrams, and only `pad` mode sends keepalives. -/
def inMode (mode : AgentMode) : HouseTask → Bool
  | agent t => !t.isWire || mode == .tap
  | keepalive _ => mode == .pad
  | datagram .. => mode == .pad
  | _ => true

/-- A request may come at any time, a message when the receive loop is done with the one
    before. -/
def mayStart (mode : AgentMode) (tasks : List HouseTask) (t : HouseTask) : Bool :=
  t.fresh && t.inMode mode && (!t.receiving || tasks.all fun u => !u.receiving)

end HouseTask

/-- What the capture loop of `tap` mode learns before it hands a message on. -/
inductive Learning where
  | address (side : Side) (ip : Ipv4Addr)
  | mac (side : Side) (found : MacAddress)
  deriving DecidableEq, Repr

omit [Wire W] in
def Learning.act (a : Agent W) : Learning → Agent W
  | .address side ip => (a.learnAddress side ip).2
  | .mac side found => (a.pinMac side found).2

/-- The household with all its handlers. -/
def houseProgram (mode : AgentMode) (W : Type) [Wire W] :
    Program (Household W) HouseTask HouseEnv Learning where
  mayStart := HouseTask.mayStart mode
  step := HouseTask.step
  outside l h :=
    match mode with
    | .tap => h.withAgent (l.act h.agent)
    | .pad => h

abbrev HousePool (W : Type) := Pool (Household W) HouseTask

abbrev HouseMove := Move HouseTask HouseEnv Learning

/-- A household that serves no handler yet. -/
def idleHouse {W : Type} (a : Agent W) : HousePool W := ⟨.new a, []⟩

end Michoi
