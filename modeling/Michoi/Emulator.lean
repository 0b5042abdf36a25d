/-
  The software door station (`emitter.rs`): it rings a Pad as a door would, streams pictures
  and sound, and notes what comes back.

  `Emulator.step` is one step of the sending side of `run_emulator`, with the datagrams it
  hands to its socket, and `hear` one round of its receiver task. The two share the
  observation and the stop signal. `CallObservation` is what the receiver task of
  `run_outbound_call` notes.

  Left out: reading the media from files, binding and connecting the socket, the frames that
  are written to a directory, and log lines.
-/
import Michoi.Media
import Michoi.Protocol.Split

namespace Michoi

/-- `MediaSource`: the fake camera and microphone. -/
structure MediaSource where
  frames : List Bytes
  audio : List Bytes
  deriving DecidableEq, Repr

/-- How `MediaSource::load` cuts the sound file: chunks of 512 bytes, the last one filled up. -/
def MediaSource.cut (pcm : Bytes) : List Bytes := (chunks 512 pcm).map (resize · 512)

/-! ## What came back -/

/-- `DoorObservation`. -/
structure DoorObservation where
  capabilityReply : Bool
  answered : Bool
  unlocks : Nat
  hangups : Nat
  audioPackets : Nat
  audioBytes : Nat
  deriving DecidableEq, Repr

/-- The door's receiver: what it noted, what its speaker was given, and its stop signal. -/
structure DoorEar where
  obs : DoorObservation
  played : List Bytes
  stop : Bool
  deriving DecidableEq, Repr

namespace DoorEar

/-- `DoorObservation::default`, and nothing heard. -/
def start : DoorEar where
  obs := {
    capabilityReply := false, answered := false, unlocks := 0, hangups := 0
    audioPackets := 0, audioBytes := 0 }
  played := []
  stop := false

/-- A media message: sound is counted and goes to the speaker. -/
def observeMedia (ear : DoorEar) (m : Message) : DoorEar :=
  match m.media with
  | none => ear
  | some media =>
      if media.mediaType = mediaAudio then
        { ear with
          obs := { ear.obs with
            audioPackets := ear.obs.audioPackets + 1
            audioBytes := ear.obs.audioBytes + media.data.length }
          played := ear.played ++ [media.data] }
      else ear

/-- `observe_reply`. -/
def observeReply (ear : DoorEar) (raw : Bytes) : DoorEar :=
  match Message.parse raw with
  | .error _ => ear
  | .ok m =>
      if m.family ≠ familySession then ear
      else if m.opcode = opReply then { ear with obs := { ear.obs with capabilityReply := true } }
      else if m.opcode = opAnswer then { ear with obs := { ear.obs with answered := true } }
      else if m.opcode = opUnlock then
        { ear with obs := { ear.obs with unlocks := ear.obs.unlocks + 1 } }
      else if m.opcode = opHangup then
        { ear with obs := { ear.obs with hangups := ear.obs.hangups + 1 } }
      else if m.opcode = opMedia then ear.observeMedia m
      else ear

/-- The receiver's own look at a message for the hangup. -/
def isHangup (raw : Bytes) : Bool :=
  match Message.parse raw with
  | .error _ => false
  | .ok m => m.family == familySession && m.opcode == opHangup

/-- One round of the receiver task: each message is observed, and a hangup among them stops
    the sender. -/
def hear (ear : DoorEar) (datagram : Bytes) : DoorEar :=
  let raws := splitCoalesced datagram
  let ear := raws.foldl observeReply ear
  { ear with stop := ear.stop || raws.any isHangup }

/-- The receiver over the datagrams that reach it. -/
def hearAll (ear : DoorEar) (datagrams : List Bytes) : DoorEar := datagrams.foldl hear ear

end DoorEar

/-! ## What a caller notes -/

/-- `CallObservation`, with the receiver's reassembler and its stop signal. -/
structure CallObservation where
  answered : Bool
  jpegFrames : Nat
  audioPackets : Nat
  hangups : Nat
  jpeg : Reassembler
  stop : Bool

namespace CallObservation

/-- `CallObservation::default`, and nothing heard. -/
def start : CallObservation where
  answered := false
  jpegFrames := 0
  audioPackets := 0
  hangups := 0
  jpeg := .default
  stop := false

/-- A media message: sound is counted, and a picture when it is complete. -/
def observeMedia (obs : CallObservation) (m : Message) : CallObservation :=
  match m.media with
  | none => obs
  | some media =>
      if media.mediaType = mediaAudio then { obs with audioPackets := obs.audioPackets + 1 }
      else
        match obs.jpeg.push media with
        | (some _, jpeg) => { obs with jpeg, jpegFrames := obs.jpegFrames + 1 }
        | (none, jpeg) => { obs with jpeg }

/-- The loop body of the receiver task of `run_outbound_call`. -/
def observe (obs : CallObservation) (raw : Bytes) : CallObservation :=
  match Message.parse raw with
  | .error _ => obs
  | .ok m =>
      if m.family ≠ familySession then obs
      else if m.opcode = opAnswer then { obs with answered := true }
      else if m.opcode = opHangup then { obs with hangups := obs.hangups + 1, stop := true }
      else if m.opcode = opMedia then obs.observeMedia m
      else obs

/-- One round of the receiver task. -/
def hear (obs : CallObservation) (datagram : Bytes) : CallObservation :=
  (splitCoalesced datagram).foldl observe obs

/-- The receiver over the datagrams that reach it. -/
def hearAll (obs : CallObservation) (datagrams : List Bytes) : CallObservation :=
  datagrams.foldl hear obs

end CallObservation

/-! ## The sending side -/

/-- Where `run_emulator` stands. -/
inductive EmulatorPc where
  /-- So many pages are still to be sent. -/
  | page (left : Nat)
  | bootstrap
  | build
  /-- So many session requests are still to be sent. -/
  | ring (left : Nat) (request : Bytes)
  /-- The checks at the head of the loop. -/
  | check
  | select
  | bye
  | done
  | failed
  | panicked
  deriving DecidableEq, Repr

/-- What `select!` goes for, and what the step reads from outside. -/
inductive EmulatorTick where
  | frame | audio | keepalive
  /-- The stop signal has changed, or the receiver is gone. -/
  | stopped
  /-- The duration is over. -/
  | deadline
  /-- The socket does not take the datagram. -/
  | refused
  deriving DecidableEq, Repr

structure Emulator where
  endpoints : Endpoints
  media : MediaSource
  pc : EmulatorPc
  /-- The next frame and the next chunk of sound, and their numbers. -/
  fi : Nat
  ai : Nat
  seq : UInt16
  aseq : UInt16
  ear : DoorEar
  deriving DecidableEq, Repr

namespace Emulator

/-- `run_emulator` with its socket connected. -/
def start (endpoints : Endpoints) (media : MediaSource) : Emulator where
  endpoints := endpoints
  media := media
  pc := .page 10
  fi := 0
  ai := 0
  seq := 1
  aseq := 0
  ear := .start

@[simps]
def goto (d : Emulator) (pc : EmulatorPc) : Emulator := { d with pc }

/-- The camera's tick: the next frame goes out, in packets. -/
def sendFrame (d : Emulator) : Option (Emulator × List Bytes) :=
  match d.media.frames[d.fi % d.media.frames.length]? with
  -- Without any frame the index is taken modulo zero.
  | none => some (d.goto .panicked, [])
  | some frame =>
      some ({ d with fi := d.fi + 1, seq := d.seq + 1, pc := .check },
        (jpegPackets d.seq frame d.endpoints).toOption.getD [])

/-- `silence`. -/
def silence : Bytes := List.replicate 512 0

/-- The microphone's tick: nothing before the answer, then the next chunk. -/
def sendAudio (d : Emulator) : Option (Emulator × List Bytes) :=
  if !d.ear.obs.answered then some (d.goto .check, [])
  else
    match d.media.audio[d.ai % d.media.audio.length]? with
    | none =>
        some ({ d with aseq := d.aseq + 1, pc := .check },
          (audioPacket d.aseq silence d.endpoints).toOption.toList)
    | some chunk =>
        some ({ d with ai := d.ai + 1, aseq := d.aseq + 1, pc := .check },
          (audioPacket d.aseq chunk d.endpoints).toOption.toList)

/-- `session_control` to the Pad. -/
def control (d : Emulator) (opcode : UInt32) : List Bytes :=
  (sessionControl opcode d.endpoints).toOption.toList

/-- One step of `run_emulator`, with what it sends. -/
def step (d : Emulator) (tick : EmulatorTick) : Option (Emulator × List Bytes) :=
  match d.pc with
  | .page 0 => some (d.goto .bootstrap, [])
  | .page (left + 1) => some (d.goto (.page left), [pageRequest])
  | .bootstrap => some (d.goto .build, [bootstrapRequest])
  | .build =>
      match sessionRequest d.endpoints with
      | .ok request => some (d.goto (.ring 3 request), [])
      | .error _ => some (d.goto .failed, [])
  | .ring 0 _ => some (d.goto .check, [])
  | .ring (left + 1) request =>
      if tick = .refused then some (d.goto .failed, [])
      else some (d.goto (.ring left request), [request])
  | .check =>
      if d.ear.stop || tick == .deadline then some (d.goto .bye, []) else some (d.goto .select, [])
  | .select =>
      match tick with
      | .frame => d.sendFrame
      | .audio => d.sendAudio
      | .keepalive => some (d.goto .check, d.control opKeepalive)
      | .stopped => some (d.goto .check, [])
      | .deadline | .refused => none
  | .bye => some (d.goto .done, d.control opHangup)
  | .done => none
  | .failed => none
  | .panicked => none

/-- The receiver runs until the sender is done and aborts it. -/
def hear (d : Emulator) (datagram : Bytes) : Emulator :=
  match d.pc with
  | .done => d
  | _ => { d with ear := d.ear.hear datagram }

end Emulator

end Michoi
