/-
  Everything one step of a household can do, said once.

  `MonitorStep`, `DialStep` and the rest have one constructor for each way a step of the
  handler can go, with what it checked and what it changed. `HouseStep` puts them together:
  a message of the wire is one kind of step, whether the receive loop of `tap` mode or a
  datagram of `pad` mode hands it on (`HouseTask.wirePc`). The invariants of the modules
  after this one are proved by cases on `HouseStep`.
-/
import Michoi.Household
import Michoi.Task.Frame

namespace Michoi

open Lib

variable {W : Type} {env : HouseEnv} {h h' : Household W}

/-! ## Viewing a camera -/

/-- What a step of `start_monitor_now` or of its task can do. -/
inductive MonitorStep (env : HouseEnv) (h : Household W) (cameraId : String) :
    MonitorPc → Household W → MonitorPc → Prop where
  | busy (hp : h.agent.call.machine.state.phase ≠ .idle) :
      MonitorStep env h cameraId .check h (.failed .padOwnsCall)
  | idle (hp : h.agent.call.machine.state.phase = .idle) :
      MonitorStep env h cameraId .check h .resolve
  | unresolved : MonitorStep env h cameraId .resolve h (.failed .agentOffline)
  | resolved {camera} : MonitorStep env h cameraId .resolve h (.replace camera)
  | replace {camera} :
      MonitorStep env h cameraId (.replace camera) (h.withAgent h.agent.stopMonitorNow)
        (.install camera)
  | install {camera} :
      MonitorStep env h cameraId (.install camera) (h.installMonitor camera)
        (.publish h.nextSignal camera)
  | publish {signal camera} :
      MonitorStep env h cameraId (.publish signal camera)
        (h.withAgent (h.agent.publish env.toEnv (.monitorStarted cameraId)))
        (.connect signal camera)
  | unconnected {signal camera reason} :
      MonitorStep env h cameraId (.connect signal camera) h (.cleanup signal camera reason)
  | connected {signal camera ourIp} :
      MonitorStep env h cameraId (.connect signal camera) h (.identify signal camera ourIp)
  | unpacked {signal camera ourIp reason} :
      MonitorStep env h cameraId (.identify signal camera ourIp) h
        (.cleanup signal camera reason)
  | packed {signal camera ourIp block packet}
      (hp : monitorRequest ⟨h.agent.peers.room.id, ourIp⟩ camera = .ok packet) :
      MonitorStep env h cameraId (.identify signal camera ourIp) h
        (.request signal camera block packet)
  | request {signal camera block packet} :
      MonitorStep env h cameraId (.request signal camera block packet)
        (h.send env signal packet) (.watch signal camera block)
  | tick {signal camera block} :
      MonitorStep env h cameraId (.watch signal camera block)
        (h.send env signal (packet familyMonitor opKeepalive 80 block))
        (.watch signal camera block)
  | cancelled {signal camera block} (hc : signal ∈ h.agent.cancelled) :
      MonitorStep env h cameraId (.watch signal camera block) h (.bye signal camera block)
  | bye {signal camera block} :
      MonitorStep env h cameraId (.bye signal camera block)
        (h.send env signal (packet familyMonitor opHangup 80 block))
        (.cleanup signal camera "stopped")
  | cleanup {signal camera reason} :
      MonitorStep env h cameraId (.cleanup signal camera reason) h.dropMonitor
        (.stopped camera reason)
  | stopped {camera reason} :
      MonitorStep env h cameraId (.stopped camera reason)
        (h.withAgent (h.agent.publish env.toEnv (.monitorStopped camera.id reason))) .done

theorem monitorStep_cases {cameraId : String} {pc pc' : MonitorPc}
    (hs : monitorStep env h cameraId pc = some (h', pc')) :
    MonitorStep env h cameraId pc h' pc' := by
  cases pc with
  | check =>
      unfold monitorStep at hs
      dsimp only at hs
      split at hs
      · next hp => cases hs; exact .busy hp
      · next hp => cases hs; exact .idle (not_not.mp hp)
  | resolve =>
      unfold monitorStep at hs
      dsimp only at hs
      split at hs
      · cases hs; exact .unresolved
      · cases hs; exact .resolved
  | replace => cases hs; exact .replace
  | install => cases hs; exact .install
  | publish => cases hs; exact .publish
  | connect =>
      unfold monitorStep at hs
      dsimp only at hs
      split at hs
      · cases hs; exact .unconnected
      · split at hs
        · cases hs; exact .unconnected
        · cases hs; exact .connected
  | identify =>
      unfold monitorStep at hs
      dsimp only at hs
      split at hs
      · cases hs; exact .unpacked
      · cases hs; exact .unpacked
      · next hp => cases hs; exact .packed hp
  | request => cases hs; exact .request
  | watch =>
      unfold monitorStep at hs
      dsimp only at hs
      split at hs
      · cases hs; exact .tick
      · split at hs
        · next hc => cases hs; exact .cancelled hc
        · cases hs
  | bye => cases hs; exact .bye
  | cleanup => cases hs; exact .cleanup
  | stopped => cases hs; exact .stopped
  | done => cases hs
  | failed => cases hs

/-! ## Calling another station -/

/-- What a step of `dial_now` or of its task can do. -/
inductive DialStep (env : HouseEnv) (h : Household W) (calleeId : String) :
    DialPc → Household W → DialPc → Prop where
  | busy (hp : h.agent.call.machine.state.phase ≠ .idle) :
      DialStep env h calleeId .checkIdle h (.failed .padOwnsCall)
  | idle (hp : h.agent.call.machine.state.phase = .idle) :
      DialStep env h calleeId .checkIdle h .checkSlots
  | taken : DialStep env h calleeId .checkSlots h (.failed .padOwnsCall)
  | free (hm : h.agent.monitor = none) (hc : h.agent.callSession = none) :
      DialStep env h calleeId .checkSlots h .expand
  | panic : DialStep env h calleeId .expand h .panicked
  | expanded {id} : DialStep env h calleeId .expand h (.resolve id)
  | unresolved {id} : DialStep env h calleeId (.resolve id) h (.failed .calleeUnreachable)
  | resolved {id callee} : DialStep env h calleeId (.resolve id) h (.connect callee)
  | unconnected {callee} :
      DialStep env h calleeId (.connect callee) h (.failed .agentOffline)
  | connected {callee ourIp} :
      DialStep env h calleeId (.connect callee) { h with nextSignal := h.nextSignal + 1 }
        (.identify h.nextSignal callee ourIp)
  | identify {signal callee ourIp} :
      DialStep env h calleeId (.identify signal callee ourIp) h
        (.setup signal ⟨⟨h.agent.peers.room.id, ourIp⟩, callee⟩
          (setupPackets ⟨⟨h.agent.peers.room.id, ourIp⟩, callee⟩))
  | setup {signal e packet packets} :
      DialStep env h calleeId (.setup signal e (packet :: packets)) (h.send env signal packet)
        (.setup signal e packets)
  | setUp {signal e} : DialStep env h calleeId (.setup signal e []) h (.install signal e)
  | install {signal e} :
      DialStep env h calleeId (.install signal e) (h.installCall signal e) (.publish signal e)
  | publish {signal e} :
      DialStep env h calleeId (.publish signal e)
        (h.withAgent (h.agent.publish env.toEnv (.dialing e.room.id))) (.watch signal e)
  | tick {signal e packet} (hp : sessionControl opKeepalive e = .ok packet) :
      DialStep env h calleeId (.watch signal e) (h.send env signal packet) (.watch signal e)
  | tickUnpacked {signal e} : DialStep env h calleeId (.watch signal e) h (.watch signal e)
  | cancelled {signal e} (hc : signal ∈ h.agent.cancelled) :
      DialStep env h calleeId (.watch signal e) h (.bye signal e)
  | bye {signal e packet} (hp : sessionControl opHangup e = .ok packet) :
      DialStep env h calleeId (.bye signal e) (h.send env signal packet) .done
  | byeUnpacked {signal e} : DialStep env h calleeId (.bye signal e) h .done

theorem dialStep_cases {calleeId : String} {pc pc' : DialPc}
    (hs : dialStep env h calleeId pc = some (h', pc')) :
    DialStep env h calleeId pc h' pc' := by
  cases pc with
  | checkIdle =>
      unfold dialStep at hs
      dsimp only at hs
      split at hs
      · next hp => cases hs; exact .busy hp
      · next hp => cases hs; exact .idle (not_not.mp hp)
  | checkSlots =>
      unfold dialStep at hs
      dsimp only at hs
      split at hs
      · cases hs; exact .taken
      · next hp =>
          cases hs
          rw [Bool.or_eq_true, not_or] at hp
          exact .free (Option.not_isSome_iff_eq_none.mp hp.1)
            (Option.not_isSome_iff_eq_none.mp hp.2)
  | expand =>
      unfold dialStep at hs
      dsimp only at hs
      split at hs
      · cases hs; exact .expanded
      · cases hs; exact .panic
  | resolve =>
      unfold dialStep at hs
      dsimp only at hs
      split at hs
      · cases hs; exact .unresolved
      · cases hs; exact .resolved
  | connect =>
      unfold dialStep at hs
      dsimp only at hs
      split at hs
      · cases hs; exact .unconnected
      · cases hs; exact .connected
  | identify => cases hs; exact .identify
  | setup signal e packets =>
      cases packets with
      | nil => cases hs; exact .setUp
      | cons packet packets => cases hs; exact .setup
  | install => cases hs; exact .install
  | publish => cases hs; exact .publish
  | watch =>
      unfold dialStep at hs
      dsimp only at hs
      split at hs
      · split at hs
        · next hp => cases hs; exact .tick hp
        · cases hs; exact .tickUnpacked
      · split at hs
        · next hc => cases hs; exact .cancelled hc
        · cases hs
  | bye =>
      unfold dialStep at hs
      dsimp only at hs
      split at hs
      · next hp => cases hs; exact .bye hp
      · cases hs; exact .byeUnpacked
  | done => cases hs
  | failed => cases hs
  | panicked => cases hs

/-- What a step of `hangup_call` can do. -/
inductive HangupStep (env : HouseEnv) (h : Household W) :
    HangupPc → Household W → HangupPc → Prop where
  | nothing (hc : h.agent.callSession = none) : HangupStep env h .take h (.done false)
  | take {handle} (hc : h.agent.callSession = some handle) :
      HangupStep env h .take (h.withAgent h.agent.takeCallSession.2) (.publish handle.callee)
  | publish {callee : Station} :
      HangupStep env h (.publish callee)
        (h.withAgent (h.agent.publish env.toEnv (.callHungUp callee.id "local_hangup")))
        (.done true)

theorem hangupStep_cases {pc pc' : HangupPc} (hs : hangupStep env h pc = some (h', pc')) :
    HangupStep env h pc h' pc' := by
  cases pc with
  | take =>
      cases hc : h.agent.callSession with
      | none =>
          have hnone : HangupStep env h .take h (.done false) := .nothing hc
          unfold hangupStep Agent.takeCallSession at hs
          rw [hc] at hs
          cases hs
          exact hnone
      | some handle =>
          have htake : HangupStep env h .take (h.withAgent h.agent.takeCallSession.2)
              (.publish handle.callee) := .take hc
          unfold hangupStep at hs
          unfold Agent.takeCallSession at hs htake
          rw [hc] at hs htake
          cases hs
          exact htake
  | publish => cases hs; exact .publish
  | done => cases hs

/-! ## Talking -/

section

variable [Wire W]

/-- What a step of `talk` can do. -/
inductive TalkStep (env : HouseEnv) (h : Household W) (pcm : Bytes) :
    TalkPc → Household W → TalkPc → Prop where
  | noCall (hc : h.agent.callSession = none) : TalkStep env h pcm .call h .check
  | noLine {handle} (hc : h.agent.callSession = some handle)
      (hl : h.lines handle.cancel = none) :
      TalkStep env h pcm .call h (.sending handle.cancel [])
  | onCall {handle line} (hc : h.agent.callSession = some handle)
      (hl : h.lines handle.cancel = some line) :
      TalkStep env h pcm .call
        { h with
          lines := Function.update h.lines handle.cancel
            (some (line.audioPackets (chunks 512 pcm)).2) }
        (.sending handle.cancel (line.audioPackets (chunks 512 pcm)).1)
  | sent {signal} : TalkStep env h pcm (.sending signal []) h (.done (.ok ()))
  | sending {signal packet packets} :
      TalkStep env h pcm (.sending signal (packet :: packets)) (h.send env signal packet)
        (.sending signal packets)
  | allowed : TalkStep env h pcm .check h .readPeers
  | refused : TalkStep env h pcm .check h (.done (.error .unlockNotAllowed))
  | noDoor : TalkStep env h pcm .readPeers h (.done (.error .agentOffline))
  | peers {e} : TalkStep env h pcm .readPeers h (.number h.agent.peers e (chunks 512 pcm))
  | numbered {peers e} : TalkStep env h pcm (.number peers e []) h (.done (.ok ()))
  | unpacked {peers e frame frames} :
      TalkStep env h pcm (.number peers e (frame :: frames))
        { h with audioSeq := h.audioSeq + 1 } (.done (.error .agentOffline))
  | number {peers e frame frames packet}
      (hp : audioPacket h.audioSeq.toUInt16 (resize frame 512) e = .ok packet) :
      TalkStep env h pcm (.number peers e (frame :: frames))
        { h with audioSeq := h.audioSeq + 1 } (.send peers e packet frames)
  | send {peers e packet frames}
      (hok : (Wire.sendAsPad h.agent.wire env.send packet peers).1 = .ok ()) :
      TalkStep env h pcm (.send peers e packet frames)
        (h.withAgent (h.agent.sendAsPad env.toEnv packet peers).2) (.number peers e frames)
  | sendFailed {peers e packet frames}
      (hfail : (Wire.sendAsPad h.agent.wire env.send packet peers).1 ≠ .ok ()) :
      TalkStep env h pcm (.send peers e packet frames)
        (h.withAgent (h.agent.sendAsPad env.toEnv packet peers).2)
        (.done (.error .agentOffline))

theorem talkStep_cases {pcm : Bytes} {pc pc' : TalkPc}
    (hs : talkStep env h pcm pc = some (h', pc')) : TalkStep env h pcm pc h' pc' := by
  cases pc with
  | call =>
      unfold talkStep at hs
      dsimp only at hs
      split at hs
      · next hc => cases hs; exact .noCall hc
      · next hc =>
          split at hs
          · next hl => cases hs; exact .noLine hc hl
          · next hl => cases hs; exact .onCall hc hl
  | sending signal packets =>
      cases packets with
      | nil => cases hs; exact .sent
      | cons packet packets => cases hs; exact .sending
  | check =>
      unfold talkStep at hs
      dsimp only at hs
      split at hs
      · cases hs; exact .allowed
      · cases hs; exact .refused
  | readPeers =>
      unfold talkStep at hs
      dsimp only at hs
      split at hs
      · cases hs; exact .noDoor
      · cases hs; exact .peers
  | number peers e frames =>
      cases frames with
      | nil => cases hs; exact .numbered
      | cons frame frames =>
          unfold talkStep at hs
          dsimp only at hs
          split at hs
          · cases hs; exact .unpacked
          · next hp => cases hs; exact .number hp
  | send peers e packet frames =>
      have hresult {result : WireResult} {agent : Agent W}
          (hr : h.agent.sendAsPad env.toEnv packet peers = (result, agent)) :
          (Wire.sendAsPad h.agent.wire env.send packet peers).1 = result ∧
            (h.agent.sendAsPad env.toEnv packet peers).2 = agent :=
        ⟨congrArg Prod.fst hr, congrArg Prod.snd hr⟩
      unfold talkStep at hs
      dsimp only at hs
      split at hs
      · next hr =>
          obtain ⟨hok, rfl⟩ := hresult hr
          cases hs
          exact .send hok
      · next hr =>
          obtain ⟨herror, rfl⟩ := hresult hr
          cases hs
          exact .sendFailed (by rw [herror]; nofun)
  | done => cases hs

omit [Wire W] in
/-- What a step of `talk_video` can do. -/
inductive VideoStep (env : HouseEnv) (h : Household W) (jpeg : Bytes) :
    VideoPc → Household W → VideoPc → Prop where
  | nothing : VideoStep env h jpeg .call h .done
  | numbered {handle line pc'} (hc : h.agent.callSession = some handle)
      (ha : handle.answered = true) (hl : h.lines handle.cancel = some line)
      (hpc : pc' = .done ∨ ∃ packets, pc' = .sending handle.cancel packets) :
      VideoStep env h jpeg .call
        { h with
          lines := Function.update h.lines handle.cancel
            (some { line with vseq := line.vseq + 1 }) } pc'
  | sent {signal} : VideoStep env h jpeg (.sending signal []) h .done
  | sending {signal packet packets} :
      VideoStep env h jpeg (.sending signal (packet :: packets)) (h.send env signal packet)
        (.sending signal packets)

omit [Wire W] in
theorem videoStep_cases {jpeg : Bytes} {pc pc' : VideoPc}
    (hs : videoStep env h jpeg pc = some (h', pc')) : VideoStep env h jpeg pc h' pc' := by
  cases pc with
  | call =>
      unfold videoStep at hs
      dsimp only at hs
      split at hs
      · cases hs; exact .nothing
      · next hc =>
          split at hs
          · next ha =>
              split at hs
              · cases hs; exact .nothing
              · next hl =>
                  split at hs
                  · cases hs; exact .numbered hc ha hl (.inr ⟨_, rfl⟩)
                  · cases hs; exact .numbered hc ha hl (.inl rfl)
          · cases hs; exact .nothing
  | sending signal packets =>
      cases packets with
      | nil => cases hs; exact .sent
      | cons packet packets => cases hs; exact .sending
  | done => cases hs

/-! ## The keepalive and the receive loop of `pad` mode -/

/-- What a step of `send_keepalive` can do. -/
inductive KeepaliveStep (env : HouseEnv) (h : Household W) :
    KeepalivePc → Household W → KeepalivePc → Prop where
  | readPeers : KeepaliveStep env h .readPeers h (.check h.agent.peers)
  | nothing {peers} : KeepaliveStep env h (.check peers) h .done
  | active {peers packet} : KeepaliveStep env h (.check peers) h (.send peers packet)
  | send {peers packet} :
      KeepaliveStep env h (.send peers packet)
        (h.withAgent (h.agent.sendAsPad env.toEnv packet peers).2) .done

theorem keepaliveStep_cases {pc pc' : KeepalivePc}
    (hs : keepaliveStep env h pc = some (h', pc')) : KeepaliveStep env h pc h' pc' := by
  cases pc with
  | readPeers => cases hs; exact .readPeers
  | check =>
      unfold keepaliveStep at hs
      dsimp only at hs
      split at hs
      · cases hs; exact .nothing
      · split at hs
        · cases hs; exact .active
        · cases hs; exact .nothing
        · cases hs; exact .nothing
  | send => cases hs; exact .send
  | done => cases hs

/-- What a step of a round of `UdpWire::run` can do, its `on_wire` calls apart. -/
inductive DatagramStep (env : HouseEnv) (h : Household W) (sender : SocketAddr)
    (payload : Bytes) : DatagramPc → Household W → DatagramPc → Prop where
  | received {pc'} (hpc : (∃ ip, sender.ip = .v4 ip ∧ pc' = .learnRoom ip) ∨
        (∃ ip, sender.ip = .v6 ip) ∧ pc' = .messages (splitCoalesced payload)) :
      DatagramStep env h sender payload .received
        (h.withAgent (h.agent.withWire (Wire.noteSender h.agent.wire sender))) pc'
  | learnRoom {doorIp ip} :
      DatagramStep env h sender payload (.learnRoom doorIp)
        (h.withAgent (h.agent.setRoomIpIfUnset ip)) (.learnDoor doorIp)
  | noAddress {doorIp} :
      DatagramStep env h sender payload (.learnRoom doorIp) h (.learnDoor doorIp)
  | learnDoor {doorIp} :
      DatagramStep env h sender payload (.learnDoor doorIp)
        (h.withAgent (h.agent.learnAddress .door doorIp).2) (.messages (splitCoalesced payload))
  | noMessage : DatagramStep env h sender payload (.messages []) h .done
  | message {raw rest} :
      DatagramStep env h sender payload (.messages (raw :: rest)) h
        (.onWire (.received .door raw) rest)
  | handled {rest} : DatagramStep env h sender payload (.onWire .done rest) h (.messages rest)

theorem datagramStep_cases {sender : SocketAddr} {payload : Bytes} {pc pc' : DatagramPc}
    (hs : datagramStep env h sender payload pc = some (h', pc')) :
    DatagramStep env h sender payload pc h' pc' ∨
      ∃ wpc a wpc' rest, pc = .onWire wpc rest ∧ pc' = .onWire wpc' rest ∧
        wireStep env.toEnv h.agent wpc = some (a, wpc') ∧ h' = h.withAgent a := by
  cases pc with
  | received =>
      unfold datagramStep at hs
      dsimp only at hs
      split at hs
      · next ip hip => cases hs; exact .inl (.received (.inl ⟨ip, hip, rfl⟩))
      · next ip hip => cases hs; exact .inl (.received (.inr ⟨⟨ip, hip⟩, rfl⟩))
  | learnRoom =>
      unfold datagramStep at hs
      dsimp only at hs
      split at hs
      · cases hs; exact .inl .learnRoom
      · cases hs; exact .inl .noAddress
  | learnDoor => cases hs; exact .inl .learnDoor
  | messages rest =>
      cases rest with
      | nil => cases hs; exact .inl .noMessage
      | cons raw rest => cases hs; exact .inl .message
  | onWire pc rest =>
      by_cases hpc : pc = .done
      · subst hpc
        cases hs
        exact .inl .handled
      · unfold datagramStep at hs
        split at hs
        · next heq => cases heq
        · next heq => cases heq
        · next heq => cases heq
        · next heq => cases heq
        · next heq => cases heq
        · next heq => cases heq; exact absurd rfl hpc
        · next heq =>
            cases heq
            obtain ⟨⟨a, pc'⟩, hw, he⟩ := Option.map_eq_some_iff.mp hs
            obtain ⟨rfl, rfl⟩ := Prod.mk.inj he
            exact .inr ⟨pc, a, pc', rest, rfl, rfl, hw, rfl⟩
        · next heq => cases heq
  | done => cases hs

/-! ## Any handler -/

omit [Wire W] in
/-- Where in `on_wire` the handler stands. -/
def HouseTask.wirePc : HouseTask → Option WirePc
  | agent (.wire pc) => some pc
  | datagram _ _ (.onWire pc _) => some pc
  | _ => none

/-- What a step of any handler can do. -/
inductive HouseStep (env : HouseEnv) (h : Household W) :
    HouseTask → Household W → HouseTask → Prop where
  | wire {t t' pc a pc'} (ht : t.wirePc = some pc) (ht' : t'.wirePc = some pc')
      (hs : wireStep env.toEnv h.agent pc = some (a, pc')) :
      HouseStep env h t (h.withAgent a) t'
  | command {action commandId pc a pc'}
      (hs : CommandStep env.toEnv h.agent action commandId pc a pc') :
      HouseStep env h (.agent (.command action commandId pc)) (h.withAgent a)
        (.agent (.command action commandId pc'))
  | elevator {commandId room pc a pc'}
      (hs : ElevatorStep env.toEnv h.agent commandId room pc a pc') :
      HouseStep env h (.agent (.elevator commandId room pc)) (h.withAgent a)
        (.agent (.elevator commandId room pc'))
  | monitor {cameraId pc h' pc'} (hs : MonitorStep env h cameraId pc h' pc') :
      HouseStep env h (.startMonitor cameraId pc) h' (.startMonitor cameraId pc')
  | stop {pc'} :
      HouseStep env h (.stopMonitor .take) (h.withAgent h.agent.stopMonitorNow)
        (.stopMonitor pc')
  | dial {calleeId pc h' pc'} (hs : DialStep env h calleeId pc h' pc') :
      HouseStep env h (.dial calleeId pc) h' (.dial calleeId pc')
  | hangup {pc h' pc'} (hs : HangupStep env h pc h' pc') :
      HouseStep env h (.hangupCall pc) h' (.hangupCall pc')
  | talk {pcm pc h' pc'} (hs : TalkStep env h pcm pc h' pc') :
      HouseStep env h (.talk pcm pc) h' (.talk pcm pc')
  | video {jpeg pc h' pc'} (hs : VideoStep env h jpeg pc h' pc') :
      HouseStep env h (.talkVideo jpeg pc) h' (.talkVideo jpeg pc')
  | keepalive {pc h' pc'} (hs : KeepaliveStep env h pc h' pc') :
      HouseStep env h (.keepalive pc) h' (.keepalive pc')
  | datagram {sender payload pc h' pc'} (hs : DatagramStep env h sender payload pc h' pc') :
      HouseStep env h (.datagram sender payload pc) h' (.datagram sender payload pc')

theorem houseStep_cases {t t' : HouseTask} (hs : t.step env h = some (h', t')) :
    HouseStep env h t h' t' := by
  cases t with
  | agent t =>
      obtain ⟨⟨a, u⟩, hu, he⟩ := Option.map_eq_some_iff.mp hs
      obtain ⟨rfl, rfl⟩ := Prod.mk.inj he
      cases t with
      | command action commandId pc =>
          obtain ⟨pc', rfl, hc⟩ := step_command hu
          exact .command hc
      | elevator commandId room pc =>
          obtain ⟨pc', rfl, hc⟩ := step_elevator hu
          exact .elevator hc
      | wire pc =>
          obtain ⟨⟨a', pc'⟩, hw, he⟩ := Option.map_eq_some_iff.mp hu
          obtain ⟨rfl, rfl⟩ := Prod.mk.inj he
          exact .wire rfl rfl hw
  | startMonitor cameraId pc =>
      obtain ⟨⟨q, pc'⟩, hq, he⟩ := Option.map_eq_some_iff.mp hs
      obtain ⟨rfl, rfl⟩ := Prod.mk.inj he
      exact .monitor (monitorStep_cases hq)
  | stopMonitor pc =>
      obtain ⟨⟨q, pc'⟩, hq, he⟩ := Option.map_eq_some_iff.mp hs
      obtain ⟨rfl, rfl⟩ := Prod.mk.inj he
      cases pc with
      | take => cases hq; exact .stop
      | done => cases hq
  | dial calleeId pc =>
      obtain ⟨⟨q, pc'⟩, hq, he⟩ := Option.map_eq_some_iff.mp hs
      obtain ⟨rfl, rfl⟩ := Prod.mk.inj he
      exact .dial (dialStep_cases hq)
  | hangupCall pc =>
      obtain ⟨⟨q, pc'⟩, hq, he⟩ := Option.map_eq_some_iff.mp hs
      obtain ⟨rfl, rfl⟩ := Prod.mk.inj he
      exact .hangup (hangupStep_cases hq)
  | talk pcm pc =>
      obtain ⟨⟨q, pc'⟩, hq, he⟩ := Option.map_eq_some_iff.mp hs
      obtain ⟨rfl, rfl⟩ := Prod.mk.inj he
      exact .talk (talkStep_cases hq)
  | talkVideo jpeg pc =>
      obtain ⟨⟨q, pc'⟩, hq, he⟩ := Option.map_eq_some_iff.mp hs
      obtain ⟨rfl, rfl⟩ := Prod.mk.inj he
      exact .video (videoStep_cases hq)
  | keepalive pc =>
      obtain ⟨⟨q, pc'⟩, hq, he⟩ := Option.map_eq_some_iff.mp hs
      obtain ⟨rfl, rfl⟩ := Prod.mk.inj he
      exact .keepalive (keepaliveStep_cases hq)
  | datagram sender payload pc =>
      obtain ⟨⟨q, pc'⟩, hq, he⟩ := Option.map_eq_some_iff.mp hs
      obtain ⟨rfl, rfl⟩ := Prod.mk.inj he
      rcases datagramStep_cases hq with hd | ⟨wpc, a, wpc', rest, rfl, rfl, hw, rfl⟩
      · exact .datagram hd
      · exact .wire rfl rfl hw

omit [Wire W] in
theorem HouseTask.fresh_of_mayStart {mode : AgentMode} {tasks : List HouseTask} {t : HouseTask}
    (h : t.mayStart mode tasks = true) : t.fresh = true :=
  (Bool.and_eq_true_iff.mp (Bool.and_eq_true_iff.mp h).1).1

/-! ## The slots of the Agent's own sessions -/

omit [Wire W] in
/-- Neither slot has changed, and no signal was sent. -/
structure SameSlots (a a' : Agent W) : Prop where
  monitor : a'.monitor = a.monitor
  callSession : a'.callSession = a.callSession
  cancelled : a'.cancelled = a.cancelled

omit [Wire W] in
theorem learning_slots (a : Agent W) (l : Learning) :
    (l.act a).call = a.call ∧ SameSlots a (l.act a) := by
  cases l <;> exact ⟨rfl, rfl, rfl, rfl⟩

section

variable {env : Env} {a a' : Agent W}

theorem commandStep_slots {action : CallAction} {commandId : String} {pc pc' : CommandPc}
    (hs : CommandStep env a action commandId pc a' pc') : SameSlots a a' := by
  cases hs with
  | notify =>
      unfold Agent.notify
      cases action <;> exact ⟨rfl, rfl, rfl⟩
  | _ => exact ⟨rfl, rfl, rfl⟩

omit [Wire W] in
theorem elevatorStep_slots {commandId : String} {room : Option String} {pc pc' : ElevatorPc}
    (hs : ElevatorStep env a commandId room pc a' pc') : SameSlots a a' := by
  cases hs <;> exact ⟨rfl, rfl, rfl⟩

section

omit [Wire W]

theorem stopMonitorNow_call (a : Agent W) : a.stopMonitorNow.call = a.call := by
  unfold Agent.stopMonitorNow
  split <;> rfl

theorem stopMonitorNow_monitor (a : Agent W) : a.stopMonitorNow.monitor = none := by
  unfold Agent.stopMonitorNow
  split
  · next h => exact h
  · rfl

theorem stopMonitorNow_callSession (a : Agent W) :
    a.stopMonitorNow.callSession = a.callSession := by
  unfold Agent.stopMonitorNow
  split <;> rfl

theorem takeCallSession_call (a : Agent W) : a.takeCallSession.2.call = a.call := by
  unfold Agent.takeCallSession
  split <;> rfl

theorem takeCallSession_monitor (a : Agent W) : a.takeCallSession.2.monitor = a.monitor := by
  unfold Agent.takeCallSession
  split <;> rfl

theorem takeCallSession_callSession (a : Agent W) : a.takeCallSession.2.callSession = none := by
  unfold Agent.takeCallSession
  split
  · next h => exact h
  · rfl

theorem outboundAnswered_monitor (a : Agent W) (env : Env) :
    (a.outboundAnswered env).monitor = a.monitor := by
  unfold Agent.outboundAnswered
  split
  · rfl
  · split <;> rfl

theorem outboundAnswered_none {a : Agent W} (env : Env) (h : a.callSession = none) :
    (a.outboundAnswered env).callSession = none := by
  unfold Agent.outboundAnswered
  rw [h]
  exact h

/-- An answer leaves the call that was set. -/
theorem outboundAnswered_handle {a : Agent W} {env : Env} {c : CallHandle}
    (hc : c ∈ (a.outboundAnswered env).callSession) :
    ∃ c₀ ∈ a.callSession, c₀.cancel = c.cancel := by
  unfold Agent.outboundAnswered at hc
  split at hc
  · next hnone => rw [hnone] at hc; cases hc
  · next c₀ hsome =>
      refine ⟨c₀, hsome, ?_⟩
      split at hc
      · rw [hsome] at hc
        exact congrArg CallHandle.cancel (Option.some.inj hc)
      · obtain rfl := Option.some.inj hc
        rfl

theorem outboundAnswered_cancelled (a : Agent W) (env : Env) :
    (a.outboundAnswered env).cancelled = a.cancelled := by
  unfold Agent.outboundAnswered
  split
  · rfl
  · split <;> rfl

theorem stopMonitorNow_cancelled (a : Agent W) : a.stopMonitorNow.cancelled =
    a.cancelled ++ (a.monitor.map MonitorHandle.cancel).toList := by
  unfold Agent.stopMonitorNow
  split
  · next h => rw [h]; exact (List.append_nil _).symm
  · next h => rw [h]; rfl

theorem takeCallSession_cancelled (a : Agent W) : a.takeCallSession.2.cancelled =
    a.cancelled ++ (a.callSession.map CallHandle.cancel).toList := by
  unfold Agent.takeCallSession
  split
  · next h => rw [h]; exact (List.append_nil _).symm
  · next h => rw [h]; rfl

end

/-- What `on_wire` does to the slots. -/
theorem wireStep_slots {pc pc' : WirePc} (hs : wireStep env a pc = some (a', pc')) :
    SameSlots a a' ∨ pc = .stopMonitor ∧ a' = a.stopMonitorNow ∨
      pc = .outboundAnswered ∧ a' = a.outboundAnswered env ∨
        pc = .outboundHangup ∧ a' = a.takeCallSession.2 := by
  cases pc with
  | stopMonitor => cases hs; exact .inr (.inl ⟨rfl, rfl⟩)
  | outboundAnswered => cases hs; exact .inr (.inr (.inl ⟨rfl, rfl⟩))
  | outboundHangup =>
      refine .inr (.inr (.inr ⟨rfl, ?_⟩))
      unfold wireStep at hs
      dsimp only at hs
      split at hs
      · next heq => cases hs; rw [heq]
      · next heq => cases hs; rw [heq]
  | received | outboundCheck | bootstrapReply | ringReply | wakeElevator | callEnd | publish =>
      left
      unfold wireStep at hs
      dsimp only at hs
      repeat' split at hs
      all_goals
        cases hs
        exact ⟨rfl, rfl, rfl⟩
  | bootstrap | padUnlock =>
      left
      unfold wireStep at hs
      dsimp only at hs
      split at hs <;> cases hs <;> exact ⟨rfl, rfl, rfl⟩
  | feed media =>
      cases hs
      left
      unfold Agent.feed
      split
      · exact ⟨rfl, rfl, rfl⟩
      · split <;> exact ⟨rfl, rfl, rfl⟩
  | accept side message e =>
      left
      unfold wireStep Agent.acceptEndpoints at hs
      dsimp only at hs
      split at hs <;> next heq =>
        obtain ⟨-, rfl⟩ := Prod.mk.inj heq
        cases hs
        exact ⟨rfl, rfl, rfl⟩
  | ringStart | padAnswer | hangup =>
      left
      unfold wireStep at hs
      dsimp only at hs
      split at hs <;> cases hs <;> exact ⟨rfl, rfl, rfl⟩
  | done => cases hs

end

end

/-! ## A household to try things on -/

/-- Discovery has found the station. -/
def found : HouseEnv := { resolved := some ⟨192, 168, 124, 3⟩ }

/-- The moves of a handler that is called and then runs `n` steps alone. -/
def serve (i : Nat) (t : HouseTask) (n : Nat) : List HouseMove :=
  .start t :: List.replicate n (.step i found)

end Michoi
