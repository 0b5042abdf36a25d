/-
  Which calls of its wire a handler makes.

  `Recorded W` is the wire `W` that writes its calls down. `onWire_mapWire` shows that
  `on_wire` treats all wires alike: it commutes with every map of wires that respects
  their calls. Forgetting the record is such a map, so a recorded Agent does what the
  Agent does (`onWire_recorded`), and `wireCalls` are the calls it makes on the way.
-/
import Michoi.Agent

namespace Michoi

inductive WireCall where
  | handshakeReply (payload : Bytes) (peers : Peers)
  | sendAsPad (payload : Bytes) (peers : Peers)
  | onRemoteClaim (peers : Peers)
  | onCallEnd (peers : Peers)
  deriving DecidableEq, Repr

structure Recorded (W : Type) where
  wire : W
  calls : List WireCall

instance (W : Type) [Wire W] : Wire (Recorded W) where
  handshakeReply w outcome payload peers :=
    let r := Wire.handshakeReply w.wire outcome payload peers
    (r.1, ⟨r.2, w.calls ++ [.handshakeReply payload peers]⟩)
  sendAsPad w outcome payload peers :=
    let r := Wire.sendAsPad w.wire outcome payload peers
    (r.1, ⟨r.2, w.calls ++ [.sendAsPad payload peers]⟩)
  onRemoteClaim w outcome peers :=
    ⟨Wire.onRemoteClaim w.wire outcome peers, w.calls ++ [.onRemoteClaim peers]⟩
  onCallEnd w peers := ⟨Wire.onCallEnd w.wire peers, w.calls ++ [.onCallEnd peers]⟩
  noteSender w sender := ⟨Wire.noteSender w.wire sender, w.calls⟩

/-- A map of wires that respects the calls. -/
structure WireMap {W W' : Type} [Wire W] [Wire W'] (f : W → W') : Prop where
  handshakeReply : ∀ w outcome payload peers, Wire.handshakeReply (f w) outcome payload peers =
    ((Wire.handshakeReply w outcome payload peers).1,
      f (Wire.handshakeReply w outcome payload peers).2)
  sendAsPad : ∀ w outcome payload peers, Wire.sendAsPad (f w) outcome payload peers =
    ((Wire.sendAsPad w outcome payload peers).1, f (Wire.sendAsPad w outcome payload peers).2)
  onRemoteClaim : ∀ w outcome peers,
    Wire.onRemoteClaim (f w) outcome peers = f (Wire.onRemoteClaim w outcome peers)
  onCallEnd : ∀ w peers, Wire.onCallEnd (f w) peers = f (Wire.onCallEnd w peers)

/-- Forgetting the record. -/
theorem WireMap.recorded (W : Type) [Wire W] : WireMap (Recorded.wire : Recorded W → W) where
  handshakeReply _ _ _ _ := rfl
  sendAsPad _ _ _ _ := rfl
  onRemoteClaim _ _ _ := rfl
  onCallEnd _ _ := rfl

namespace Agent

variable {W W' : Type}

/-- The Agent on another wire. -/
def mapWire (f : W → W') (a : Agent W) : Agent W' := { a with wire := f a.wire }

variable {f : W → W'} (a : Agent W) (env : Env)

/-! ## What does not use the wire -/

theorem feed_mapWire (media : MediaFragment) :
    (a.mapWire f).feed env media = (a.feed env media).mapWire f := by
  unfold feed
  rw [show (a.mapWire f).jpeg = a.jpeg from rfl]
  split
  · rfl
  · split <;> rfl

theorem stopMonitorNow_mapWire : (a.mapWire f).stopMonitorNow = a.stopMonitorNow.mapWire f := by
  unfold stopMonitorNow
  rw [show (a.mapWire f).monitor = a.monitor from rfl]
  split <;> rfl

theorem hangupCallNow_mapWire (reason : String) :
    (a.mapWire f).hangupCallNow env reason = (a.hangupCallNow env reason).mapWire f := by
  unfold hangupCallNow takeCallSession
  rw [show (a.mapWire f).callSession = a.callSession from rfl]
  cases a.callSession <;> rfl

theorem outboundAnswered_mapWire :
    (a.mapWire f).outboundAnswered env = (a.outboundAnswered env).mapWire f := by
  unfold outboundAnswered
  rw [show (a.mapWire f).callSession = a.callSession from rfl]
  split
  · rfl
  · split <;> rfl

theorem onCallStarted_mapWire (e : Endpoints) :
    (a.mapWire f).onCallStarted env e = (a.onCallStarted env e).mapWire f := by
  unfold onCallStarted
  rw [show (a.mapWire f).call = a.call from rfl]
  split <;> rfl

theorem onPadAnswer_mapWire :
    (a.mapWire f).onPadAnswer env = (a.onPadAnswer env).mapWire f := by
  unfold onPadAnswer
  rw [show (a.mapWire f).call = a.call from rfl]
  split <;> rfl

theorem onPadUnlock_mapWire :
    (a.mapWire f).onPadUnlock env = (a.onPadUnlock env).mapWire f := by
  unfold onPadUnlock
  rw [show (a.mapWire f).call = a.call from rfl]
  split <;> rfl

theorem onMonitorMessage_mapWire (m : Message) :
    (a.mapWire f).onMonitorMessage env m = (a.onMonitorMessage env m).mapWire f := by
  unfold onMonitorMessage
  split
  · split
    · exact feed_mapWire a env _
    · rfl
  · split
    · exact stopMonitorNow_mapWire a
    · rfl

theorem onOutboundMessage_mapWire (m : Message) :
    (a.mapWire f).onOutboundMessage env m = (a.onOutboundMessage env m).mapWire f := by
  unfold onOutboundMessage
  split
  · exact outboundAnswered_mapWire a env
  · split
    · split
      · exact feed_mapWire a env _
      · rfl
    · split
      · exact hangupCallNow_mapWire a env _
      · rfl

/-! ## What does -/

variable [Wire W] [Wire W'] (hf : WireMap f)

include hf

theorem handshakeReply_mapWire (payload : Bytes) (peers : Peers) :
    (a.mapWire f).handshakeReply env payload peers =
      (a.handshakeReply env payload peers).mapWire f := by
  unfold handshakeReply
  rw [show (a.mapWire f).wire = f a.wire from rfl, hf.handshakeReply]
  rfl

theorem onCallEnd_mapWire (peers : Peers) :
    (a.mapWire f).onCallEnd peers = (a.onCallEnd peers).mapWire f := by
  unfold onCallEnd
  rw [show (a.mapWire f).wire = f a.wire from rfl, hf.onCallEnd]
  rfl

theorem onBootstrap_mapWire (side : Side) :
    (a.mapWire f).onBootstrap env side = (a.onBootstrap env side).mapWire f := by
  unfold onBootstrap
  rw [show (a.mapWire f).peers = a.peers from rfl]
  split
  · rfl
  · split
    · exact handshakeReply_mapWire a env hf _ _
    · rfl

theorem onWireHangup_mapWire (peers : Peers) :
    (a.mapWire f).onWireHangup env peers = (a.onWireHangup env peers).mapWire f := by
  unfold onWireHangup
  rw [show (a.mapWire f).call = a.call from rfl]
  split
  · next call _ =>
      rw [show (a.mapWire f).withCall call = (a.withCall call).mapWire f from rfl,
        onCallEnd_mapWire _ hf]
      rfl
  · rfl

theorem onSession_mapWire (side : Side) (m : Message) (e : Endpoints) (peers : Peers) :
    (a.mapWire f).onSession env side m e peers =
      (a.onSession env side m e peers).mapWire f := by
  unfold onSession
  split
  · split
    · rw [handshakeReply_mapWire a env hf, onCallStarted_mapWire]
    · exact onCallStarted_mapWire a env e
  · split
    · exact onPadAnswer_mapWire a env
    · split
      · exact onPadUnlock_mapWire a env
      · split
        · exact onWireHangup_mapWire a env hf peers
        · split
          · split
            · exact feed_mapWire a env _
            · rfl
          · rfl

theorem onCallMessage_mapWire (side : Side) (m : Message) :
    (a.mapWire f).onCallMessage env side m = (a.onCallMessage env side m).mapWire f := by
  unfold onCallMessage acceptEndpoints
  rw [show (a.mapWire f).peers = a.peers from rfl]
  split
  · rfl
  · split
    · rfl
    · split
      · rfl
      · next e _ =>
          dsimp only
          cases a.peers.acceptEndpoints e with
          | mk accepted peers =>
              cases accepted with
              | none => rfl
              | some q => exact onSession_mapWire { a with peers := peers } env hf side m e q

/-- **`on_wire` treats all wires alike.** -/
theorem onWire_mapWire (side : Side) (raw : Bytes) :
    (a.mapWire f).onWire env side raw = (a.onWire env side raw).mapWire f := by
  unfold onWire
  split
  · rfl
  · next m _ =>
      rw [show (a.mapWire f).monitor = a.monitor from rfl,
        show (a.mapWire f).callSession = a.callSession from rfl]
      split
      · exact onBootstrap_mapWire a env hf side
      · split
        · exact onMonitorMessage_mapWire a env m
        · split
          · exact onOutboundMessage_mapWire a env m
          · exact onCallMessage_mapWire a env hf side m

omit hf

/-! ## The record -/

/-- The Agent on a wire that writes its calls down. -/
def recorded (a : Agent W) : Agent (Recorded W) := a.mapWire fun wire => ⟨wire, []⟩

/-- The calls that `on_wire` makes of the wire, in order. -/
def wireCalls (a : Agent W) (env : Env) (side : Side) (raw : Bytes) : List WireCall :=
  (a.recorded.onWire env side raw).wire.calls

/-- Writing the calls down changes nothing. -/
theorem onWire_recorded (side : Side) (raw : Bytes) :
    (a.recorded.onWire env side raw).mapWire Recorded.wire = a.onWire env side raw :=
  (onWire_mapWire a.recorded env (.recorded W) side raw).symm

end Agent

end Michoi
