/-
  A ring is never lost, unless the Agent views a camera or makes a call of its own.

  `ids_grow` and `sessions_below_next`: session ids are handed out in increasing order over
  whole runs, whatever the handlers do. `rings_heard_iff` says exactly when the door's ring
  starts a call: `on_wire` swallows it while a monitor or an outbound call is active, and
  three odd cases of the block are left out.
-/
import Michoi.Agent.Calls
import Michoi.Agent.Isolation
import Michoi.Task.Attribution

namespace Michoi

open Lib

variable {W : Type} [Wire W]

/-! ## Session ids over a run -/

/-- The next session id never goes back, and stays above the current one. -/
structure IdsGrow (c c' : Call) : Prop where
  next : c.nextSession ≤ c'.nextSession
  below : IdsBelow c → IdsBelow c'

theorem IdsGrow.refl (c : Call) : IdsGrow c c := ⟨Nat.le_refl _, id⟩

theorem IdsGrow.trans {c c' c'' : Call} (h : IdsGrow c c') (h' : IdsGrow c' c'') :
    IdsGrow c c'' := ⟨Nat.le_trans h.next h'.next, h'.below ∘ h.below⟩

theorem ids_grow_task {i : Nat} {env : Env} {a a' : Agent W} {t t' : Task} {new : List Note}
    (hs : NotedStep i env a a' t t' new) : IdsGrow a.call a'.call := by
  refine ⟨?_, fun h => (session_step hs h).1⟩
  cases hs with
  | quiet hcall | read hcall | pushed hcall => exact Nat.le_of_eq (by rw [hcall])
  | @moved op _ hm hn hn' =>
      cases hstart : op.isStart with
      | false => exact Nat.le_of_eq (hn' hstart).symm
      | true =>
          cases op with
          | startCall s => exact (hn s rfl).2 ▸ (hn s rfl).1 ▸ Nat.le_succ s
          | _ => cases hstart

theorem ids_grow {p q : AgentPool W} {m : AgentMove}
    (h : (agentProgram W).system.next p m = some q) : IdsGrow p.shared.call q.shared.call := by
  rcases Program.next_cases h with
    ⟨t, -, -, rfl⟩ | ⟨i, env, t, a', t', -, -, hstep, rfl⟩ | ⟨b, -, rfl⟩
  · exact .refl _
  · exact ids_grow_task (i := i) (noted_step hstep)
  · rw [show ((agentProgram W).outside b p.shared).call = p.shared.call from act_call p.shared b]
    exact .refl _

/-- The session ids the machine has had, from the start of a run to its end. -/
def sessionsBefore (a : Agent W) (moves : List AgentMove) (id : Nat) : Prop :=
  ∃ before after q, moves = before ++ after ∧
    (agentProgram W).system.run (idlePool a) before = some q ∧
      q.shared.call.machine.state.sessionId = id

theorem sessions_below_next {a : Agent W} (ha : IdsBelow a.call) {moves : List AgentMove}
    {p : AgentPool W} (hrun : (agentProgram W).system.run (idlePool a) moves = some p) {id : Nat}
    (hid : sessionsBefore a moves id) : id < p.shared.call.nextSession := by
  have hgrow : ∀ {p q : AgentPool W} {ms : List AgentMove},
      (agentProgram W).system.run p ms = some q → IdsGrow p.shared.call q.shared.call :=
    fun h => System.run_rel (r := fun p q : AgentPool W => IdsGrow p.shared.call q.shared.call)
      (fun _ => .refl _) (fun _ _ _ h h' => h.trans h') (fun _ _ _ hn => ids_grow hn) h
  obtain ⟨before, after, q, rfl, hq, rfl⟩ := hid
  obtain ⟨q', hq', hp⟩ := System.exists_of_run_append hrun
  obtain rfl : q = q' := Option.some.inj (hq.symm.trans hq')
  exact Nat.lt_of_lt_of_le ((hgrow hq).below ha) (hgrow hp).next

/-! ## The capability reply -/

theorem station_pack_ok_iff (s : Station) :
    s.pack.toBool = true ↔ (asBytes s.id).length ≤ 20 := by
  unfold Station.pack
  split
  · next h => exact iff_of_false Bool.noConfusion (Nat.not_le.mpr h)
  · next h => exact iff_of_true rfl (Nat.not_lt.mp h)

/-- Every packet with an endpoint block can be built exactly for ids of at most 20 bytes. -/
theorem endpoints_pack_ok_iff (e : Endpoints) : e.pack.toBool = true ↔
    (asBytes e.door.id).length ≤ 20 ∧ (asBytes e.room.id).length ≤ 20 := by
  rw [← station_pack_ok_iff, ← station_pack_ok_iff]
  unfold Endpoints.pack
  cases e.door.pack with
  | error => exact iff_of_false Bool.noConfusion fun h => Bool.noConfusion h.1
  | ok =>
      cases e.room.pack with
      | error => exact iff_of_false Bool.noConfusion fun h => Bool.noConfusion h.2
      | ok => exact iff_of_true rfl ⟨rfl, rfl⟩

theorem sessionReply_ok_iff (e : Endpoints) : (∃ reply, sessionReply e = .ok reply) ↔
    (asBytes e.door.id).length ≤ 20 ∧ (asBytes e.room.id).length ≤ 20 := by
  rw [← endpoints_pack_ok_iff]
  unfold sessionReply
  cases e.pack with
  | error => exact iff_of_false nofun Bool.noConfusion
  | ok body => exact iff_of_true ⟨_, rfl⟩ rfl

/-! ## One ring -/

/-- The block is of this household: our device id, and what it says of either station
    agrees with what is pinned. -/
structure Peers.Matches (p : Peers) (e : Endpoints) : Prop where
  room : p.MatchesRoom e.room
  door : p.MatchesDoor e.door

/-- `raw` is a session request with the endpoint block `e`. -/
structure IsRing (raw : Bytes) (m : Message) (e : Endpoints) : Prop where
  parsed : Message.parse raw = .ok m
  family : m.family = familySession
  opcode : m.opcode = opRequest
  block : m.endpoints = some e

/-- The ring has started a call: a session with an id above all earlier ones, its event,
    and one capability reply. -/
structure RingHeard (a : Agent W) (env : Env) (raw : Bytes) (e : Endpoints)
    (earlier : Nat → Prop) : Prop where
  ringing : (a.onWire env .door raw).call.machine.state.phase = .ringing
  fresh : ∀ id, earlier id → id < (a.onWire env .door raw).call.machine.state.sessionId
  event : (a.onWire env .door raw).events = a.events.push env.eventMs
    (.callStarted (toString (a.onWire env .door raw).call.machine.state.sessionId)
      e.door.id e.room.id)
  reply : ∃ reply peers, sessionReply e = .ok reply ∧
    a.wireCalls env .door raw = [.handshakeReply reply peers]

section

variable {a : Agent W} {env : Env} {raw : Bytes} {m : Message} {e : Endpoints}

theorem onAccepted_of_ring (h : IsRing raw m e) :
    a.onAccepted env .door m e =
      (ringReplied (a.withPeers (a.peers.withStations e)) env e
        (a.peers.withStations e)).onCallStarted env e := by
  unfold Agent.onAccepted Agent.onSession ringReplied
  rw [if_pos ⟨h.opcode, rfl⟩]
  cases sessionReply e <;> rfl

/-- A ring that the identity check accepts, at an idle call and no session of our own. -/
theorem onWire_of_ring (env : Env) (h : IsRing raw m e) (hm : a.monitor = none)
    (hc : a.callSession = none) (ha : a.peers.Accepts e)
    (hidle : a.call.machine.state.phase = .idle) :
    (a.onWire env .door raw).call.machine = a.call.machine.startCall a.call.nextSession ∧
      (a.onWire env .door raw).events = a.events.push env.eventMs
        (.callStarted (toString a.call.nextSession) e.door.id e.room.id) ∧
      (a.onWire env .door raw).wire =
        (ringReplied (a.withPeers (a.peers.withStations e)) env e
          (a.peers.withStations e)).wire := by
  rw [a.onWire_of_session env .door hm hc h.parsed h.family h.block, if_pos ha,
    onAccepted_of_ring h]
  have hcall := ringReplied_call (a.withPeers (a.peers.withStations e)) env e
    (a.peers.withStations e)
  have hun := ringReplied_unseen (a.withPeers (a.peers.withStations e)) env e
    (a.peers.withStations e)
  -- What the reply left is not looked into from here on.
  generalize ringReplied (a.withPeers (a.peers.withStations e)) env e
    (a.peers.withStations e) = replied at hcall hun ⊢
  rw [onCallStarted_of_idle (by rw [hcall]; exact hidle), hcall]
  refine ⟨rfl, ?_, rfl⟩
  exact congrArg (fun log : EventLog => log.push env.eventMs _) hun.events

/-- With a monitor or an outbound call the ring is dropped without a trace. -/
theorem onWire_of_ring_busy (h : IsRing raw m e)
    (hbusy : ¬ (a.monitor = none ∧ a.callSession = none)) : a.onWire env .door raw = a := by
  have hs := Message.isSessionLike_of_family h.family
  rw [a.onWire_of_sessionLike env .door h.parsed hs]
  cases hm : a.monitor with
  | some handle =>
      rw [if_pos (show (some handle).isSome = true from rfl)]
      unfold Agent.onMonitorMessage
      rw [h.opcode, if_neg (by decide), if_neg (by decide)]
  | none =>
      cases hc : a.callSession with
      | none => exact absurd ⟨hm, hc⟩ hbusy
      | some handle =>
          rw [if_neg (by decide), if_pos (show (some handle).isSome = true from rfl)]
          unfold Agent.onOutboundMessage
          rw [h.opcode, if_neg (by decide), if_neg (by decide), if_neg (by decide)]

theorem ringHeard_iff (h : IsRing raw m e) (hmatch : a.peers.Matches e)
    (hidle : a.call.machine.state.phase = .idle) {earlier : Nat → Prop}
    (hearlier : ∀ id, earlier id → id < a.call.nextSession) :
    RingHeard a env raw e earlier ↔ a.monitor = none ∧ a.callSession = none ∧
      (a.peers.BlankDoor → e.door.id = "" ∨ ¬ e.door.ip.Specified) ∧
        (asBytes e.door.id).length ≤ 20 ∧ (asBytes e.room.id).length ≤ 20 := by
  rw [← sessionReply_ok_iff]
  constructor
  · rintro ⟨hringing, -, -, hreply⟩
    have hfree : a.monitor = none ∧ a.callSession = none := by
      by_contra hbusy
      rw [onWire_of_ring_busy h hbusy, hidle] at hringing
      cases hringing
    refine ⟨hfree.1, hfree.2, ?_, ?_⟩
    · by_contra hblank
      have ha : ¬ a.peers.Accepts e := fun ha => hblank ha.door.blank
      rw [a.onWire_of_session env .door hfree.1 hfree.2 h.parsed h.family h.block, if_neg ha]
        at hringing
      exact absurd (hidle.symm.trans hringing) (by decide)
    · obtain ⟨reply, -, hok, -⟩ := hreply
      exact ⟨reply, hok⟩
  · rintro ⟨hm, hc, hblank, reply, hok⟩
    have ha : a.peers.Accepts e := ⟨hmatch.room, hmatch.door, hblank⟩
    obtain ⟨hmachine, hevents, -⟩ := onWire_of_ring env h hm hc ha hidle
    obtain ⟨-, -, hwire⟩ := onWire_of_ring (a := a.recorded) env h hm hc ha hidle
    refine ⟨by rw [hmachine]; rfl, fun id hid => ?_, by rw [hmachine, hevents]; rfl, reply,
      a.peers.withStations e, hok, ?_⟩
    · rw [hmachine]
      exact hearlier id hid
    · unfold Agent.wireCalls
      rw [hwire]
      unfold ringReplied
      rw [hok]
      rfl

end

/-- **When a ring is heard.** In every reachable state with an idle call, a session request
    from the door that names our device and matches the pinned identities starts a call
    exactly when no camera is monitored and no outbound call is active, the capability reply
    can be built, and the door on record is not a blank one. -/
theorem rings_heard_iff (wire : W) (peers : Peers) (cooldown : Nat) (policy : Bool)
    (history : MediaRing) (elevatorDoor : Option String) (moves : List AgentMove)
    (p : AgentPool W)
    (hrun : (agentProgram W).system.run
      (idlePool (.new wire peers cooldown policy history elevatorDoor)) moves = some p)
    (hidle : p.shared.call.machine.state.phase = .idle) (env : Env) (raw : Bytes) (m : Message)
    (e : Endpoints) (hring : IsRing raw m e) (hmatch : p.shared.peers.Matches e) :
    RingHeard p.shared env raw e
        (sessionsBefore (.new wire peers cooldown policy history elevatorDoor) moves) ↔
      p.shared.monitor = none ∧ p.shared.callSession = none ∧
        (p.shared.peers.BlankDoor → e.door.id = "" ∨ ¬ e.door.ip.Specified) ∧
          (asBytes e.door.id).length ≤ 20 ∧ (asBytes e.room.id).length ≤ 20 :=
  ringHeard_iff hring hmatch hidle fun _ hid => sessions_below_next
    (idsBelow_new wire peers cooldown policy history elevatorDoor) hrun hid

theorem capturedRing_isRing : ∃ m, IsRing capturedRing m .captured := by
  have hparse : (Message.parse capturedRing).map (fun m => (m.family, m.opcode, m.endpoints)) =
      .ok (familySession, opRequest, some .captured) := by decide +kernel
  cases hp : Message.parse capturedRing with
  | error => rw [hp] at hparse; cases hparse
  | ok m =>
      rw [hp] at hparse
      obtain ⟨hf, hrest⟩ := Prod.mk.inj (Except.ok.inj hparse)
      obtain ⟨hop, he⟩ := Prod.mk.inj hrest
      exact ⟨m, hp, hf, hop, he⟩

theorem tapAgent_matches : tapAgent.peers.Matches .captured :=
  ⟨⟨rfl, .of_eq rfl⟩, ⟨.of_eq rfl, .of_eq rfl⟩⟩

/-- The first ring of a household that knows both stations. -/
theorem first_ring_heard :
    RingHeard tapAgent { } capturedRing .captured (sessionsBefore tapAgent []) := by
  obtain ⟨m, hring⟩ := capturedRing_isRing
  refine (rings_heard_iff tapWire _ 5000 false (.new 0 0) none [] (idlePool tapAgent) rfl rfl { }
    capturedRing m .captured hring tapAgent_matches).mpr
      ⟨rfl, rfl, ?_, by decide +kernel, by decide +kernel⟩
  rintro ⟨d, hd, he, -⟩
  obtain rfl : Endpoints.captured.door = d := Option.some.inj hd
  exact absurd he (by decide)

/-- The same ring while a camera is viewed: it leaves no trace. -/
theorem ring_lost_while_monitoring : ∃ moves p m,
    (agentProgram TapWire).system.run (idlePool tapAgent) moves = some p ∧
      p.shared.call.machine.state.phase = .idle ∧ IsRing capturedRing m .captured ∧
        p.shared.peers.Matches .captured ∧
          ¬ RingHeard p.shared { } capturedRing .captured (sessionsBefore tapAgent moves) := by
  obtain ⟨m, hring⟩ := capturedRing_isRing
  refine ⟨[.outside (.setMonitor (some ⟨⟨"M00000000001", ⟨5, 6, 7, 8⟩⟩, 0⟩))], _, m, rfl, rfl,
    hring, tapAgent_matches, fun h => ?_⟩
  have hphase := h.ringing
  rw [onWire_of_ring_busy hring fun h => Option.some_ne_none _ h.1] at hphase
  cases hphase

end Michoi
