/-
  The three implementations of `AgentControl` side by side.

  A `Trio` starts from one call machine and empty caches. Each move is a command, given to
  all three at one instant, or an operation of the call machine, applied to all three.
  `Agrees` is what makes them indistinguishable to a command client.

  The simulation is `Aligned`: the three desks are one desk. Each command keeps it as long
  as the Agent follows the rule, which is the case where its packet can be built and where
  no packet is needed.
-/
import Michoi.Agent.Spoken
import Michoi.Desk
import Michoi.Lib.System
import Michoi.Picture.Told

namespace Michoi

open Lib

/-! ## What is compared -/

/-- Where the call stands, with the unlocks of the machine. -/
structure Standing where
  phase : CallPhase
  owner : Owner
  sessionId : Nat
  unlocks : Nat
  lastUnlock : Option Nat
  deriving DecidableEq, Repr

def CallMachine.standing (m : CallMachine) : Standing where
  phase := m.state.phase
  owner := m.state.owner
  sessionId := m.state.sessionId
  unlocks := m.state.unlocks
  lastUnlock := m.lastUnlock

/-- What a command shows: its result, the event kind it pushed, and where the call stands. -/
structure Shown where
  result : CommandResult
  pushed : Option EventKind
  standing : Standing

/-- An implementation's command showed this. -/
structure Shows (shown : Shown) (result : CommandResult) (log log' : EventLog)
    (machine : CallMachine) : Prop where
  result : result = shown.result
  pushed : Pushes log log' shown.pushed
  standing : machine.standing = shown.standing

theorem Follows.shows {h : Handled} {result : CommandResult} {log log' : EventLog} {desk : Desk}
    (hf : Follows h result log log' desk) :
    Shows ⟨h.result, h.pushed, h.desk.machine.standing⟩ result log log' desk.machine :=
  ⟨hf.result, hf.pushed, congrArg (fun d => d.machine.standing) hf.desk⟩

/-! ## The three, step by step -/

structure Trio (W : Type) where
  agent : Agent W
  replay : ReplayAgent
  station : DoorStation

/-- A command reaches the three at one instant; their other readings are their own. -/
inductive TrioMove where
  | command (action : CallAction) (commandId : String) (now : Nat) (agent replay station : Env)
  | machine (op : Op)

def Env.withInstant (env : Env) (now : Nat) : Env := { env with instant := now }

namespace Trio

variable {W : Type} [Wire W]

def next (t : Trio W) : TrioMove → Trio W
  | .command action commandId now agent replay station => {
      agent := (t.agent.execute (agent.withInstant now) action commandId).2
      replay := (t.replay.execute (replay.withInstant now) action commandId).2
      station := (t.station.command (station.withInstant now) action commandId).2 }
  | .machine op => {
      agent := t.agent.withCall
        { t.agent.call with machine := (op.step t.agent.call.machine).2 }
      replay := { t.replay with
        call := { t.replay.call with machine := (op.step t.replay.call.machine).2 } }
      station := { t.station with
        call := { t.station.call with machine := (op.step t.station.call.machine).2 } } }

/-- Nobody can tell the three apart by this move. -/
def Agrees (t : Trio W) : TrioMove → Prop
  | .command action commandId now agent replay station =>
      let a := t.agent.execute (agent.withInstant now) action commandId
      let r := t.replay.execute (replay.withInstant now) action commandId
      let s := t.station.command (station.withInstant now) action commandId
      ∃ shown, Shows shown a.1 t.agent.events a.2.events a.2.call.machine ∧
        Shows shown r.1 t.replay.events r.2.events r.2.call.machine ∧
        Shows shown s.1 t.station.events s.2.events s.2.call.machine
  | .machine op =>
      let t' := t.next (.machine op)
      t'.replay.call.machine.standing = t'.agent.call.machine.standing ∧
        t'.station.call.machine.standing = t'.agent.call.machine.standing

/-- The packet of a command that needs one is sent, where it can be built. -/
def SendsSucceed (t : Trio W) : TrioMove → Prop
  | .command action commandId now agent _ _ =>
      ¬ t.agent.Refuses (agent.withInstant now) action commandId →
        SendSucceeds t.agent (agent.withInstant now) action
  | .machine _ => True

omit [Wire W] in
/-- The command is answered from the cache, or the machine refuses it. -/
def Refused (t : Trio W) : TrioMove → Prop
  | .command action commandId now agent _ _ =>
      t.agent.Refuses (agent.withInstant now) action commandId
  | .machine _ => True

/-- One machine, empty caches, and the Agent knows its door. -/
structure Fresh (t : Trio W) (e : Endpoints) : Prop where
  replay : t.replay.call.machine = t.agent.call.machine
  station : t.station.call.machine = t.agent.call.machine
  agentCache : t.agent.commands = .new 256
  replayCache : t.replay.commands = .new 256
  stationCache : t.station.commands = .new 256
  door : t.agent.peers.endpoints = some e

/-- The three desks are one. -/
structure Aligned (t : Trio W) (e : Endpoints) : Prop where
  replay : t.replay.desk = t.agent.desk
  station : t.station.desk = t.agent.desk
  door : t.agent.peers.endpoints = some e

end Trio

/-- The trio as a system: every move is enabled. -/
def trioSystem (W : Type) [Wire W] : System (Trio W) TrioMove := .ofFun Trio.next

/-! ## One step -/

section

variable {W : Type} [Wire W]

theorem deliver_peers (a : Agent W) (env : Env) (action : CallAction) (commandId : String)
    (peers : Peers) (event : EventKind) (packet : Bytes) :
    (a.deliver env action commandId peers event packet).2.peers = a.peers := by
  unfold Agent.deliver Agent.sendAsPad
  dsimp only
  split
  · next heq =>
      obtain ⟨-, rfl⟩ := Prod.mk.inj heq
      cases action <;> rfl
  · next heq =>
      obtain ⟨-, rfl⟩ := Prod.mk.inj heq
      rfl

/-- A command changes neither side's identity. -/
theorem execute_peers (a : Agent W) (env : Env) (action : CallAction) (commandId : String) :
    (a.execute env action commandId).2.peers = a.peers := by
  cases hget : a.commands.get commandId with
  | some replayed =>
      unfold Agent.execute
      rw [hget]
  | none =>
      rw [Agent.execute_of_get_none hget]
      have hbuild : (a.build env action a.peers a.sessionString).2.peers = a.peers := by
        unfold Agent.build
        split <;> rfl
      unfold Agent.run Agent.store
      dsimp only
      split
      · next event packet built heq =>
          rw [deliver_peers]
          rw [heq] at hbuild
          exact hbuild
      · next heq =>
          rw [heq] at hbuild
          exact hbuild

namespace Trio

variable {t : Trio W} {e : Endpoints}

omit [Wire W] in
theorem Fresh.aligned (h : t.Fresh e) : t.Aligned e where
  replay := by
    unfold ReplayAgent.desk Agent.desk
    rw [h.replay, h.replayCache, h.agentCache]
  station := by
    unfold DoorStation.desk Agent.desk
    rw [h.station, h.stationCache, h.agentCache]
  door := h.door

/-- An operation of the machine, applied to all three. -/
theorem Aligned.machine (h : t.Aligned e) (op : Op) :
    t.Agrees (.machine op) ∧ (t.next (.machine op)).Aligned e := by
  have hreplay : t.replay.call.machine = t.agent.call.machine := congrArg Desk.machine h.replay
  have hstation : t.station.call.machine = t.agent.call.machine :=
    congrArg Desk.machine h.station
  have hreplayCache : t.replay.commands = t.agent.commands := congrArg Desk.commands h.replay
  have hstationCache : t.station.commands = t.agent.commands := congrArg Desk.commands h.station
  refine ⟨⟨?_, ?_⟩, ?_, ?_, h.door⟩
  · exact congrArg (fun m => (op.step m).2.standing) hreplay
  · exact congrArg (fun m => (op.step m).2.standing) hstation
  · exact congrArg₂ Desk.mk (congrArg (fun m => (op.step m).2) hreplay) hreplayCache
  · exact congrArg₂ Desk.mk (congrArg (fun m => (op.step m).2) hstation) hstationCache

variable {action : CallAction} {commandId : String} {now : Nat} {agent replay station : Env}

/-- A command that the Agent handles by the rule. -/
theorem Aligned.command (h : t.Aligned e)
    (hfollows : Follows (t.agent.desk.command now action commandId)
      (t.agent.execute (agent.withInstant now) action commandId).1 t.agent.events
      (t.agent.execute (agent.withInstant now) action commandId).2.events
      (t.agent.execute (agent.withInstant now) action commandId).2.desk) :
    t.Agrees (.command action commandId now agent replay station) ∧
      (t.next (.command action commandId now agent replay station)).Aligned e := by
  have hreplay := t.replay.follows (replay.withInstant now) action commandId
  have hstation := t.station.follows (station.withInstant now) action commandId
  rw [h.replay] at hreplay
  rw [h.station] at hstation
  refine ⟨⟨_, hfollows.shows, hreplay.shows, hstation.shows⟩, ?_, ?_, ?_⟩
  · exact hreplay.desk.trans hfollows.desk.symm
  · exact hstation.desk.trans hfollows.desk.symm
  · exact (congrArg Peers.endpoints (execute_peers ..)).trans h.door

/-- Every move that needs no packet keeps the three alike. -/
theorem Aligned.of_refused (h : t.Aligned e) {m : TrioMove} (hrefused : t.Refused m) :
    t.Agrees m ∧ (t.next m).Aligned e := by
  cases m with
  | machine op => exact h.machine op
  | command action commandId now agent replay station =>
      exact h.command (Agent.follows_of_refuses h.door hrefused)

/-- So does every move, where the packet to the door can be built. -/
theorem Aligned.of_packs (h : t.Aligned e) {raw : Bytes} (hpack : e.pack = .ok raw)
    {m : TrioMove} (hsends : t.SendsSucceed m) : t.Agrees m ∧ (t.next m).Aligned e := by
  cases m with
  | machine op => exact h.machine op
  | command action commandId now agent replay station =>
      by_cases hrefuses : t.agent.Refuses (agent.withInstant now) action commandId
      · exact h.of_refused hrefuses
      · have hpacket : sessionControl action.opcode e =
            .ok (packet familySession action.opcode 80 raw) := by
          unfold sessionControl
          rw [hpack]
          rfl
        have hsent := hsends hrefuses e h.door _ (by rw [hpacket]; rfl)
        exact h.command (Agent.follows_of_packed h.door hpacket hsent)

/-- Where it cannot be built, the three agree on refused commands only. -/
theorem Aligned.refused_of_agrees (h : t.Aligned e) {error : ProtocolError}
    (hpack : e.pack = .error error) {m : TrioMove} (hagrees : t.Agrees m) : t.Refused m := by
  cases m with
  | machine op => trivial
  | command action commandId now agent replay station =>
      by_contra hrefuses
      have hpacket : sessionControl action.opcode e = .error error := by
        unfold sessionControl
        rw [hpack]
        rfl
      obtain ⟨hoffline, haccepted⟩ := Agent.leaves_rule h.door hpacket hrefuses
      have hreplay := (t.replay.follows (replay.withInstant now) action commandId).result
      rw [h.replay] at hreplay
      obtain ⟨shown, hagent, hshown, -⟩ := hagrees
      have hsame := hagent.result.trans hshown.result.symm
      rw [hoffline, hreplay] at hsame
      exact absurd (hsame.trans haccepted) (by simp [CommandResult.rejected,
        CommandResult.accepted])

end Trio

/-! ## Every run -/

omit [Wire W] in
/-- A block can be built exactly for ids that fit their fields. -/
theorem Endpoints.pack_of_short {e : Endpoints}
    (h : (asBytes e.door.id).length ≤ 20 ∧ (asBytes e.room.id).length ≤ 20) :
    ∃ raw, e.pack = .ok raw := by
  unfold Endpoints.pack Station.pack
  rw [if_neg (Nat.not_lt.mpr h.1), if_neg (Nat.not_lt.mpr h.2)]
  exact ⟨_, rfl⟩

/-- **When the three cannot be told apart.** For every start from one machine and empty
    caches and every run whose sends succeed: exactly when the Agent's packets can be built, the
    ids of its two stations being 20 bytes at most, or every command of the run is one that
    needs no packet. -/
theorem trio_agrees_iff {t : Trio W} {e : Endpoints} {moves : List TrioMove}
    (hstart : t.Fresh e) (hsends : (trioSystem W).Meets Trio.SendsSucceed t moves) :
    (trioSystem W).Meets Trio.Agrees t moves ↔
      ((asBytes e.door.id).length ≤ 20 ∧ (asBytes e.room.id).length ≤ 20) ∨
        (trioSystem W).Meets Trio.Refused t moves := by
  have hnext : ∀ s m s', (trioSystem W).next s m = some s' → s.next m = s' :=
    fun s m s' h => Option.some.inj h
  have hrefused : (trioSystem W).Meets Trio.Refused t moves →
      (trioSystem W).Meets Trio.Agrees t moves := by
    refine System.Meets.of_invariant (I := fun s => s.Aligned e) ?_ ?_ hstart.aligned
    · intro s m s' hs hm h
      exact hnext s m s' h ▸ (hs.of_refused hm).2
    · intro s m hs hm
      exact (hs.of_refused hm).1
  cases hpack : e.pack with
  | ok raw =>
      refine ⟨fun _ => .inl (Endpoints.short_of_pack hpack), fun _ => ?_⟩
      refine hsends.of_invariant (I := fun s => s.Aligned e) ?_ ?_ hstart.aligned
      · intro s m s' hs hm h
        exact hnext s m s' h ▸ (hs.of_packs hpack hm).2
      · intro s m hs hm
        exact (hs.of_packs hpack hm).1
  | error error =>
      constructor
      · intro hagrees
        refine .inr (hagrees.of_invariant (I := fun s => s.Aligned e) ?_ ?_ hstart.aligned)
        · intro s m s' hs hm h
          exact hnext s m s' h ▸ (hs.of_refused (hs.refused_of_agrees hpack hm)).2
        · intro s m hs hm
          exact hs.refused_of_agrees hpack hm
      · intro h
        rcases h with hshort | hmeets
        · obtain ⟨raw, hraw⟩ := Endpoints.pack_of_short hshort
          rw [hpack] at hraw
          cases hraw
        · exact hrefused hmeets

end

instance Trio.decidableSendsSucceed {W : Type} [Wire W] (t : Trio W) :
    ∀ m, Decidable (t.SendsSucceed m)
  | .command action commandId now agent _ _ =>
      inferInstanceAs (Decidable (¬ t.agent.Refuses (agent.withInstant now) action commandId →
        SendSucceeds t.agent (agent.withInstant now) action))
  | .machine _ => isTrue trivial

/-- An Agent that the ring of a door has reached, in UDP mode, with the other two at the
    same machine. -/
def rung (ring : Bytes) : Trio UdpWire :=
  let wire := Wire.noteSender UdpWire.bind ⟨.v4 ⟨192, 168, 124, 2⟩, 10000⟩
  let agent := (Agent.new wire ⟨Endpoints.captured.room, none, none, none, 10000⟩ 5000 false
    (.new 0 0) none).onWire { } .door ring
  { agent
    replay := {
      call := ⟨agent.call.machine, none⟩, events := .new 256, commands := .new 256 }
    station := {
      callbacks := ⟨none, some "open", none⟩, call := ⟨agent.call.machine, none⟩
      events := .new 256, commands := .new 256, streaming := true, hooks := [] } }

/-- A call that is claimed, claimed again under the same id, unlocked, and hung up by the
    machine before a client does. -/
def ordinaryMoves : List TrioMove :=
  [.command .claim "c1" 0 { } { } { }, .command .claim "c1" 1 { } { } { },
    .command .unlock "c2" 2 { } { } { }, .machine .hangup, .command .hangup "c3" 3 { } { } { }]

theorem rung_fresh {ring : Bytes} {e : Endpoints}
    (hcache : (rung ring).agent.commands.results.entries = [] ∧
      (rung ring).agent.commands.queue = [] ∧ (rung ring).agent.commands.capacity = 256)
    (hdoor : (rung ring).agent.peers.endpoints = some e) : (rung ring).Fresh e := by
  refine ⟨rfl, rfl, ?_, rfl, rfl, hdoor⟩
  generalize (rung ring).agent.commands = c at hcache
  obtain ⟨results, queue, capacity⟩ := c
  obtain ⟨hresults, rfl, rfl⟩ := hcache
  obtain rfl : results = ∅ := AList.ext hresults
  rfl

theorem trio_agrees_ordinary :
    let t := rung ((sessionRequest .captured).toOption.getD [])
    t.Fresh .captured ∧ (trioSystem UdpWire).Meets Trio.SendsSucceed t ordinaryMoves ∧
      (trioSystem UdpWire).Meets Trio.Agrees t ordinaryMoves := by
  intro t
  have hstart : t.Fresh .captured := rung_fresh (by decide +kernel) (by decide +kernel)
  have hsends : (trioSystem UdpWire).Meets Trio.SendsSucceed t ordinaryMoves := by
    decide +kernel
  exact ⟨hstart, hsends, (trio_agrees_iff hstart hsends).mpr (.inl (by decide))⟩

/-- A door rings whose id is 20 bytes that are not text: the Agent answers that it is
    offline, and the other two accept. -/
theorem trio_told_apart :
    let t := rung (packet familySession opRequest 254 (strangeBlock ++ sessionRequestCapability))
    let claim := TrioMove.command .claim "c1" 0 { } { } { }
    (∃ e, t.Fresh e) ∧ (trioSystem UdpWire).Meets Trio.SendsSucceed t [claim] ∧
      (t.agent.execute { } .claim "c1").1 = .rejected "c1" .agentOffline ∧
      (t.replay.execute { } .claim "c1").1 = .accepted "c1" ∧
      (t.station.command { } .claim "c1").1 = .accepted "c1" ∧
      ¬ (trioSystem UdpWire).Meets Trio.Agrees t [claim] := by
  intro t claim
  have hdoor : t.agent.peers.endpoints.isSome = true := by decide +kernel
  obtain ⟨e, he⟩ := Option.isSome_iff_exists.mp hdoor
  have hagent : (t.agent.execute { } .claim "c1").1 = .rejected "c1" .agentOffline := by
    decide +kernel
  have hreplay : (t.replay.execute { } .claim "c1").1 = .accepted "c1" := by decide +kernel
  refine ⟨⟨e, rung_fresh (by decide +kernel) he⟩, by decide +kernel, hagent, hreplay,
    by decide +kernel, fun hagrees => ?_⟩
  obtain ⟨⟨shown, ha, hr, -⟩, -⟩ := hagrees
  have hsame : (t.agent.execute { } .claim "c1").1 = (t.replay.execute { } .claim "c1").1 :=
    ha.result.trans hr.result.symm
  rw [hagent, hreplay] at hsame
  exact absurd hsame (by decide)

end Michoi
