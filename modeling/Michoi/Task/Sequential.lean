/-
  A handler that nobody interrupts does what its function does.

  The handlers were split into atomic steps by hand. `onWire_alone` and `execute_alone`
  show that the steps, run one after the other, are `on_wire` and `execute` again, and
  `onWire_run` and `execute_run` say so of the pool: what is proved of the functions
  holds of every handler that runs alone.
-/
import Michoi.Task

namespace Michoi

open Lib

variable {W : Type} [Wire W]

/-- The handler gets from one place to another by steps of its own. -/
abbrev RunsAlone (env : Env) (a : Agent W) (t : Task) (a' : Agent W) (t' : Task) : Prop :=
  Alone (agentProgram W) env a t a' t'

/-! ## Messages from the wire -/

/-- One step of a message. -/
theorem RunsAlone.wire {env : Env} {a a' a'' : Agent W} {pc pc' : WirePc} {t : Task}
    (h : wireStep env a pc = some (a', pc')) (rest : RunsAlone env a' (.wire pc') a'' t) :
    RunsAlone env a (.wire pc) a'' t :=
  .step (congrArg (Option.map fun r : Agent W × WirePc => (r.1, Task.wire r.2)) h) rest

theorem media_alone (env : Env) (a : Agent W) (message : Message) :
    RunsAlone env a (.wire (.media message))
      (match message.media with
        | some media => a.feed env media
        | none => a) (.wire .done) := by
  unfold WirePc.media
  cases message.media with
  | some media => exact .wire rfl .refl
  | none => exact .refl

theorem ringStart_alone (env : Env) (a : Agent W) (e : Endpoints) :
    RunsAlone env a (.wire (.ringStart e)) (a.onCallStarted env e) (.wire .done) := by
  unfold Agent.onCallStarted
  cases hs : a.call.started env with
  | mk id call =>
      cases id with
      | none =>
          have hstep : wireStep env a (.ringStart e) = some (a.withCall call, .done) := by
            unfold wireStep
            simp only [hs]
          exact .wire hstep .refl
      | some id =>
          have hstep : wireStep env a (.ringStart e) = some (a.withCall call,
              .publish (.callStarted (toString id) e.door.id e.room.id)) := by
            unfold wireStep
            simp only [hs]
          exact .wire hstep (.wire rfl .refl)

theorem padAnswer_alone (env : Env) (a : Agent W) :
    RunsAlone env a (.wire .padAnswer) (a.onPadAnswer env) (.wire .done) := by
  unfold Agent.onPadAnswer
  cases hs : a.call.padAnswered env with
  | mk accepted call =>
      obtain ⟨accepted, id⟩ := accepted
      cases accepted with
      | false =>
          have hstep : wireStep env a .padAnswer = some (a.withCall call, .done) := by
            unfold wireStep
            simp only [hs]
          exact .wire hstep .refl
      | true =>
          have hstep : wireStep env a .padAnswer =
              some (a.withCall call, .publish (.padAnswered (toString id))) := by
            unfold wireStep
            simp only [hs]
          exact .wire hstep (.wire rfl .refl)

theorem padUnlock_alone (env : Env) (a : Agent W) :
    RunsAlone env a (.wire .padUnlock) (a.onPadUnlock env) (.wire .done) := by
  unfold Agent.onPadUnlock
  cases hs : a.call.padUnlocked with
  | mk owns id =>
      cases owns with
      | false =>
          have hstep : wireStep env a .padUnlock = some (a, .done) := by
            unfold wireStep
            simp only [hs]
          exact .wire hstep .refl
      | true =>
          have hstep : wireStep env a .padUnlock =
              some (a, .publish (.unlocked (toString id) .pad)) := by
            unfold wireStep
            simp only [hs]
          exact .wire hstep (.wire rfl .refl)

theorem hangup_alone (env : Env) (a : Agent W) (peers : Peers) :
    RunsAlone env a (.wire (.hangup peers)) (a.onWireHangup env peers) (.wire .done) := by
  unfold Agent.onWireHangup
  cases hs : a.call.wireHungUp env with
  | mk active call =>
      obtain ⟨active, id⟩ := active
      cases active with
      | false =>
          have hstep : wireStep env a (.hangup peers) = some (a.withCall call, .done) := by
            unfold wireStep
            simp only [hs]
          exact .wire hstep .refl
      | true =>
          have hstep : wireStep env a (.hangup peers) = some (a.withCall call,
              .callEnd peers (.callEnded (toString id) "wire_hangup")) := by
            unfold wireStep
            simp only [hs]
          exact .wire hstep (.wire rfl (.wire rfl .refl))

theorem session_alone (env : Env) (a : Agent W) (side : Side) (message : Message)
    (e : Endpoints) (peers : Peers) :
    RunsAlone env a (.wire (.session side message e peers))
      (a.onSession env side message e peers) (.wire .done) := by
  unfold WirePc.session Agent.onSession
  split
  · cases hr : sessionReply e with
    | ok reply => exact .wire rfl (ringStart_alone env _ e)
    | error => exact ringStart_alone env a e
  · split
    · exact padAnswer_alone env a
    · split
      · exact padUnlock_alone env a
      · split
        · exact hangup_alone env a peers
        · split
          · exact media_alone env a message
          · exact .refl

theorem accept_alone (env : Env) (a : Agent W) (side : Side) (message : Message)
    (e : Endpoints) :
    RunsAlone env a (.wire (.accept side message e))
      (match a.acceptEndpoints e with
        | (none, a) => a
        | (some peers, a) => a.onSession env side message e peers) (.wire .done) := by
  cases hs : a.acceptEndpoints e with
  | mk peers a' =>
      cases peers with
      | none =>
          have hstep : wireStep env a (.accept side message e) = some (a', .done) := by
            unfold wireStep
            simp only [hs]
          exact .wire hstep .refl
      | some peers =>
          have hstep : wireStep env a (.accept side message e) =
              some (a', .session side message e peers) := by
            unfold wireStep
            simp only [hs]
          exact .wire hstep (session_alone env a' side message e peers)

/-- The outbound call, the elevator and the call. -/
theorem outboundCheck_alone (env : Env) (a : Agent W) (side : Side) (message : Message) :
    RunsAlone env a (.wire (.outboundCheck side message))
      (if a.callSession.isSome && message.isSessionLike then a.onOutboundMessage env message
        else a.onCallMessage env side message) (.wire .done) := by
  refine .wire rfl ?_
  unfold WirePc.routeCall
  split
  · unfold Agent.onOutboundMessage
    split
    · exact .wire rfl .refl
    · split
      · exact media_alone env a message
      · split
        · unfold Agent.hangupCallNow
          cases hs : a.takeCallSession with
          | mk callee a' =>
              cases callee with
              | none =>
                  have hstep : wireStep env a .outboundHangup = some (a', .done) := by
                    unfold wireStep
                    simp only [hs]
                  exact .wire hstep .refl
              | some callee =>
                  have hstep : wireStep env a .outboundHangup =
                      some (a', .publish (.callHungUp callee.id "callee_hangup")) := by
                    unfold wireStep
                    simp only [hs]
                  exact .wire hstep (.wire rfl .refl)
        · exact .refl
  · unfold Agent.onCallMessage
    split
    · exact .wire rfl .refl
    · split
      · exact .refl
      · cases message.endpoints with
        | none => exact .refl
        | some e => exact accept_alone env a side message e

/-- **`on_wire` is its steps.** -/
theorem onWire_alone (env : Env) (a : Agent W) (side : Side) (raw : Bytes) :
    RunsAlone env a (.wire (.received side raw)) (a.onWire env side raw) (.wire .done) := by
  unfold Agent.onWire
  cases hp : Message.parse raw with
  | error =>
      have hstep : wireStep env a (.received side raw) = some (a, .done) := by
        unfold wireStep
        simp only [hp]
      exact .wire hstep .refl
  | ok message =>
      dsimp only
      split
      · next hboot =>
          have hstep : wireStep env a (.received side raw) =
              some (a, if side = .door then .bootstrap else .done) := by
            unfold wireStep
            simp only [hp]
            rw [if_pos hboot]
          refine .wire hstep ?_
          cases side with
          | pad => exact .refl
          | door =>
              unfold Agent.onBootstrap
              rw [if_pos rfl]
              cases hr : bootstrapReply a.peers.room with
              | ok reply =>
                  have hstep : wireStep env a .bootstrap =
                      some (a, .bootstrapReply reply a.peers) := by
                    unfold wireStep
                    simp only [hr]
                  exact .wire hstep (.wire rfl .refl)
              | error =>
                  have hstep : wireStep env a .bootstrap = some (a, .done) := by
                    unfold wireStep
                    simp only [hr]
                  exact .wire hstep .refl
      · next hboot =>
          have hstep : wireStep env a (.received side raw) =
              some (a, .route a.monitor.isSome side message) := by
            unfold wireStep
            simp only [hp]
            rw [if_neg hboot]
          refine .wire hstep ?_
          unfold WirePc.route
          split
          · unfold Agent.onMonitorMessage
            split
            · exact media_alone env a message
            · split
              · exact .wire rfl .refl
              · exact .refl
          · exact outboundCheck_alone env a side message

/-! ## Commands -/

/-- One step of a command. -/
theorem RunsAlone.command {env : Env} {a a' a'' : Agent W} {action : CallAction}
    {commandId : String} {pc pc' : CommandPc} {t : Task}
    (h : commandStep env a action commandId pc = some (a', pc'))
    (rest : RunsAlone env a' (.command action commandId pc') a'' t) :
    RunsAlone env a (.command action commandId pc) a'' t :=
  .step (congrArg (Option.map fun r : Agent W × CommandPc =>
    (r.1, Task.command action commandId r.2)) h) rest

theorem store_alone (env : Env) (a : Agent W) (action : CallAction) (commandId : String)
    (r : CommandResult) :
    RunsAlone env a (.command action commandId (.store r)) (a.store r)
      (.command action commandId (.done r)) := .command rfl .refl

theorem deliver_alone (env : Env) (a : Agent W) (action : CallAction) (commandId : String)
    (peers : Peers) (event : EventKind) (packet : Bytes) :
    let r := a.deliver env action commandId peers event packet
    RunsAlone env a (.command action commandId (.send peers event packet)) (r.2.store r.1)
      (.command action commandId (.done r.1)) := by
  unfold Agent.deliver
  cases hs : a.sendAsPad env packet peers with
  | mk result a' =>
      cases result with
      | ok =>
          have hstep : commandStep env a action commandId (.send peers event packet) =
              some (a', .notify peers event) := by
            unfold commandStep
            simp only [hs]
          exact .command hstep (.command rfl (.command rfl (store_alone ..)))
      | error =>
          have hstep : commandStep env a action commandId (.send peers event packet) =
              some (a', .store (.rejected commandId .agentOffline)) := by
            unfold commandStep
            simp only [hs]
          exact .command hstep (store_alone ..)

theorem run_alone (env : Env) (a : Agent W) (action : CallAction) (commandId : String) :
    let r := a.run env action commandId
    RunsAlone env a (.command action commandId .readPeers) (r.2.store r.1)
      (.command action commandId (.done r.1)) := by
  refine .command rfl (.command rfl ?_)
  unfold Agent.run
  cases hb : a.build env action a.peers a.sessionString with
  | mk built a' =>
      cases built with
      | error error =>
          have hstep : commandStep env a action commandId (.transition a.peers a.sessionString) =
              some (a', .store (.rejected commandId error)) := by
            unfold commandStep
            simp only [hb]
          exact .command hstep (store_alone ..)
      | ok built =>
          obtain ⟨event, packet⟩ := built
          have hstep : commandStep env a action commandId (.transition a.peers a.sessionString) =
              some (a', .send a.peers event packet) := by
            unfold commandStep
            simp only [hb]
          exact .command hstep (deliver_alone ..)

/-- **`execute` is its steps.** -/
theorem execute_alone (env : Env) (a : Agent W) (action : CallAction) (commandId : String) :
    RunsAlone env a (.command action commandId .lookup) (a.execute env action commandId).2
      (.command action commandId (.done (a.execute env action commandId).1)) := by
  unfold Agent.execute
  cases hget : a.commands.get commandId with
  | some replayed =>
      have hstep : commandStep env a action commandId .lookup = some (a, .done replayed) := by
        unfold commandStep
        simp only [hget]
      exact .command hstep .refl
  | none =>
      have hstep : commandStep env a action commandId .lookup = some (a, .readPeers) := by
        unfold commandStep
        simp only [hget]
      exact .command hstep (run_alone ..)

/-! ## In the pool -/

/-- **A message that nothing interrupts.** Called when no other message is handled, it
    leaves the Agent where `on_wire` does, whatever the requests in progress are. -/
theorem onWire_run (p : AgentPool W) (env : Env) (side : Side) (raw : Bytes)
    (hidle : ∀ t ∈ p.threads, t.isWire = true → t.finished = true) :
    ∃ n, (agentProgram W).system.run p
      (.start (.wire (.received side raw)) :: List.replicate n (.step p.threads.length env)) =
        some ⟨p.shared.onWire env side raw, p.threads ++ [.wire .done]⟩ := by
  have hmay : Task.mayStart p.threads (.wire (.received side raw)) = true := by
    refine Bool.and_eq_true_iff.mpr ⟨rfl, Bool.or_eq_true_iff.mpr (Or.inr ?_)⟩
    refine List.all_eq_true.mpr fun t ht => ?_
    cases hw : t.isWire with
    | false => rfl
    | true => rw [hidle t ht hw]; rfl
  have hstart : (agentProgram W).system.next p (.start (.wire (.received side raw))) =
      some ⟨p.shared, p.threads ++ [.wire (.received side raw)]⟩ := Program.next_start hmay
  obtain ⟨n, hn⟩ := (onWire_alone env p.shared side raw).exists_run
    (p.threads ++ [.wire (.received side raw)]) (i := p.threads.length) (by simp)
  refine ⟨n, ?_⟩
  rw [System.run_cons, hstart, Option.bind_some, hn]
  simp

/-- **A command that nothing interrupts** returns what `execute` returns. -/
theorem execute_run (p : AgentPool W) (env : Env) (action : CallAction) (commandId : String) :
    ∃ n, (agentProgram W).system.run p
      (.start (.command action commandId .lookup) ::
        List.replicate n (.step p.threads.length env)) =
        some ⟨(p.shared.execute env action commandId).2, p.threads ++
          [.command action commandId (.done (p.shared.execute env action commandId).1)]⟩ := by
  have hstart : (agentProgram W).system.next p (.start (.command action commandId .lookup)) =
      some ⟨p.shared, p.threads ++ [.command action commandId .lookup]⟩ := rfl
  obtain ⟨n, hn⟩ := (execute_alone env p.shared action commandId).exists_run
    (p.threads ++ [.command action commandId .lookup]) (i := p.threads.length) (by simp)
  refine ⟨n, ?_⟩
  rw [System.run_cons, hstart, Option.bind_some, hn]
  simp

end Michoi
