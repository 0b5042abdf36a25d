/-
  Datagrams that nobody interrupts, among the handlers of the household.

  A message that a datagram hands on runs `on_wire` (`onWire_alone`), a datagram runs one
  round of `UdpWire::run` (`receive_run`), and datagrams one after the other run its loop
  (`receiveAll_run`): what is proved of `receiveAll` holds of the household in `pad` mode
  that serves nothing else meanwhile.
-/
import Michoi.Agent.Datagram
import Michoi.Household
import Michoi.Task.Sequential

namespace Michoi

open Lib

variable {W : Type} [Wire W] {mode : AgentMode}

/-- A message of the wire that runs alone does so for a datagram. -/
theorem RunsAlone.inDatagram {env : HouseEnv} {h : Household W} {sender : SocketAddr}
    {payload : Bytes} {rest : List Bytes} {a a' : Agent W} {pc : WirePc}
    (hrun : RunsAlone env.toEnv a (.wire pc) a' (.wire .done)) :
    Alone (houseProgram mode W) env (h.withAgent a)
      (.datagram sender payload (.onWire pc rest)) (h.withAgent a')
      (.datagram sender payload (.messages rest)) := by
  generalize ht : Task.wire pc = t, ht' : Task.wire .done = t' at hrun
  induction hrun generalizing pc with
  | refl =>
      cases ht
      cases ht'
      exact .step rfl .refl
  | @step a₀ _ _ _ _ _ hstep _ ih =>
      cases ht
      obtain ⟨⟨b, pc₁⟩, hs, hr⟩ := Option.map_eq_some_iff.mp hstep
      cases hr
      have hmap : (wireStep env.toEnv a₀ pc).map (fun r =>
          ((h.withAgent a₀).withAgent r.1, DatagramPc.onWire r.2 rest)) =
            some (h.withAgent b, .onWire pc₁ rest) :=
        Option.map_eq_some_iff.mpr ⟨_, hs, rfl⟩
      have hdatagram : datagramStep env (h.withAgent a₀) sender payload (.onWire pc rest) =
          some (h.withAgent b, .onWire pc₁ rest) := by
        cases pc with
        | done => cases hs
        | _ => exact hmap
      exact .step (congrArg (Option.map _) hdatagram) (ih rfl ht')

/-- What the loop finds out, as the handler of message `n` of the datagram reads it. -/
def Datagram.houseEnv (d : Datagram) (n : Nat) : HouseEnv :=
  { toEnv := d.env n, localAddr := d.localIp }

/-- The messages of a datagram, one after the other. -/
theorem onMessages_reached (d : Datagram) (raws : List Bytes) (n : Nat) (h : Household W)
    (threads : List HouseTask) {i : Nat}
    (hi : threads[i]? = some (.datagram d.sender d.payload (.messages raws))) :
    (houseProgram mode W).system.Reaches ⟨h, threads⟩
      ⟨h.withAgent (h.agent.onMessages d.env n raws),
        threads.set i (.datagram d.sender d.payload .done)⟩ := by
  induction raws generalizing n h threads with
  | nil => exact .single (Program.next_step (e := d.houseEnv n) hi rfl)
  | cons raw rest ih =>
      have hmessage : Alone (houseProgram mode W) (d.houseEnv n) h
          (.datagram d.sender d.payload (.messages (raw :: rest)))
          (h.withAgent (h.agent.onWire (d.env n) .door raw))
          (.datagram d.sender d.payload (.messages rest)) :=
        .step rfl (RunsAlone.inDatagram (onWire_alone (d.env n) h.agent .door raw))
      have hrest := ih (n + 1) (h.withAgent (h.agent.onWire (d.env n) .door raw))
        (threads.set i (.datagram d.sender d.payload (.messages rest))) (getElem?_set_self hi)
      rw [List.set_set] at hrest
      exact (hmessage.reaches threads hi).trans hrest

/-- The part of a round before the messages. -/
theorem learnSender_alone (d : Datagram) (h : Household W) :
    Alone (houseProgram mode W) (d.houseEnv 0) h (.datagram d.sender d.payload .received)
      (h.withAgent
        ((h.agent.withWire (Wire.noteSender h.agent.wire d.sender)).learnSender d))
      (.datagram d.sender d.payload (.messages (splitCoalesced d.payload))) := by
  unfold Agent.learnSender
  cases hip : d.sender.ip with
  | v4 doorIp =>
      have hreceived : datagramStep (d.houseEnv 0) h d.sender d.payload .received =
          some (h.withAgent (h.agent.withWire (Wire.noteSender h.agent.wire d.sender)),
            .learnRoom doorIp) := by
        unfold datagramStep
        dsimp only
        rw [hip]
      refine .step (congrArg (Option.map _) hreceived) ?_
      cases hlocal : d.localIp with
      | none =>
          have hroom (h : Household W) : datagramStep (d.houseEnv 0) h d.sender d.payload
              (.learnRoom doorIp) = some (h, .learnDoor doorIp) := by
            unfold datagramStep Datagram.houseEnv
            dsimp only
            rw [hlocal]
          exact .step (congrArg (Option.map _) (hroom _)) (.step rfl .refl)
      | some ip =>
          have hroom (h : Household W) : datagramStep (d.houseEnv 0) h d.sender d.payload
              (.learnRoom doorIp) =
                some (h.withAgent (h.agent.setRoomIpIfUnset ip), .learnDoor doorIp) := by
            unfold datagramStep Datagram.houseEnv
            dsimp only
            rw [hlocal]
          exact .step (congrArg (Option.map _) (hroom _)) (.step rfl .refl)
  | v6 =>
      have hreceived : datagramStep (d.houseEnv 0) h d.sender d.payload .received =
          some (h.withAgent (h.agent.withWire (Wire.noteSender h.agent.wire d.sender)),
            .messages (splitCoalesced d.payload)) := by
        unfold datagramStep
        dsimp only
        rw [hip]
      exact .step (congrArg (Option.map _) hreceived) .refl

/-- One round of the loop. -/
theorem receive_reached (d : Datagram) (h : Household W) (threads : List HouseTask) {i : Nat}
    (hi : threads[i]? = some (.datagram d.sender d.payload .received)) :
    (houseProgram mode W).system.Reaches ⟨h, threads⟩
      ⟨h.withAgent (h.agent.receive d), threads.set i (.datagram d.sender d.payload .done)⟩ := by
  let a := (h.agent.withWire (Wire.noteSender h.agent.wire d.sender)).learnSender d
  let raws := splitCoalesced d.payload
  let threads₁ := threads.set i (.datagram d.sender d.payload (.messages raws))
  have hlearned : (houseProgram mode W).system.Reaches ⟨h, threads⟩ ⟨h.withAgent a, threads₁⟩ :=
    (learnSender_alone d h).reaches threads hi
  have hmessages : (houseProgram mode W).system.Reaches ⟨h.withAgent a, threads₁⟩
      ⟨h.withAgent (h.agent.receive d), threads₁.set i (.datagram d.sender d.payload .done)⟩ :=
    onMessages_reached d raws 0 (h.withAgent a) threads₁ (getElem?_set_self hi)
  rw [List.set_set] at hmessages
  exact hlearned.trans hmessages

/-- **A datagram that nothing interrupts** is one round of `UdpWire::run`. -/
theorem receive_run (p : HousePool W) (d : Datagram)
    (hidle : ∀ t ∈ p.threads, t.receiving = false) :
    (houseProgram .pad W).system.Reaches p ⟨p.shared.withAgent (p.shared.agent.receive d),
      p.threads ++ [.datagram d.sender d.payload .done]⟩ := by
  have hmay :
      HouseTask.mayStart .pad p.threads (.datagram d.sender d.payload .received) = true := by
    refine Bool.and_eq_true_iff.mpr ⟨rfl, Bool.or_eq_true_iff.mpr (Or.inr ?_)⟩
    exact List.all_eq_true.mpr fun t ht => by rw [hidle t ht]; rfl
  have hround : (houseProgram .pad W).system.Reaches
      ⟨p.shared, p.threads ++ [.datagram d.sender d.payload .received]⟩ _ :=
    receive_reached d p.shared _ (i := p.threads.length) (by simp)
  rw [List.set_append_right _ _ (Nat.le_refl _), Nat.sub_self, List.set_cons_zero] at hround
  exact (System.Reaches.single (Program.next_start hmay)).trans hround

/-- **Datagrams that nothing interrupts** are the loop. -/
theorem receiveAll_run (p : HousePool W) (ds : List Datagram)
    (hidle : ∀ t ∈ p.threads, t.receiving = false) :
    (houseProgram .pad W).system.Reaches p ⟨p.shared.withAgent (p.shared.agent.receiveAll ds),
      p.threads ++ ds.map fun d => .datagram d.sender d.payload .done⟩ := by
  induction ds generalizing p with
  | nil =>
      rw [List.map_nil, List.append_nil]
      exact .refl p
  | cons d ds ih =>
      have hfirst := receive_run p d hidle
      have hrest := ih ⟨p.shared.withAgent (p.shared.agent.receive d),
        p.threads ++ [.datagram d.sender d.payload .done]⟩ fun t ht => ?_
      · rw [List.append_assoc, List.singleton_append] at hrest
        exact hfirst.trans hrest
      · rcases List.mem_append.mp ht with ht | ht
        · exact hidle t ht
        · rw [List.mem_singleton.mp ht]
          rfl

end Michoi
