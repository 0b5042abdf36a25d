/-
  What an Agent in `pad` mode says to its door, and to whom it owes it.

  `PadSays` lists what the Agent hands to its socket, `HouseTask.Speaks` what each handler is
  about to hand over, and `hands_of_step` everything that a step does hand over. `Ledger` says
  that the control packets that went out are, one by one, the commands that were carried out,
  and that all sound is a client's: it holds in every run, whatever datagrams come in
  (`Ledger.run`).
-/
import Michoi.Household.Destination
import Michoi.Household.Voice

namespace Michoi

open Lib

/-! ## What the Agent says -/

/-- The opcode of a session message. -/
def sessionOpcode (raw : Bytes) : Option UInt32 :=
  match Message.parse raw with
  | .error _ => none
  | .ok m => if m.family = familySession then some m.opcode else none

/-- A session message with this opcode. -/
def hasOpcode (opcode : UInt32) (raw : Bytes) : Bool := sessionOpcode raw == some opcode

/-- The sound of a talk: one of its frames, filled up. -/
def FrameOf (said frame : Bytes) : Prop := ∃ piece ∈ chunks 512 said, frame = resize piece 512

/-- What the Agent hands to the socket of `pad` mode, with the sound in it. -/
inductive PadSays : Bytes → Option Bytes → Prop where
  | bootstrap {room raw} (h : bootstrapReply room = .ok raw) : PadSays raw none
  | capability {e raw} (h : sessionReply e = .ok raw) : PadSays raw none
  | command {action : CallAction} {e raw} (h : sessionControl action.opcode e = .ok raw) :
      PadSays raw none
  | keepalive {e raw} (h : sessionControl opKeepalive e = .ok raw) : PadSays raw none
  | sound {sequence e frame raw} (h : audioPacket sequence frame e = .ok raw) :
      PadSays raw (some frame)

theorem sessionOpcode_packet (family : UInt16) (opcode declared : UInt32) (body : Bytes) :
    sessionOpcode (packet family opcode declared body) =
      if family = familySession then some opcode else none := by
  unfold sessionOpcode
  rw [parse_packet]

theorem sessionOpcode_sessionControl {opcode : UInt32} {e : Endpoints} {raw : Bytes}
    (h : sessionControl opcode e = .ok raw) : sessionOpcode raw = some opcode := by
  obtain ⟨block, -, h⟩ := bind_eq_ok_iff.mp h
  rw [← Except.ok.inj h, sessionOpcode_packet, if_pos rfl]

theorem sessionOpcode_sessionReply {e : Endpoints} {raw : Bytes} (h : sessionReply e = .ok raw) :
    sessionOpcode raw = some opReply := by
  obtain ⟨block, -, h⟩ := bind_eq_ok_iff.mp h
  rw [← Except.ok.inj h, sessionOpcode_packet, if_pos rfl]

theorem sessionOpcode_bootstrapReply {room : Station} {raw : Bytes}
    (h : bootstrapReply room = .ok raw) : sessionOpcode raw = none := by
  obtain ⟨block, -, h⟩ := bind_eq_ok_iff.mp h
  rw [← Except.ok.inj h, sessionOpcode_packet, if_neg (by decide)]

theorem sessionOpcode_audioPacket {sequence : UInt16} {frame raw : Bytes} {e : Endpoints}
    (h : audioPacket sequence frame e = .ok raw) : sessionOpcode raw = some opMedia := by
  obtain ⟨block, tail, -, -, rfl⟩ := exists_of_audioPacket h
  rw [sessionOpcode_packet, if_pos rfl]

theorem hasOpcode_of {opcode opcode' : UInt32} {raw : Bytes}
    (h : sessionOpcode raw = some opcode) : hasOpcode opcode' raw = decide (opcode = opcode') := by
  unfold hasOpcode
  rw [h]
  by_cases he : opcode = opcode' <;> simp [he]

/-! ## What a handler is about to say -/

/-- The handshake replies that a handler of the wire carries. -/
def WirePc.Speaks : WirePc → Prop
  | bootstrapReply reply _ => ∃ room, Michoi.bootstrapReply room = .ok reply
  | ringReply reply _ _ => ∃ e, sessionReply e = .ok reply
  | _ => True

/-- The packets that a handler carries, and the sound that it still has to cut. -/
def HouseTask.Speaks : HouseTask → Prop
  | agent (.command action _ (.send _ _ packet)) =>
      ∃ e, sessionControl action.opcode e = .ok packet
  | agent (.wire pc) => pc.Speaks
  | datagram _ _ (.onWire pc _) => pc.Speaks
  | talk said (.number _ _ frames) => ∀ piece ∈ frames, piece ∈ chunks 512 said
  | talk said (.send _ _ packet frames) =>
      (∃ sequence e piece, piece ∈ chunks 512 said ∧
        audioPacket sequence (resize piece 512) e = .ok packet) ∧
          ∀ piece ∈ frames, piece ∈ chunks 512 said
  | keepalive (.send _ packet) => ∃ e, sessionControl opKeepalive e = .ok packet
  | _ => True

/-- The packet of this command went out, and the command was not answered from the cache. -/
def CommandPc.carried : CommandPc → Bool
  | notify .. => true
  | publish _ => true
  | store result => result.ok && !result.replayed
  | done result => result.ok && !result.replayed
  | _ => false

/-- The handler is a command with this action whose packet went out. -/
def HouseTask.carriedOut (action : CallAction) : HouseTask → Bool
  | agent (.command action' _ pc) => action' == action && pc.carried
  | _ => false

/-- What the household's socket took, oldest first. -/
def Household.packets (h : Household UdpWire) : List Bytes := h.agent.wire.out.map Prod.snd

/-! ## One step -/

section

variable {env : HouseEnv} {h h' : Household UdpWire} {t t' : HouseTask}

theorem WirePc.speaks_media (m : Message) : (WirePc.media m).Speaks := by
  unfold WirePc.media
  split <;> trivial

theorem WirePc.speaks_route (monitoring : Bool) (side : Side) (m : Message) :
    (WirePc.route monitoring side m).Speaks := by
  unfold WirePc.route
  split
  · split
    · exact speaks_media m
    · split <;> trivial
  · trivial

theorem WirePc.speaks_routeCall (calling : Bool) (side : Side) (m : Message) :
    (WirePc.routeCall calling side m).Speaks := by
  unfold WirePc.routeCall
  split
  · split
    · trivial
    · split
      · exact speaks_media m
      · split <;> trivial
  · split
    · trivial
    · split
      · trivial
      · split <;> trivial

theorem WirePc.speaks_session (side : Side) (m : Message) (e : Endpoints) (peers : Peers) :
    (WirePc.session side m e peers).Speaks := by
  unfold WirePc.session
  split
  · split
    · next hr => exact ⟨e, hr⟩
    · trivial
  · split
    · trivial
    · split
      · trivial
      · split
        · trivial
        · split
          · exact speaks_media m
          · trivial

/-- A handler of the wire carries only replies that it has built. -/
theorem wireStep_speaks {env : Env} {a a' : Agent UdpWire} {pc pc' : WirePc}
    (hs : wireStep env a pc = some (a', pc')) : pc'.Speaks := by
  cases pc with
  | received side raw =>
      unfold wireStep at hs
      dsimp only at hs
      split at hs
      · cases hs; trivial
      · split at hs
        · split at hs <;> cases hs <;> trivial
        · cases hs; exact WirePc.speaks_route ..
  | bootstrap =>
      unfold wireStep at hs
      dsimp only at hs
      split at hs
      · next hr => cases hs; exact ⟨_, hr⟩
      · cases hs; trivial
  | outboundCheck => cases hs; exact WirePc.speaks_routeCall ..
  | accept side m e =>
      unfold wireStep at hs
      dsimp only at hs
      split at hs
      · cases hs; trivial
      · cases hs; exact WirePc.speaks_session ..
  | bootstrapReply | ringReply | feed | stopMonitor | outboundAnswered | wakeElevator | callEnd
    | publish => cases hs; trivial
  | outboundHangup | ringStart | padAnswer | padUnlock | hangup =>
      unfold wireStep at hs
      dsimp only at hs
      split at hs <;> cases hs <;> trivial
  | done => cases hs

/-- The socket takes the packet, or the call fails and nothing has changed. -/
theorem UdpWire.send_cases (w : UdpWire) (outcome : Outcome) (payload : Bytes) :
    ((w.send outcome payload).1 = .ok () ∧
        (w.send outcome payload).2.out.map Prod.snd = w.out.map Prod.snd ++ [payload]) ∨
      ((w.send outcome payload).1 ≠ .ok () ∧ (w.send outcome payload).2 = w) := by
  unfold send
  split
  · exact .inr ⟨nofun, rfl⟩
  · split
    · exact .inr ⟨nofun, rfl⟩
    all_goals exact .inl ⟨rfl, by simp⟩

/-- `on_wire` sends its handshake replies, and nothing else. -/
theorem wireStep_wire {env : Env} {a a' : Agent UdpWire} {pc pc' : WirePc}
    (hs : wireStep env a pc = some (a', pc')) (hpc : pc.Speaks) :
    a'.wire = a.wire ∨ ∃ reply, PadSays reply none ∧
      (∀ action : CallAction, hasOpcode action.opcode reply = false) ∧
        a'.wire = (a.wire.send env.reply reply).2 := by
  cases pc with
  | bootstrapReply reply peers =>
      obtain ⟨room, hr⟩ := hpc
      cases hs
      refine .inr ⟨reply, .bootstrap hr, fun action => ?_, rfl⟩
      unfold hasOpcode
      rw [sessionOpcode_bootstrapReply hr]
      rfl
  | ringReply reply peers e =>
      obtain ⟨e', hr⟩ := hpc
      cases hs
      refine .inr ⟨reply, .capability hr, fun action => ?_, rfl⟩
      rw [hasOpcode_of (sessionOpcode_sessionReply hr)]
      cases action <;> decide
  | stopMonitor => cases hs; exact .inl (stopMonitorNow_wire a)
  | outboundAnswered =>
      left
      cases hs
      unfold Agent.outboundAnswered
      split
      · rfl
      · split <;> rfl
  | feed media =>
      left
      cases hs
      unfold Agent.feed
      split
      · rfl
      · split <;> rfl
  | outboundHangup =>
      left
      unfold wireStep Agent.takeCallSession at hs
      dsimp only at hs
      cases hc : a.callSession <;> rw [hc] at hs <;> cases hs <;> rfl
  | received | outboundCheck | wakeElevator | accept | callEnd | publish =>
      left
      unfold wireStep at hs
      dsimp only at hs
      repeat' split at hs
      all_goals
        cases hs
        first
          | rfl
          | next heq => exact (congrArg (·.2.wire) heq).symm
  | bootstrap | padUnlock | ringStart | padAnswer | hangup =>
      left
      unfold wireStep at hs
      dsimp only at hs
      split at hs <;> cases hs <;> rfl
  | done => cases hs

theorem talkStep_speaks {said : Bytes} {pc pc' : TalkPc}
    (hs : talkStep env h said pc = some (h', pc')) (ht : (HouseTask.talk said pc).Speaks) :
    (HouseTask.talk said pc').Speaks := by
  cases pc with
  | call | check | sending => cases talkStep_cases hs <;> trivial
  | readPeers =>
      cases talkStep_cases hs with
      | noDoor => trivial
      | peers => exact fun piece hpiece => hpiece
  | number peers e frames =>
      cases talkStep_cases hs with
      | numbered | unpacked => trivial
      | @number _ _ frame frames packet hp =>
          exact ⟨⟨_, e, frame, ht frame List.mem_cons_self, hp⟩,
            fun piece hpiece => ht piece (List.mem_cons_of_mem frame hpiece)⟩
  | send peers e packet frames =>
      cases talkStep_cases hs with
      | send => exact ht.2
      | sendFailed => trivial
  | done => cases hs

theorem keepaliveStep_speaks {pc pc' : KeepalivePc}
    (hs : keepaliveStep env h pc = some (h', pc')) : (HouseTask.keepalive pc').Speaks := by
  cases pc with
  | check peers =>
      unfold keepaliveStep at hs
      dsimp only at hs
      split at hs
      · cases hs; trivial
      · split at hs
        · next hp =>
            cases hs
            obtain ⟨e, -, hpacket⟩ := Option.map_eq_some_iff.mp hp
            exact ⟨e, hpacket⟩
        · cases hs; trivial
        · cases hs; trivial
  | readPeers | send => cases hs; trivial
  | done => cases hs

/-- A step of a handler keeps that it carries only what it has built. -/
theorem HouseTask.Speaks.step (ht : t.Speaks) (hs : t.step env h = some (h', t')) :
    t'.Speaks := by
  cases t with
  | agent t =>
      obtain ⟨⟨a, u⟩, hu, he⟩ := Option.map_eq_some_iff.mp hs
      obtain ⟨-, rfl⟩ := Prod.mk.inj he
      cases t with
      | command action commandId pc =>
          obtain ⟨pc', rfl, hc⟩ := step_command hu
          cases hc with
          | built _ _ hp => exact ⟨_, hp⟩
          | _ => trivial
      | elevator commandId room pc =>
          obtain ⟨pc', rfl, -⟩ := step_elevator hu
          trivial
      | wire pc =>
          obtain ⟨r, hr, he⟩ := Option.map_eq_some_iff.mp hu
          obtain ⟨-, rfl⟩ := Prod.mk.inj he
          exact wireStep_speaks hr
  | talk said pc =>
      obtain ⟨r, hr, he⟩ := Option.map_eq_some_iff.mp hs
      obtain ⟨-, rfl⟩ := Prod.mk.inj he
      exact talkStep_speaks hr ht
  | keepalive pc =>
      obtain ⟨r, hr, he⟩ := Option.map_eq_some_iff.mp hs
      obtain ⟨-, rfl⟩ := Prod.mk.inj he
      exact keepaliveStep_speaks hr
  | datagram sender payload pc =>
      obtain ⟨⟨q, pc'⟩, hr, he⟩ := Option.map_eq_some_iff.mp hs
      obtain ⟨-, rfl⟩ := Prod.mk.inj he
      rcases datagramStep_cases hr with hd | ⟨wpc, a, wpc', rest, -, hpc, hw, -⟩
      · cases hd with
        | received hpc =>
            rcases hpc with ⟨ip, -, hpc⟩ | ⟨-, hpc⟩ <;> rw [hpc] <;> trivial
        | _ => trivial
      · rw [hpc]
        exact wireStep_speaks hw
  | startMonitor | stopMonitor | dial | hangupCall | talkVideo =>
      obtain ⟨r, -, he⟩ := Option.map_eq_some_iff.mp hs
      obtain ⟨-, rfl⟩ := Prod.mk.inj he
      trivial

theorem HouseTask.speaks_of_fresh (ht : t.fresh = true) : t.Speaks := by
  unfold fresh at ht
  split at ht
  · next u =>
      cases u with
      | command action commandId pc =>
          cases pc with
          | lookup => trivial
          | _ => cases ht
      | elevator => trivial
      | wire pc =>
          cases pc with
          | received => trivial
          | _ => cases ht
  all_goals trivial

/-- What one step hands to the socket. -/
structure Hands (h : Household UdpWire) (t : HouseTask) (h' : Household UdpWire)
    (t' : HouseTask) (said : List Bytes) : Prop where
  packets : h'.packets = h.packets ++ said
  spoken : ∀ d ∈ said, ∃ sound, PadSays d sound ∧
    ∀ frame ∈ sound, ∃ words pc, t' = .talk words pc ∧ FrameOf words frame
  commands : ∀ action, (t'.carriedOut action).toNat =
    (t.carriedOut action).toNat + said.countP (hasOpcode action.opcode)

/-- A step that leaves the socket alone. -/
theorem Hands.nothing (hw : h'.agent.wire.out = h.agent.wire.out)
    (hc : ∀ action, t'.carriedOut action = t.carriedOut action) : Hands h t h' t' [] where
  packets := by
    unfold Household.packets
    rw [hw, List.append_nil]
  spoken := nofun
  commands action := by rw [hc]; rfl

/-- A step that hands a packet to the socket, which may not take it. -/
theorem Hands.of_send {outcome : Outcome} {packet : Bytes} {sound : Option Bytes}
    (hw : h'.agent.wire = (h.agent.wire.send outcome packet).2) (hpad : PadSays packet sound)
    (hsound : ∀ frame ∈ sound, ∃ words pc, t' = .talk words pc ∧ FrameOf words frame)
    (hno : ∀ action : CallAction, hasOpcode action.opcode packet = false)
    (hc : ∀ action, t'.carriedOut action = t.carriedOut action) :
    ∃ said, Hands h t h' t' said := by
  rcases UdpWire.send_cases h.agent.wire outcome packet with ⟨-, hout⟩ | ⟨-, hsame⟩
  · refine ⟨[packet], ?_, ?_, fun action => ?_⟩
    · unfold Household.packets
      rw [hw, hout]
    · intro d hd
      rw [List.mem_singleton.mp hd]
      exact ⟨sound, hpad, hsound⟩
    · rw [hc, List.countP_singleton, hno]
      rfl
  · exact ⟨[], .nothing (by rw [hw, hsame]) hc⟩

theorem hasOpcode_command {action : CallAction} {e : Endpoints} {raw : Bytes}
    (h : sessionControl action.opcode e = .ok raw) (action' : CallAction) :
    hasOpcode action'.opcode raw = (action == action') := by
  rw [hasOpcode_of (sessionOpcode_sessionControl h)]
  cases action <;> cases action' <;> decide

/-- A command's packet goes out where the command counts as carried out. -/
theorem hands_of_command {action : CallAction} {commandId : String} {pc pc' : CommandPc}
    {a : Agent UdpWire} (hs : CommandStep env.toEnv h.agent action commandId pc a pc')
    (ht : (HouseTask.agent (.command action commandId pc)).Speaks) : ∃ said,
      Hands h (.agent (.command action commandId pc)) (h.withAgent a)
        (.agent (.command action commandId pc')) said := by
  cases hs with
  | replay hget =>
      obtain ⟨result, -, rfl⟩ := Option.map_eq_some_iff.mp hget
      exact ⟨[], .nothing rfl fun action' => by
        simp [HouseTask.carriedOut, CommandPc.carried, CommandResult.replay]⟩
  | miss | readPeers | readSession | refuse | unpacked | built | publish | store =>
      exact ⟨[], .nothing rfl fun _ => rfl⟩
  | notify =>
      refine ⟨[], .nothing ?_ fun _ => rfl⟩
      unfold Household.withAgent Agent.notify
      cases action <;> rfl
  | @sent peers event packet hok =>
      obtain ⟨e, hp⟩ := ht
      rcases UdpWire.send_cases h.agent.wire env.send packet with ⟨-, hout⟩ | ⟨hno, -⟩
      · refine ⟨[packet], hout, fun d hd => ?_, fun action' => ?_⟩
        · rw [List.mem_singleton.mp hd]
          exact ⟨none, .command hp, nofun⟩
        · rw [List.countP_singleton, hasOpcode_command hp]
          cases action <;> cases action' <;> rfl
      · exact absurd hok hno
  | @unsent peers event packet hfail =>
      rcases UdpWire.send_cases h.agent.wire env.send packet with ⟨hok, -⟩ | ⟨-, hsame⟩
      · exact absurd hok hfail
      · exact ⟨[], .nothing (congrArg UdpWire.out hsame) fun _ => rfl⟩

/-- **Everything a step hands to the socket.** -/
theorem hands_of_step (hs : HouseStep env h t h' t') (ht : t.Speaks) :
    ∃ said, Hands h t h' t' said := by
  cases hs with
  | @wire _ _ pc a pc' hpc hpc' hw =>
      have hspeaks : pc.Speaks := by
        unfold HouseTask.wirePc at hpc
        split at hpc
        · obtain rfl := Option.some.inj hpc; exact ht
        · obtain rfl := Option.some.inj hpc; exact ht
        · cases hpc
      have hno : ∀ (u : HouseTask) (pc : WirePc), u.wirePc = some pc → ∀ action,
          u.carriedOut action = false := by
        intro u pc hu action
        unfold HouseTask.wirePc at hu
        split at hu
        · rfl
        · rfl
        · cases hu
      have hc : ∀ action, t'.carriedOut action = t.carriedOut action := fun action => by
        rw [hno t' _ hpc', hno t _ hpc]
      rcases wireStep_wire hw hspeaks with hsame | ⟨reply, hpad, hreply, hsent⟩
      · exact ⟨[], .nothing (congrArg UdpWire.out hsame) hc⟩
      · exact Hands.of_send hsent hpad nofun hreply hc
  | command hs => exact hands_of_command hs ht
  | elevator hs => exact ⟨[], .nothing (by cases hs <;> rfl) fun _ => rfl⟩
  | monitor hs =>
      refine ⟨[], .nothing ?_ fun _ => rfl⟩
      cases hs with
      | replace => exact congrArg UdpWire.out (stopMonitorNow_wire h.agent)
      | _ => rfl
  | stop => exact ⟨[], .nothing (congrArg UdpWire.out (stopMonitorNow_wire h.agent)) fun _ => rfl⟩
  | dial hs => exact ⟨[], .nothing (by cases hs <;> rfl) fun _ => rfl⟩
  | hangup hs =>
      refine ⟨[], .nothing ?_ fun _ => rfl⟩
      cases hs with
      | take => exact congrArg UdpWire.out (takeCallSession_wire h.agent)
      | _ => rfl
  | talk hs =>
      cases hs with
      | send | sendFailed =>
          obtain ⟨⟨sequence, e, piece, hpiece, hp⟩, -⟩ := ht
          refine Hands.of_send rfl (.sound hp) ?_ (fun action => ?_) fun _ => rfl
          · rintro frame ⟨⟩
            exact ⟨_, _, rfl, piece, hpiece, rfl⟩
          · rw [hasOpcode_of (sessionOpcode_audioPacket hp)]
            cases action <;> decide
      | _ => exact ⟨[], .nothing rfl fun _ => rfl⟩
  | video hs => exact ⟨[], .nothing (by cases hs <;> rfl) fun _ => rfl⟩
  | keepalive hs =>
      cases hs with
      | send =>
          obtain ⟨e, hp⟩ := ht
          refine Hands.of_send rfl (.keepalive hp) nofun (fun action => ?_) fun _ => rfl
          rw [hasOpcode_of (sessionOpcode_sessionControl hp)]
          cases action <;> decide
      | _ => exact ⟨[], .nothing rfl fun _ => rfl⟩
  | datagram hs => exact ⟨[], .nothing (by cases hs <;> rfl) fun _ => rfl⟩

end

/-! ## The ledger -/

/-- What went out is what the handlers of this household said, and its control packets are the
    commands that were carried out. -/
structure Ledger (p : HousePool UdpWire) : Prop where
  speaks : ∀ t ∈ p.threads, t.Speaks
  spoken : ∀ d ∈ p.shared.packets, ∃ sound, PadSays d sound ∧
    ∀ frame ∈ sound, ∃ words pc, .talk words pc ∈ p.threads ∧ FrameOf words frame
  commands : ∀ action, p.shared.packets.countP (hasOpcode action.opcode) =
    p.threads.countP (·.carriedOut action)

/-- A thread that steps changes a count by what it adds itself. -/
theorem countP_set {ι : Type} (f : ι → Bool) {xs : List ι} {i : Nat} {x x' : ι}
    (h : xs[i]? = some x) :
    (xs.set i x').countP f + (f x).toNat = xs.countP f + (f x').toNat := by
  induction xs generalizing i with
  | nil => cases h
  | cons y ys ih =>
      cases i with
      | zero =>
          obtain rfl := Option.some.inj h
          simp only [List.set_cons_zero, List.countP_cons]
          cases f y <;> cases f x' <;> simp
      | succ i =>
          have := ih h
          simp only [List.set_cons_succ, List.countP_cons]
          omega

theorem HouseTask.not_carriedOut_of_fresh {t : HouseTask} (ht : t.fresh = true)
    (action : CallAction) : t.carriedOut action = false := by
  unfold fresh at ht
  split at ht
  · next u =>
      cases u with
      | command action' commandId pc =>
          cases pc with
          | lookup => simp [carriedOut, CommandPc.carried]
          | _ => cases ht
      | elevator | wire => rfl
  all_goals first | rfl | cases ht

namespace Ledger

variable {p q : HousePool UdpWire} {m : HouseMove}

theorem start {a : Agent UdpWire} (ha : a.wire.out = []) : Ledger (idleHouse a) := by
  have hnil : (idleHouse a).shared.packets = [] := by
    unfold Household.packets idleHouse Household.new
    rw [ha]
    rfl
  exact {
    speaks := fun t ht => absurd ht List.not_mem_nil
    spoken := fun d hd => by rw [hnil] at hd; cases hd
    commands := fun action => by rw [hnil, idleHouse, List.countP_nil, List.countP_nil] }

/-- **One move keeps the ledger.** -/
theorem next (hp : Ledger p) (hq : (houseProgram .pad UdpWire).system.next p m = some q) :
    Ledger q := by
  rcases Program.next_cases hq with
    ⟨t, rfl, hmay, rfl⟩ | ⟨i, env, t, h', t', rfl, ht, hstep, rfl⟩ | ⟨l, rfl, rfl⟩
  · have hfresh := HouseTask.fresh_of_mayStart hmay
    refine ⟨fun u hu => ?_, fun d hd => ?_, fun action => ?_⟩
    · rcases List.mem_append.mp hu with hu | hu
      · exact hp.speaks u hu
      · rw [List.mem_singleton.mp hu]
        exact HouseTask.speaks_of_fresh hfresh
    · obtain ⟨sound, hd, htalk⟩ := hp.spoken d hd
      refine ⟨sound, hd, fun frame hframe => ?_⟩
      obtain ⟨words, pc, hmem, hof⟩ := htalk frame hframe
      exact ⟨words, pc, List.mem_append_left _ hmem, hof⟩
    · rw [List.countP_append, List.countP_singleton,
        HouseTask.not_carriedOut_of_fresh hfresh action]
      exact hp.commands action
  · have hmem := List.mem_of_getElem? ht
    have hspeaks := hp.speaks t hmem
    have hcases := houseStep_cases hstep
    obtain ⟨said, hands⟩ := hands_of_step hcases hspeaks
    refine ⟨fun u hu => ?_, fun d hd => ?_, fun action => ?_⟩
    · rcases List.mem_or_eq_of_mem_set hu with hu | rfl
      · exact hp.speaks u hu
      · exact hspeaks.step hstep
    · rw [hands.packets] at hd
      rcases List.mem_append.mp hd with hd | hd
      · obtain ⟨sound, hd, htalk⟩ := hp.spoken d hd
        refine ⟨sound, hd, fun frame hframe => ?_⟩
        obtain ⟨words, pc, htask, hof⟩ := htalk frame hframe
        obtain ⟨j, hj⟩ := List.mem_iff_getElem?.mp htask
        by_cases hji : j = i
        · -- The talk is the handler that stepped: it is the same talk afterwards.
          subst hji
          obtain rfl := Option.some.inj (ht.symm.trans hj)
          cases hcases with
          | @talk _ _ _ pc' hs =>
              exact ⟨words, pc', List.mem_of_getElem? (getElem?_set_self ht), hof⟩
          | wire hpc => cases hpc
        · exact ⟨words, pc, List.mem_of_getElem? ((getElem?_set_other hji).trans hj), hof⟩
      · obtain ⟨sound, hd, htalk⟩ := hands.spoken d hd
        refine ⟨sound, hd, fun frame hframe => ?_⟩
        obtain ⟨words, pc, rfl, hof⟩ := htalk frame hframe
        exact ⟨words, pc, List.mem_of_getElem? (getElem?_set_self ht), hof⟩
    · have hcount : (p.threads.set i t').countP (·.carriedOut action) + _ = _ + _ :=
        countP_set (·.carriedOut action) ht
      have hstep := hands.commands action
      change h'.packets.countP _ = (p.threads.set i t').countP _
      rw [hands.packets, List.countP_append, hp.commands action]
      omega
  · exact hp

/-- What the socket took stays there. -/
theorem packets_next (hp : Ledger p)
    (hq : (houseProgram .pad UdpWire).system.next p m = some q) :
    p.shared.packets <+: q.shared.packets := by
  rcases Program.next_cases hq with
    ⟨t, rfl, -, rfl⟩ | ⟨i, env, t, h', t', rfl, ht, hstep, rfl⟩ | ⟨l, rfl, rfl⟩
  · exact List.prefix_rfl
  · obtain ⟨said, hands⟩ :=
      hands_of_step (houseStep_cases hstep) (hp.speaks t (List.mem_of_getElem? ht))
    exact ⟨said, hands.packets.symm⟩
  · exact List.prefix_rfl

theorem run {a : Agent UdpWire} (ha : a.wire.out = []) {moves : List HouseMove}
    (hrun : (houseProgram .pad UdpWire).system.run (idleHouse a) moves = some p) : Ledger p :=
  System.run_induction (fun _ _ _ hp hq => hp.next hq) (start ha) hrun

end Ledger

end Michoi
