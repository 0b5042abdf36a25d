/-
  Talk audio is cut alike on both paths, and nothing of it is lost.

  A call of `talk` takes its steps while other handlers run (`Turn`): what they do between two
  of its steps is arbitrary, as long as talking stays possible and they do not draw a number
  of the path (`Turn.Keeps`). `audioCut` is what a buffer becomes, `run_door` and `run_call`
  say that both paths hand just that to their senders, `flatMap_heard` and `audioOf_packet`
  what a receiver reads of it. `talk_heard` puts several calls one after another.
-/
import Mathlib.Algebra.Group.Nat.Defs
import Michoi.Household.Frame
import Michoi.Protocol.Codec

namespace Michoi

open Lib

/-! ## One datagram -/

/-- The datagram of a frame: it is filled up to 512 bytes. -/
def audioDatagram (block : Bytes) (sequence : UInt16) (frame : Bytes) : Bytes :=
  packet familySession opMedia 602 <|
    block ++ [mediaAudio, sequence, 1, 1, 512].flatMap u16ToLe ++ resize frame 512

theorem audioPacket_eq {e : Endpoints} {block : Bytes} (h : e.pack = .ok block)
    (sequence : UInt16) (frame : Bytes) :
    audioPacket sequence (resize frame 512) e = .ok (audioDatagram block sequence frame) := by
  unfold audioPacket
  rw [if_neg (not_not.mpr (length_resize frame 512)), h]
  rfl

/-- What a receiver reads: `Message::parse`, then `media`. -/
def audioOf (datagram : Bytes) : Option MediaFragment :=
  (Message.parse datagram).toOption.bind Message.media

theorem audioOf_datagram {block : Bytes} (h : block.length = 48) (sequence : UInt16)
    (frame : Bytes) : audioOf (audioDatagram block sequence frame) = some {
      mediaType := mediaAudio, sequence, fragmentCount := 1, fragmentIndex := 1
      validLength := 512, data := resize frame 512 } := by
  unfold audioOf audioDatagram
  rw [parse_packet]
  apply media_of_header [] (.inl rfl) rfl h
  · rw [List.append_nil, List.append_assoc]
  · exact (length_resize frame 512).symm

/-- The audio of a datagram. -/
def heard (datagram : Bytes) : Bytes := ((audioOf datagram).map MediaFragment.data).getD []

theorem heard_datagram {block : Bytes} (h : block.length = 48) (sequence : UInt16)
    (frame : Bytes) : heard (audioDatagram block sequence frame) = resize frame 512 := by
  rw [heard, audioOf_datagram h]
  rfl

/-! ## A buffer -/

/-- The datagrams of some frames, numbered from a counter. -/
def audioCut (block : Bytes) (counter : UInt32) : List Bytes → List Bytes
  | [] => []
  | frame :: frames =>
      audioDatagram block counter.toUInt16 frame :: audioCut block (counter + 1) frames

theorem length_audioCut (block : Bytes) (counter : UInt32) (frames : List Bytes) :
    (audioCut block counter frames).length = frames.length := by
  induction frames generalizing counter with
  | nil => rfl
  | cons frame frames ih => simp [audioCut, ih]

theorem counter_succ (counter : UInt32) (n : Nat) :
    counter + 1 + UInt32.ofNat n = counter + UInt32.ofNat (n + 1) := by
  apply UInt32.toNat_inj.mp
  simp only [UInt32.toNat_add, UInt32.toNat_ofNat', UInt32.toNat_one]
  omega

/-- Frames in two parts are numbered through. -/
theorem audioCut_append (block : Bytes) (counter : UInt32) (frames more : List Bytes) :
    audioCut block counter (frames ++ more) = audioCut block counter frames ++
      audioCut block (counter + UInt32.ofNat frames.length) more := by
  induction frames generalizing counter with
  | nil => simp [audioCut]
  | cons frame frames ih =>
      simp only [List.cons_append, audioCut, ih, List.length_cons, counter_succ]

theorem getElem?_audioCut {block : Bytes} {counter : UInt32} {frames : List Bytes} {i : Nat}
    {datagram : Bytes} (h : (audioCut block counter frames)[i]? = some datagram) :
    ∃ frame, datagram = audioDatagram block (counter + UInt32.ofNat i).toUInt16 frame := by
  induction frames generalizing counter i with
  | nil => cases h
  | cons frame frames ih =>
      cases i with
      | zero =>
          obtain rfl := Option.some.inj h
          exact ⟨frame, by simp⟩
      | succ i =>
          obtain ⟨frame', hframe⟩ := ih h
          exact ⟨frame', by rw [hframe, counter_succ]⟩

theorem number_of_counter (counter : UInt32) (i : Nat) :
    (counter + UInt32.ofNat i).toUInt16.toNat = (counter.toNat + i) % 2 ^ 16 := by
  simp only [UInt32.toNat_toUInt16, UInt32.toNat_add, UInt32.toNat_ofNat']
  omega

theorem resize_of_le {bytes : Bytes} {n : Nat} (h : bytes.length ≤ n) :
    resize bytes n = bytes ++ List.replicate (n - bytes.length) 0 := by
  rw [resize, List.take_of_length_le h]

/-- An audio packet is read as its frame. -/
theorem audioOf_audioPacket {sequence : UInt16} {frame raw : Bytes} {e : Endpoints}
    (h : audioPacket sequence frame e = .ok raw) : frame.length = 512 ∧
      audioOf raw = some {
        mediaType := mediaAudio, sequence, fragmentCount := 1, fragmentIndex := 1
        validLength := 512, data := frame } := by
  unfold audioPacket at h
  split at h
  · cases h
  · next hlen =>
      have hlen := not_not.mp hlen
      obtain ⟨block, hb, h⟩ := bind_eq_ok_iff.mp h
      have hfill : resize frame 512 = frame := by
        rw [resize_of_le (Nat.le_of_eq hlen), hlen, Nat.sub_self, List.replicate_zero,
          List.append_nil]
      have hraw : raw = audioDatagram block sequence frame := by
        rw [← Except.ok.inj h]
        unfold audioDatagram
        rw [hfill]
      refine ⟨hlen, ?_⟩
      rw [hraw, audioOf_datagram (length_of_block hb), hfill]

/-- Pieces that are filled up are the bytes again, with less than a piece of zeros. -/
theorem flatMap_resize_chunks {n : Nat} (hn : 0 < n) (bytes : Bytes) :
    ∃ zeros < n, (chunks n bytes).flatMap (resize · n) = bytes ++ List.replicate zeros 0 := by
  induction hlen : bytes.length using Nat.strong_induction_on generalizing bytes with
  | _ len ih =>
      by_cases hnil : bytes = []
      · subst hnil
        exact ⟨0, hn, rfl⟩
      · have hpos := List.length_pos_iff.mpr hnil
        have hdrop : (bytes.drop n).length < len := by
          rw [List.length_drop]
          omega
        obtain ⟨zeros, hzeros, hrest⟩ := ih _ hdrop (bytes.drop n) rfl
        rw [chunks_eq_cons hn hnil, List.flatMap_cons]
        by_cases hlast : bytes.length ≤ n
        · refine ⟨n - bytes.length, by omega, ?_⟩
          rw [List.drop_of_length_le hlast, List.take_of_length_le hlast, resize_of_le hlast]
          simp [chunks, chunksLoop]
        · have htake : (bytes.take n).length = n := List.length_take_of_le (by omega)
          refine ⟨zeros, hzeros, ?_⟩
          rw [hrest, resize_of_le (Nat.le_of_eq htake), htake, Nat.sub_self,
            List.replicate_zero, List.append_nil, ← List.append_assoc, List.take_append_drop]

theorem flatMap_heard {block : Bytes} (h : block.length = 48) (counter : UInt32)
    (frames : List Bytes) :
    (audioCut block counter frames).flatMap heard = frames.flatMap (resize · 512) := by
  induction frames generalizing counter with
  | nil => rfl
  | cons frame frames ih =>
      rw [audioCut, List.flatMap_cons, List.flatMap_cons, heard_datagram h, ih]

/-- The loop of an outbound call under its lock. -/
theorem Line.audioPackets_eq {line : Line} {block : Bytes} (h : line.endpoints.pack = .ok block)
    (frames : List Bytes) :
    line.audioPackets frames = (audioCut block line.aseq frames,
      { line with aseq := line.aseq + UInt32.ofNat frames.length }) := by
  induction frames generalizing line with
  | nil => simp [audioPackets, audioCut]
  | cons frame frames ih =>
      have hrest := @ih { line with aseq := line.aseq + 1 } h
      simp only [audioPackets, hrest, audioPacket_eq h, audioCut, counter_succ,
        List.length_cons]
      rfl

/-! ## A call of `talk` -/

variable {W : Type}

/-- What ran since the step before, and what the step reads from outside. -/
structure Turn (W : Type) where
  others : Household W → Household W
  env : HouseEnv

/-- A call under way: its household, where it stands, and the datagrams that it handed to a
    sender, with whether they were taken. -/
structure Talk (W : Type) where
  house : Household W
  pc : TalkPc
  handed : List (Bytes × Bool)

def Talk.sent (s : Talk W) : List Bytes := s.handed.map Prod.fst

inductive TalkPath where
  | door | call
  deriving DecidableEq, Repr

/-- Talking is possible on a path, to these endpoints and with this counter. -/
inductive Ready (h : Household W) (e : Endpoints) (counter : UInt32) : TalkPath → Prop where
  | door (noCall : h.agent.callSession = none)
      (allowed : h.agent.call.machine.remoteMediaAllowed h.agent.call.machine.state.sessionId)
      (endpoints : h.agent.peers.endpoints = some e) (drawn : h.audioSeq = counter) :
      Ready h e counter .door
  | call {handle : CallHandle} {vseq : UInt32} (session : h.agent.callSession = some handle)
      (line : h.lines handle.cancel = some ⟨e, counter, vseq⟩) : Ready h e counter .call

/-- Only these parts of a household matter for talking. -/
theorem Ready.of_same {h h' : Household W} {e : Endpoints} {counter : UInt32}
    {path : TalkPath} (hready : Ready h e counter path)
    (hsession : h'.agent.callSession = h.agent.callSession)
    (hcall : h'.agent.call = h.agent.call) (hpeers : h'.agent.peers = h.agent.peers)
    (hlines : h'.lines = h.lines) (hseq : h'.audioSeq = h.audioSeq) :
    Ready h' e counter path := by
  cases hready with
  | door noCall allowed endpoints drawn =>
      exact .door (hsession.trans noCall) (by rw [hcall]; exact allowed)
        (by rw [hpeers]; exact endpoints) (hseq.trans drawn)
  | call session line => exact .call (hsession.trans session) (by rw [hlines]; exact line)

/-- The others leave the path as it is, and draw no number of it. -/
def Turn.Keeps (turn : Turn W) (path : TalkPath) : Prop :=
  ∀ h e counter, Ready h e counter path → Ready (turn.others h) e counter path

section

variable [Wire W]

/-- What a step hands to a sender. -/
def TalkPc.hands (env : HouseEnv) (h : Household W) : TalkPc → List (Bytes × Bool)
  | .sending _ (packet :: _) => [(packet, env.took)]
  | .send peers _ packet _ =>
      [(packet, (h.agent.sendAsPad env.toEnv packet peers).1 == .ok ())]
  | _ => []

def Talk.turn (pcm : Bytes) (s : Talk W) (turn : Turn W) : Talk W :=
  let h := turn.others s.house
  match talkStep turn.env h pcm s.pc with
  | some r => ⟨r.1, r.2, s.handed ++ s.pc.hands turn.env h⟩
  | none => { s with house := h }

def Talk.run (pcm : Bytes) (s : Talk W) (turns : List (Turn W)) : Talk W :=
  turns.foldl (Talk.turn pcm) s

@[simp] theorem Talk.run_cons (pcm : Bytes) (s : Talk W) (turn : Turn W) (turns : List (Turn W)) :
    s.run pcm (turn :: turns) = (s.turn pcm turn).run pcm turns := rfl

/-- A call of `talk` and the turns that it gets. -/
structure TalkCall (W : Type) where
  pcm : Bytes
  turns : List (Turn W)

/-- Enough turns to return: a packet takes two on the path to the door. -/
def TalkCall.Enough (call : TalkCall W) : Prop :=
  2 * (chunks 512 call.pcm).length + 4 ≤ call.turns.length

omit [Wire W] in
instance (call : TalkCall W) : Decidable call.Enough := inferInstanceAs (Decidable (_ ≤ _))

def TalkCall.run (h : Household W) (call : TalkCall W) : Talk W :=
  Talk.run call.pcm ⟨h, .call, []⟩ call.turns

/-- Calls one after another. -/
def talks (h : Household W) : List (TalkCall W) → List (Talk W)
  | [] => []
  | call :: calls => call.run h :: talks (call.run h).house calls

/-! ## One call -/

variable {pcm : Bytes} {e : Endpoints} {counter : UInt32} {path : TalkPath} {block : Bytes}

/-- What was handed over stays so. -/
theorem Talk.handed_run (pcm : Bytes) (s : Talk W) (turns : List (Turn W)) :
    s.handed <+: (s.run pcm turns).handed := by
  induction turns generalizing s with
  | nil => exact List.prefix_rfl
  | cons turn turns ih =>
      apply List.IsPrefix.trans _ (ih (s.turn pcm turn))
      unfold Talk.turn
      dsimp only
      split
      · exact List.prefix_append ..
      · exact List.prefix_rfl

/-- How a call ends: it has returned, the path is ready with the next number, and these
    datagrams were handed over. -/
structure Talk.Ended (s : Talk W) (path : TalkPath) (e : Endpoints) (counter : UInt32)
    (sent : List Bytes) : Prop where
  returned : s.pc = .done (.ok ())
  ready : Ready s.house e counter path
  sent : s.sent = sent

theorem run_done {turns : List (Turn W)} (hkeeps : ∀ turn ∈ turns, turn.Keeps path)
    {h : Household W} {handed : List (Bytes × Bool)} (hready : Ready h e counter path) :
    (Talk.run pcm ⟨h, .done (.ok ()), handed⟩ turns).Ended path e counter
      (handed.map Prod.fst) := by
  induction turns generalizing h with
  | nil => exact ⟨rfl, hready, rfl⟩
  | cons turn turns ih =>
      have hothers := hkeeps turn List.mem_cons_self h e counter hready
      exact ih (fun t ht => hkeeps t (List.mem_cons_of_mem _ ht)) hothers

/-- On an outbound call the packets were built before: each takes one turn. -/
theorem run_sending {turns : List (Turn W)} (hkeeps : ∀ turn ∈ turns, turn.Keeps path)
    {h : Household W} {handed : List (Bytes × Bool)} (hready : Ready h e counter path)
    {signal : Nat} {packets : List Bytes} (hturns : packets.length + 1 ≤ turns.length) :
    (Talk.run pcm ⟨h, .sending signal packets, handed⟩ turns).Ended path e counter
      (handed.map Prod.fst ++ packets) := by
  induction packets generalizing turns h handed with
  | nil =>
      cases turns with
      | nil => exact absurd hturns (by simp)
      | cons turn turns =>
          have hothers := hkeeps turn List.mem_cons_self h e counter hready
          rw [List.append_nil]
          have hdone : (Talk.run pcm ⟨turn.others h, .done (.ok ()), handed⟩ turns).Ended path e
              counter (handed.map Prod.fst) :=
            run_done (fun t ht => hkeeps t (List.mem_cons_of_mem _ ht)) hothers
          have hturn : Talk.turn pcm ⟨h, .sending signal [], handed⟩ turn =
              ⟨turn.others h, .done (.ok ()), handed⟩ := by
            simp [Talk.turn, talkStep, TalkPc.hands]
          rw [Talk.run_cons, hturn]
          exact hdone
  | cons packet packets ih =>
      cases turns with
      | nil => exact absurd hturns (by simp)
      | cons turn turns =>
          have hothers := hkeeps turn List.mem_cons_self h e counter hready
          have hready' : Ready ((turn.others h).send turn.env signal packet) e counter path :=
            hothers.of_same rfl rfl rfl rfl rfl
          have hnext : (Talk.run pcm ⟨(turn.others h).send turn.env signal packet,
              .sending signal packets, handed ++ [(packet, turn.env.took)]⟩ turns).Ended path e
              counter ((handed ++ [(packet, turn.env.took)]).map Prod.fst ++ packets) :=
            ih (fun t ht => hkeeps t (List.mem_cons_of_mem _ ht)) hready' (by simpa using hturns)
          have hturn : Talk.turn pcm ⟨h, .sending signal (packet :: packets), handed⟩ turn =
              ⟨(turn.others h).send turn.env signal packet, .sending signal packets,
                handed ++ [(packet, turn.env.took)]⟩ := rfl
          rw [Talk.run_cons, hturn]
          simpa using hnext

/-- A number is drawn on the path to the door. -/
def Household.draw (h : Household W) : Household W := { h with audioSeq := h.audioSeq + 1 }

theorem turn_number {turn : Turn W} {h : Household W} {handed : List (Bytes × Bool)}
    (hpack : e.pack = .ok block) (peers : Peers) (frame : Bytes) (frames : List Bytes) :
    Talk.turn pcm ⟨h, .number peers e (frame :: frames), handed⟩ turn =
      ⟨(turn.others h).draw,
        .send peers e (audioDatagram block (turn.others h).audioSeq.toUInt16 frame) frames,
        handed⟩ := by
  have hstep : talkStep turn.env (turn.others h) pcm (.number peers e (frame :: frames)) =
      some ((turn.others h).draw,
        .send peers e (audioDatagram block (turn.others h).audioSeq.toUInt16 frame) frames) := by
    simp only [talkStep, audioPacket_eq hpack]
    rfl
  simp only [Talk.turn, hstep, TalkPc.hands, List.append_nil]

/-- A packet that was taken: the next frame is due. -/
theorem turn_send {turn : Turn W} {h : Household W} {handed : List (Bytes × Bool)}
    {peers : Peers} {packet : Bytes} {frames : List Bytes}
    (htaken : ∀ x ∈ (Talk.turn pcm ⟨h, .send peers e packet frames, handed⟩ turn).handed,
      x.2 = true) :
    Talk.turn pcm ⟨h, .send peers e packet frames, handed⟩ turn =
      ⟨(turn.others h).withAgent
          ((turn.others h).agent.sendAsPad turn.env.toEnv packet peers).2,
        .number peers e frames, handed ++ [(packet, true)]⟩ := by
  unfold Talk.turn talkStep at htaken ⊢
  dsimp only [TalkPc.hands] at htaken ⊢
  rcases hsend : (turn.others h).agent.sendAsPad turn.env.toEnv packet peers with ⟨result, agent⟩
  rw [hsend] at htaken
  cases result with
  | ok => rfl
  | error error =>
      have hfalse := htaken (packet, false) (List.mem_append_right _ List.mem_cons_self)
      cases hfalse

/-- On the path to the door each packet takes a turn for its number and one to be sent. -/
theorem run_number {turns : List (Turn W)} (hkeeps : ∀ turn ∈ turns, turn.Keeps .door)
    (hpack : e.pack = .ok block) {h : Household W} {handed : List (Bytes × Bool)}
    (hready : Ready h e counter .door) {peers : Peers} {frames : List Bytes}
    (hturns : 2 * frames.length + 1 ≤ turns.length)
    (htaken : ∀ x ∈ (Talk.run pcm ⟨h, .number peers e frames, handed⟩ turns).handed,
      x.2 = true) :
    (Talk.run pcm ⟨h, .number peers e frames, handed⟩ turns).Ended .door e
      (counter + UInt32.ofNat frames.length)
      (handed.map Prod.fst ++ audioCut block counter frames) := by
  induction frames generalizing turns h handed counter with
  | nil =>
      cases turns with
      | nil => exact absurd hturns (by simp)
      | cons turn turns =>
          have hothers := hkeeps turn List.mem_cons_self h e counter hready
          have hturn : Talk.turn pcm ⟨h, .number peers e [], handed⟩ turn =
              ⟨turn.others h, .done (.ok ()), handed⟩ := by
            simp [Talk.turn, talkStep, TalkPc.hands]
          have hcounter : counter + UInt32.ofNat ([] : List Bytes).length = counter := by simp
          rw [Talk.run_cons, hturn, hcounter, audioCut, List.append_nil]
          exact run_done (fun t ht => hkeeps t (List.mem_cons_of_mem _ ht)) hothers
  | cons frame frames ih =>
      obtain ⟨turn, turn', turns, rfl⟩ : ∃ t t' ts, turns = t :: t' :: ts := by
        match turns, hturns with
        | t :: t' :: ts, _ => exact ⟨t, t', ts, rfl⟩
      have hkeep := hkeeps turn List.mem_cons_self
      have hkeep' := hkeeps turn' (List.mem_cons_of_mem _ List.mem_cons_self)
      obtain ⟨noCall, allowed, endpoints, drawn⟩ := hkeep h e counter hready
      have hready' : Ready (turn'.others (turn.others h).draw) e (counter + 1) .door :=
        hkeep' _ e _ (.door noCall allowed endpoints (congrArg (· + 1) drawn))
      rw [Talk.run_cons, turn_number hpack, drawn, Talk.run_cons] at htaken ⊢
      have hsend := turn_send fun x hx => htaken x ((Talk.handed_run pcm _ turns).subset hx)
      rw [hsend] at htaken ⊢
      have hkeeps' : ∀ t ∈ turns, t.Keeps .door := fun t ht =>
        hkeeps t (List.mem_cons_of_mem _ (List.mem_cons_of_mem _ ht))
      have hready'' : Ready ((turn'.others (turn.others h).draw).withAgent
          ((turn'.others (turn.others h).draw).agent.sendAsPad turn'.env.toEnv
            (audioDatagram block counter.toUInt16 frame) peers).2) e (counter + 1) .door :=
        hready'.of_same rfl rfl rfl rfl rfl
      have hnext := ih hkeeps' hready'' (by simp only [List.length_cons] at hturns; omega) htaken
      rw [counter_succ, List.map_append, List.append_assoc] at hnext
      exact hnext

/-- The numbers of a call's packets are taken. -/
def Household.setLine (h : Household W) (signal : Nat) (line : Line) : Household W :=
  { h with lines := Function.update h.lines signal (some line) }

/-- A buffer during an outbound call. -/
theorem run_call {turn : Turn W} {turns : List (Turn W)}
    (hkeeps : ∀ turn ∈ turns, turn.Keeps .call) (hpack : e.pack = .ok block) {h : Household W}
    (hready : Ready (turn.others h) e counter .call)
    (hturns : (chunks 512 pcm).length + 1 ≤ turns.length) :
    (Talk.run pcm ⟨h, .call, []⟩ (turn :: turns)).Ended .call e
      (counter + UInt32.ofNat (chunks 512 pcm).length)
      (audioCut block counter (chunks 512 pcm)) := by
  obtain ⟨handle, vseq, session, line⟩ : ∃ handle vseq,
      (turn.others h).agent.callSession = some handle ∧
        (turn.others h).lines handle.cancel = some ⟨e, counter, vseq⟩ := by
    cases hready with
    | call session line => exact ⟨_, _, session, line⟩
  let line' : Line := ⟨e, counter + UInt32.ofNat (chunks 512 pcm).length, vseq⟩
  have hturn : Talk.turn pcm ⟨h, .call, []⟩ turn =
      ⟨(turn.others h).setLine handle.cancel line',
        .sending handle.cancel (audioCut block counter (chunks 512 pcm)), []⟩ := by
    have hcut := @Line.audioPackets_eq ⟨e, counter, vseq⟩ block hpack (chunks 512 pcm)
    simp only [Talk.turn, talkStep, session, line, hcut, TalkPc.hands, List.append_nil]
    rfl
  have hready : Ready ((turn.others h).setLine handle.cancel line') e line'.aseq .call :=
    .call session (Function.update_self ..)
  rw [Talk.run_cons, hturn]
  exact run_sending hkeeps hready (by rw [length_audioCut]; exact hturns)

/-- A buffer for the door. -/
theorem run_door {turns : List (Turn W)} (hkeeps : ∀ turn ∈ turns, turn.Keeps .door)
    (hpack : e.pack = .ok block) {h : Household W} (hready : Ready h e counter .door)
    (hturns : 2 * (chunks 512 pcm).length + 4 ≤ turns.length)
    (htaken : ∀ x ∈ (Talk.run pcm ⟨h, .call, []⟩ turns).handed, x.2 = true) :
    (Talk.run pcm ⟨h, .call, []⟩ turns).Ended .door e
      (counter + UInt32.ofNat (chunks 512 pcm).length)
      (audioCut block counter (chunks 512 pcm)) := by
  obtain ⟨turn, turn', turn'', turns, rfl⟩ : ∃ t t' t'' ts, turns = t :: t' :: t'' :: ts := by
    match turns, hturns with
    | t :: t' :: t'' :: ts, _ => exact ⟨t, t', t'', ts, rfl⟩
  simp only [List.mem_cons, forall_eq_or_imp] at hkeeps
  obtain ⟨hkeep, hkeep', hkeep'', hkeeps⟩ := hkeeps
  have hready := hkeep _ _ _ hready
  have hready' := hkeep' _ _ _ hready
  have hready'' := hkeep'' _ _ _ hready'
  have hcheck : Talk.turn pcm ⟨h, .call, []⟩ turn = ⟨turn.others h, .check, []⟩ := by
    cases hready with
    | door noCall => simp [Talk.turn, talkStep, noCall, TalkPc.hands]
  have hread : Talk.turn pcm ⟨turn.others h, .check, []⟩ turn' =
      ⟨turn'.others (turn.others h), .readPeers, []⟩ := by
    cases hready' with
    | door _ allowed => simp [Talk.turn, talkStep, allowed, TalkPc.hands]
  have hnumber : Talk.turn pcm ⟨turn'.others (turn.others h), .readPeers, []⟩ turn'' =
      ⟨turn''.others (turn'.others (turn.others h)),
        .number (turn''.others (turn'.others (turn.others h))).agent.peers e (chunks 512 pcm),
        []⟩ := by
    cases hready'' with
    | door _ _ endpoints => simp [Talk.turn, talkStep, endpoints, TalkPc.hands]
  rw [Talk.run_cons, hcheck, Talk.run_cons, hread, Talk.run_cons, hnumber] at htaken ⊢
  exact run_number hkeeps hpack hready'' (by simp only [List.length_cons] at hturns; omega) htaken

/-- **One call.** Its datagrams are the cut of its buffer, on either path. -/
theorem TalkCall.run_ended {call : TalkCall W} (henough : call.Enough)
    (hkeeps : ∀ turn ∈ call.turns, turn.Keeps path) (hpack : e.pack = .ok block)
    {h : Household W} (hready : Ready h e counter path)
    (htaken : ∀ x ∈ (call.run h).handed, x.2 = true) :
    (call.run h).Ended path e (counter + UInt32.ofNat (chunks 512 call.pcm).length)
      (audioCut block counter (chunks 512 call.pcm)) := by
  obtain ⟨pcm, turns⟩ := call
  dsimp only [Enough, run] at *
  cases path with
  | door => exact run_door hkeeps hpack hready henough htaken
  | call =>
      cases turns with
      | nil => exact absurd henough (by simp)
      | cons turn turns =>
          simp only [List.mem_cons, forall_eq_or_imp, List.length_cons] at hkeeps henough
          exact run_call hkeeps.2 hpack (hkeeps.1 _ _ _ hready) (by omega)

/-! ## Several calls -/

/-- Calls in which talking stays possible, with enough turns, and whose sends succeed. -/
structure TalksOn (path : TalkPath) (e : Endpoints) (counter : UInt32) (h : Household W)
    (calls : List (TalkCall W)) : Prop where
  ready : Ready h e counter path
  enough : ∀ call ∈ calls, call.Enough
  keeps : ∀ call ∈ calls, ∀ turn ∈ call.turns, turn.Keeps path
  taken : ∀ s ∈ talks h calls, ∀ x ∈ s.handed, x.2 = true

/-- The buffers' cuts, numbered through. -/
def audioCuts (block : Bytes) : UInt32 → List Bytes → List (List Bytes)
  | _, [] => []
  | counter, pcm :: pcms =>
      audioCut block counter (chunks 512 pcm) ::
        audioCuts block (counter + UInt32.ofNat (chunks 512 pcm).length) pcms

theorem talks_ended {calls : List (TalkCall W)} (hpack : e.pack = .ok block) {h : Household W}
    (ht : TalksOn path e counter h calls) :
    (talks h calls).map Talk.sent = audioCuts block counter (calls.map TalkCall.pcm) ∧
      ∀ s ∈ talks h calls, s.pc = .done (.ok ()) := by
  induction calls generalizing h counter with
  | nil => exact ⟨rfl, fun s hs => absurd hs List.not_mem_nil⟩
  | cons call calls ih =>
      obtain ⟨ready, enough, keeps, taken⟩ := ht
      simp only [talks, List.mem_cons, forall_eq_or_imp] at enough keeps taken
      have hended := call.run_ended enough.1 keeps.1 hpack ready taken.1
      obtain ⟨hsent, hreturned⟩ := ih ⟨hended.ready, enough.2, keeps.2, taken.2⟩
      constructor
      · simp only [talks, List.map_cons, hended.sent, hsent, audioCuts]
      · simp only [talks, List.mem_cons, forall_eq_or_imp]
        exact ⟨hended.returned, hreturned⟩

/-- What a receiver hears of calls with these buffers, numbered from a counter. -/
structure HeardOf (counter : UInt32) (pcms : List Bytes) (sent : List (List Bytes)) : Prop where
  /-- All is audio, in pieces of 512 bytes. -/
  audio : ∀ datagrams ∈ sent, ∀ d ∈ datagrams, ∃ media, audioOf d = some media ∧
    media.mediaType = mediaAudio ∧ media.data.length = 512
  /-- Each call's audio is its buffer, filled up with zeros. -/
  whole : List.Forall₂ (fun pcm datagrams => ∃ zeros < 512,
    datagrams.flatMap heard = pcm ++ List.replicate zeros 0) pcms sent
  /-- The numbers are consecutive, over all calls. -/
  numbered : ∀ i d, sent.flatten[i]? = some d → ∃ media, audioOf d = some media ∧
    media.sequence.toNat = (counter.toNat + i) % 2 ^ 16

theorem flatten_audioCuts (block : Bytes) (counter : UInt32) (pcms : List Bytes) :
    (audioCuts block counter pcms).flatten =
      audioCut block counter (pcms.flatMap (chunks 512)) := by
  induction pcms generalizing counter with
  | nil => rfl
  | cons pcm pcms ih => rw [audioCuts, List.flatten_cons, List.flatMap_cons, audioCut_append, ih]

theorem heardOf_audioCuts (hblock : block.length = 48) (counter : UInt32) (pcms : List Bytes) :
    HeardOf counter pcms (audioCuts block counter pcms) where
  audio datagrams hdatagrams d hd := by
    have hmem : d ∈ (audioCuts block counter pcms).flatten :=
      List.mem_flatten.mpr ⟨datagrams, hdatagrams, hd⟩
    rw [flatten_audioCuts] at hmem
    obtain ⟨i, hi⟩ := List.mem_iff_getElem?.mp hmem
    obtain ⟨frame, rfl⟩ := getElem?_audioCut hi
    exact ⟨_, audioOf_datagram hblock _ frame, rfl, length_resize frame 512⟩
  whole := by
    induction pcms generalizing counter with
    | nil => exact .nil
    | cons pcm pcms ih =>
        refine .cons ?_ (ih _)
        obtain ⟨zeros, hzeros, hwhole⟩ := flatMap_resize_chunks (n := 512) (by decide) pcm
        exact ⟨zeros, hzeros, (flatMap_heard hblock counter _).trans hwhole⟩
  numbered i d hd := by
    rw [flatten_audioCuts] at hd
    obtain ⟨frame, rfl⟩ := getElem?_audioCut hd
    exact ⟨_, audioOf_datagram hblock _ frame, number_of_counter counter i⟩

omit [Wire W] in
/-- A turn in which nothing else ran. -/
theorem keeps_id (env : HouseEnv) (path : TalkPath) : Turn.Keeps (W := W) ⟨id, env⟩ path :=
  fun _ _ _ h => h

end

/-- An outbound call whose counter is about to wrap. -/
def onCall : Household TapWire :=
  { Household.new { tapAgent with
      callSession := some ⟨Endpoints.captured.room, 0, true⟩ } with
    lines := fun _ => some ⟨Endpoints.captured, 65535, 1⟩ }

end Michoi
