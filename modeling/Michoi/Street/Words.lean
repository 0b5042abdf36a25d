/-
  What the handlers of a Pad have still to take in and to send of a call.

  `HouseTask.words` are the words of the door that a handler of the receive loop still
  carries, and `HouseTask.inHand` the word that a command has still to send. `Tells` is what
  one step does to them and to the call: it takes a word in, it makes up a word, or it hands
  one to the socket (`tells_of_step`). This is the household on a street: its receive loop
  hears the door only, and nobody views a camera or calls another station.
-/
import Michoi.Agent.Since
import Michoi.Emulator.Observed
import Michoi.Emulator.Sending
import Michoi.Household.Exclusive
import Michoi.Protocol.Codec
import Michoi.Street.Line

namespace Michoi

open Lib

/-! ## Words in datagrams -/

/-- The word of a session opcode. -/
def Word.ofOpcode (opcode : UInt32) : Option Word :=
  if opcode = opRequest then some .ring
  else if opcode = opAnswer then some .answer
  else if opcode = opHangup then some .bye
  else none

def Word.opcode : Word → UInt32
  | ring => opRequest
  | answer => opAnswer
  | bye => opHangup

theorem Word.ofOpcode_eq_some {opcode : UInt32} {w : Word} :
    Word.ofOpcode opcode = some w ↔ opcode = w.opcode := by
  constructor
  · intro h
    unfold Word.ofOpcode at h
    split at h
    · next he => cases h; exact he
    · split at h
      · next he => cases h; exact he
      · split at h
        · next he => cases h; exact he
        · cases h
  · rintro rfl
    cases w <;> rfl

def Message.word (m : Message) : Option Word :=
  if m.family = familySession then Word.ofOpcode m.opcode else none

def wordOf (raw : Bytes) : Option Word := (Message.parse raw).toOption.bind Message.word

theorem wordOf_of_parse {raw : Bytes} {m : Message} (hp : Message.parse raw = .ok m) :
    wordOf raw = m.word := by
  unfold wordOf
  rw [hp]
  rfl

theorem wordOf_packet (family : UInt16) (opcode declared : UInt32) (body : Bytes) :
    wordOf (packet family opcode declared body) =
      if family = familySession then Word.ofOpcode opcode else none :=
  wordOf_of_parse (parse_packet ..)

theorem wordOf_eq (raw : Bytes) : wordOf raw = (sessionOpcode raw).bind Word.ofOpcode := by
  unfold wordOf sessionOpcode Message.word
  cases Message.parse raw with
  | error => rfl
  | ok m =>
      dsimp only [Except.toOption, Option.bind_some]
      split <;> rfl

/-- A packet of the Pad has a word where it is a command. -/
theorem PadSays.word_eq {raw : Bytes} {sound : Option Bytes} (h : PadSays raw sound) :
    wordOf raw =
      if hasOpcode opAnswer raw then some .answer
      else if hasOpcode opHangup raw then some .bye
      else none := by
  rw [wordOf_eq]
  unfold hasOpcode
  cases h with
  | bootstrap h => rw [sessionOpcode_bootstrapReply h]; rfl
  | capability h => rw [sessionOpcode_sessionReply h]; rfl
  | @command action e raw h =>
      rw [sessionOpcode_sessionControl h]
      cases action <;> rfl
  | keepalive h => rw [sessionOpcode_sessionControl h]; rfl
  | sound h => rw [sessionOpcode_audioPacket h]; rfl

/-! ## Words that a handler carries -/

/-- The word of a message that its handler has not applied to the call. -/
def WirePc.words : WirePc → List Word
  | received _ raw => (wordOf raw).toList
  | outboundCheck _ m => m.word.toList
  | accept _ m _ => m.word.toList
  | ringReply .. => [.ring]
  | ringStart _ => [.ring]
  | hangup _ => [.bye]
  | _ => []

def DatagramPc.words (payload : Bytes) : DatagramPc → List Word
  | messages rest => rest.filterMap wordOf
  | onWire pc rest => pc.words ++ rest.filterMap wordOf
  | done => []
  | _ => (splitCoalesced payload).filterMap wordOf

namespace HouseTask

/-- The words that a handler of the receive loop has still to take in. -/
def words : HouseTask → List Word
  | datagram _ payload pc => pc.words payload
  | _ => []

/-- The word that a command has still to send. -/
def inHand : HouseTask → Option Word
  | agent (.command _ _ (.send _ _ packet)) => wordOf packet
  | _ => none

theorem receiving_of_words {t : HouseTask} (h : t.words ≠ []) : t.receiving = true := by
  cases t with
  | datagram sender payload pc =>
      cases pc with
      | done => exact absurd rfl h
      | _ => rfl
  | _ => exact absurd rfl h

theorem words_of_not_receiving {t : HouseTask} (h : ¬ t.receiving = true) : t.words = [] := by
  by_contra hne
  exact h (receiving_of_words hne)

/-- A request that has just come carries no word. -/
theorem wordless_of_mayStart {t : HouseTask} {tasks : List HouseTask}
    (h : t.mayStart .pad tasks = true) (hno : ∀ sender payload pc, t ≠ .datagram sender payload pc) :
    t.words = [] ∧ t.inHand = none := by
  have hfresh := fresh_of_mayStart h
  cases t with
  | agent t =>
      cases t with
      | command action commandId pc =>
          cases pc with
          | lookup => exact ⟨rfl, rfl⟩
          | _ => cases hfresh
      | _ => exact ⟨rfl, rfl⟩
  | datagram sender payload pc => exact absurd rfl (hno sender payload pc)
  | _ => exact ⟨rfl, rfl⟩

end HouseTask

/-! ## The messages of a door -/

/-- The datagram is one of a door with these endpoints. -/
def FromDoor (e : Endpoints) (raw : Bytes) : Prop := ∃ d : Emulator, d.endpoints = e ∧ DoorSays d raw

/-- How a message of the door is read: anything in the call has the door's own endpoints. -/
def DoorMessage (e : Endpoints) (m : Message) : Prop :=
  m.family = familySession → m.endpoints = some e

theorem FromDoor.split {e : Endpoints} {raw : Bytes} (h : FromDoor e raw) :
    splitCoalesced raw = [raw] := by
  obtain ⟨d, -, hd⟩ := h
  exact hd.split

theorem DoorMessage.of_block {e : Endpoints} {block tail raw : Bytes} {family : UInt16}
    {opcode declared : UInt32} (he : e.Fits) (hb : e.pack = .ok block)
    (hraw : raw = packet family opcode declared (block ++ tail)) :
    ∃ m, Message.parse raw = .ok m ∧ DoorMessage e m := by
  obtain ⟨door, room, hdoor, hroom, hlen, hparse⟩ := Endpoints.parse_pack he
  have hblock : block = door ++ room := by
    unfold Endpoints.pack at hb
    rw [hdoor, hroom] at hb
    exact (Except.ok.inj hb).symm
  subst hblock
  refine ⟨_, hraw ▸ parse_packet .., fun hf => ?_⟩
  exact endpoints_of_block (.inl hf) rfl hlen hparse

theorem FromDoor.message {e : Endpoints} {raw : Bytes} (he : e.Fits) (h : FromDoor e raw) :
    ∃ m, Message.parse raw = .ok m ∧ DoorMessage e m := by
  obtain ⟨d, rfl, hd⟩ := h
  cases hd with
  | page => exact ⟨_, parse_packet .., fun hf => absurd hf (by decide)⟩
  | bootstrap => exact ⟨_, parse_packet .., fun hf => absurd hf (by decide)⟩
  | request hr =>
      obtain ⟨block, hb, hr⟩ := bind_eq_ok_iff.mp hr
      exact DoorMessage.of_block he hb (Except.ok.inj hr).symm
  | keepalive hr | hangup hr =>
      obtain ⟨block, hb, hr⟩ := bind_eq_ok_iff.mp hr
      have hraw := (Except.ok.inj hr).symm
      rw [← List.append_nil block] at hraw
      exact DoorMessage.of_block he hb hraw
  | @sound sequence chunk _ ha hc hr =>
      unfold audioPacket at hr
      split at hr
      · cases hr
      · obtain ⟨block, hb, hr⟩ := bind_eq_ok_iff.mp hr
        have hraw := (Except.ok.inj hr).symm
        rw [List.append_assoc] at hraw
        exact DoorMessage.of_block he hb hraw
  | @picture s _ hs hr =>
      obtain ⟨packets, hpackets, hmem⟩ := hr
      obtain ⟨block, hb, hpackets⟩ := bind_eq_ok_iff.mp hpackets
      obtain rfl := Except.ok.inj hpackets
      obtain ⟨i, hi⟩ := List.mem_iff_getElem?.mp hmem
      rw [List.getElem?_mapIdx] at hi
      obtain ⟨chunk, hchunk, rfl⟩ := Option.map_eq_some_iff.mp hi
      have hlen : chunk.length ≤ 1200 := by
        rw [getElem?_chunksLoop hchunk]
        exact List.length_take_le ..
      exact DoorMessage.of_block he hb (jpegPacket_eq _ _ _ _ hlen)

/-! ## The household on a street -/

/-- The handler of the receive loop is at a message of the door. -/
def WirePc.AtDoor (e : Endpoints) : WirePc → Prop
  | received side raw => side = .door ∧ FromDoor e raw
  | outboundCheck side m => side = .door ∧ DoorMessage e m
  | accept side m e' => side = .door ∧ e' = e ∧ m.family = familySession
  | padAnswer => False
  | _ => True

def DatagramPc.AtDoor (e : Endpoints) : DatagramPc → Prop
  | learnRoom ip => ip = e.door.ip
  | learnDoor ip => ip = e.door.ip
  | messages rest => ∀ raw ∈ rest, FromDoor e raw
  | onWire pc rest => pc.AtDoor e ∧ ∀ raw ∈ rest, FromDoor e raw
  | _ => True

/-- The handlers of a household that hears this door only, and has no session but its calls. -/
def HouseTask.AtDoor (addr : SocketAddr) (e : Endpoints) : HouseTask → Prop
  | agent (.command _ _ (.readSession peers)) => peers.Accepts e
  | agent (.command _ _ (.transition peers _)) => peers.Accepts e
  | agent (.wire _) => False
  | startMonitor .. => False
  | dial .. => False
  | datagram sender payload pc => sender = addr ∧ FromDoor e payload ∧ pc.AtDoor e
  | _ => True

/-- The Agent takes the door for its own, and has no session of its own. -/
structure Agent.AtDoor (e : Endpoints) (a : Agent UdpWire) : Prop where
  accepts : a.peers.Accepts e
  monitor : a.monitor = none
  callSession : a.callSession = none

section

variable {env : Env} {e : Endpoints} {a a' : Agent UdpWire} {pc pc' : WirePc}

/-- What the call becomes. -/
theorem phase_of_wireStep (hs : wireStep env a pc = some (a', pc')) (hpc : pc.AtDoor e) :
    a'.phase =
      match pc with
      | .ringStart _ => CallLine.after a.phase .ring
      | .hangup _ => CallLine.after a.phase .bye
      | _ => a.phase := by
  cases wireStep_cases hs with
  | quiet _ hop _ hq =>
      have hcall : a'.phase = a.phase := congrArg (·.machine.state.phase) hq.call
      cases pc with
      | ringStart e' =>
          have hp : ¬ a.phase = .idle := fun h => by
            cases (if_pos h).symm.trans hop
          exact hcall.trans (if_neg hp).symm
      | hangup => cases hop
      | _ => exact hcall
  | start hp =>
      refine .trans ?_ (if_pos hp).symm
      unfold Agent.phase Call.started
      rw [if_neg (not_not_intro hp)]
      rfl
  | answer => exact hpc.elim
  | hangup | hangupIdle | callEnd | publish => rfl

theorem media_words (m : Message) : (WirePc.media m).words = [] ∧ (WirePc.media m).AtDoor e := by
  unfold WirePc.media
  split <;> exact ⟨rfl, trivial⟩

theorem words_of_family {m : Message} (h : m.family ≠ familySession) : m.word = none := if_neg h

/-- An accepted message goes where its word is applied, or has none that is. -/
theorem session_words {m : Message} {peers : Peers} (hf : m.family = familySession) :
    (WirePc.session .door m e peers).AtDoor e ∧
      ((WirePc.session .door m e peers).words = m.word.toList ∨
        m.word = some .answer ∧ (WirePc.session .door m e peers).words = []) := by
  have hword : m.word = Word.ofOpcode m.opcode := if_pos hf
  have hpad {p : Prop} : ¬ (p ∧ Side.door = .pad) := fun h => nomatch h.2
  unfold WirePc.session
  by_cases hring : m.opcode = opRequest
  · rw [if_pos ⟨hring, rfl⟩, hword, hring]
    split <;> exact ⟨trivial, .inl rfl⟩
  · rw [if_neg fun h => hring h.1, if_neg hpad, if_neg hpad]
    by_cases hbye : m.opcode = opHangup
    · rw [if_pos hbye, hword, hbye]
      exact ⟨trivial, .inl rfl⟩
    · rw [if_neg hbye]
      by_cases hmedia : m.opcode = opMedia
      · rw [if_pos ⟨hmedia, rfl⟩, hword, hmedia]
        exact ⟨(media_words m).2, .inl (media_words (e := e) m).1⟩
      · rw [if_neg fun h => hmedia h.1]
        refine ⟨trivial, ?_⟩
        rw [hword]
        unfold Word.ofOpcode
        rw [if_neg hring, if_neg hbye]
        by_cases ha : m.opcode = opAnswer
        · exact .inr ⟨if_pos ha, rfl⟩
        · exact .inl (by rw [if_neg ha]; rfl)

/-- **What a step of `on_wire` does with the door's words**: it carries them on, or applies one
    to the call. -/
theorem wireStep_words (ha : a.AtDoor e) (he : e.Fits) (hpc : pc.AtDoor e)
    (hs : wireStep env a pc = some (a', pc')) : pc'.AtDoor e ∧
      (a'.phase = a.phase ∧ pc'.words = pc.words ∨
        ∃ w, pc.words = w :: pc'.words ∧ a'.phase = CallLine.after a.phase w) := by
  have hphase := phase_of_wireStep hs hpc
  cases pc with
  | received side raw =>
      obtain ⟨rfl, hraw⟩ := hpc
      obtain ⟨m, hp, hm⟩ := hraw.message he
      unfold wireStep at hs
      dsimp only at hs
      rw [hp, ha.monitor] at hs
      dsimp only at hs
      have hword : (WirePc.received .door raw).words = m.word.toList :=
        congrArg Option.toList (wordOf_of_parse hp)
      split at hs
      · next hboot =>
          cases hs
          have hno := words_of_family (m := m) (by rw [hboot.1]; decide)
          refine ⟨trivial, .inl ⟨rfl, ?_⟩⟩
          rw [hword, hno]
          rfl
      · cases hs
        exact ⟨⟨rfl, hm⟩, .inl ⟨rfl, hword.symm⟩⟩
  | outboundCheck side m =>
      obtain ⟨rfl, hm⟩ := hpc
      unfold wireStep at hs
      dsimp only at hs
      rw [ha.callSession] at hs
      cases hs
      change (WirePc.routeCall false .door m).AtDoor e ∧ _
      unfold WirePc.routeCall
      rw [Bool.false_and, if_neg Bool.false_ne_true]
      by_cases hf : m.family = familySession
      · rw [if_neg fun h => absurd (hf.symm.trans h.1) (by decide), if_neg (not_not_intro hf),
          hm hf]
        exact ⟨⟨rfl, rfl, hf⟩, .inl ⟨rfl, rfl⟩⟩
      · have hno : (WirePc.outboundCheck .door m).words = [] :=
          congrArg Option.toList (words_of_family hf)
        rw [hno, if_pos hf]
        split <;> exact ⟨trivial, .inl ⟨rfl, rfl⟩⟩
  | accept side m e' =>
      obtain ⟨rfl, rfl, hf⟩ := hpc
      unfold wireStep Agent.acceptEndpoints at hs
      dsimp only at hs
      rw [Peers.acceptEndpoints_of_accepts ha.accepts] at hs
      cases hs
      obtain ⟨hdoor, hwords | ⟨hanswer, hnil⟩⟩ :
          (WirePc.session .door m e' (a.peers.withStations e')).AtDoor e' ∧ _ := session_words hf
      · exact ⟨hdoor, .inl ⟨rfl, hwords⟩⟩
      · refine ⟨hdoor, .inr ⟨.answer, ?_, rfl⟩⟩
        change m.word.toList = _
        rw [hanswer, hnil]
        rfl
  | ringReply => cases hs; exact ⟨trivial, .inl ⟨hphase, rfl⟩⟩
  | ringStart =>
      unfold wireStep at hs
      dsimp only at hs
      split at hs <;> cases hs <;> exact ⟨trivial, .inr ⟨.ring, rfl, hphase⟩⟩
  | hangup =>
      unfold wireStep at hs
      dsimp only at hs
      split at hs <;> cases hs <;> exact ⟨trivial, .inr ⟨.bye, rfl, hphase⟩⟩
  | padAnswer => exact hpc.elim
  | bootstrapReply | feed | stopMonitor | outboundAnswered | wakeElevator | callEnd | publish =>
      cases hs
      exact ⟨trivial, .inl ⟨hphase, rfl⟩⟩
  | bootstrap | outboundHangup | padUnlock =>
      unfold wireStep at hs
      dsimp only at hs
      split at hs <;> cases hs <;> exact ⟨trivial, .inl ⟨hphase, rfl⟩⟩
  | done => cases hs

end

/-! ## What the Agent knows of the door -/

namespace Peers.Accepts

variable {p : Peers} {e : Endpoints}

theorem withStations (p : Peers) (e : Endpoints) : (p.withStations e).Accepts e where
  room := ⟨rfl, .of_eq rfl⟩
  door := (acceptsDoor_iff rfl).mpr ⟨fun _ => rfl, fun _ => rfl, fun h _ => .inl h⟩

theorem setRoomIpIfUnset (h : p.Accepts e) : (p.setRoomIpIfUnset e.room.ip).Accepts e := by
  unfold Peers.setRoomIpIfUnset
  split
  · exact ⟨⟨h.room.id, .of_eq rfl⟩, ⟨⟨h.door.id, h.door.ip⟩, h.door.blank⟩⟩
  · exact h

theorem learnAddress (h : p.Accepts e) (hspec : e.door.ip.Specified) :
    (p.learnAddress .door e.door.ip).2.Accepts e := by
  have hroom := h.room
  unfold Peers.learnAddress Peers.learnDoorAddress
  rw [if_neg (by rw [hspec]; decide)]
  dsimp only
  split
  · refine ⟨⟨hroom.id, hroom.ip⟩, (acceptsDoor_iff rfl).mpr ⟨nofun, fun _ => rfl, fun _ hno => ?_⟩⟩
    exact absurd hspec hno
  · next d hd =>
      obtain ⟨hid, -, -⟩ := (acceptsDoor_iff hd).mp h.door
      split
      · refine ⟨⟨hroom.id, hroom.ip⟩, (acceptsDoor_iff (d := ⟨d.id, e.door.ip⟩) rfl).mpr ?_⟩
        exact ⟨hid, fun _ => rfl, fun _ hno => absurd hspec hno⟩
      · exact h

/-- What the Agent knows can be packed when the block can. -/
theorem pack (h : p.Accepts e) {block : Bytes} (hb : e.pack = .ok block) {e' : Endpoints}
    (he : p.endpoints = some e') : ∃ block', e'.pack = .ok block' := by
  obtain ⟨door, hdoor, hrest⟩ := bind_eq_ok_iff.mp hb
  obtain ⟨room, hroom, -⟩ := bind_eq_ok_iff.mp hrest
  obtain ⟨d, hd, rfl⟩ := Option.map_eq_some_iff.mp he
  have hlen {s : Station} {raw : Bytes} (hs : s.pack = .ok raw) : (asBytes s.id).length ≤ 20 := by
    unfold Station.pack at hs
    split at hs
    · cases hs
    · next hl => exact Nat.le_of_not_lt hl
  have hpack {s : Station} (hs : (asBytes s.id).length ≤ 20) : ∃ raw, s.pack = .ok raw :=
    ⟨_, if_neg (Nat.not_lt.mpr hs)⟩
  obtain ⟨door', hdoor'⟩ : ∃ raw, d.pack = .ok raw := by
    obtain ⟨hid, -, -⟩ := (acceptsDoor_iff hd).mp h.door
    by_cases hempty : d.id = ""
    · exact hpack (by rw [hempty]; decide)
    · exact hpack (by rw [← hid hempty]; exact hlen hdoor)
  obtain ⟨room', hroom'⟩ : ∃ raw, p.room.pack = .ok raw :=
    hpack (by rw [← h.room.id]; exact hlen hroom)
  refine ⟨door' ++ room', ?_⟩
  unfold Endpoints.pack
  rw [hdoor', hroom']
  rfl

end Peers.Accepts

/-! ## One step -/

/-- What a handler on a street reads from outside: its packet goes out, and our address toward
    the door is the one that the door knows. -/
structure HouseEnv.Plain (e : Endpoints) (env : HouseEnv) : Prop where
  send : env.send ≠ .failed
  localAddr : ∀ ip ∈ env.localAddr, ip = e.room.ip

/-- What a step does to the words of its handler and to the call, and what it tells the door. -/
inductive Tells (h : Household UdpWire) (t : HouseTask) (h' : Household UdpWire)
    (t' : HouseTask) (said : List Bytes) : Prop where
  /-- At most a word in hand is sent. -/
  | quiet (hp : h'.agent.phase = h.agent.phase) (hw : t'.words = t.words)
      (hh : t.inHand.toList = said.filterMap wordOf ++ t'.inHand.toList) : Tells h t h' t' said
  | take {w} (hw : t.words = w :: t'.words)
      (hp : h'.agent.phase = CallLine.after h.agent.phase w) (hh : t.inHand = none)
      (hh' : t'.inHand = none) (hs : said.filterMap wordOf = []) : Tells h t h' t' said
  | claim (hp : h.agent.phase = .ringing) (hp' : h'.agent.phase = .connected)
      (hw : t'.words = t.words) (hh : t.inHand = none) (hh' : t'.inHand = some .answer)
      (hs : said.filterMap wordOf = []) : Tells h t h' t' said
  | hangUp (hp : h.agent.phase ≠ .idle) (hp' : h'.agent.phase = .idle)
      (hw : t'.words = t.words) (hh : t.inHand = none) (hh' : t'.inHand = some .bye)
      (hs : said.filterMap wordOf = []) : Tells h t h' t' said

section

variable {addr : SocketAddr} {e : Endpoints} {env : HouseEnv} {h h' : Household UdpWire}
  {t t' : HouseTask} {said : List Bytes}

/-- A step that carries no command out has told the door nothing. -/
theorem Hands.wordless (hands : Hands h t h' t' said)
    (hc : ∀ action, t'.carriedOut action = t.carriedOut action) : said.filterMap wordOf = [] := by
  rw [List.filterMap_eq_nil_iff]
  intro d hd
  obtain ⟨sound, hpad, -⟩ := hands.spoken d hd
  have hno (action : CallAction) : hasOpcode action.opcode d = false := by
    have hcount := hands.commands action
    rw [hc] at hcount
    have hzero : said.countP (hasOpcode action.opcode) = 0 := by omega
    exact (Bool.not_eq_true _).mp (List.countP_eq_zero.mp hzero d hd)
  have hanswer := hno .claim
  have hbye := hno .hangup
  rw [show CallAction.claim.opcode = opAnswer from rfl] at hanswer
  rw [show CallAction.hangup.opcode = opHangup from rfl] at hbye
  rw [hpad.word_eq, hanswer, hbye]
  rfl

theorem Agent.AtDoor.of_same {a a' : Agent UdpWire} (ha : a.AtDoor e) (hp : a'.peers = a.peers)
    (hs : SameSlots a a') : a'.AtDoor e :=
  ⟨hp ▸ ha.accepts, hs.monitor.trans ha.monitor, hs.callSession.trans ha.callSession⟩

/-- A step of `on_wire` keeps what the Agent knows of the door. -/
theorem wireStep_atDoor {env : Env} {a a' : Agent UdpWire} {pc pc' : WirePc} (ha : a.AtDoor e)
    (hpc : pc.AtDoor e) (hs : wireStep env a pc = some (a', pc')) : a'.AtDoor e := by
  have hpeers : a'.peers.Accepts e := by
    rcases wireStep_peers hs with hp | ⟨side, m, e', rfl, hp⟩
    · exact hp ▸ ha.accepts
    · obtain ⟨-, rfl, -⟩ := hpc
      rw [hp, Peers.acceptEndpoints_of_accepts ha.accepts]
      exact .withStations ..
  rcases wireStep_slots hs with hslots | ⟨-, rfl⟩ | ⟨-, rfl⟩ | ⟨-, rfl⟩
  · exact ⟨hpeers, hslots.monitor.trans ha.monitor, hslots.callSession.trans ha.callSession⟩
  · exact ⟨hpeers, stopMonitorNow_monitor _, (stopMonitorNow_callSession _).trans ha.callSession⟩
  · exact ⟨hpeers, (outboundAnswered_monitor ..).trans ha.monitor,
      outboundAnswered_none _ ha.callSession⟩
  · exact ⟨hpeers, (takeCallSession_monitor _).trans ha.monitor, takeCallSession_callSession _⟩

/-- **A round of the receive loop.** -/
theorem datagram_tells {sender : SocketAddr} {payload : Bytes} {pc : DatagramPc}
    (hip : addr.ip = .v4 e.door.ip) (hspec : e.door.ip.Specified) (he : e.Fits)
    (henv : env.Plain e) (ha : h.agent.AtDoor e)
    (ht : (HouseTask.datagram sender payload pc).AtDoor addr e)
    (hs : (HouseTask.datagram sender payload pc).step env h = some (h', t'))
    (hands : Hands h (.datagram sender payload pc) h' t' said) :
    h'.agent.AtDoor e ∧ t'.AtDoor addr e ∧ Tells h (.datagram sender payload pc) h' t' said := by
  obtain ⟨rfl, hpayload, hpc⟩ := ht
  obtain ⟨⟨q, pc'⟩, hr, hq⟩ := Option.map_eq_some_iff.mp hs
  obtain ⟨rfl, rfl⟩ := Prod.mk.inj hq
  have hno : said.filterMap wordOf = [] := hands.wordless fun _ => rfl
  have hquiet (hp : q.agent.phase = h.agent.phase) (hw : pc'.words payload = pc.words payload) :
      Tells h (.datagram sender payload pc) q (.datagram sender payload pc') said :=
    .quiet hp hw (by rw [hno]; rfl)
  have hall : ∀ raw ∈ splitCoalesced payload, FromDoor e raw := fun raw hraw => by
    rw [hpayload.split, List.mem_singleton] at hraw
    exact hraw ▸ hpayload
  cases pc with
  | received =>
      unfold datagramStep at hr
      dsimp only at hr
      rw [hip] at hr
      cases hr
      exact ⟨ha.of_same rfl ⟨rfl, rfl, rfl⟩, ⟨rfl, hpayload, rfl⟩, hquiet rfl rfl⟩
  | learnRoom ip =>
      unfold datagramStep at hr
      dsimp only at hr
      split at hr
      · next ourIp hour =>
          cases hr
          obtain rfl := henv.localAddr ourIp hour
          exact ⟨⟨ha.accepts.setRoomIpIfUnset, ha.monitor, ha.callSession⟩, ⟨rfl, hpayload, hpc⟩,
            hquiet rfl rfl⟩
      · cases hr
        exact ⟨ha, ⟨rfl, hpayload, hpc⟩, hquiet rfl rfl⟩
  | learnDoor ip =>
      obtain rfl : ip = e.door.ip := hpc
      cases hr
      exact ⟨⟨ha.accepts.learnAddress hspec, ha.monitor, ha.callSession⟩, ⟨rfl, hpayload, hall⟩,
        hquiet rfl rfl⟩
  | messages rest =>
      cases rest with
      | nil =>
          cases hr
          exact ⟨ha, ⟨rfl, hpayload, trivial⟩, hquiet rfl rfl⟩
      | cons raw rest =>
          cases hr
          refine ⟨ha, ⟨rfl, hpayload, ⟨rfl, hpc raw List.mem_cons_self⟩, fun raw' hraw' =>
            hpc raw' (List.mem_cons_of_mem _ hraw')⟩, hquiet rfl ?_⟩
          change (wordOf raw).toList ++ rest.filterMap wordOf = (raw :: rest).filterMap wordOf
          rw [List.filterMap_cons]
          cases wordOf raw <;> rfl
  | onWire wpc rest =>
      obtain ⟨hwpc, hrest⟩ := hpc
      rcases datagramStep_cases hr with hd | ⟨_, a, wpc', _, heq, rfl, hw, rfl⟩
      · cases hd
        exact ⟨ha, ⟨rfl, hpayload, hrest⟩, hquiet rfl rfl⟩
      · cases heq
        obtain ⟨hwpc', hwords⟩ := wireStep_words ha he hwpc hw
        refine ⟨wireStep_atDoor ha hwpc hw, ⟨rfl, hpayload, hwpc', hrest⟩, ?_⟩
        rcases hwords with ⟨hphase, hwords⟩ | ⟨w, hwords, hphase⟩
        · exact hquiet hphase (congrArg (· ++ rest.filterMap wordOf) hwords)
        · exact .take (congrArg (· ++ rest.filterMap wordOf) hwords) hphase rfl rfl hno
  | done => cases hr

/-- The word of a command's packet. -/
def CallAction.word : CallAction → Option Word
  | claim => some .answer
  | unlock => none
  | hangup => some .bye

theorem wordOf_command {action : CallAction} {e : Endpoints} {raw : Bytes}
    (h : sessionControl action.opcode e = .ok raw) : wordOf raw = action.word := by
  rw [wordOf_eq, sessionOpcode_sessionControl h]
  cases action <;> rfl

theorem notify_phase {W : Type} [Wire W] (a : Agent W) (env : Env) (action : CallAction)
    (peers : Peers) : (a.notify env action peers).phase = a.phase := by
  cases action <;> rfl

/-- The transition of a command makes up its word. -/
theorem built_tells {action : CallAction} {commandId session : String} {peers : Peers}
    {event : EventKind} {packet : Bytes} {e' : Endpoints}
    (hadmits : h.agent.call.admits env.toEnv action)
    (hp : sessionControl action.opcode e' = .ok packet) (hno : said.filterMap wordOf = []) :
    Tells h (.agent (.command action commandId (.transition peers session)))
      (h.withAgent (h.agent.withCall (h.agent.call.after env.toEnv action)))
      (.agent (.command action commandId (.send peers event packet))) said := by
  have hword := wordOf_command hp
  cases action with
  | claim =>
      obtain ⟨hringing, -⟩ := Call.admits_claim.mp hadmits
      refine .claim hringing ?_ rfl rfl hword hno
      unfold Agent.phase
      change (h.agent.call.after env.toEnv .claim).machine.state.phase = _
      rw [Call.after_claim hadmits]
  | unlock =>
      refine .quiet ?_ rfl ?_
      · unfold Agent.phase
        change (h.agent.call.after env.toEnv .unlock).machine.state.phase = _
        rw [Call.after_unlock hadmits]
      · rw [hno]
        exact (congrArg Option.toList hword).symm
  | hangup => exact .hangUp hadmits rfl rfl rfl hword hno

/-- **A command.** -/
theorem command_tells {action : CallAction} {commandId : String} {pc pc' : CommandPc}
    {a : Agent UdpWire} (he : e.Fits) (henv : env.Plain e) (ha : h.agent.AtDoor e)
    (ht : (HouseTask.agent (.command action commandId pc)).AtDoor addr e)
    (hpeer : (HouseTask.agent (.command action commandId pc)).inHand ≠ none →
      ∃ peer, h.agent.wire.peer = some peer)
    (hs : CommandStep env.toEnv h.agent action commandId pc a pc')
    (hands : Hands h (.agent (.command action commandId pc)) (h.withAgent a)
      (.agent (.command action commandId pc')) said) :
    a.AtDoor e ∧ (HouseTask.agent (.command action commandId pc')).AtDoor addr e ∧
      Tells h (.agent (.command action commandId pc)) (h.withAgent a)
        (.agent (.command action commandId pc')) said := by
  obtain ⟨door, room, hdoor, hroom, -, -⟩ := Endpoints.parse_pack he
  have hpack : e.pack = .ok (door ++ room) := by
    unfold Endpoints.pack
    rw [hdoor, hroom]
    rfl
  have hslots := commandStep_slots hs
  cases hs with
  | replay hget =>
      obtain ⟨result, -, rfl⟩ := Option.map_eq_some_iff.mp hget
      have hno := hands.wordless fun action' => by
        simp [HouseTask.carriedOut, CommandPc.carried, CommandResult.replay]
      exact ⟨ha, trivial, .quiet rfl rfl (by rw [hno]; rfl)⟩
  | miss | refuse =>
      have hno := hands.wordless fun _ => rfl
      exact ⟨ha, trivial, .quiet rfl rfl (by rw [hno]; rfl)⟩
  | readPeers =>
      have hno := hands.wordless fun _ => rfl
      exact ⟨ha, ha.accepts, .quiet rfl rfl (by rw [hno]; rfl)⟩
  | readSession =>
      have hno := hands.wordless fun _ => rfl
      exact ⟨ha, ht, .quiet rfl rfl (by rw [hno]; rfl)⟩
  | unpacked hends _ hp =>
      obtain ⟨block, hb⟩ := Peers.Accepts.pack ht hpack hends
      unfold sessionControl at hp
      rw [hb] at hp
      cases hp
  | built _ hadmits hp =>
      have hno := hands.wordless fun _ => rfl
      exact ⟨ha.of_same rfl ⟨rfl, rfl, rfl⟩, trivial, built_tells hadmits hp hno⟩
  | @sent peers event packet hok =>
      refine ⟨ha.of_same rfl ⟨rfl, rfl, rfl⟩, trivial, .quiet rfl rfl ?_⟩
      have hsaid : said = [packet] := by
        rcases UdpWire.send_cases h.agent.wire env.send packet with ⟨-, hout⟩ | ⟨hno, -⟩
        · exact List.append_cancel_left (hands.packets.symm.trans hout)
        · exact absurd hok hno
      rw [hsaid, List.filterMap_cons]
      change (wordOf packet).toList = _
      cases wordOf packet <;> rfl
  | @unsent peers event packet hfail =>
      have hno := hands.wordless fun _ => rfl
      refine ⟨ha.of_same rfl ⟨rfl, rfl, rfl⟩, trivial, .quiet rfl rfl ?_⟩
      rw [hno]
      change (wordOf packet).toList = []
      by_contra hword
      obtain ⟨peer, hp⟩ := hpeer fun hnone => hword (congrArg Option.toList hnone)
      refine hfail ?_
      change (h.agent.wire.send env.send packet).1 = _
      unfold UdpWire.send
      rw [hp]
      cases hsend : env.send with
      | failed => exact absurd hsend henv.send
      | _ => rfl
  | notify =>
      have hno := hands.wordless fun _ => rfl
      refine ⟨ha.of_same (notify_peers ..) hslots, trivial, ?_⟩
      exact .quiet (notify_phase ..) rfl (by rw [hno]; rfl)
  | publish | store =>
      have hno := hands.wordless fun _ => rfl
      exact ⟨ha.of_same rfl ⟨rfl, rfl, rfl⟩, trivial, .quiet rfl rfl (by rw [hno]; rfl)⟩

/-- **Everything a step of a handler tells the door.** -/
theorem tells_of_step (hip : addr.ip = .v4 e.door.ip) (hspec : e.door.ip.Specified) (he : e.Fits)
    (henv : env.Plain e) (ha : h.agent.AtDoor e) (ht : t.AtDoor addr e)
    (hpeer : t.inHand ≠ none → ∃ peer, h.agent.wire.peer = some peer)
    (hs : t.step env h = some (h', t')) (hands : Hands h t h' t' said) :
    h'.agent.AtDoor e ∧ t'.AtDoor addr e ∧ Tells h t h' t' said := by
  cases t with
  | datagram sender payload pc => exact datagram_tells hip hspec he henv ha ht hs hands
  | startMonitor | dial => exact ht.elim
  | agent t =>
      cases t with
      | wire => exact ht.elim
      | command action commandId pc =>
          obtain ⟨⟨a, u⟩, hu, heq⟩ := Option.map_eq_some_iff.mp hs
          obtain ⟨rfl, rfl⟩ := Prod.mk.inj heq
          obtain ⟨pc', rfl, hc⟩ := step_command hu
          exact command_tells he henv ha ht hpeer hc hands
      | elevator commandId room pc =>
          obtain ⟨⟨a, u⟩, hu, heq⟩ := Option.map_eq_some_iff.mp hs
          obtain ⟨rfl, rfl⟩ := Prod.mk.inj heq
          obtain ⟨pc', rfl, hc⟩ := step_elevator hu
          have hno := hands.wordless fun _ => rfl
          refine ⟨ha.of_same ?_ (elevatorStep_slots hc), trivial, .quiet ?_ rfl (by rw [hno]; rfl)⟩
          · cases hc <;> rfl
          · cases hc <;> rfl
  | stopMonitor pc =>
      obtain ⟨⟨q, pc'⟩, hr, heq⟩ := Option.map_eq_some_iff.mp hs
      obtain ⟨rfl, rfl⟩ := Prod.mk.inj heq
      have hno := hands.wordless fun _ => rfl
      cases pc with
      | take =>
          cases hr
          refine ⟨⟨?_, stopMonitorNow_monitor _, ?_⟩, trivial, .quiet ?_ rfl (by rw [hno]; rfl)⟩
          · exact (Agent.stopMonitorNow_peers h.agent).symm ▸ ha.accepts
          · exact (stopMonitorNow_callSession _).trans ha.callSession
          · exact congrArg (·.machine.state.phase) (stopMonitorNow_call h.agent)
      | done => cases hr
  | hangupCall pc =>
      obtain ⟨⟨q, pc'⟩, hr, heq⟩ := Option.map_eq_some_iff.mp hs
      obtain ⟨rfl, rfl⟩ := Prod.mk.inj heq
      have hno := hands.wordless fun _ => rfl
      cases hangupStep_cases hr with
      | nothing => exact ⟨ha, trivial, .quiet rfl rfl (by rw [hno]; rfl)⟩
      | take hc => rw [ha.callSession] at hc; cases hc
      | publish =>
          exact ⟨ha.of_same rfl ⟨rfl, rfl, rfl⟩, trivial, .quiet rfl rfl (by rw [hno]; rfl)⟩
  | talk pcm pc =>
      obtain ⟨⟨q, pc'⟩, hr, heq⟩ := Option.map_eq_some_iff.mp hs
      obtain ⟨rfl, rfl⟩ := Prod.mk.inj heq
      have hno := hands.wordless fun _ => rfl
      cases talkStep_cases hr <;>
        exact ⟨ha.of_same rfl ⟨rfl, rfl, rfl⟩, trivial, .quiet rfl rfl (by rw [hno]; rfl)⟩
  | talkVideo jpeg pc =>
      obtain ⟨⟨q, pc'⟩, hr, heq⟩ := Option.map_eq_some_iff.mp hs
      obtain ⟨rfl, rfl⟩ := Prod.mk.inj heq
      have hno := hands.wordless fun _ => rfl
      cases videoStep_cases hr <;>
        exact ⟨ha.of_same rfl ⟨rfl, rfl, rfl⟩, trivial, .quiet rfl rfl (by rw [hno]; rfl)⟩
  | keepalive pc =>
      obtain ⟨⟨q, pc'⟩, hr, heq⟩ := Option.map_eq_some_iff.mp hs
      obtain ⟨rfl, rfl⟩ := Prod.mk.inj heq
      have hno := hands.wordless fun _ => rfl
      cases keepaliveStep_cases hr <;>
        exact ⟨ha.of_same rfl ⟨rfl, rfl, rfl⟩, trivial, .quiet rfl rfl (by rw [hno]; rfl)⟩

end

end Michoi
