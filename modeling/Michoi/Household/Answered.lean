/-
  No media before the answer.

  A note is written where `on_wire` handles an answer while a call is set, and where a socket
  of a monitor or a call takes a packet. `talk_video` checks that the call was answered;
  `talk` does not, so a chunk of sound may go out before any answer
  (`sound_before_answer`). `media_after_answer` is the condition under which none does:
  `talk` finds the call answered, or its chunk makes no packet.

  The invariant is `Covered`: whoever still has media to send on a socket, the answer of that
  call is noted.
-/
import Michoi.Household.Slots

namespace Michoi

open Lib

variable {W : Type}

/-! ## Media packets -/

/-- The bytes are a `00b7/0a` message. -/
def sessionMedia (bytes : Bytes) : Bool :=
  match Message.parse bytes with
  | .ok m => m.family == familySession && m.opcode == opMedia
  | .error _ => false

@[simp] theorem sessionMedia_packet (family : UInt16) (opcode declared : UInt32)
    (body : Bytes) : sessionMedia (packet family opcode declared body) =
      (family == familySession && opcode == opMedia) := by
  unfold sessionMedia
  rw [parse_packet]

theorem sessionControl_not_media {opcode : UInt32} {e : Endpoints} {packet : Bytes}
    (ho : opcode ≠ opMedia) (hp : sessionControl opcode e = .ok packet) :
    sessionMedia packet = false := by
  unfold sessionControl at hp
  cases hb : e.pack with
  | error => rw [hb] at hp; cases hp
  | ok body =>
      rw [hb] at hp
      cases hp
      simp [ho]

/-- A packet around two stations is read back with the family and opcode it was given. -/
theorem not_media_of_stations {x y : Except ProtocolError Bytes} {family : UInt16}
    {opcode declared : UInt32} {body : Bytes → Bytes → Bytes} {bytes : Bytes}
    (hno : (family == familySession && opcode == opMedia) = false)
    (hp : (do let x ← x; let y ← y; return packet family opcode declared (body x y)) =
      Except.ok bytes) : sessionMedia bytes = false := by
  cases x with
  | error => cases hp
  | ok =>
      cases y with
      | error => cases hp
      | ok =>
          cases hp
          rw [sessionMedia_packet, hno]

theorem monitorRequest_not_media {us target : Station} {bytes : Bytes}
    (hp : monitorRequest us target = .ok bytes) : sessionMedia bytes = false :=
  not_media_of_stations (by decide) hp

theorem callSetup_not_media {caller callee : Station} {bytes : Bytes}
    (hp : callSetup caller callee = .ok bytes) : sessionMedia bytes = false :=
  not_media_of_stations (by decide) hp

theorem callRequest_not_media {caller callee : Station} {bytes : Bytes}
    (hp : callRequest caller callee = .ok bytes) : sessionMedia bytes = false :=
  not_media_of_stations (by decide) hp

/-- Setting a call up takes no media packet. -/
theorem setupPackets_not_media {e : Endpoints} {bytes : Bytes} (hp : bytes ∈ setupPackets e) :
    sessionMedia bytes = false := by
  unfold setupPackets at hp
  rcases List.mem_cons.mp hp with rfl | hp
  · rw [sessionMedia_packet]
    rfl
  rcases List.mem_append.mp hp with hp | hp
  · cases hs : callSetup e.door e.room with
    | error => rw [hs] at hp; cases hp
    | ok packet =>
        rw [hs] at hp
        obtain rfl := List.mem_singleton.mp hp
        exact callSetup_not_media hs
  · cases hs : callRequest e.door e.room with
    | error => rw [hs] at hp; cases hp
    | ok packet =>
        rw [hs] at hp
        obtain rfl := List.eq_of_mem_replicate hp
        exact callRequest_not_media hs

/-- A chunk of sound makes no packet if it is empty or the block cannot be built. -/
theorem Line.audioPackets_nil {line : Line} {frames : List Bytes}
    (h : frames = [] ∨ line.endpoints.pack.toBool = false) :
    (line.audioPackets frames).1 = [] := by
  induction frames generalizing line with
  | nil => rfl
  | cons frame frames ih =>
      have hpack : line.endpoints.pack.toBool = false := h.resolve_left (List.cons_ne_nil _ _)
      have hrest := @ih { line with aseq := line.aseq + 1 } (.inr hpack)
      unfold Line.audioPackets
      dsimp only
      rw [hrest, List.append_nil]
      unfold audioPacket
      split
      · rfl
      · cases hb : line.endpoints.pack with
        | error => rfl
        | ok => rw [hb] at hpack; cases hpack

/-! ## What is noted -/

inductive CallNote where
  /-- `on_wire` handled an answer while the call was set. -/
  | answered (signal : Nat)
  /-- The socket took a packet. -/
  | sent (signal : Nat) (packet : Bytes)
  deriving DecidableEq, Repr

/-- The answer that the handler's next step handles. -/
def HouseTask.answers (h : Household W) (t : HouseTask) : List CallNote :=
  if t.wirePc = some .outboundAnswered then
    (h.agent.callSession.map fun c => .answered c.cancel).toList
  else []

/-- The packets by which the list of the sockets grew. -/
def sentNotes (h h' : Household W) : List CallNote :=
  (h'.sent.drop h.sent.length).map fun s => .sent s.1 s.2

/-- The notes of a move. -/
def mediaNotes (p : HousePool W) (m : HouseMove) (q : HousePool W) : List CallNote :=
  match m with
  | .step i _ => (p.threads[i]?).elim [] (HouseTask.answers p.shared) ++
      sentNotes p.shared q.shared
  | _ => []

/-- Each media packet was taken after the answer of its call. -/
def MediaAfterAnswer (notes : List CallNote) : Prop :=
  ∀ before signal packet after, notes = before ++ .sent signal packet :: after →
    sessionMedia packet = true → .answered signal ∈ before

/-- `talk` on an outbound call finds it answered, or makes no packet of its chunk. -/
def HouseTask.TalksAnswered (h : Household W) : HouseTask → Prop
  | talk pcm .call =>
      ∀ c ∈ h.agent.callSession, c.answered = true ∨ pcm = [] ∨
        ∀ line ∈ h.lines c.cancel, line.endpoints.pack.toBool = false
  | _ => True

instance (h : Household W) (t : HouseTask) : Decidable (t.TalksAnswered h) := by
  unfold HouseTask.TalksAnswered
  split <;> infer_instance

def TalksAnswered (p : HousePool W) : HouseMove → Prop
  | .step i _ => ∀ t ∈ p.threads[i]?, t.TalksAnswered p.shared
  | _ => True

instance (p : HousePool W) : ∀ m, Decidable (TalksAnswered p m)
  | .step _ _ => inferInstanceAs (Decidable (∀ _ ∈ _, _))
  | .start _ => inferInstanceAs (Decidable True)
  | .outside _ => inferInstanceAs (Decidable True)

/-! ## One step -/

/-- What the handler has still to send on the socket of a monitor or a call. -/
def HouseTask.unsent : HouseTask → List (Nat × Bytes)
  | startMonitor _ (.request signal _ _ packet) => [(signal, packet)]
  | dial _ (.setup signal _ packets) => packets.map fun packet => (signal, packet)
  | talk _ (.sending signal packets) => packets.map fun packet => (signal, packet)
  | talkVideo _ (.sending signal packets) => packets.map fun packet => (signal, packet)
  | _ => []

section

variable {env : HouseEnv} {h h' : Household W} {t t' : HouseTask}

theorem unsent_of_fresh (ht : t.fresh = true) : t.unsent = [] := by
  unfold HouseTask.fresh at ht
  split at ht <;> first | rfl | cases ht

theorem unsent_of_wirePc {pc : WirePc} (ht : t.wirePc = some pc) : t.unsent = [] := by
  unfold HouseTask.wirePc at ht
  split at ht <;> first | rfl | cases ht

/-- A socket takes at most one packet, one that was still to be sent or no media. -/
def SendsOne (h h' : Household W) (t : HouseTask) : Prop :=
  h'.sent = h.sent ∨ ∃ signal packet, h'.sent = h.sent ++ [(signal, packet)] ∧
    ((signal, packet) ∈ t.unsent ∨ sessionMedia packet = false)

/-- The packet that a socket took in a step. -/
theorem SendsOne.of_mem {signal : Nat} {packet : Bytes} (hone : SendsOne h h' t)
    (hin : .sent signal packet ∈ sentNotes h h') :
    (signal, packet) ∈ t.unsent ∨ sessionMedia packet = false := by
  unfold sentNotes at hin
  rcases hone with hsame | ⟨s, p, hsent, hp⟩
  · rw [hsame, List.drop_length] at hin
    cases hin
  · rw [hsent, List.drop_left] at hin
    cases List.mem_singleton.mp hin
    exact hp

theorem sendsOne_send {signal : Nat} {packet : Bytes}
    (hp : (signal, packet) ∈ t.unsent ∨ sessionMedia packet = false) :
    SendsOne h (h.send env signal packet) t := by
  unfold SendsOne
  rw [Household.send_sent]
  split
  · exact .inr ⟨signal, packet, rfl, hp⟩
  · exact .inl rfl

variable [Wire W]

theorem house_sent (hs : HouseStep env h t h' t') : SendsOne h h' t := by
  cases hs with
  | wire | command | elevator | stop => exact .inl rfl
  | monitor hm =>
      cases hm with
      | request => exact sendsOne_send (.inl (List.mem_singleton.mpr rfl))
      | tick | bye => exact sendsOne_send (.inr ((sessionMedia_packet ..).trans rfl))
      | _ => exact .inl rfl
  | dial hd =>
      cases hd with
      | setup => exact sendsOne_send (.inl (List.mem_cons_self ..))
      | tick hp | bye hp => exact sendsOne_send (.inr (sessionControl_not_media (by decide) hp))
      | _ => exact .inl rfl
  | hangup hh => cases hh <;> exact .inl rfl
  | talk ht =>
      cases ht with
      | sending => exact sendsOne_send (.inl (List.mem_cons_self ..))
      | _ => exact .inl rfl
  | video hv =>
      cases hv with
      | sending => exact sendsOne_send (.inl (List.mem_cons_self ..))
      | _ => exact .inl rfl
  | keepalive hk => cases hk <;> exact .inl rfl
  | datagram hd => cases hd <;> exact .inl rfl

/-- What a step leaves to be sent was to be sent before it, is no media, or goes out on a
    call that was answered. -/
theorem house_unsent (hs : HouseStep env h t h' t') (hok : t.TalksAnswered h)
    {x : Nat × Bytes} (hx : x ∈ t'.unsent) :
    x ∈ t.unsent ∨ sessionMedia x.2 = false ∨
      ∃ c ∈ h.agent.callSession, c.cancel = x.1 ∧ c.answered = true := by
  cases hs with
  | wire _ ht' => rw [unsent_of_wirePc ht'] at hx; cases hx
  | command | elevator | stop => cases hx
  | monitor hm =>
      cases hm with
      | packed hp =>
          obtain rfl := List.mem_singleton.mp hx
          exact .inr (.inl (monitorRequest_not_media hp))
      | _ => cases hx
  | dial hd =>
      cases hd with
      | identify =>
          obtain ⟨packet, hp, rfl⟩ := List.mem_map.mp hx
          exact .inr (.inl (setupPackets_not_media hp))
      | setup => exact .inl (List.mem_cons_of_mem _ hx)
      | _ => cases hx
  | hangup hh => cases hh <;> cases hx
  | talk ht =>
      cases ht with
      | onCall hc hl =>
          rcases hok _ hc with ha | hnil | hpack
          · obtain ⟨packet, -, rfl⟩ := List.mem_map.mp hx
            exact .inr (.inr ⟨_, hc, rfl, ha⟩)
          · obtain ⟨packet, hp, -⟩ := List.mem_map.mp hx
            rw [hnil, Line.audioPackets_nil (.inl (show chunks 512 [] = [] from rfl))] at hp
            cases hp
          · obtain ⟨packet, hp, -⟩ := List.mem_map.mp hx
            rw [Line.audioPackets_nil (.inr (hpack _ hl))] at hp
            cases hp
      | sending => exact .inl (List.mem_cons_of_mem _ hx)
      | _ => cases hx
  | video hv =>
      cases hv with
      | numbered hc ha hl hpc =>
          rcases hpc with rfl | ⟨packets, rfl⟩
          · cases hx
          · obtain ⟨packet, -, rfl⟩ := List.mem_map.mp hx
            exact .inr (.inr ⟨_, hc, rfl, ha⟩)
      | sending => exact .inl (List.mem_cons_of_mem _ hx)
      | _ => cases hx
  | keepalive hk => cases hk <;> cases hx
  | datagram hd => cases hd <;> cases hx

/-- A call that a step leaves answered was answered before it, or the step handled the
    answer. -/
theorem house_answered (hs : HouseStep env h t h' t') {c : CallHandle}
    (hc : c ∈ h'.agent.callSession) (ha : c.answered = true) :
    ∃ c₀ ∈ h.agent.callSession, c₀.cancel = c.cancel ∧
      (c₀.answered = true ∨ t.wirePc = some .outboundAnswered) := by
  cases house_slots hs with
  | kept hk => exact ⟨c, hk.callSession ▸ hc, rfl, .inl ha⟩
  | stopped => exact ⟨c, stopMonitorNow_callSession h.agent ▸ hc, rfl, .inl ha⟩
  | hungUp =>
      rw [Household.withAgent_agent, takeCallSession_callSession] at hc
      cases hc
  | answered hpc =>
      obtain ⟨c₀, hc₀, hcancel⟩ := outboundAnswered_handle hc
      exact ⟨c₀, hc₀, hcancel, .inr hpc⟩
  | dialed =>
      obtain rfl := Option.some.inj hc
      cases ha
  | ended | told | installed | cleaned | numbered => exact ⟨c, hc, rfl, .inl ha⟩

end

theorem MediaAfterAnswer.append {notes new : List CallNote} (h : MediaAfterAnswer notes)
    (hnew : ∀ signal packet, .sent signal packet ∈ new → sessionMedia packet = true →
      .answered signal ∈ notes) : MediaAfterAnswer (notes ++ new) := by
  intro before signal packet after heq hmedia
  rcases List.append_eq_append_iff.mp heq with ⟨mid, rfl, hmid⟩ | ⟨mid, hmid, hrest⟩
  · have hin : .sent signal packet ∈ new := hmid ▸ List.mem_append_right _ List.mem_cons_self
    exact List.mem_append_left _ (hnew signal packet hin hmedia)
  · cases mid with
    | nil =>
        rw [List.append_nil] at hmid
        have hin : .sent signal packet ∈ new := by
          rw [show new = _ :: after from hrest.symm]
          exact List.mem_cons_self
        exact hmid ▸ hnew signal packet hin hmedia
    | cons n mid =>
        obtain ⟨rfl, -⟩ := List.cons.inj hrest
        exact h before signal packet mid hmid hmedia

/-! ## A run -/

/-- The media packets taken, those still to be sent, and an answered call: the answer is
    noted. -/
structure Covered (p : HousePool W) (notes : List CallNote) : Prop where
  order : MediaAfterAnswer notes
  unsent : ∀ t ∈ p.threads, ∀ x ∈ t.unsent, sessionMedia x.2 = true → .answered x.1 ∈ notes
  call : ∀ c ∈ p.shared.agent.callSession, c.answered = true → .answered c.cancel ∈ notes

namespace Covered

variable {p : HousePool W} {notes : List CallNote}

theorem start {t : HouseTask} (h : Covered p notes) (ht : t.fresh = true) :
    Covered ⟨p.shared, p.threads ++ [t]⟩ notes where
  order := h.order
  unsent u hu x hx hmedia := by
    rcases List.mem_append.mp hu with hu | hu
    · exact h.unsent u hu x hx hmedia
    · obtain rfl := List.mem_singleton.mp hu
      rw [unsent_of_fresh ht] at hx
      cases hx
  call := h.call

variable {env : HouseEnv} {h' : Household W} {t t' : HouseTask} {i : Nat} [Wire W]

theorem step (h : Covered p notes) (ht : p.threads[i]? = some t)
    (hs : HouseStep env p.shared t h' t') (hok : t.TalksAnswered p.shared) :
    Covered ⟨h', p.threads.set i t'⟩ (notes ++ (t.answers p.shared ++ sentNotes p.shared h'))
    where
  order := by
    refine h.order.append fun signal packet hin hmedia => ?_
    rcases List.mem_append.mp hin with hin | hin
    · unfold HouseTask.answers at hin
      split at hin
      · obtain ⟨c, -, hc⟩ := mem_map_toList.mp hin
        cases hc
      · cases hin
    · rcases (house_sent hs).of_mem hin with hx | hno
      · exact h.unsent t (List.mem_of_getElem? ht) _ hx hmedia
      · rw [hmedia] at hno
        cases hno
  unsent u hu x hx hmedia := by
    rw [List.mem_append]
    rcases List.mem_or_eq_of_mem_set hu with hu | rfl
    · exact .inl (h.unsent u hu x hx hmedia)
    · rcases house_unsent hs hok hx with hx | hno | ⟨c, hc, hcancel, ha⟩
      · exact .inl (h.unsent t (List.mem_of_getElem? ht) x hx hmedia)
      · rw [hmedia] at hno
        cases hno
      · exact .inl (hcancel ▸ h.call c hc ha)
  call c hc ha := by
    obtain ⟨c₀, hc₀, hcancel, ha₀ | hpc⟩ := house_answered hs hc ha
    · exact List.mem_append_left _ (hcancel ▸ h.call c₀ hc₀ ha₀)
    · refine List.mem_append_right _ (List.mem_append_left _ ?_)
      unfold HouseTask.answers
      rw [if_pos hpc, Option.mem_def.mp hc₀, ← hcancel]
      exact List.mem_singleton.mpr rfl

theorem next {mode : AgentMode} {m : HouseMove} {p q : HousePool W} {notes : List CallNote}
    (h : Covered p notes) (hok : TalksAnswered p m)
    (hq : (houseProgram mode W).system.next p m = some q) :
    Covered q (notes ++ mediaNotes p m q) := by
  rcases Program.next_cases hq with
    ⟨t, rfl, hmay, rfl⟩ | ⟨i, env, t, h', t', rfl, ht, hstep, rfl⟩ | ⟨l, rfl, rfl⟩
  · rw [show mediaNotes p (.start t) _ = [] from rfl, List.append_nil]
    exact h.start (HouseTask.fresh_of_mayStart hmay)
  · have hn : mediaNotes p (.step i env) ⟨h', p.threads.set i t'⟩ =
        t.answers p.shared ++ sentNotes p.shared h' := by
      unfold mediaNotes
      dsimp only
      rw [ht]
      rfl
    rw [hn]
    exact h.step ht (houseStep_cases hstep) (hok t ht)
  · rw [show mediaNotes p (.outside l) _ = [] from rfl, List.append_nil]
    cases mode with
    | pad => exact h
    | tap =>
        refine ⟨h.order, h.unsent, fun c hc ha => h.call c ?_ ha⟩
        exact (learning_slots p.shared.agent l).2.callSession ▸ hc

end Covered

variable [Wire W]

/-- **No media before the answer**, in every run in which `talk` finds the outbound call
    answered or makes no packet of its chunk. -/
theorem media_after_answer (mode : AgentMode) (wire : W) (peers : Peers) (cooldown : Nat)
    (policy : Bool) (history : MediaRing) (elevatorDoor : Option String)
    (moves : List HouseMove) (p : HousePool W) (notes : List CallNote)
    (hrun : ((houseProgram mode W).system.withHistory mediaNotes).run
      (idleHouse (.new wire peers cooldown policy history elevatorDoor), []) moves =
        some (p, notes))
    (htalk : ((houseProgram mode W).system.withHistory mediaNotes).Meets
      (fun s m => TalksAnswered s.1 m)
      (idleHouse (.new wire peers cooldown policy history elevatorDoor), []) moves) :
    MediaAfterAnswer notes := by
  have hinit : Covered (idleHouse (.new wire peers cooldown policy history elevatorDoor)) [] :=
    { order := fun before _ _ _ h => by simp at h
      unsent := fun _ ht => nomatch ht
      call := fun _ hc => nomatch hc }
  have hcovered : Covered p notes := by
    refine System.run_induction_noted (P := Covered) (fun p m q notes h hok hq => ?_) hinit
      htalk hrun
    exact h.next hok hq
  exact hcovered.order

def CallNote.media : CallNote → Bool
  | sent _ packet => sessionMedia packet
  | answered _ => false

def CallNote.isAnswer : CallNote → Bool
  | answered _ => true
  | sent .. => false

/-- Media without any answer. -/
theorem not_mediaAfterAnswer {notes : List CallNote} (hmedia : notes.any CallNote.media = true)
    (hno : notes.any CallNote.isAnswer = false) : ¬ MediaAfterAnswer notes := by
  intro h
  obtain ⟨n, hn, hm⟩ := List.any_eq_true.mp hmedia
  obtain ⟨before, after, rfl⟩ := List.append_of_mem hn
  cases n with
  | answered => cases hm
  | sent signal packet =>
      have ha := h before signal packet after rfl hm
      have hno := List.any_eq_false.mp hno _ (List.mem_append_left _ ha)
      exact hno rfl

/-- A station is called. -/
def called : List HouseMove := serve 0 (.dial "S00000000001" .checkIdle) 14

/-- It answers. -/
def answer : List HouseMove := serve 1 (.agent (fromDoor opAnswer)) 3

/-- It answers, and then a chunk of sound goes out. -/
theorem sound_after_answer : ∃ p notes,
    ((houseProgram .tap TapWire).system.withHistory mediaNotes).run (idleHouse tapAgent, [])
        (called ++ answer ++ serve 2 (.talk [1, 2] .call) 2) = some (p, notes) ∧
      notes.any CallNote.media = true ∧ MediaAfterAnswer notes := by
  have hmeets : ((houseProgram .tap TapWire).system.withHistory mediaNotes).Meets
      (fun s m => TalksAnswered s.1 m) (idleHouse tapAgent, [])
        (called ++ answer ++ serve 2 (.talk [1, 2] .call) 2) := by
    decide +kernel
  have hend : (((houseProgram .tap TapWire).system.withHistory mediaNotes).run
      (idleHouse tapAgent, []) (called ++ answer ++ serve 2 (.talk [1, 2] .call) 2)).map
        (fun s => s.2.any CallNote.media) = some true := by
    decide +kernel
  obtain ⟨⟨p, notes⟩, hrun, hmedia⟩ := Option.map_eq_some_iff.mp hend
  exact ⟨p, notes, hrun, hmedia, media_after_answer .tap tapWire _ 5000 false (.new 0 0) none _ p
    notes hrun hmeets⟩

/-- Nobody has answered yet, and the chunk goes out: `talk` does not check. -/
theorem sound_before_answer : ∃ moves p notes,
    ((houseProgram .tap TapWire).system.withHistory mediaNotes).run (idleHouse tapAgent, [])
        moves = some (p, notes) ∧ ¬ MediaAfterAnswer notes := by
  have hend : (((houseProgram .tap TapWire).system.withHistory mediaNotes).run
      (idleHouse tapAgent, []) (called ++ serve 1 (.talk [1, 2] .call) 2)).map
        (fun s => (s.2.any CallNote.media, s.2.any CallNote.isAnswer)) =
          some (true, false) := by
    decide +kernel
  obtain ⟨⟨p, notes⟩, hrun, hnotes⟩ := Option.map_eq_some_iff.mp hend
  obtain ⟨hmedia, hno⟩ := Prod.mk.inj hnotes
  exact ⟨_, p, notes, hrun, not_mediaAfterAnswer hmedia hno⟩

end Michoi
