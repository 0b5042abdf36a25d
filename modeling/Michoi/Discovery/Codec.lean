/-
  The discovery codec, and what it keeps apart (`protocol.rs`, `discovery.rs`).

  A query and a reply share their shape and differ in the tag, so a datagram is one of them at
  most (`not_both`). `Informed` follows the service through its runs: an address comes to a call
  by a reply for its id only, and what is sent is a query of a call or the answer to a query.
  `discovery_codec` puts the codec and the runs together.
-/
import Michoi.Discovery.Resolve

namespace Michoi

open Lib

/-! ## The codec -/

/-- `discovery_request` and `discovery_reply`, with the error they return. -/
def discoveryEncode (tag : UInt8) (size : Nat) (roomId : String) : Except ProtocolError Bytes :=
  if (asBytes roomId).length > 34 then .error .stationTooLong
  else .ok (tag :: asBytes roomId ++ List.replicate (size - (1 + (asBytes roomId).length)) 0)

theorem discoveryDatagram_eq (tag : UInt8) (size : Nat) (roomId : String) :
    discoveryDatagram tag size roomId = (discoveryEncode tag size roomId).toOption := by
  unfold discoveryDatagram discoveryEncode
  dsimp only
  split <;> rfl

/-- The encoders for an id, and the parsers of what they build. -/
structure CodesRoom (id : String) : Prop where
  tooLong : ∀ tag size,
    discoveryEncode tag size id = .error .stationTooLong ↔ 34 < (asBytes id).length
  request : (asBytes id).length ≤ 34 → ∃ raw, discoveryEncode 1 100 id = .ok raw ∧
    discoveryRequest id = some raw ∧ raw.length = 100 ∧ discoveryRequestRoom raw = .ok (some id)
  reply : (asBytes id).length ≤ 34 → ∃ raw, discoveryEncode 2 35 id = .ok raw ∧
    discoveryReply id = some raw ∧ raw.length = 35 ∧ discoveryReplyRoom raw = .ok (some id)

theorem discoveryEncode_of_le {tag : UInt8} {size : Nat} (hsize : 35 ≤ size) {id : String}
    (hid : Char.ofNat 0 ∉ id.toList) (h : (asBytes id).length ≤ 34) :
    ∃ raw, discoveryEncode tag size id = .ok raw ∧ discoveryDatagram tag size id = some raw ∧
      raw.length = size ∧ discoveryRoom tag raw = .ok (some id) := by
  have hencode : discoveryEncode tag size id = .ok
      (tag :: asBytes id ++ List.replicate (size - (1 + (asBytes id).length)) 0) :=
    if_neg (Nat.not_lt.mpr h)
  refine ⟨_, hencode, ?_, ?_, discoveryRoom_padded tag hid _⟩
  · rw [discoveryDatagram_eq, hencode]
    rfl
  · rw [List.length_append, List.length_cons, List.length_replicate]
    omega

theorem codesRoom {id : String} (hid : Char.ofNat 0 ∉ id.toList) : CodesRoom id where
  tooLong tag size := by
    unfold discoveryEncode
    split
    · next h => exact iff_of_true rfl h
    · next h => exact iff_of_false nofun h
  request := discoveryEncode_of_le (by decide) hid
  reply := discoveryEncode_of_le (by decide) hid

/-- The tag decides. -/
theorem not_both (payload : Bytes) :
    discoveryRequestRoom payload = .ok none ∨ discoveryReplyRoom payload = .ok none := by
  by_cases h : payload.head? = some 1
  · refine .inr (if_pos ?_)
    rw [h]
    decide
  · exact .inl (if_pos h)

theorem asksFor_eq_none {datagram : Bytes} (h : repliesFor datagram ≠ none) :
    asksFor datagram = none := by
  unfold asksFor
  rcases not_both datagram with hnone | hnone
  · rw [hnone]
  · unfold repliesFor at h
    rw [hnone] at h
    exact absurd rfl h

/-! ## A datagram -/

namespace DiscoveryService

variable (s : DiscoveryService) (sender : SocketAddr) {datagram : Bytes}

/-- A query completes no waiter: at most an answer is sent. -/
theorem received_query (h : asksFor datagram ≠ none) :
    s.received sender datagram = { s with sent := (s.received sender datagram).sent } := by
  have hreply : repliesFor datagram = none := by
    by_contra hsome
    exact h (asksFor_eq_none hsome)
  unfold received
  rw [hreply]
  dsimp only
  split
  · split
    · split <;> rfl
    · rfl
  · rfl

/-- A reply is not answered. -/
theorem received_reply (h : repliesFor datagram ≠ none) :
    (s.received sender datagram).sent = s.sent := by
  unfold received
  split
  · split <;> rfl
  · next hnone => exact absurd hnone h

/-- What is sent for a datagram answers a query for the id of the service. -/
theorem received_sent (datagram : Bytes) : (s.received sender datagram).sent = s.sent ∨
    ∃ ours reply, s.deviceId = some ours ∧ asksFor datagram = some ours ∧
      discoveryReply ours = some reply ∧
      (s.received sender datagram).sent = s.sent ++ [(sender, reply)] := by
  unfold received
  split
  · split <;> exact .inl rfl
  · split
    · next id ours hid hours =>
        split
        · next heq =>
            split
            · next reply hreply => exact .inr ⟨ours, reply, hours, heq ▸ hid, hreply, rfl⟩
            · exact .inl rfl
        · exact .inl rfl
    · exact .inl rfl

end DiscoveryService

/-! ## The runs -/

/-- A reply for the id came from the address. -/
def Replied (past : List DiscoveryMove) (id : String) (ip : Ipv4Addr) : Prop :=
  ∃ a ∈ past, replyFor id a = some ip

/-- A query for the id came from the address, and it was no reply. -/
def AskedFrom (past : List DiscoveryMove) (id : String) (sender : SocketAddr) : Prop :=
  ∃ datagram, .receive sender datagram ∈ past ∧ asksFor datagram = some id ∧
    repliesFor datagram = none

/-- What a call sends and what it has of an address. -/
structure CallTold (past : List DiscoveryMove) (c : ResolveCall) : Prop where
  sending : ∀ request, c.pc = .send request → discoveryRequest c.id = some request
  value : ∀ ip, c.channel = .value ip → Replied past c.id ip
  result : ∀ ip, c.pc = .done (some ip) → Replied past c.id ip

/-- What was sent: a query, or the answer to one. -/
def SentRightly (deviceId : Option String) (past : List DiscoveryMove)
    (p : SocketAddr × Bytes) : Prop :=
  (∃ id, discoveryRequest id = some p.2) ∨
    ∃ ours, deviceId = some ours ∧ discoveryReply ours = some p.2 ∧ AskedFrom past ours p.1

/-- What a run has told the calls and others. -/
structure Informed (deviceId : Option String) (past : List DiscoveryMove) (s : DiscoveryService) :
    Prop where
  device : s.deviceId = deviceId
  calls : ∀ c ∈ s.calls, CallTold past c
  taken : ∀ i ∈ s.taken, ∀ c ∈ s.calls[i]?, Replied past c.id s.source
  sent : ∀ p ∈ s.sent, SentRightly deviceId past p

section

variable {s t : DiscoveryService} {a : DiscoveryMove} {past : List DiscoveryMove}
  {deviceId : Option String} {c : ResolveCall}

theorem Replied.mono {id : String} {ip : Ipv4Addr} (h : Replied past id ip)
    (a : DiscoveryMove) : Replied (past ++ [a]) id ip := by
  obtain ⟨b, hb, hreply⟩ := h
  exact ⟨b, List.mem_append_left _ hb, hreply⟩

theorem CallTold.mono (h : CallTold past c) (a : DiscoveryMove) : CallTold (past ++ [a]) c where
  sending := h.sending
  value ip hv := (h.value ip hv).mono a
  result ip hr := (h.result ip hr).mono a

theorem SentRightly.mono {p : SocketAddr × Bytes} (h : SentRightly deviceId past p)
    (a : DiscoveryMove) : SentRightly deviceId (past ++ [a]) p := by
  obtain h | ⟨ours, hours, hreply, datagram, hin, hasks⟩ := h
  · exact .inl h
  · exact .inr ⟨ours, hours, hreply, datagram, List.mem_append_left _ hin, hasks⟩

/-- Where the call that goes on is told rightly, all are. -/
theorem forall_goTo {i : Nat} {pc : ResolvePc} (h : ∀ c ∈ s.calls, CallTold past c)
    (hi : ∀ c, s.calls[i]? = some c → CallTold past { c with pc }) :
    ∀ c ∈ (s.goTo i pc).calls, CallTold past c := by
  intro d hd
  obtain ⟨k, hk⟩ := List.mem_iff_getElem?.mp hd
  rw [DiscoveryService.getElem?_goTo] at hk
  obtain ⟨c, hc, rfl⟩ := Option.map_eq_some_iff.mp hk
  split
  · next heq => exact hi c (heq ▸ hc)
  · exact h c (List.mem_of_getElem? hc)

/-- A call that goes on without an address. -/
theorem CallTold.goOn (h : CallTold past c) {pc : ResolvePc}
    (hsend : ∀ request, pc = .send request → discoveryRequest c.id = some request)
    (hdone : ∀ ip, pc ≠ .done (some ip)) : CallTold past { c with pc } where
  sending := hsend
  value := h.value
  result ip hr := absurd hr (hdone ip)

theorem CallTold.close (h : CallTold past c) : CallTold past { c with channel := .closed } where
  sending := h.sending
  value ip hv := by cases hv
  result := h.result

/-- The calls after a step. -/
theorem Informed.calls_step (h : Informed deviceId past s) (hstep : DiscoveryStep s a t) :
    ∀ c ∈ t.calls, CallTold (past ++ [a]) c := by
  have hold : ∀ c ∈ s.calls, CallTold (past ++ [a]) c := fun c hc => (h.calls c hc).mono a
  have hgo {i : Nat} {d : ResolveCall} {pc : ResolvePc} (hd : s.calls[i]? = some d)
      (hsend : ∀ request, pc = .send request → discoveryRequest d.id = some request)
      (hdone : ∀ ip, pc ≠ .done (some ip)) : ∀ c ∈ (s.goTo i pc).calls, CallTold (past ++ [a]) c :=
    forall_goTo hold fun c hc => by
      obtain rfl := Option.some.inj (hd.symm.trans hc)
      exact (hold d (List.mem_of_getElem? hd)).goOn hsend hdone
  cases hstep with
  | register id =>
      intro c hc
      rcases List.mem_append.mp hc with hc | hc
      · exact hold c hc
      · obtain rfl := List.mem_singleton.mp hc
        exact ⟨nofun, nofun, nofun⟩
  | encoded hc hpc hrequest =>
      exact hgo hc (fun request heq => ResolvePc.send.inj heq ▸ hrequest) nofun
  | tooLong hc hpc hrequest => exact hgo hc nofun nofun
  | sent broadcast hc hpc => exact hgo hc nofun nofun
  | unsent broadcast hc hpc => exact hgo hc nofun nofun
  | @found i d ip hd hpc hchannel =>
      refine forall_goTo hold fun c hc => ?_
      obtain rfl := Option.some.inj (hd.symm.trans hc)
      have htold := hold d (List.mem_of_getElem? hd)
      exact ⟨nofun, htold.value, fun ip' heq => by cases heq; exact htold.value ip hchannel⟩
  | dropped hc hpc hchannel => exact hgo hc nofun nofun
  | elapsed hc hpc hchannel => exact hgo hc nofun nofun
  | @cleared i d hd hpc =>
      have hclosed : ∀ c ∈ DiscoveryService.closeAll (s.pending d.id) s.calls,
          CallTold (past ++ [.clear i]) c := by
        intro e he
        obtain ⟨k, hk⟩ := List.mem_iff_getElem?.mp he
        rw [DiscoveryService.getElem?_closeAll] at hk
        obtain ⟨c, hc, rfl⟩ := Option.map_eq_some_iff.mp hk
        split
        · exact (hold c (List.mem_of_getElem? hc)).close
        · exact hold c (List.mem_of_getElem? hc)
      exact forall_goTo hclosed fun c hc =>
        (hclosed c (List.mem_of_getElem? hc)).goOn nofun nofun
  | reply => exact hold
  | other => exact hold
  | @deliver j rest htaken =>
      intro d hd
      obtain ⟨k, hk⟩ := List.mem_iff_getElem?.mp hd
      rw [List.getElem?_modify] at hk
      obtain ⟨c, hc, rfl⟩ := Option.map_eq_some_iff.mp hk
      have htold := hold c (List.mem_of_getElem? hc)
      split
      · next heq =>
          have hreplied := (h.taken j (by rw [htaken]; exact List.mem_cons_self) c
            (heq ▸ hc)).mono .deliver
          exact ⟨htold.sending, fun ip hv => by cases hv; exact hreplied, htold.result⟩
      · exact htold

/-- The waiters that `run` holds after a step. -/
theorem Informed.taken_step (h : Informed deviceId past s) (htabled : Tabled s)
    (hstep : DiscoveryStep s a t) :
    ∀ i ∈ t.taken, ∀ c ∈ t.calls[i]?, Replied (past ++ [a]) c.id t.source := by
  intro i hi d hd
  have hold (hin : i ∈ s.taken) (hsource : t.source = s.source) :
      Replied (past ++ [a]) d.id t.source := by
    obtain ⟨c, hc⟩ := htabled.taken i hin
    obtain ⟨d', hd', hid⟩ := hstep.exists_call hc
    rw [Option.mem_def.mp hd] at hd'
    rw [Option.some.inj hd', hid, hsource]
    exact (h.taken i hin c hc).mono a
  cases hstep with
  | @reply sender datagram id ip htaken hid hip =>
      obtain ⟨c, hc, rfl⟩ := htabled.pending id i hi
      obtain rfl := Option.some.inj ((Option.mem_def.mp hd).symm.trans hc)
      refine ⟨_, List.mem_append_right _ (List.mem_singleton.mpr rfl), ?_⟩
      rw [replyFor_receive hip, if_pos hid]
  | deliver htaken => exact hold (htaken ▸ List.mem_cons_of_mem _ hi) rfl
  | _ => exact hold hi rfl

/-- What is sent up to the end of a step. -/
theorem Informed.sent_step (h : Informed deviceId past s) (hstep : DiscoveryStep s a t)
    (hnext : discovery.next s a = some t) : ∀ p ∈ t.sent, SentRightly deviceId (past ++ [a]) p := by
  have hold : ∀ p ∈ s.sent, SentRightly deviceId (past ++ [a]) p := fun p hp => (h.sent p hp).mono a
  have hone {p : SocketAddr × Bytes} (hp : SentRightly deviceId (past ++ [a]) p) :
      ∀ q ∈ s.sent ++ [p], SentRightly deviceId (past ++ [a]) q := by
    intro q hq
    rcases List.mem_append.mp hq with hq | hq
    · exact hold q hq
    · exact List.mem_singleton.mp hq ▸ hp
  cases hstep with
  | sent broadcast hc hpc =>
      exact hone (.inl ⟨_, (h.calls _ (List.mem_of_getElem? hc)).sending _ hpc⟩)
  | @other sender datagram sent hother =>
      have hreceived : s.received sender datagram = { s with sent } := by
        change (if s.taken = [] then some (s.received sender datagram) else none) = _ at hnext
        split at hnext
        · exact Option.some.inj hnext
        · cases hnext
      have hsent : (s.received sender datagram).sent = sent := by rw [hreceived]
      show ∀ p ∈ sent, _
      rw [← hsent]
      rcases s.received_sent sender datagram with heq | ⟨ours, raw, hours, hasks, hraw, heq⟩
      · rw [heq]
        exact hold
      · have hreply : repliesFor datagram = none := by
          by_contra hsome
          rw [asksFor_eq_none hsome] at hasks
          cases hasks
        rw [heq]
        exact hone (.inr ⟨ours, h.device ▸ hours, hraw, datagram,
          List.mem_append_right _ (List.mem_singleton.mpr rfl), hasks, hreply⟩)
  | _ => exact hold

theorem Informed.step (h : Informed deviceId past s) (htabled : Tabled s)
    (hnext : discovery.next s a = some t) : Informed deviceId (past ++ [a]) t := by
  have hstep := discoveryNext_cases hnext
  refine ⟨?_, h.calls_step hstep, h.taken_step htabled hstep, h.sent_step hstep hnext⟩
  rw [← h.device]
  cases hstep <;> rfl

theorem informed_bind (deviceId : Option String) : Informed deviceId [] (.bind deviceId) where
  device := rfl
  calls _ h := (List.not_mem_nil h).elim
  taken _ h := (List.not_mem_nil h).elim
  sent _ h := (List.not_mem_nil h).elim

/-- The run lemma. -/
theorem informed_of_run (h : discovery.run (.bind deviceId) past = some s) :
    Informed deviceId past s := by
  have hrun := System.run_induction_past
    (P := fun past s => Tabled s ∧ Informed deviceId past s)
    (fun past s a t h (_ : True) hnext => ⟨h.1.step (discoveryNext_cases hnext), h.2.step h.1 hnext⟩)
    ⟨(kept_bind deviceId).tabled, informed_bind deviceId⟩
    (System.meets_of_forall (fun _ _ => trivial) _ _) h
  exact hrun.2

end

/-- **The discovery codec.** Both encoders fail on long ids only and are undone by the parsers,
    no payload is both a query and a reply, and so in every run a call has an address from a
    reply for its id only, and nothing is sent but queries and answers to queries. -/
theorem discovery_codec :
    (∀ id : String, Char.ofNat 0 ∉ id.toList → CodesRoom id) ∧
      (∀ payload, discoveryRequestRoom payload = .ok none ∨
        discoveryReplyRoom payload = .ok none) ∧
      (∀ (s : DiscoveryService) sender datagram,
        (asksFor datagram ≠ none → s.received sender datagram =
          { s with sent := (s.received sender datagram).sent }) ∧
        (repliesFor datagram ≠ none → (s.received sender datagram).sent = s.sent)) ∧
      ∀ deviceId past s, discovery.run (.bind deviceId) past = some s → Informed deviceId past s :=
  ⟨fun _ hid => codesRoom hid, not_both,
    fun s sender _ => ⟨s.received_query sender, s.received_reply sender⟩,
    fun _ _ _ h => informed_of_run h⟩

end Michoi
