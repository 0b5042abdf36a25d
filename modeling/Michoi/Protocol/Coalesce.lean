/-
  Splitting undoes coalescing.

  A datagram is `Framed` when `split_coalesced` cuts it off whatever datagrams follow it.
  All but one of the encoders declare their own length, or are media, whose length is fixed:
  their logical size does not depend on what follows (`Sized`), so the magic may stand in
  their bodies. The bootstrap request declares less than a header and ends at the next
  magic, which is the next datagram's, as its own header holds no other.
-/
import Michoi.Household
import Michoi.Lib.Checked
import Michoi.Protocol.Split

namespace Michoi

open Lib

/-! ## The length of a built packet -/

theorem length_resize (bytes : Bytes) (n : Nat) : (resize bytes n).length = n := by
  unfold resize
  rw [List.length_append, List.length_take, List.length_replicate]
  omega

theorem length_of_pack {s : Station} {raw : Bytes} (h : s.pack = .ok raw) : raw.length = 24 := by
  unfold Station.pack at h
  split at h
  · cases h
  · have hraw := (Except.ok.inj h).symm
    rw [hraw, List.length_append, length_resize]
    rfl

/-- An endpoint block is two packed stations. -/
theorem length_of_block {us peer : Station} {block : Bytes}
    (h : (do let us ← us.pack; let peer ← peer.pack; return us ++ peer) =
      (.ok block : Except ProtocolError Bytes)) : block.length = 48 := by
  obtain ⟨a, ha, h⟩ := bind_eq_ok_iff.mp h
  obtain ⟨b, hb, h⟩ := bind_eq_ok_iff.mp h
  have hblock : a ++ b = block := Except.ok.inj h
  rw [← hblock, List.length_append, length_of_pack ha, length_of_pack hb]

theorem resize_append {pre bytes : Bytes} {n : Nat} (h : pre.length ≤ n) :
    resize (pre ++ bytes) n = pre ++ resize bytes (n - pre.length) := by
  unfold resize
  rw [List.take_append, List.take_of_length_le h, List.length_append, List.append_assoc,
    Nat.sub_sub]

set_option maxRecDepth 2000 in
theorem length_sessionRequestCapability : sessionRequestCapability.length = 174 := rfl

set_option maxRecDepth 2000 in
theorem length_callRequestCapability : callRequestCapability.length = 176 := rfl

@[simp] theorem length_packet (family : UInt16) (opcode declared : UInt32) (body : Bytes) :
    (packet family opcode declared body).length = 32 + body.length := by
  simp [packet, magic, u16ToLe, u32ToLe]
  omega

theorem magic_prefix_packet (family : UInt16) (opcode declared : UInt32) (body : Bytes) :
    magic <+: packet family opcode declared body := by
  simp only [packet, List.append_assoc]
  exact List.prefix_append ..

theorem packet_append (family : UInt16) (opcode declared : UInt32) (body rest : Bytes) :
    packet family opcode declared body ++ rest = packet family opcode declared (body ++ rest) := by
  simp only [packet, List.append_assoc]

/-! ## The logical size of a built packet -/

/-- The family is one of the two that carry media. -/
def SessionLike (family : UInt16) : Prop := family = familySession ∨ family = familyMonitor

instance (family : UInt16) : Decidable (SessionLike family) :=
  inferInstanceAs (Decidable (_ ∨ _))

theorem isSessionLike_iff (m : Message) : m.isSessionLike = true ↔ SessionLike m.family := by
  unfold Message.isSessionLike SessionLike
  rw [Bool.or_eq_true, beq_iff_eq, beq_iff_eq]

theorem logicalSize_eq {data : Bytes} {m : Message} (h : Message.parse data = .ok m) :
    logicalSize data =
      if m.isSessionLike = true ∧ m.opcode = opMedia ∧ 90 ≤ data.length then
        if u16OfLe (data.getD 80 0) (data.getD 81 0) = mediaJpeg then some 1290
        else if u16OfLe (data.getD 80 0) (data.getD 81 0) = mediaAudio then some 602
        else none
      else if 32 ≤ m.declared then some m.declared.toNat
      else if m.family = familySession ∧ m.opcode = opKeepalive then some 80
      else none := by
  unfold logicalSize
  rw [h]

variable {family : UInt16} {opcode declared : UInt32} {body : Bytes}

theorem logicalSize_of_declared (hm : ¬ (SessionLike family ∧ opcode = opMedia))
    (hd : 32 ≤ declared) : logicalSize (packet family opcode declared body) =
      some declared.toNat := by
  rw [logicalSize_eq (parse_packet family opcode declared body), if_neg, if_pos hd]
  intro h
  exact hm ⟨(isSessionLike_iff _).mp h.1, h.2.1⟩

/-- A keepalive that declares nothing has the length of one. -/
theorem logicalSize_of_keepalive (hd : ¬ 32 ≤ declared) :
    logicalSize (packet familySession opKeepalive declared body) = some 80 := by
  rw [logicalSize_eq (parse_packet familySession opKeepalive declared body), if_neg, if_neg hd,
    if_pos ⟨rfl, rfl⟩]
  exact fun h => absurd h.2.1 (show ¬ opKeepalive = opMedia by decide)

theorem getD_packet (n : Nat) :
    (packet family opcode declared body).getD (32 + n) 0 = body.getD n 0 := by
  have hlen : (magic ++ u16ToLe family ++ u32ToLe opcode ++ u32ToLe declared ++
      List.replicate 14 (0 : UInt8)).length = 32 := by
    simp [magic, u16ToLe, u32ToLe]
  rw [packet, List.getD_eq_getElem?_getD, List.getElem?_append_right (by omega), hlen,
    Nat.add_sub_cancel_left, ← List.getD_eq_getElem?_getD]

/-- Media has the length of its kind, whatever it declares. -/
theorem logicalSize_of_media (h : SessionLike family) (hlen : 58 ≤ body.length) :
    logicalSize (packet family opMedia declared body) =
      if u16OfLe (body.getD 48 0) (body.getD 49 0) = mediaJpeg then some 1290
      else if u16OfLe (body.getD 48 0) (body.getD 49 0) = mediaAudio then some 602
      else none := by
  have hsize : 90 ≤ (packet family opMedia declared body).length := by
    rw [length_packet]
    omega
  rw [logicalSize_eq (parse_packet family opMedia declared body),
    if_pos ⟨(isSessionLike_iff _).mpr h, rfl, hsize⟩, ← getD_packet (n := 48),
    ← getD_packet (n := 49)]

/-! ## Datagrams that are cut off whatever follows -/

/-- The logical size is the datagram's length, whatever bytes follow. -/
def Sized (d : Bytes) : Prop := ∀ rest, logicalSize (d ++ rest) = some d.length

/-- The first piece is the datagram, whatever datagrams follow. -/
structure Framed (d : Bytes) : Prop where
  starts : magic <+: d
  piece : ∀ rest, rest = [] ∨ magic <+: rest → pieceSize (d ++ rest) = d.length

theorem Framed.of_sized {d : Bytes} (starts : magic <+: d) (h : Sized d) : Framed d := by
  refine ⟨starts, fun rest _ => ?_⟩
  have hfit : decide (d.length ≤ (d ++ rest).length) = true := by
    rw [decide_eq_true_iff, List.length_append]
    omega
  rw [pieceSize, h rest, Option.filter_some, if_pos hfit]
  rfl

theorem framed_of_declared (hm : ¬ (SessionLike family ∧ opcode = opMedia)) (hd : 32 ≤ declared)
    (hlen : 32 + body.length = declared.toNat) : Framed (packet family opcode declared body) := by
  refine .of_sized (magic_prefix_packet ..) fun rest => ?_
  rw [packet_append, logicalSize_of_declared hm hd, length_packet, hlen]

theorem framed_of_keepalive (hd : ¬ 32 ≤ declared) (hlen : body.length = 48) :
    Framed (packet familySession opKeepalive declared body) := by
  refine .of_sized (magic_prefix_packet ..) fun rest => ?_
  rw [packet_append, logicalSize_of_keepalive hd, length_packet, hlen]

/-- The media header after a block of 48 bytes begins with the kind. -/
theorem framed_of_media {block tail : Bytes} {kind : UInt16} {size : Nat}
    (hblock : block.length = 48) (htail : 58 ≤ (block ++ u16ToLe kind ++ tail).length)
    (hkind : kind = mediaJpeg ∧ size = 1290 ∨ kind = mediaAudio ∧ size = 602)
    (hlen : 32 + (block ++ u16ToLe kind ++ tail).length = size) :
    Framed (packet familySession opMedia declared (block ++ u16ToLe kind ++ tail)) := by
  refine .of_sized (magic_prefix_packet ..) fun rest => ?_
  have hlong : 58 ≤ (block ++ u16ToLe kind ++ tail ++ rest).length := by
    rw [List.length_append]
    omega
  have hread : u16OfLe ((block ++ u16ToLe kind ++ tail ++ rest).getD 48 0)
      ((block ++ u16ToLe kind ++ tail ++ rest).getD 49 0) = kind := by
    have h (n : Nat) : (block ++ u16ToLe kind ++ tail ++ rest).getD (48 + n) 0 =
        (u16ToLe kind ++ (tail ++ rest)).getD n 0 := by
      simp only [List.append_assoc, List.getD_eq_getElem?_getD]
      rw [List.getElem?_append_right (by omega), hblock, Nat.add_sub_cancel_left]
    rw [h 0, h 1]
    exact u16OfLe_toLe kind
  rw [packet_append, logicalSize_of_media (.inl rfl) hlong, hread, length_packet, hlen]
  obtain ⟨rfl, rfl⟩ | ⟨rfl, rfl⟩ := hkind
  · rfl
  · rfl

/-! ## A datagram that ends at the next one -/

theorem magicAt_skip {pre rest : Bytes} (h : ∀ b ∈ pre, b ≠ 0x50) :
    magicAt (pre ++ rest) = (magicAt rest).map (· + pre.length) := by
  induction pre with
  | nil => simp
  | cons b pre ih =>
      have hb : magic.isPrefixOf (b :: (pre ++ rest)) = false := by
        have hne : ((0x50 : UInt8) == b) = false :=
          beq_eq_false_iff_ne.mpr (h b List.mem_cons_self).symm
        simp [magic, List.isPrefixOf, hne]
      rw [List.cons_append, magicAt, hb, if_neg Bool.false_ne_true,
        ih fun c hc => h c (List.mem_cons_of_mem _ hc), Option.map_map]
      rfl

theorem magicAt_of_starts {payload : Bytes} (h : magic <+: payload) :
    magicAt payload = some 0 := by
  cases payload with
  | nil => exact absurd h.length_le (by decide)
  | cons b rest => rw [magicAt, if_pos (List.isPrefixOf_iff_prefix.mpr h)]

theorem framed_bootstrapRequest : Framed bootstrapRequest := by
  refine ⟨magic_prefix_packet .., fun rest hrest => ?_⟩
  have hsize : logicalSize (bootstrapRequest ++ rest) = none := by
    rw [bootstrapRequest, packet_append, logicalSize_eq (parse_packet ..), if_neg, if_neg, if_neg]
    · exact fun h => absurd h.1 (show ¬ familyBootstrap = familySession by decide)
    · show ¬ (32 : UInt32) ≤ 20
      decide
    · exact fun h => absurd h.2.1 (show ¬ opRequest = opMedia by decide)
  have hskip : magicAt ((bootstrapRequest ++ rest).drop magic.length) =
      (magicAt rest).map (· + 24) := by
    have hheader : ∀ b ∈ bootstrapRequest.drop 8, b ≠ 0x50 := by decide +kernel
    exact magicAt_skip hheader
  rw [pieceSize, hsize, hskip]
  obtain rfl | hrest := hrest
  · rfl
  · rw [magicAt_of_starts hrest]
    rfl

/-! ## The encoders -/

/-- The declared length set to zero, as the door sends its media and keepalives. -/
def undeclared (raw : Bytes) : Bytes := raw.take 14 ++ [0, 0, 0, 0] ++ raw.drop 18

/-- The datagrams of the encoders, `elevator_request` apart. -/
inductive Encoded : Bytes → Prop where
  | sessionControl {opcode : UInt32} {e : Endpoints} {raw : Bytes} (hop : opcode ≠ opMedia)
      (h : sessionControl opcode e = .ok raw) : Encoded raw
  | sessionRequest {e : Endpoints} {raw : Bytes} (h : sessionRequest e = .ok raw) : Encoded raw
  | sessionReply {e : Endpoints} {raw : Bytes} (h : sessionReply e = .ok raw) : Encoded raw
  | callRequest {caller callee : Station} {raw : Bytes}
      (h : callRequest caller callee = .ok raw) : Encoded raw
  | callSetup {caller callee : Station} {raw : Bytes}
      (h : callSetup caller callee = .ok raw) : Encoded raw
  | monitorRequest {us target : Station} {raw : Bytes}
      (h : monitorRequest us target = .ok raw) : Encoded raw
  /-- The keepalive and the hangup of `run_monitor_session`. -/
  | monitorKeepalive {us camera : Station} {block : Bytes}
      (h : monitorBlock us camera = .ok block) :
      Encoded (packet familyMonitor opKeepalive 80 block)
  | monitorHangup {us camera : Station} {block : Bytes} (h : monitorBlock us camera = .ok block) :
      Encoded (packet familyMonitor opHangup 80 block)
  | bootstrapRequest : Encoded bootstrapRequest
  | bootstrapReply {room : Station} {raw : Bytes} (h : bootstrapReply room = .ok raw) : Encoded raw
  | pageRequest : Encoded pageRequest
  | audioPacket {sequence : UInt16} {pcm : Bytes} {e : Endpoints} {raw : Bytes}
      (h : audioPacket sequence pcm e = .ok raw) : Encoded raw
  | jpegPacket {sequence : UInt16} {jpeg : Bytes} {e : Endpoints} {packets : List Bytes}
      {raw : Bytes} (h : jpegPackets sequence jpeg e = .ok packets) (hraw : raw ∈ packets) :
      Encoded raw
  | audioUndeclared {sequence : UInt16} {pcm : Bytes} {e : Endpoints} {raw : Bytes}
      (h : audioPacket sequence pcm e = .ok raw) : Encoded (undeclared raw)
  | jpegUndeclared {sequence : UInt16} {jpeg : Bytes} {e : Endpoints} {packets : List Bytes}
      {raw : Bytes} (h : jpegPackets sequence jpeg e = .ok packets) (hraw : raw ∈ packets) :
      Encoded (undeclared raw)
  | keepaliveUndeclared {e : Endpoints} {raw : Bytes}
      (h : sessionControl opKeepalive e = .ok raw) : Encoded (undeclared raw)

theorem undeclared_packet (family : UInt16) (opcode declared : UInt32) (body : Bytes) :
    undeclared (packet family opcode declared body) = packet family opcode 0 body := rfl

theorem exists_of_audioPacket {sequence : UInt16} {pcm : Bytes} {e : Endpoints} {raw : Bytes}
    (h : audioPacket sequence pcm e = .ok raw) : ∃ block tail,
      block.length = 48 ∧ (block ++ u16ToLe mediaAudio ++ tail).length = 570 ∧
        raw = packet familySession opMedia 602 (block ++ u16ToLe mediaAudio ++ tail) := by
  unfold audioPacket at h
  split at h
  · cases h
  · next hpcm =>
      obtain ⟨block, hb, h⟩ := bind_eq_ok_iff.mp h
      have hblock := length_of_block hb
      refine ⟨block, [sequence, 1, 1, 512].flatMap u16ToLe ++ pcm, hblock, ?_, ?_⟩
      · simp [u16ToLe]
        omega
      · rw [← Except.ok.inj h]
        simp only [List.flatMap_cons, List.append_assoc]

theorem exists_of_jpegPackets {sequence : UInt16} {jpeg : Bytes} {e : Endpoints}
    {packets : List Bytes} {raw : Bytes} (h : jpegPackets sequence jpeg e = .ok packets)
    (hraw : raw ∈ packets) : ∃ block tail,
      block.length = 48 ∧ (block ++ u16ToLe mediaJpeg ++ tail).length = 1258 ∧
        raw = packet familySession opMedia 1290 (block ++ u16ToLe mediaJpeg ++ tail) := by
  obtain ⟨block, hb, h⟩ := bind_eq_ok_iff.mp h
  have hblock := length_of_block hb
  rw [← Except.ok.inj h] at hraw
  obtain ⟨index, hindex, hget⟩ := List.mem_mapIdx.mp hraw
  generalize (chunks 1200 jpeg)[index] = chunk at hget
  have hpre : (block ++ u16ToLe mediaJpeg).length = 50 := by
    rw [List.length_append, hblock]
    rfl
  refine ⟨block, resize ([sequence, UInt16.ofNat (max ((jpeg.length + 1199) / 1200) 1),
    UInt16.ofNat index + 1, UInt16.ofNat chunk.length].flatMap u16ToLe ++ chunk) 1208,
    hblock, ?_, ?_⟩
  · rw [List.length_append, length_resize, hpre]
  · rw [← hget]
    unfold jpegPacket
    rw [List.flatMap_cons, ← List.append_assoc, List.append_assoc _ _ chunk, hblock,
      resize_append (by omega), hpre]

/-! ## Lists of datagrams -/

theorem Encoded.framed {d : Bytes} (h : Encoded d) : Framed d := by
  cases h with
  | sessionControl hop h =>
      obtain ⟨block, hb, h⟩ := bind_eq_ok_iff.mp h
      cases h
      exact framed_of_declared (fun hm => hop hm.2) (by decide) (by rw [length_of_block hb]; rfl)
  | sessionRequest h =>
      obtain ⟨block, hb, h⟩ := bind_eq_ok_iff.mp h
      cases h
      refine framed_of_declared (by decide) (by decide) ?_
      rw [List.length_append, length_of_block hb, length_sessionRequestCapability]
      rfl
  | sessionReply h =>
      obtain ⟨block, hb, h⟩ := bind_eq_ok_iff.mp h
      cases h
      refine framed_of_declared (by decide) (by decide) ?_
      rw [List.length_append, List.length_append, length_of_block hb]
      rfl
  | callRequest h =>
      obtain ⟨caller, hc, h⟩ := bind_eq_ok_iff.mp h
      obtain ⟨callee, he, h⟩ := bind_eq_ok_iff.mp h
      cases h
      refine framed_of_declared (by decide) (by decide) ?_
      rw [List.length_append, List.length_append, length_of_pack hc, length_of_pack he,
        length_callRequestCapability]
      rfl
  | callSetup h =>
      obtain ⟨caller, hc, h⟩ := bind_eq_ok_iff.mp h
      obtain ⟨callee, he, h⟩ := bind_eq_ok_iff.mp h
      cases h
      refine framed_of_declared (by decide) (by decide) ?_
      rw [List.length_append, List.length_append, length_of_pack hc, length_of_pack he]
      rfl
  | monitorRequest h =>
      obtain ⟨us, hu, h⟩ := bind_eq_ok_iff.mp h
      obtain ⟨target, ht, h⟩ := bind_eq_ok_iff.mp h
      cases h
      refine framed_of_declared (by decide) (by decide) ?_
      rw [List.length_append, List.length_append, length_of_pack hu, length_of_pack ht]
      rfl
  | monitorKeepalive h =>
      exact framed_of_declared (by decide) (by decide) (by rw [length_of_block h]; rfl)
  | monitorHangup h =>
      exact framed_of_declared (by decide) (by decide) (by rw [length_of_block h]; rfl)
  | bootstrapRequest => exact framed_bootstrapRequest
  | bootstrapReply h =>
      obtain ⟨room, hr, h⟩ := bind_eq_ok_iff.mp h
      cases h
      refine framed_of_declared (by decide) (by decide) ?_
      rw [List.length_append, List.length_append, List.length_replicate, length_of_pack hr]
      rfl
  | pageRequest => exact framed_of_declared (by decide) (by decide) rfl
  | audioPacket h =>
      obtain ⟨block, tail, hb, hlen, rfl⟩ := exists_of_audioPacket h
      exact framed_of_media hb (by omega) (.inr ⟨rfl, rfl⟩) (by omega)
  | jpegPacket h hraw =>
      obtain ⟨block, tail, hb, hlen, rfl⟩ := exists_of_jpegPackets h hraw
      exact framed_of_media hb (by omega) (.inl ⟨rfl, rfl⟩) (by omega)
  | audioUndeclared h =>
      obtain ⟨block, tail, hb, hlen, rfl⟩ := exists_of_audioPacket h
      rw [undeclared_packet]
      exact framed_of_media hb (by omega) (.inr ⟨rfl, rfl⟩) (by omega)
  | jpegUndeclared h hraw =>
      obtain ⟨block, tail, hb, hlen, rfl⟩ := exists_of_jpegPackets h hraw
      rw [undeclared_packet]
      exact framed_of_media hb (by omega) (.inl ⟨rfl, rfl⟩) (by omega)
  | keepaliveUndeclared h =>
      obtain ⟨block, hb, h⟩ := bind_eq_ok_iff.mp h
      cases h
      rw [undeclared_packet]
      exact framed_of_keepalive (by decide) (length_of_block hb)

/-- A datagram alone is split into itself. -/
theorem Encoded.split {d : Bytes} (h : Encoded d) : splitCoalesced d = [d] := by
  have hpiece := h.framed.piece [] (.inl rfl)
  have hpos : d.length ≠ 0 := by
    have := h.framed.starts.length_le
    rw [show magic.length = 8 from rfl] at this
    omega
  rw [List.append_nil] at hpiece
  rw [splitCoalesced_eq, magicAt_of_starts h.framed.starts]
  simp only [List.drop_zero]
  rw [hpiece, if_neg hpos, List.take_length, List.drop_length]
  rfl

theorem starts_flatten {datagrams : List Bytes} (h : ∀ d ∈ datagrams, Framed d) :
    datagrams.flatten = [] ∨ magic <+: datagrams.flatten := by
  cases datagrams with
  | nil => exact .inl rfl
  | cons d rest =>
      have hd := (h d List.mem_cons_self).starts
      exact .inr (hd.trans (List.prefix_append ..))

/-- Splitting undoes coalescing. -/
theorem splitCoalesced_flatten {datagrams : List Bytes} (h : ∀ d ∈ datagrams, Encoded d) :
    splitCoalesced datagrams.flatten = datagrams := by
  have hframed : ∀ d ∈ datagrams, Framed d := fun d hd => (h d hd).framed
  clear h
  induction datagrams with
  | nil => rfl
  | cons d rest ih =>
      have hd := hframed d List.mem_cons_self
      have hrest : ∀ d ∈ rest, Framed d := fun d hd => hframed d (List.mem_cons_of_mem _ hd)
      have hsize : pieceSize (d ++ rest.flatten) = d.length := hd.piece _ (starts_flatten hrest)
      have hpos : d.length ≠ 0 := by
        have := hd.starts.length_le
        rw [show magic.length = 8 from rfl] at this
        omega
      have hmagic : magicAt (d ++ rest.flatten) = some 0 :=
        magicAt_of_starts (hd.starts.trans (List.prefix_append ..))
      rw [List.flatten_cons, splitCoalesced_eq, hmagic]
      simp only [List.drop_zero]
      rw [hsize, if_neg hpos, List.take_left, List.drop_left, ih hrest]

/-- A hangup, the bootstrap request and a page in one payload. -/
theorem splitCoalesced_flatten_three : ∃ hangup,
    sessionControl opHangup .captured = .ok hangup ∧
      splitCoalesced [hangup, bootstrapRequest, pageRequest].flatten =
        [hangup, bootstrapRequest, pageRequest] := by
  have hhangup : (sessionControl opHangup .captured).toBool = true := by decide
  cases h : sessionControl opHangup .captured with
  | error => rw [h] at hhangup; cases hhangup
  | ok hangup =>
      refine ⟨hangup, rfl, splitCoalesced_flatten ?_⟩
      simp only [List.forall_mem_cons]
      exact ⟨.sessionControl (by decide) h, .bootstrapRequest, .pageRequest,
        fun _ hd => absurd hd List.not_mem_nil⟩

end Michoi
