/-
  The session codec round trip: what `Message::parse` gives back of the eight builders'
  datagrams.

  `parse_pack` is the endpoint block, `readsAs_packet` one datagram with a block and whatever
  follows it. A media header is read back by `media_of_header`, without the padding of its
  slot. `session_codec` puts the builders together with their refusals.
-/
import Michoi.Bytes.Utf8
import Michoi.Protocol.Coalesce

namespace Michoi

open Lib

/-! ## Stations and endpoint blocks -/

/-- The id fits its field: at most 20 bytes, and no NUL that would end it early. -/
structure Station.Fits (s : Station) : Prop where
  short : (asBytes s.id).length ≤ 20
  noNul : Char.ofNat 0 ∉ s.id.toList

structure Endpoints.Fits (e : Endpoints) : Prop where
  door : e.door.Fits
  room : e.room.Fits

theorem Station.pack_of_fits {s : Station} (h : s.Fits) :
    s.pack = .ok (resize (asBytes s.id) 20 ++ s.ip.octets) :=
  if_neg (Nat.not_lt.mpr h.short)

theorem takeWhile_resize {bytes : Bytes} {n : Nat} (h : bytes.length ≤ n)
    (h0 : (0 : UInt8) ∉ bytes) : (resize bytes n).takeWhile (· ≠ 0) = bytes := by
  unfold resize
  rw [List.take_of_length_le h, List.takeWhile_append_of_pos]
  · rw [show (List.replicate (n - bytes.length) (0 : UInt8)).takeWhile (· ≠ 0) = [] by
      cases n - bytes.length <;> simp [List.replicate_succ], List.append_nil]
  · intro b hb
    have : b ≠ 0 := fun he => h0 (he ▸ hb)
    simpa using this

/-- What is read of a packed station: its id up to the first NUL, and its address. -/
theorem Station.parse_padded (s : Station) :
    Station.parse (resize (asBytes s.id) 20 ++ s.ip.octets) =
      .ok ⟨fromUtf8Lossy ((resize (asBytes s.id) 20).takeWhile (· ≠ 0)), s.ip⟩ := by
  have hlen := length_resize (asBytes s.id) 20
  have hid : (resize (asBytes s.id) 20 ++ s.ip.octets).take 20 = resize (asBytes s.id) 20 := by
    rw [List.take_append_of_le_length (by omega), List.take_of_length_le (by omega)]
  have hget (i : Nat) : (resize (asBytes s.id) 20 ++ s.ip.octets).getD (20 + i) 0 =
      s.ip.octets.getD i 0 := by
    rw [List.getD_eq_getElem?_getD, List.getElem?_append_right (by omega), hlen,
      Nat.add_sub_cancel_left, ← List.getD_eq_getElem?_getD]
  unfold Station.parse
  rw [if_neg, hid]
  · have h0 := hget 0
    have h1 := hget 1
    have h2 := hget 2
    have h3 := hget 3
    simp only [Nat.reduceAdd] at h0 h1 h2 h3
    rw [h0, h1, h2, h3]
    rfl
  · rw [List.length_append, hlen, Nat.not_lt]
    exact Nat.le_refl _

theorem Station.parse_pack {s : Station} (h : s.Fits) :
    Station.parse (resize (asBytes s.id) 20 ++ s.ip.octets) = .ok s := by
  rw [Station.parse_padded, takeWhile_resize h.short (zero_not_mem_asBytes h.noNul),
    fromUtf8Lossy_asBytes]

/-- A block is read station by station. -/
theorem Endpoints.parse_append {door room : Bytes} {d r : Station} (hdoor : door.length = 24)
    (hroom : room.length = 24) (hd : Station.parse door = .ok d) (hr : Station.parse room = .ok r) :
    Endpoints.parse (door ++ room) = .ok ⟨d, r⟩ := by
  unfold Endpoints.parse
  rw [if_neg (by rw [List.length_append]; omega), List.take_append_of_le_length (by omega),
    List.take_of_length_le (by omega), List.drop_append_of_le_length (by omega),
    List.drop_of_length_le (by omega), List.nil_append, List.take_of_length_le (by omega), hd, hr]
  rfl

/-- A fitting block can be built, and is read back. -/
theorem Endpoints.parse_pack {e : Endpoints} (h : e.Fits) : ∃ door room,
    e.door.pack = .ok door ∧ e.room.pack = .ok room ∧ (door ++ room).length = 48 ∧
      Endpoints.parse (door ++ room) = .ok e := by
  have hdoor := Station.pack_of_fits h.door
  have hroom := Station.pack_of_fits h.room
  have hd := length_of_pack hdoor
  have hr := length_of_pack hroom
  exact ⟨_, _, hdoor, hroom, by rw [List.length_append, hd, hr],
    Endpoints.parse_append hd hr (Station.parse_pack h.door) (Station.parse_pack h.room)⟩

/-- A block with an id that is too long cannot be built. -/
theorem Station.pack_of_long {s : Station} (h : 20 < (asBytes s.id).length) :
    s.pack = .error .stationTooLong := if_pos h

theorem Station.pack_cases (s : Station) :
    (∃ raw, s.pack = .ok raw) ∨ s.pack = .error .stationTooLong := by
  unfold Station.pack
  split
  · exact .inr rfl
  · exact .inl ⟨_, rfl⟩

/-! ## Reading a datagram back -/

/-- What parsing a built datagram gives back. -/
def ReadsAs (raw : Bytes) (family : UInt16) (opcode : UInt32) (e : Endpoints)
    (media : Option MediaFragment) : Prop :=
  ∃ m, Message.parse raw = .ok m ∧ m.family = family ∧ m.opcode = opcode ∧
    m.declared.toNat = raw.length ∧ m.endpoints = some e ∧ m.media = media

variable {family : UInt16} {opcode declared : UInt32} {e : Endpoints} {block tail : Bytes}

theorem endpoints_of_block {m : Message} (hf : SessionLike m.family)
    (hbody : m.body = block ++ tail) (hblock : block.length = 48)
    (hparse : Endpoints.parse block = .ok e) : m.endpoints = some e := by
  have hlen : 48 ≤ m.body.length := by
    rw [hbody, List.length_append]
    omega
  unfold Message.endpoints
  rw [(isSessionLike_iff m).mpr hf, decide_eq_true hlen, Bool.true_and, if_pos rfl, hbody,
    List.take_append_of_le_length (by omega), List.take_of_length_le (by omega), hparse]
  rfl

/-- Only media of at least a header's length is read as media. -/
theorem media_none {m : Message} (h : m.opcode ≠ opMedia ∨ m.body.length < 58) :
    m.media = none := by
  unfold Message.media
  rw [if_pos]
  obtain hop | hlen := h
  · simp [hop]
  · simp [hlen]

/-- The five fields of a media header, then the data and the padding of its slot. -/
theorem media_of_header {m : Message} {f : MediaFragment} (padding : Bytes)
    (hf : SessionLike m.family) (hop : m.opcode = opMedia) (hblock : block.length = 48)
    (hbody : m.body = block ++ ([f.mediaType, f.sequence, f.fragmentCount, f.fragmentIndex,
      f.validLength].flatMap u16ToLe ++ (f.data ++ padding)))
    (hvalid : f.validLength.toNat = f.data.length) : m.media = some f := by
  have hlen : ¬ m.body.length < 58 := by
    simp [hbody, u16ToLe]
    omega
  have hh : m.body.drop 48 = [f.mediaType, f.sequence, f.fragmentCount, f.fragmentIndex,
      f.validLength].flatMap u16ToLe ++ (f.data ++ padding) := by
    rw [hbody, List.drop_append_of_le_length (by omega), List.drop_of_length_le (by omega),
      List.nil_append]
  have hd : m.body.drop 58 = f.data ++ padding := by
    rw [show 58 = 48 + 10 from rfl, ← List.drop_drop, hh]
    rfl
  unfold Message.media
  rw [(isSessionLike_iff m).mpr hf, hop, if_neg (by simpa using hlen), hh, hd]
  simp only [List.flatMap_cons, List.flatMap_nil, u16ToLe, List.cons_append, List.nil_append,
    List.getD_cons_zero, List.getD_cons_succ, u16OfLe_toLe]
  rw [if_neg, hvalid, List.take_append_of_le_length (Nat.le_refl _), List.take_length]
  rw [hvalid, List.length_append]
  omega

/-- A datagram with an endpoint block. -/
theorem readsAs_packet {media : Option MediaFragment} (hf : SessionLike family)
    (hblock : block.length = 48) (hparse : Endpoints.parse block = .ok e)
    (hlen : declared.toNat = 80 + tail.length)
    (hmedia : ∀ m : Message, m.family = family → m.opcode = opcode → m.body = block ++ tail →
      m.media = media) :
    ReadsAs (packet family opcode declared (block ++ tail)) family opcode e media := by
  refine ⟨_, parse_packet .., rfl, rfl, ?_, endpoints_of_block hf rfl hblock hparse,
    hmedia _ rfl rfl rfl⟩
  rw [length_packet, List.length_append, hblock, hlen]
  omega

/-- A datagram that is no media. -/
theorem readsAs_control (hf : SessionLike family) (hblock : block.length = 48)
    (hparse : Endpoints.parse block = .ok e) (hlen : declared.toNat = 80 + tail.length)
    (hm : opcode ≠ opMedia ∨ tail.length < 10) :
    ReadsAs (packet family opcode declared (block ++ tail)) family opcode e none := by
  refine readsAs_packet hf hblock hparse hlen fun m _ hop hbody => media_none ?_
  obtain hm | hm := hm
  · exact .inl (hop ▸ hm)
  · refine .inr ?_
    rw [hbody, List.length_append]
    omega

/-! ## Pieces -/

/-- More rounds than there are bytes change nothing. -/
theorem chunksLoop_enough {n rounds rounds' : Nat} {bytes : Bytes} (hn : 0 < n)
    (h : bytes.length ≤ rounds) (h' : bytes.length ≤ rounds') :
    chunksLoop n rounds bytes = chunksLoop n rounds' bytes := by
  induction rounds generalizing rounds' bytes with
  | zero =>
      rw [List.eq_nil_of_length_eq_zero (Nat.le_zero.mp h)]
      cases rounds' <;> rfl
  | succ rounds ih =>
      cases bytes with
      | nil => cases rounds' <;> rfl
      | cons b rest =>
          obtain ⟨rounds', rfl⟩ : ∃ r, rounds' = r + 1 := ⟨rounds' - 1, by
            rw [List.length_cons] at h'
            omega⟩
          have hdrop : ((b :: rest).drop n).length ≤ rest.length := by
            rw [List.length_drop, List.length_cons]
            omega
          rw [List.length_cons] at h h'
          unfold chunksLoop
          exact congrArg _ (ih (Nat.le_trans hdrop (Nat.le_of_succ_le_succ h))
            (Nat.le_trans hdrop (Nat.le_of_succ_le_succ h')))

/-- The first piece, and the pieces of what is left. -/
theorem chunks_eq_cons {n : Nat} {bytes : Bytes} (hn : 0 < n) (h : bytes ≠ []) :
    chunks n bytes = bytes.take n :: chunks n (bytes.drop n) := by
  cases bytes with
  | nil => exact absurd rfl h
  | cons b rest =>
      have hdrop : ((b :: rest).drop n).length ≤ rest.length := by
        rw [List.length_drop, List.length_cons]
        omega
      exact congrArg _ (chunksLoop_enough hn hdrop (Nat.le_refl _))

/-! ## Pieces of a JPEG -/

theorem length_chunksLoop {rounds : Nat} {bytes : Bytes} (h : bytes.length ≤ rounds) :
    (chunksLoop 1200 rounds bytes).length = (bytes.length + 1199) / 1200 := by
  induction rounds generalizing bytes with
  | zero =>
      have hnil : bytes = [] := List.eq_nil_of_length_eq_zero (by omega)
      rw [hnil]
      rfl
  | succ rounds ih =>
      cases bytes with
      | nil => rfl
      | cons b rest =>
          have hdrop : ((b :: rest).drop 1200).length = rest.length + 1 - 1200 := List.length_drop
          unfold chunksLoop
          rw [List.length_cons, ih (by rw [hdrop]; simp only [List.length_cons] at h; omega),
            hdrop, List.length_cons]
          omega

theorem getElem?_chunksLoop {rounds i : Nat} {bytes chunk : Bytes}
    (h : (chunksLoop 1200 rounds bytes)[i]? = some chunk) :
    chunk = (bytes.drop (1200 * i)).take 1200 := by
  induction rounds generalizing bytes i with
  | zero => cases h
  | succ rounds ih =>
      cases bytes with
      | nil => cases h
      | cons b rest =>
          unfold chunksLoop at h
          cases i with
          | zero => exact (Option.some.inj h).symm
          | succ i =>
              have hi := ih h
              rw [List.drop_drop, show 1200 + 1200 * i = 1200 * (i + 1) by omega] at hi
              exact hi

theorem toNat_length_part {chunk : Bytes} (hchunk : chunk.length ≤ 1200) :
    (UInt16.ofNat chunk.length).toNat = chunk.length := by
  rw [UInt16.toNat_ofNat']
  omega

theorem length_mediaHeader (mediaType sequence fragmentCount index validLength : UInt16) :
    ([mediaType, sequence, fragmentCount, index, validLength].flatMap u16ToLe).length = 10 :=
  rfl

/-- A part of a JPEG goes behind its header, and zeros behind the part. -/
theorem jpegPacket_eq (sequence fragmentCount index : UInt16) (block : Bytes) {chunk : Bytes}
    (hchunk : chunk.length ≤ 1200) :
    jpegPacket sequence fragmentCount index block chunk =
      packet familySession opMedia 1290 (block ++ ([mediaJpeg, sequence, fragmentCount, index,
        UInt16.ofNat chunk.length].flatMap u16ToLe ++
          (chunk ++ List.replicate (1200 - chunk.length) 0))) := by
  have hheader := length_mediaHeader mediaJpeg sequence fragmentCount index
    (UInt16.ofNat chunk.length)
  unfold jpegPacket
  rw [List.append_assoc, Nat.add_assoc, resize_append (by omega), Nat.add_sub_cancel_left,
    resize_append (by omega), hheader, Nat.add_sub_cancel_left, resize,
    List.take_of_length_le hchunk]

/-- One packet of a JPEG is read back as its part of the frame, without the padding. -/
theorem readsAs_jpegPacket {sequence fragmentCount index : UInt16} {chunk : Bytes}
    (hblock : block.length = 48) (hparse : Endpoints.parse block = .ok e)
    (hchunk : chunk.length ≤ 1200) :
    ReadsAs (jpegPacket sequence fragmentCount index block chunk) familySession opMedia e
      (some {
        mediaType := mediaJpeg, sequence, fragmentCount, fragmentIndex := index
        validLength := UInt16.ofNat chunk.length, data := chunk }) := by
  rw [jpegPacket_eq _ _ _ _ hchunk]
  refine readsAs_packet (.inl rfl) hblock hparse ?_ fun m hf hop hbody =>
    media_of_header _ (.inl hf) hop hblock hbody (toNat_length_part hchunk)
  show 1290 = _
  rw [List.length_append, length_mediaHeader, List.length_append, List.length_replicate]
  omega

/-! ## The builders -/

/-- Each builder's datagram is read back as what it was built from, the initiator being the
    door of the block. -/
structure RoundTrips (e : Endpoints) : Prop where
  sessionControl : ∀ opcode, ∃ raw, sessionControl opcode e = .ok raw ∧
    ReadsAs raw familySession opcode e none
  sessionRequest : ∃ raw, sessionRequest e = .ok raw ∧
    ReadsAs raw familySession opRequest e none
  sessionReply : ∃ raw, sessionReply e = .ok raw ∧ ReadsAs raw familySession opReply e none
  callRequest : ∃ raw, callRequest e.door e.room = .ok raw ∧
    ReadsAs raw familySession opRequest e none
  callSetup : ∃ raw, callSetup e.door e.room = .ok raw ∧
    ReadsAs raw familySession opCallSetup e none
  monitorRequest : ∃ raw, monitorRequest e.door e.room = .ok raw ∧
    ReadsAs raw familyMonitor opRequest e none
  audioPacket : ∀ sequence pcm, pcm.length = 512 → ∃ raw, audioPacket sequence pcm e = .ok raw ∧
    ReadsAs raw familySession opMedia e (some {
      mediaType := mediaAudio, sequence, fragmentCount := 1, fragmentIndex := 1
      validLength := 512, data := pcm })
  jpegPackets : ∀ sequence jpeg, 1 ≤ jpeg.length → jpeg.length ≤ 1200 * 65535 →
    ∃ packets, jpegPackets sequence jpeg e = .ok packets ∧
      packets.length = (jpeg.length + 1199) / 1200 ∧
      ∀ i raw, packets[i]? = some raw → ∃ f, ReadsAs raw familySession opMedia e (some f) ∧
        f.mediaType = mediaJpeg ∧ f.sequence = sequence ∧
        f.fragmentCount.toNat = packets.length ∧ f.fragmentIndex.toNat = i + 1 ∧
        f.data = (jpeg.drop (1200 * i)).take 1200 ∧ f.validLength.toNat = f.data.length

theorem jpegPackets_roundTrip {door room : Bytes} (hdoor : e.door.pack = .ok door)
    (hroom : e.room.pack = .ok room) (hblock : (door ++ room).length = 48)
    (hparse : Endpoints.parse (door ++ room) = .ok e) (sequence : UInt16) {jpeg : Bytes}
    (hpos : 1 ≤ jpeg.length) (hmax : jpeg.length ≤ 1200 * 65535) :
    ∃ packets, jpegPackets sequence jpeg e = .ok packets ∧
      packets.length = (jpeg.length + 1199) / 1200 ∧
      ∀ i raw, packets[i]? = some raw → ∃ f, ReadsAs raw familySession opMedia e (some f) ∧
        f.mediaType = mediaJpeg ∧ f.sequence = sequence ∧
        f.fragmentCount.toNat = packets.length ∧ f.fragmentIndex.toNat = i + 1 ∧
        f.data = (jpeg.drop (1200 * i)).take 1200 ∧ f.validLength.toNat = f.data.length := by
  have hcount : (chunks 1200 jpeg).length = (jpeg.length + 1199) / 1200 :=
    length_chunksLoop (Nat.le_refl _)
  refine ⟨_, by unfold jpegPackets Endpoints.pack; rw [hdoor, hroom]; rfl, ?_, ?_⟩
  · rw [List.length_mapIdx, hcount]
  · intro i raw hraw
    rw [List.getElem?_mapIdx] at hraw
    obtain ⟨chunk, hchunk, rfl⟩ := Option.map_eq_some_iff.mp hraw
    have hi : i < (chunks 1200 jpeg).length := (List.getElem?_eq_some_iff.mp hchunk).1
    have hdata : chunk = (jpeg.drop (1200 * i)).take 1200 := getElem?_chunksLoop hchunk
    have hlen : chunk.length ≤ 1200 := hdata ▸ List.length_take_le ..
    refine ⟨_, readsAs_jpegPacket hblock hparse hlen, rfl, rfl, ?_, ?_, hdata, ?_⟩
    · show (UInt16.ofNat _).toNat = _
      rw [UInt16.toNat_ofNat', List.length_mapIdx]
      omega
    · show (UInt16.ofNat i + 1).toNat = _
      rw [UInt16.toNat_add, UInt16.toNat_ofNat']
      show (i % 2 ^ 16 + 1) % 2 ^ 16 = i + 1
      omega
    · exact toNat_length_part hlen

theorem roundTrips_of_fits (h : e.Fits) : RoundTrips e := by
  obtain ⟨door, room, hdoor, hroom, hblock, hparse⟩ := Endpoints.parse_pack h
  have hpack : e.pack = .ok (door ++ room) := by
    unfold Endpoints.pack
    rw [hdoor, hroom]
    rfl
  constructor
  case sessionControl =>
    intro opcode
    refine ⟨_, by unfold sessionControl; rw [hpack, ok_bind]; rfl, ?_⟩
    have h : ReadsAs (packet familySession opcode 80 (door ++ room ++ [])) familySession opcode e
        none := readsAs_control (.inl rfl) hblock hparse rfl (.inr (by decide))
    rw [List.append_nil] at h
    exact h
  case sessionRequest =>
    refine ⟨_, by unfold sessionRequest; rw [hpack, ok_bind]; rfl, ?_⟩
    refine readsAs_control (.inl rfl) hblock hparse ?_ (.inl (by decide))
    rw [length_sessionRequestCapability]
    rfl
  case sessionReply =>
    refine ⟨_, by unfold sessionReply; rw [hpack, ok_bind]; rfl, ?_⟩
    rw [List.append_assoc]
    exact readsAs_control (.inl rfl) hblock hparse rfl (.inl (by decide))
  case callRequest =>
    refine ⟨_, by unfold callRequest; rw [hdoor, hroom, ok_bind, ok_bind]; rfl, ?_⟩
    refine readsAs_control (.inl rfl) hblock hparse ?_ (.inl (by decide))
    rw [length_callRequestCapability]
    rfl
  case callSetup =>
    refine ⟨_, by unfold callSetup; rw [hdoor, hroom, ok_bind, ok_bind]; rfl, ?_⟩
    exact readsAs_control (.inl rfl) hblock hparse rfl (.inl (by decide))
  case monitorRequest =>
    refine ⟨_, by unfold monitorRequest; rw [hdoor, hroom, ok_bind, ok_bind]; rfl, ?_⟩
    exact readsAs_control (.inr rfl) hblock hparse rfl (.inl (by decide))
  case audioPacket =>
    intro sequence pcm hpcm
    refine ⟨_, by unfold audioPacket; rw [if_neg (not_not.mpr hpcm), hpack, ok_bind]; rfl, ?_⟩
    rw [List.append_assoc]
    refine readsAs_packet (.inl rfl) hblock hparse ?_ fun m hf hop hbody => ?_
    · rw [List.length_append, hpcm, length_mediaHeader]
      decide
    · refine media_of_header [] (.inl hf) hop hblock ?_ hpcm.symm
      rw [List.append_nil]
      exact hbody
  case jpegPackets =>
    exact fun sequence jpeg hpos hmax =>
      jpegPackets_roundTrip hdoor hroom hblock hparse sequence hpos hmax

/-- Every builder refuses the block. -/
structure Refuses (e : Endpoints) : Prop where
  sessionControl : ∀ opcode, sessionControl opcode e = .error .stationTooLong
  sessionRequest : sessionRequest e = .error .stationTooLong
  sessionReply : sessionReply e = .error .stationTooLong
  callRequest : callRequest e.door e.room = .error .stationTooLong
  callSetup : callSetup e.door e.room = .error .stationTooLong
  monitorRequest : monitorRequest e.door e.room = .error .stationTooLong
  audioPacket : ∀ sequence pcm, pcm.length = 512 →
    audioPacket sequence pcm e = .error .stationTooLong
  jpegPackets : ∀ sequence jpeg, jpegPackets sequence jpeg e = .error .stationTooLong

/-- Where one of the two ids is too long, nothing that packs both goes on. -/
theorem refuses_of_long
    (h : 20 < (asBytes e.door.id).length ∨ 20 < (asBytes e.room.id).length) : Refuses e := by
  have hstop {α : Type} (f : Bytes → Bytes → Except ProtocolError α) :
      (do let door ← e.door.pack; let room ← e.room.pack; f door room) =
        .error .stationTooLong := by
    obtain ⟨door, hdoor⟩ | hdoor := Station.pack_cases e.door
    · obtain h | h := h
      · rw [Station.pack_of_long h]
        rfl
      · rw [hdoor, Station.pack_of_long h]
        rfl
    · rw [hdoor]
      rfl
  have hpack : e.pack = .error .stationTooLong := hstop _
  constructor
  case sessionControl => intro opcode; unfold sessionControl; rw [hpack]; rfl
  case sessionRequest => unfold sessionRequest; rw [hpack]; rfl
  case sessionReply => unfold sessionReply; rw [hpack]; rfl
  case callRequest => exact hstop _
  case callSetup => exact hstop _
  case monitorRequest => exact hstop _
  case audioPacket =>
    intro sequence pcm hpcm
    unfold audioPacket
    rw [if_neg (not_not.mpr hpcm), hpack]
    rfl
  case jpegPackets => intro sequence jpeg; unfold jpegPackets; rw [hpack]; rfl

/-- The session codec. -/
theorem session_codec (e : Endpoints) :
    (e.Fits → RoundTrips e) ∧
      (20 < (asBytes e.door.id).length ∨ 20 < (asBytes e.room.id).length → Refuses e) ∧
      ∀ sequence pcm, pcm.length ≠ 512 →
        audioPacket sequence pcm e = .error .badAudioLength :=
  ⟨roundTrips_of_fits, refuses_of_long, fun _ _ h => if_pos h⟩

end Michoi
