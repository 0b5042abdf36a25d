/-
  Which learned identities can be spoken to: the endpoint blocks whose stations pack again.

  `Station::parse` replaces malformed UTF-8 by U+FFFD, which is three bytes, and
  `Station::pack` refuses an id of more than 20 bytes. `IdsFit` bounds what the decoder
  made of the two id fields, and `spoken_iff` says that nothing else is in the way.
-/
import Michoi.Agent.Identity
import Michoi.Protocol.Codec

namespace Michoi

/-! ## The id field of a block -/

/-- The bytes of a station's id: 20 at most, ended by the first zero. -/
def idField (raw : Bytes) : Bytes := (raw.take 20).takeWhile (· ≠ 0)

/-- What the decoder made of an id field is not longer than the field. -/
def IdFits (raw : Bytes) : Prop := (asBytes (fromUtf8Lossy (idField raw))).length ≤ 20

/-- Both stations of an endpoint block have such an id. -/
structure IdsFit (block : Bytes) : Prop where
  door : IdFits block
  room : IdFits (block.drop 24)

theorem zero_not_mem_idField (raw : Bytes) : (0 : UInt8) ∉ idField raw := by
  intro h
  have hall : (idField raw).all (· ≠ 0) = true := List.all_takeWhile
  simpa using List.all_eq_true.mp hall 0 h

theorem length_idField_le (raw : Bytes) : (idField raw).length ≤ 20 :=
  Nat.le_trans (List.takeWhile_prefix _).length_le (List.length_take_le ..)

/-- An id that is text fits: only malformed bytes grow. -/
theorem idFits_of_text {raw : Bytes} {id : String} (h : idField raw = asBytes id) :
    IdFits raw := by
  unfold IdFits
  rw [h, fromUtf8Lossy_asBytes, ← h]
  exact length_idField_le raw

theorem Station.parse_of_length (raw : Bytes) (h : 24 ≤ raw.length) :
    ∃ s, Station.parse raw = .ok s ∧ s.id = fromUtf8Lossy (idField raw) := by
  unfold Station.parse
  rw [if_neg (Nat.not_lt.mpr h)]
  exact ⟨_, rfl, rfl⟩

theorem idField_take (raw : Bytes) : idField (raw.take 24) = idField raw := by
  unfold idField
  rw [List.take_take]
  rfl

theorem Endpoints.parse_of_length {block : Bytes} (h : block.length = 48) :
    ∃ e, Endpoints.parse block = .ok e ∧ e.door.id = fromUtf8Lossy (idField block) ∧
      e.room.id = fromUtf8Lossy (idField (block.drop 24)) := by
  obtain ⟨door, hdoor, hdoorId⟩ :=
    Station.parse_of_length (block.take 24) (by rw [List.length_take]; omega)
  obtain ⟨room, hroom, hroomId⟩ := Station.parse_of_length ((block.drop 24).take 24)
    (by rw [List.length_take, List.length_drop]; omega)
  rw [idField_take] at hdoorId hroomId
  refine ⟨⟨door, room⟩, ?_, hdoorId, hroomId⟩
  unfold Endpoints.parse
  rw [if_neg (by omega), hdoor, hroom]
  rfl

/-! ## Speaking to a learned station -/

/-- The stations read from a block pack, and the packed block is read as the same. -/
def PacksBack (block : Bytes) : Prop :=
  ∃ e raw, Endpoints.parse block = .ok e ∧ e.pack = .ok raw ∧ Endpoints.parse raw = .ok e

/-- Whatever was known before a message with this block was accepted, a control packet to
    the stations known afterwards can be built. -/
def ControlsEncode (block : Bytes) : Prop :=
  ∀ (m : Message) (e ends : Endpoints) (p learned : Peers), m.body.take 48 = block →
    m.endpoints = some e → (p.acceptEndpoints e).1 = some learned →
    learned.endpoints = some ends → ∀ opcode, ∃ raw, sessionControl opcode ends = .ok raw

/-- What is asked of a block that came in on the wire. -/
structure Spoken (block : Bytes) : Prop where
  packs : PacksBack block
  controls : ControlsEncode block

theorem Endpoints.fits_of_parse {block : Bytes} {e : Endpoints} (hlen : block.length = 48)
    (h : Endpoints.parse block = .ok e) (hfit : IdsFit block) : e.Fits := by
  obtain ⟨e', he', hdoor, hroom⟩ := Endpoints.parse_of_length hlen
  obtain rfl : e' = e := Except.ok.inj (he'.symm.trans h)
  constructor
  · exact ⟨hdoor ▸ hfit.door,
      hdoor ▸ nul_not_mem_fromUtf8Lossy (zero_not_mem_idField block)⟩
  · exact ⟨hroom ▸ hfit.room,
      hroom ▸ nul_not_mem_fromUtf8Lossy (zero_not_mem_idField (block.drop 24))⟩

theorem packsBack_of_fits {block : Bytes} (hlen : block.length = 48) (h : IdsFit block) :
    PacksBack block := by
  obtain ⟨e, he, -⟩ := Endpoints.parse_of_length hlen
  obtain ⟨door, room, hdoor, hroom, -, hback⟩ :=
    Endpoints.parse_pack (Endpoints.fits_of_parse hlen he h)
  refine ⟨e, door ++ room, he, ?_, hback⟩
  unfold Endpoints.pack
  rw [hdoor, hroom]
  rfl

theorem Endpoints.short_of_pack {e : Endpoints} {raw : Bytes} (h : e.pack = .ok raw) :
    (asBytes e.door.id).length ≤ 20 ∧ (asBytes e.room.id).length ≤ 20 := by
  unfold Endpoints.pack at h
  constructor
  · by_contra hlong
    rw [Station.pack_of_long (Nat.lt_of_not_le hlong)] at h
    cases h
  · by_contra hlong
    rw [Station.pack_of_long (Nat.lt_of_not_le hlong)] at h
    cases hdoor : e.door.pack <;> rw [hdoor] at h <;> cases h

theorem idsFit_of_packsBack {block : Bytes} (hlen : block.length = 48) (h : PacksBack block) :
    IdsFit block := by
  obtain ⟨e, raw, he, hraw, -⟩ := h
  obtain ⟨e', he', hdoor, hroom⟩ := Endpoints.parse_of_length hlen
  obtain rfl : e' = e := Except.ok.inj (he'.symm.trans he)
  have hshort := Endpoints.short_of_pack hraw
  rw [hdoor, hroom] at hshort
  exact ⟨hshort.1, hshort.2⟩

/-- An accepted block is what the next packet is addressed with. -/
theorem Peers.endpoints_of_accepted {p learned : Peers} {e : Endpoints}
    (h : (p.acceptEndpoints e).1 = some learned) : learned.endpoints = some e := by
  have haccepts : p.Accepts e := accepts_iff.mp (by rw [h]; rfl)
  rw [acceptEndpoints_of_accepts haccepts] at h
  rw [← Option.some.inj h]
  rfl

theorem Message.parse_of_endpoints {m : Message} {e : Endpoints} (h : m.endpoints = some e) :
    Endpoints.parse (m.body.take 48) = .ok e := by
  unfold Message.endpoints at h
  split at h
  · cases hparse : Endpoints.parse (m.body.take 48) with
    | ok e' =>
        rw [hparse] at h
        rw [Option.some.inj h]
    | error error =>
        rw [hparse] at h
        cases h
  · cases h

theorem controlsEncode_of_packsBack {block : Bytes} (h : PacksBack block) :
    ControlsEncode block := by
  intro m e ends p learned hblock he haccepted hends opcode
  obtain ⟨e', raw, he', hraw, -⟩ := h
  have hparse := Message.parse_of_endpoints he
  rw [hblock] at hparse
  obtain rfl : e' = e := Except.ok.inj (he'.symm.trans hparse)
  obtain rfl : e' = ends :=
    Option.some.inj ((Peers.endpoints_of_accepted haccepted).symm.trans hends)
  refine ⟨packet familySession opcode 80 raw, ?_⟩
  unfold sessionControl
  rw [hraw]
  rfl

/-- **Exactly the blocks whose ids fit after decoding can be spoken to again.** -/
theorem spoken_iff {block : Bytes} (hlen : block.length = 48) :
    Spoken block ↔ IdsFit block := by
  constructor
  · intro h
    exact idsFit_of_packsBack hlen h.packs
  · intro h
    have hpacks := packsBack_of_fits hlen h
    exact ⟨hpacks, controlsEncode_of_packsBack hpacks⟩

/-- The block of the captured stations, with a door id that is not text and still fits. -/
def halfTextBlock : Bytes :=
  resize [0x4d, 0xff, 0xff, 0x31] 20 ++ [192, 168, 124, 2] ++
    resize (asBytes "S00000000000") 20 ++ [192, 168, 124, 61]

theorem spoken_halfText : halfTextBlock.length = 48 ∧ Spoken halfTextBlock :=
  ⟨by decide, (spoken_iff (by decide)).mpr
    ⟨by unfold IdFits; decide, by unfold IdFits; decide⟩⟩

/-- A block with 20 bytes as the door's id that are not UTF-8. -/
def strangeBlock : Bytes :=
  List.replicate 20 0xff ++ [192, 168, 124, 2] ++
    resize (asBytes "S00000000000") 20 ++ [192, 168, 124, 61]

/-- An Agent that knows no door accepts the strange block, and can then build no control
    packet to the door it learned. -/
theorem strange_door_not_spoken :
    (¬ ∀ block : Bytes, block.length = 48 → Spoken block) ∧
      ∃ e learned, Endpoints.parse strangeBlock = .ok e ∧
        ((⟨Endpoints.captured.room, none, none, none, 10000⟩ : Peers).acceptEndpoints e).1 =
          some learned ∧ learned.endpoints = some e ∧
        ∀ opcode, sessionControl opcode e = .error .stationTooLong := by
  have hlength : strangeBlock.length = 48 := by decide
  obtain ⟨e, he, hdoor, -⟩ := Endpoints.parse_of_length hlength
  have hlong : 20 < (asBytes e.door.id).length := by
    rw [hdoor]
    decide
  refine ⟨fun h => ?_, ?_⟩
  · have hfit := idsFit_of_packsBack (by decide) (h strangeBlock (by decide)).packs
    have hdoorFits : (asBytes (fromUtf8Lossy (idField strangeBlock))).length ≤ 20 := hfit.door
    rw [← hdoor] at hdoorFits
    omega
  · have haccepted : ∃ e' ∈ (Endpoints.parse strangeBlock).toOption,
        ((⟨Endpoints.captured.room, none, none, none, 10000⟩ : Peers).acceptEndpoints
          e').1.isSome = true := by decide
    obtain ⟨e', he', hsome⟩ := haccepted
    rw [he] at he'
    obtain rfl : e = e' := Option.some.inj he'
    obtain ⟨learned, hlearned⟩ := Option.isSome_iff_exists.mp hsome
    refine ⟨e, learned, he, hlearned, Peers.endpoints_of_accepted hlearned, fun opcode => ?_⟩
    unfold sessionControl Endpoints.pack
    rw [Station.pack_of_long hlong]
    rfl

end Michoi
