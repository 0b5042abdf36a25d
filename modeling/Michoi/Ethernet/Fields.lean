/-
  What the two readers of a frame take from it.

  Behind the VLAN tags both look at the same fields at the same offsets, so each is one test
  of the frame and one record of its fields (`EthernetUdp.parse_eq`, `decodeUdp_eq`). The
  tests differ in the IP version and in a datagram that is cut short, and in nothing else:
  `readers_agree`.
-/
import Michoi.Pcap

namespace Michoi

open Lib Lib.Checked

/-! ## Fields -/

/-- The big-endian integer at an offset. -/
def u16Of (raw : Bytes) (i : Nat) : UInt16 := u16OfBe (raw.getD i 0) (raw.getD (i + 1) 0)

def ipv4Of (raw : Bytes) (i : Nat) : Ipv4Addr :=
  ⟨raw.getD i 0, raw.getD (i + 1) 0, raw.getD (i + 2) 0, raw.getD (i + 3) 0⟩

def macOf (raw : Bytes) (i : Nat) : MacAddress := ⟨Vector.ofFn fun k => raw.getD (i + k) 0⟩

/-- Where the VLAN tags end, and the type there. -/
def behindTags (raw : Bytes) : Option (Nat × UInt16) :=
  if raw.length < 14 then none
  else
    match skipVlan raw (u16Of raw 12) with
    | .ok behind => behind
    | .error _ => none

/-- The IP packet of a frame, `none` if it has none. -/
def ipOf (raw : Bytes) : Option Bytes :=
  match behindTags raw with
  | some (offset, etherType) => if etherType = 0x0800 then some (raw.drop offset) else none
  | none => none

/-- The version nibble of an IP packet. -/
def versionOf (ip : Bytes) : UInt8 := ip.getD 0 0 >>> 4

/-- The length of its header, options included. -/
def ihlOf (ip : Bytes) : Nat := (ip.getD 0 0 &&& 0x0f).toNat * 4

/-- What comes behind the header. -/
def udpOf (ip : Bytes) : Bytes := ip.drop (ihlOf ip)

/-- The UDP length field. -/
def udpLengthOf (ip : Bytes) : Nat := (u16Of (udpOf ip) 4).toNat

/-- The test that both readers make of an IP packet. -/
structure CarriesUdp (ip : Bytes) : Prop where
  header : 20 ≤ ihlOf ip
  room : ihlOf ip + 8 ≤ ip.length
  protocol : ip.getD 9 0 = 17
  length : 8 ≤ udpLengthOf ip

instance (ip : Bytes) : Decidable (CarriesUdp ip) :=
  decidable_of_iff
    (20 ≤ ihlOf ip ∧ ihlOf ip + 8 ≤ ip.length ∧ ip.getD 9 0 = 17 ∧ 8 ≤ udpLengthOf ip)
    ⟨fun h => ⟨h.1, h.2.1, h.2.2.1, h.2.2.2⟩, fun h => ⟨h.header, h.room, h.protocol, h.length⟩⟩

/-- The record of `EthernetUdp::parse`. -/
def EthernetUdp.of (frame ip : Bytes) : EthernetUdp where
  sourceMac := macOf frame 6
  destinationMac := macOf frame 0
  sourceIp := ipv4Of ip 12
  destinationIp := ipv4Of ip 16
  sourcePort := u16Of (udpOf ip) 0
  destinationPort := u16Of (udpOf ip) 2
  payload := ((udpOf ip).take (udpLengthOf ip)).drop 8

/-- The record of `decode_udp`. -/
def UdpRecord.of (frame : UInt32) (ip : Bytes) : UdpRecord where
  frame := frame
  timestampMicros := 0
  sourceIp := ipv4Of ip 12
  destinationIp := ipv4Of ip 16
  sourcePort := u16Of (udpOf ip) 0
  destinationPort := u16Of (udpOf ip) 2
  payload := ((udpOf ip).take (min (udpOf ip).length (udpLengthOf ip))).drop 8

/-! ## Checked reads -/

theorem u16At_eq {raw : Bytes} {i : Nat} (h : i + 1 < raw.length) :
    u16At raw i = .ok (u16Of raw i) := by
  unfold u16At
  rw [index_of_lt (by omega) 0, ok_bind, index_of_lt h 0, ok_bind]
  rfl

theorem ipv4At_eq {raw : Bytes} {i : Nat} (h : i + 3 < raw.length) :
    ipv4At raw i = .ok (ipv4Of raw i) := by
  unfold ipv4At
  rw [index_of_lt (by omega) 0, ok_bind, index_of_lt (by omega) 0, ok_bind,
    index_of_lt (by omega) 0, ok_bind, index_of_lt h 0, ok_bind]
  rfl

theorem macAt_eq {raw : Bytes} {i : Nat} (h : i + 6 ≤ raw.length) :
    macAt raw i (i + 6) = .ok (macOf raw i) := by
  have hlength : ((raw.take (i + 6)).drop i).length = 6 := by
    rw [List.length_drop, List.length_take]
    omega
  unfold macAt
  rw [slice_of_le (by omega) h, ok_bind, toArray_of_length hlength, ok_bind]
  refine congrArg (Except.ok ∘ MacAddress.mk) (Vector.ext fun k hk => ?_)
  simp [List.getElem_take, List.getElem?_eq_getElem (show i + k < raw.length by omega)]

/-- The loop over the tags ends behind them, inside the frame. -/
theorem skipVlan_eq {raw : Bytes} (h : 14 ≤ raw.length) :
    skipVlan raw (u16Of raw 12) = .ok (behindTags raw) := by
  obtain ⟨behind, hbehind, -⟩ := skipVlan_returns h (u16Of raw 12)
  unfold behindTags
  rw [if_neg (by omega), hbehind]

theorem CarriesUdp.long {ip : Bytes} (h : CarriesUdp ip) : 28 ≤ ip.length :=
  Nat.le_trans (Nat.add_le_add_right h.header 8) h.room

theorem not_carriesUdp_drop {frame : Bytes} {offset : Nat} (h : frame.length < offset + 28) :
    ¬ CarriesUdp (frame.drop offset) := by
  intro hudp
  have hlong := hudp.long
  rw [List.length_drop] at hlong
  omega

theorem length_udpOf (ip : Bytes) : (udpOf ip).length = ip.length - ihlOf ip := List.length_drop

theorem dropTo_udp {ip : Bytes} (h : ihlOf ip ≤ ip.length) :
    dropTo ip ((ip.getD 0 0 &&& 0x0f).toNat * 4) = .ok (udpOf ip) := dropTo_of_le h

/-! ## The two readers -/

theorem EthernetUdp.parse_eq (frame : Bytes) : EthernetUdp.parse frame = .ok
    (match ipOf frame with
    | some ip =>
        if CarriesUdp ip ∧ versionOf ip = 4 ∧ udpLengthOf ip ≤ (udpOf ip).length then
          .ok (EthernetUdp.of frame ip)
        else .error .frame
    | none => .error .frame) := by
  unfold EthernetUdp.parse ipOf
  by_cases hshort : frame.length < 14
  · rw [if_pos hshort, behindTags, if_pos hshort]
    rfl
  rw [if_neg hshort, u16At_eq (by omega), ok_bind, skipVlan_eq (by omega), ok_bind]
  cases behindTags frame with
  | none => rfl
  | some behind =>
      obtain ⟨offset, etherType⟩ := behind
      dsimp only
      by_cases htype : etherType = 0x0800
      case neg =>
        rw [if_pos (.inl htype), if_neg htype]
        rfl
      rw [if_pos htype]
      by_cases hlong : frame.length < offset + 28
      · have hnone : ¬ CarriesUdp (frame.drop offset) := not_carriesUdp_drop (by omega)
        rw [if_pos (.inr hlong)]
        exact congrArg Except.ok (if_neg fun h => hnone h.1).symm
      rw [if_neg (not_or.mpr ⟨not_not.mpr htype, hlong⟩), dropTo_of_le (by omega), ok_bind]
      have hip : 28 ≤ (frame.drop offset).length := by
        rw [List.length_drop]
        omega
      generalize frame.drop offset = ip at hip
      rw [index_of_lt (by omega) 0, ok_bind, index_of_lt (by omega) 0, ok_bind]
      change (if versionOf ip ≠ 4 ∨ ip.getD 9 0 ≠ 17 then _ else _) = _
      by_cases hversion : versionOf ip = 4 ∧ ip.getD 9 0 = 17
      case neg =>
        rw [if_pos (not_and_or.mp hversion)]
        exact congrArg Except.ok (if_neg fun h => hversion ⟨h.2.1, h.1.protocol⟩).symm
      rw [if_neg fun h => not_and_or.mpr h hversion]
      change (if ihlOf ip < 20 ∨ ip.length < ihlOf ip + 8 then _ else _) = _
      by_cases hihl : 20 ≤ ihlOf ip ∧ ihlOf ip + 8 ≤ ip.length
      case neg =>
        rw [if_pos (by omega)]
        exact congrArg Except.ok (if_neg fun h => hihl ⟨h.1.header, h.1.room⟩).symm
      have hudp : 8 ≤ (udpOf ip).length := by
        rw [length_udpOf]
        omega
      rw [if_neg (by omega), dropTo_udp (by omega), ok_bind, u16At_eq (by omega), ok_bind]
      change (if udpLengthOf ip < 8 ∨ (udpOf ip).length < udpLengthOf ip then _ else _) = _
      by_cases hlength : 8 ≤ udpLengthOf ip ∧ udpLengthOf ip ≤ (udpOf ip).length
      case neg =>
        rw [if_pos (by omega)]
        exact congrArg Except.ok (if_neg fun h => hlength ⟨h.1.length, h.2.2⟩).symm
      refine Eq.trans ?_ (congrArg Except.ok
        (if_pos ⟨⟨hihl.1, hihl.2, hversion.2, hlength.1⟩, hversion.1, hlength.2⟩).symm)
      rw [if_neg (by omega), show macAt frame 0 6 = .ok (macOf frame 0) from macAt_eq (by omega),
        ok_bind, show macAt frame 6 12 = .ok (macOf frame 6) from macAt_eq (by omega), ok_bind,
        ipv4At_eq (by omega), ok_bind, ipv4At_eq (by omega), ok_bind, u16At_eq (by omega), ok_bind,
        u16At_eq (by omega), ok_bind]
      change (slice (udpOf ip) 8 (udpLengthOf ip) >>= _) = _
      rw [slice_of_le hlength.1 hlength.2, ok_bind]
      rfl

theorem decodeUdp_eq (frame : UInt32) (raw : Bytes) : decodeUdp frame raw = .ok
    (match ipOf raw with
    | some ip => if CarriesUdp ip then some (UdpRecord.of frame ip) else none
    | none => none) := by
  unfold decodeUdp ipOf
  by_cases hshort : raw.length < 14
  · rw [if_pos hshort, behindTags, if_pos hshort]
    rfl
  rw [if_neg hshort, u16At_eq (by omega), ok_bind, skipVlan_eq (by omega), ok_bind]
  cases behindTags raw with
  | none => rfl
  | some behind =>
      obtain ⟨offset, etherType⟩ := behind
      dsimp only
      by_cases htype : etherType = 0x0800
      case neg =>
        rw [if_pos (.inl htype), if_neg htype]
        rfl
      rw [if_pos htype]
      by_cases hlong : raw.length < offset + 20
      · have hnone : ¬ CarriesUdp (raw.drop offset) := not_carriesUdp_drop (by omega)
        rw [if_pos (.inr hlong)]
        exact congrArg Except.ok (if_neg hnone).symm
      rw [if_neg (not_or.mpr ⟨not_not.mpr htype, hlong⟩), dropTo_of_le (by omega), ok_bind]
      have hip : 20 ≤ (raw.drop offset).length := by
        rw [List.length_drop]
        omega
      generalize raw.drop offset = ip at hip
      rw [index_of_lt (by omega) 0, ok_bind]
      change (if ihlOf ip < 20 ∨ ip.length < ihlOf ip + 8 then _ else _) = _
      by_cases hihl : 20 ≤ ihlOf ip ∧ ihlOf ip + 8 ≤ ip.length
      case neg =>
        rw [if_pos (by omega)]
        exact congrArg Except.ok (if_neg fun h => hihl ⟨h.header, h.room⟩).symm
      rw [if_neg (by omega), index_of_lt (by omega) 0, ok_bind]
      by_cases hprotocol : ip.getD 9 0 = 17
      case neg =>
        rw [if_pos hprotocol]
        exact congrArg Except.ok (if_neg fun h => hprotocol h.protocol).symm
      have hudp : 8 ≤ (udpOf ip).length := by
        rw [length_udpOf]
        omega
      rw [if_neg (not_not.mpr hprotocol), dropTo_udp (by omega), ok_bind, u16At_eq (by omega), ok_bind]
      change (if udpLengthOf ip < 8 then _ else _) = _
      by_cases hlength : 8 ≤ udpLengthOf ip
      case neg =>
        rw [if_pos (by omega)]
        exact congrArg Except.ok (if_neg fun h => hlength h.length).symm
      refine Eq.trans ?_ (congrArg Except.ok (if_pos ⟨hihl.1, hihl.2, hprotocol, hlength⟩).symm)
      rw [if_neg (by omega), ipv4At_eq (by omega), ok_bind, ipv4At_eq (by omega), ok_bind,
        u16At_eq (by omega), ok_bind, u16At_eq (by omega), ok_bind]
      change (slice (udpOf ip) 8 (min (udpOf ip).length (udpLengthOf ip)) >>= _) = _
      rw [slice_of_le (Nat.le_min.mpr ⟨hudp, hlength⟩) (Nat.min_le_left _ _), ok_bind]
      rfl

/-- **A capture is replayed as the tap saw it.** `EthernetUdp::parse` takes a frame exactly
    where `decode_udp` does, the IP version is 4 and the datagram is whole; and then both
    give the same addresses, ports and payload. -/
theorem readers_agree (frame : UInt32) (raw : Bytes) :
    ((∃ udp, EthernetUdp.parse raw = .ok (.ok udp)) ↔
      ∃ record ip, decodeUdp frame raw = .ok (some record) ∧ ipOf raw = some ip ∧
        versionOf ip = 4 ∧ udpLengthOf ip ≤ (udpOf ip).length) ∧
    ∀ udp record, EthernetUdp.parse raw = .ok (.ok udp) → decodeUdp frame raw = .ok (some record) →
      udp.sourceIp = record.sourceIp ∧ udp.destinationIp = record.destinationIp ∧
        udp.sourcePort = record.sourcePort ∧ udp.destinationPort = record.destinationPort ∧
        udp.payload = record.payload := by
  rw [EthernetUdp.parse_eq, decodeUdp_eq]
  cases ipOf raw with
  | none => simp
  | some ip =>
      dsimp only
      by_cases hudp : CarriesUdp ip
      case neg => simp [hudp]
      by_cases hwhole : versionOf ip = 4 ∧ udpLengthOf ip ≤ (udpOf ip).length
      · rw [if_pos hudp, if_pos ⟨hudp, hwhole⟩]
        refine ⟨⟨fun _ => ⟨_, ip, rfl, rfl, hwhole⟩, fun _ => ⟨_, rfl⟩⟩, ?_⟩
        rintro udp record hparse hdecode
        obtain rfl := Except.ok.inj (Except.ok.inj hparse)
        obtain rfl := Option.some.inj (Except.ok.inj hdecode)
        refine ⟨rfl, rfl, rfl, rfl, ?_⟩
        unfold EthernetUdp.of UdpRecord.of
        rw [Nat.min_eq_right hwhole.2]
      · rw [if_pos hudp, if_neg fun h => hwhole h.2]
        refine ⟨⟨?_, ?_⟩, ?_⟩
        · rintro ⟨udp, hparse⟩
          cases Except.ok.inj hparse
        · rintro ⟨record, ip', -, hip, hwhole'⟩
          obtain rfl := Option.some.inj hip
          exact absurd hwhole' hwhole
        · intro udp record hparse
          cases Except.ok.inj hparse

end Michoi
