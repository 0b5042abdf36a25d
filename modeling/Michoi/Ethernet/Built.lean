/-
  Injected frames read back, with a valid checksum (`build_udp_ipv4`).

  The folding loop of `internet_checksum` is the sum in ones' complement of the big-endian
  words (`checksumFold_eq`), so the inserted checksum is the complement that makes the sum
  of the header all ones.
-/
import Mathlib.Data.List.GetD
import Michoi.Ethernet.Fields
import Michoi.Lib.OnesComplement

namespace Michoi

open Lib

/-! ## The checksum -/

/-- The big-endian words of some bytes, an odd last byte counting as a high byte. -/
def beWords : Bytes → List Nat
  | [] => []
  | [b] => [b.toNat * 256]
  | b₀ :: b₁ :: rest => (b₀.toNat * 256 + b₁.toNat) :: beWords rest

theorem beWords_le (bytes : Bytes) : ∀ w ∈ beWords bytes, w ≤ 0xffff := by
  fun_induction beWords bytes with
  | case1 => simp
  | case2 b =>
      have := b.toNat_lt
      simp
      omega
  | case3 b₀ b₁ rest ih =>
      have := b₀.toNat_lt
      have := b₁.toNat_lt
      intro w hw
      rcases List.mem_cons.mp hw with rfl | hw
      · omega
      · exact ih w hw

/-- One round of the loop adds a word and folds the carry in. -/
theorem fold_carry {sum word : UInt32} (hsum : sum.toNat ≤ 0xffff) (hword : word.toNat ≤ 0xffff) :
    ((sum + word &&& (0xffff : UInt32)) + ((sum + word) >>> 16)).toNat =
      OnesComplement.add 0xffff sum.toNat word.toNat := by
  have hadd : (sum + word).toNat = sum.toNat + word.toNat := by
    rw [UInt32.toNat_add]
    omega
  generalize sum + word = total at hadd
  have hlow : (total &&& (0xffff : UInt32)).toNat = total.toNat % 65536 := by
    rw [UInt32.toNat_and]
    exact Nat.and_two_pow_sub_one_eq_mod total.toNat 16
  have hhigh : (total >>> 16).toNat = total.toNat / 65536 := by
    rw [UInt32.toNat_shiftRight]
    exact Nat.shiftRight_eq_div_pow total.toNat 16
  rw [UInt32.toNat_add, hlow, hhigh, hadd]
  unfold OnesComplement.add
  split <;> omega

theorem toNat_high (b : UInt8) : (b.toUInt32 <<< 8).toNat = b.toNat * 256 := by
  have := b.toNat_lt
  rw [UInt32.toNat_shiftLeft]
  change b.toNat <<< 8 % 2 ^ 32 = _
  rw [Nat.shiftLeft_eq]
  omega

theorem toNat_word (b₀ b₁ : UInt8) :
    ((b₀.toUInt32 <<< 8) ||| b₁.toUInt32).toNat = b₀.toNat * 256 + b₁.toNat := by
  rw [UInt32.toNat_or, toNat_high, Nat.mul_comm]
  exact (Nat.two_pow_add_eq_or_of_lt b₁.toNat_lt b₀.toNat).symm

theorem checksumFold_eq (bytes : Bytes) {sum : UInt32} (h : sum.toNat ≤ 0xffff) :
    (checksumFold bytes sum).toNat =
      (beWords bytes).foldl (OnesComplement.add 0xffff) sum.toNat := by
  fun_induction checksumFold bytes sum with
  | case1 sum => rfl
  | case2 b sum total =>
      have hb := b.toNat_lt
      have hcarry := fold_carry h (show (b.toUInt32 <<< 8).toNat ≤ 0xffff by rw [toNat_high]; omega)
      rw [toNat_high] at hcarry
      exact hcarry
  | case3 b₀ b₁ rest sum total ih =>
      have hb₀ := b₀.toNat_lt
      have hb₁ := b₁.toNat_lt
      have hword : ((b₀.toUInt32 <<< 8) ||| b₁.toUInt32).toNat ≤ 0xffff := by
        rw [toNat_word]
        omega
      have hcarry := fold_carry h hword
      rw [ih (by rw [hcarry]; exact OnesComplement.add_le h hword), hcarry, toNat_word]
      rfl

/-- The checksum is the complement of the sum. -/
theorem toNat_internetChecksum (bytes : Bytes) :
    (internetChecksum bytes).toNat = 0xffff - OnesComplement.sum 0xffff (beWords bytes) := by
  have hfold := checksumFold_eq bytes (show (0 : UInt32).toNat ≤ 0xffff by decide)
  have hle := (OnesComplement.sumsTo_sum (beWords_le bytes)).le
  unfold OnesComplement.sum at hle ⊢
  unfold internetChecksum
  rw [show (0 : Nat) = (0 : UInt32).toNat from rfl, ← hfold] at hle ⊢
  rw [UInt16.toNat_not, UInt32.toNat_toUInt16, Nat.mod_eq_of_lt (by omega)]
  rfl

/-! ## The header -/

theorem toNat_toBe (n : UInt16) : (n >>> 8).toUInt8.toNat * 256 + n.toUInt8.toNat = n.toNat := by
  have := n.toNat_lt
  have hhigh : (n >>> 8).toNat = n.toNat / 256 := by
    rw [UInt16.toNat_shiftRight]
    exact Nat.shiftRight_eq_div_pow n.toNat 8
  rw [UInt16.toNat_toUInt8, UInt16.toNat_toUInt8, hhigh]
  omega

/-- The words of the header, with the checksum among them. -/
theorem beWords_ipv4Header (source destination : Ipv4Addr) (length identification : UInt16) :
    ∃ before after, ∀ checksum,
      beWords (ipv4Header source destination length identification checksum) =
        before ++ checksum.toNat :: after := by
  refine ⟨[0x4500, length.toNat, identification.toNat, 0x4000, 0x4011],
    beWords (source.octets ++ destination.octets), fun checksum => ?_⟩
  simp only [ipv4Header, u16ToBe, List.cons_append, List.nil_append, beWords, toNat_toBe]
  rfl

/-- **The header sums to all ones.** -/
theorem sum_ipv4Header (source destination : Ipv4Addr) (length identification : UInt16) :
    OnesComplement.sum 0xffff (beWords (ipv4Header source destination length identification
      (internetChecksum (ipv4Header source destination length identification 0)))) = 0xffff := by
  obtain ⟨before, after, hwords⟩ := beWords_ipv4Header source destination length identification
  have hle : ∀ x ∈ before ++ 0 :: after, x ≤ 0xffff := by
    have h := beWords_le (ipv4Header source destination length identification 0)
    rw [hwords] at h
    exact h
  rw [hwords, toNat_internetChecksum, hwords]
  exact OnesComplement.sum_complement (by decide)
    (fun x hx => hle x (List.mem_append_left _ hx))
    fun x hx => hle x (List.mem_append_right _ (List.mem_cons_of_mem _ hx))

/-! ## The frame -/

theorem u16OfBe_toBe (n : UInt16) : u16OfBe (n >>> 8).toUInt8 n.toUInt8 = n := u16OfLe_toLe n

/-- The integer written at an offset. -/
theorem u16Of_append {before : Bytes} {i : Nat} (hi : before.length = i) (n : UInt16)
    (rest : Bytes) : u16Of (before ++ u16ToBe n ++ rest) i = n := by
  unfold u16Of
  rw [List.append_assoc, List.getD_append_right before _ 0 i (by omega),
    List.getD_append_right before _ 0 (i + 1) (by omega), show i - before.length = 0 by omega,
    show i + 1 - before.length = 1 by omega]
  exact u16OfBe_toBe n

theorem macOf_append {before : Bytes} {i : Nat} (hi : before.length = i) (mac : MacAddress)
    (rest : Bytes) : macOf (before ++ mac.octets.toList ++ rest) i = mac := by
  refine congrArg MacAddress.mk (Vector.ext fun k hk => ?_)
  rw [Vector.getElem_ofFn, List.append_assoc, List.getD_append_right before _ 0 (i + k) (by omega),
    show i + k - before.length = k by omega, List.getD_append _ _ _ _ (by simpa using hk),
    List.getD_eq_getElem _ _ (by simpa using hk), Vector.getElem_toList]

/-- A frame without tags. -/
theorem ipOf_untagged {macs : Bytes} (hmacs : macs.length = 12) (ip : Bytes) :
    ipOf (macs ++ u16ToBe 0x0800 ++ ip) = some ip := by
  have hlength : (macs ++ u16ToBe 0x0800).length = 14 := by rw [List.length_append, hmacs]; rfl
  have htags : behindTags (macs ++ u16ToBe 0x0800 ++ ip) = some (14, 0x0800) := by
    unfold behindTags
    rw [if_neg (by rw [List.length_append]; omega), u16Of_append hmacs]
    unfold skipVlan
    rw [List.length_append, hlength, show 14 + ip.length = 13 + ip.length + 1 by omega]
    rfl
  unfold ipOf
  rw [htags]
  exact congrArg some (List.drop_left' hlength)

/-- What a UDP header and its payload read as, behind a header without options. -/
theorem of_ipv4Header (frame : Bytes) (source destination : Ipv4Addr)
    (length identification checksum sourcePort destinationPort : UInt16) {payload : Bytes}
    (hpayload : payload.length ≤ 65507) :
    let ip := ipv4Header source destination length identification checksum ++
      (u16ToBe sourcePort ++ u16ToBe destinationPort ++ u16ToBe (.ofNat (8 + payload.length)) ++
        u16ToBe 0 ++ payload)
    CarriesUdp ip ∧ versionOf ip = 4 ∧ udpLengthOf ip ≤ (udpOf ip).length ∧
      EthernetUdp.of frame ip = {
        sourceMac := macOf frame 6
        destinationMac := macOf frame 0
        sourceIp := source
        destinationIp := destination
        sourcePort, destinationPort, payload } := by
  intro ip
  have hfirst : ip.getD 0 0 = 0x45 := rfl
  have hihl : ihlOf ip = 20 := by
    unfold ihlOf
    rw [hfirst]
    rfl
  have hversion : versionOf ip = 4 := by
    unfold versionOf
    rw [hfirst]
    rfl
  have hudp : udpOf ip = u16ToBe sourcePort ++ u16ToBe destinationPort ++
      u16ToBe (.ofNat (8 + payload.length)) ++ u16ToBe 0 ++ payload := by
    rw [udpOf, hihl]
    exact List.drop_left' rfl
  have hlength : udpLengthOf ip = 8 + payload.length := by
    have hfield : u16Of (udpOf ip) 4 = .ofNat (8 + payload.length) := by
      rw [hudp, List.append_assoc]
      exact u16Of_append rfl _ _
    rw [udpLengthOf, hfield]
    exact UInt16.toNat_ofNat_of_lt' (by show _ < 65536; omega)
  have hwhole : (udpOf ip).length = 8 + payload.length := by
    rw [hudp]
    simp [u16ToBe]
    omega
  have hroom : ip.length = 20 + (8 + payload.length) := by
    rw [← hwhole, hudp, List.length_append]
    rfl
  refine ⟨⟨by omega, by omega, rfl, by omega⟩, hversion, by omega, ?_⟩
  have hsource : u16Of (udpOf ip) 0 = sourcePort := by
    rw [hudp, List.append_assoc, List.append_assoc, List.append_assoc]
    exact @u16Of_append [] 0 rfl sourcePort _
  have hdestination : u16Of (udpOf ip) 2 = destinationPort := by
    rw [hudp, List.append_assoc, List.append_assoc]
    exact u16Of_append rfl _ _
  have hdata : ((udpOf ip).take (udpLengthOf ip)).drop 8 = payload := by
    rw [hlength, ← hwhole, List.take_length, hudp]
    exact List.drop_left' rfl
  unfold EthernetUdp.of
  rw [hsource, hdestination, hdata]
  rfl

/-- **An injected frame reads back**, with a checksum that receivers take. -/
theorem buildUdpIpv4_reads_back (sourceMac destinationMac : MacAddress)
    (sourceIp destinationIp : Ipv4Addr) (sourcePort destinationPort : UInt16) (payload : Bytes)
    (identification : UInt16) :
    let built := buildUdpIpv4 sourceMac destinationMac sourceIp destinationIp sourcePort
      destinationPort payload identification
    (built = .error .tooLarge ↔ 65507 < payload.length) ∧
      (payload.length ≤ 65507 → ∃ frame, built = .ok frame ∧
        EthernetUdp.parse frame = .ok (.ok {
          sourceMac, destinationMac, sourceIp, destinationIp, sourcePort, destinationPort
          payload }) ∧
        OnesComplement.sum 0xffff (beWords ((frame.drop 14).take 20)) = 0xffff) := by
  intro built
  by_cases hlarge : 65507 < payload.length
  · have hbuilt : built = .error .tooLarge := if_pos (by omega)
    exact ⟨⟨fun _ => hlarge, fun _ => hbuilt⟩, fun hle => by omega⟩
  have hsmall := Nat.not_lt.mp hlarge
  let macs := destinationMac.octets.toList ++ sourceMac.octets.toList
  let header :=
    ipv4Header sourceIp destinationIp (.ofNat (20 + (8 + payload.length))) identification
  let ip := header (internetChecksum (header 0)) ++
    (u16ToBe sourcePort ++ u16ToBe destinationPort ++ u16ToBe (.ofNat (8 + payload.length)) ++
      u16ToBe 0 ++ payload)
  have hmacs : macs.length = 12 := by simp [macs]
  have hbuilt : built = .ok (macs ++ u16ToBe 0x0800 ++ ip) := by
    refine (if_neg (by omega)).trans (congrArg Except.ok ?_)
    simp only [macs, ip, header, List.append_assoc]
  refine ⟨⟨fun herror => ?_, fun h => absurd h hlarge⟩, fun _ => ⟨_, hbuilt, ?_, ?_⟩⟩
  · rw [hbuilt] at herror
    cases herror
  · obtain ⟨hcarries, hversion, hwhole, hof⟩ := of_ipv4Header (macs ++ u16ToBe 0x0800 ++ ip)
      sourceIp destinationIp (.ofNat (20 + (8 + payload.length))) identification
      (internetChecksum (header 0)) sourcePort destinationPort hsmall
    have hsource : macOf (macs ++ u16ToBe 0x0800 ++ ip) 6 = sourceMac := by
      rw [List.append_assoc]
      exact macOf_append (by simp) sourceMac _
    have hdestination : macOf (macs ++ u16ToBe 0x0800 ++ ip) 0 = destinationMac := by
      rw [List.append_assoc, List.append_assoc]
      exact @macOf_append [] 0 rfl destinationMac _
    rw [EthernetUdp.parse_eq, ipOf_untagged hmacs]
    refine congrArg Except.ok ((if_pos ⟨hcarries, hversion, hwhole⟩).trans ?_)
    rw [hof, hsource, hdestination]
  · have hdrop : (macs ++ u16ToBe 0x0800 ++ ip).drop 14 = ip :=
      List.drop_left' (by rw [List.length_append, hmacs]; rfl)
    rw [hdrop, show ip.take 20 = header (internetChecksum (header 0)) from List.take_left' rfl]
    exact sum_ipv4Header _ _ _ _

end Michoi
