/-
  The parsers of `protocol.rs` with every index, slice and conversion checked as Rust checks
  it. Each returns what its unchecked definition says (`parseChecked_eq` and its kin), so
  none of them panics, and `split_coalesced` comes to its end.
-/
import Michoi.Lib.Checked
import Michoi.Protocol.Split

namespace Michoi

open Lib Lib.Checked

/-! ## Stations and endpoint blocks -/

/-- `Station::parse`. -/
def Station.parseChecked (raw : Bytes) : Checked (Except ProtocolError Station) := do
  if raw.length < 24 then return .error .badStation
  let field ← slice raw 0 20
  let id ← slice raw 0 ((field.findIdx? (· == 0)).getD 20)
  let a ← index raw 20
  let b ← index raw 21
  let c ← index raw 22
  let d ← index raw 23
  return .ok { id := fromUtf8Lossy id, ip := ⟨a, b, c, d⟩ }

/-- `Endpoints::parse`. -/
def Endpoints.parseChecked (raw : Bytes) : Checked (Except ProtocolError Endpoints) := do
  if raw.length < 48 then return .error .short
  match ← Station.parseChecked (← slice raw 0 24) with
  | .error error => return .error error
  | .ok door =>
      match ← Station.parseChecked (← slice raw 24 48) with
      | .error error => return .error error
      | .ok room => return .ok { door, room }

/-- A zero byte ends the id: the position of the first one, and the bytes before it. -/
theorem position_le (xs : Bytes) {n : Nat} (h : xs.length ≤ n) :
    (xs.findIdx? (· == 0)).getD n ≤ n := by
  cases hp : xs.findIdx? (· == 0) with
  | none => exact Nat.le_refl _
  | some i =>
      have hi : i < xs.length := (List.findIdx?_eq_some_iff_findIdx_eq.mp hp).1
      show i ≤ n
      omega

theorem take_position (xs : Bytes) :
    xs.take ((xs.findIdx? (· == 0)).getD xs.length) = xs.takeWhile (· ≠ 0) := by
  have hp : (fun b : UInt8 => !decide (b ≠ 0)) = (· == 0) := by
    funext b
    by_cases hb : b = 0 <;> simp [hb]
  rw [List.takeWhile_eq_take_findIdx_not, hp, List.findIdx_eq_getD_findIdx?]

theorem Station.parseChecked_eq (raw : Bytes) :
    Station.parseChecked raw = .ok (Station.parse raw) := by
  unfold Station.parseChecked Station.parse
  split
  · rfl
  · next hlen =>
      have hfield : (raw.take 20).length = 20 := by
        rw [List.length_take]
        omega
      have hend := position_le (raw.take 20) (Nat.le_of_eq hfield)
      have hid := take_position (raw.take 20)
      rw [hfield, List.take_take, Nat.min_eq_left hend] at hid
      rw [slice_of_le (by omega) (by omega), ok_bind, List.drop_zero,
        slice_of_le (Nat.zero_le _) (by omega), ok_bind, List.drop_zero, hid,
        index_of_lt (by omega) 0, index_of_lt (by omega) 0, index_of_lt (by omega) 0,
        index_of_lt (by omega) 0]
      rfl

theorem Endpoints.parseChecked_eq (raw : Bytes) :
    Endpoints.parseChecked raw = .ok (Endpoints.parse raw) := by
  unfold Endpoints.parseChecked Endpoints.parse
  split
  · rfl
  · next hlen =>
      rw [slice_of_le (by omega) (by omega), ok_bind, List.drop_zero, Station.parseChecked_eq,
        ok_bind, slice_of_le (by omega) (by omega), List.drop_take]
      cases Station.parse (raw.take 24) with
      | error error => rfl
      | ok door =>
          simp only [ok_bind, Station.parseChecked_eq]
          cases Station.parse ((raw.drop 24).take 24) with
          | error error => rfl
          | ok room => rfl

/-! ## Messages -/

/-- `u32::from_le_bytes(raw[i..i + 4].try_into().unwrap())`. -/
def u32At (raw : Bytes) (i : Nat) : Checked UInt32 := do
  let bytes ← slice raw i (i + 4)
  let bytes ← toArray 4 bytes
  return u32OfLe bytes[0] bytes[1] bytes[2] bytes[3]

/-- `Message::parse`. -/
def Message.parseChecked (raw : Bytes) : Checked (Except ProtocolError Message) := do
  if raw.length < 32 then return .error .short
  let head ← slice raw 0 8
  if head ≠ magic then return .error .badMagic
  let f₀ ← index raw 8
  let f₁ ← index raw 9
  let opcode ← u32At raw 10
  let declared ← u32At raw 14
  let reserved ← slice raw 18 32
  let body ← dropTo raw 32
  return .ok { family := u16OfLe f₀ f₁, opcode, declared, reserved, body, raw }

/-- `Message::endpoints`. -/
def Message.endpointsChecked (m : Message) : Checked (Option Endpoints) := do
  if m.isSessionLike && 48 ≤ m.body.length then
    let block ← slice m.body 0 48
    return (← Endpoints.parseChecked block).toOption
  else return none

/-- `Message::media`. -/
def Message.mediaChecked (m : Message) : Checked (Option MediaFragment) := do
  if !m.isSessionLike || m.opcode != opMedia || m.body.length < 58 then return none
  let h ← slice m.body 48 58
  let validLength := u16OfLe (← index h 8) (← index h 9)
  let data ← dropTo m.body 58
  if data.length < validLength.toNat then return none
  let mediaType := u16OfLe (← index h 0) (← index h 1)
  let sequence := u16OfLe (← index h 2) (← index h 3)
  let fragmentCount := u16OfLe (← index h 4) (← index h 5)
  let fragmentIndex := u16OfLe (← index h 6) (← index h 7)
  let data ← slice data 0 validLength.toNat
  return some { mediaType, sequence, fragmentCount, fragmentIndex, validLength, data }

theorem u32At_of_le {raw : Bytes} {i : Nat} (h : i + 4 ≤ raw.length) :
    u32At raw i = .ok
      (u32OfLe (raw.getD i 0) (raw.getD (i + 1) 0) (raw.getD (i + 2) 0) (raw.getD (i + 3) 0)) := by
  have hlen : ((raw.take (i + 4)).drop i).length = 4 := by
    rw [List.length_drop, List.length_take]
    omega
  have hget (j : Nat) (hj : j < ((raw.take (i + 4)).drop i).length) :
      ((raw.take (i + 4)).drop i)[j] = raw.getD (i + j) 0 := by
    rw [List.getElem_drop, List.getElem_take, List.getD_eq_getElem?_getD,
      List.getElem?_eq_getElem (by omega)]
    rfl
  have hfirst : _ = raw.getD i 0 := hget 0 (by omega)
  unfold u32At
  rw [slice_of_le (by omega) h, ok_bind, toArray_of_length hlen, ok_bind, ← hfirst,
    ← hget 1 (by omega), ← hget 2 (by omega), ← hget 3 (by omega)]
  rfl

theorem Message.parseChecked_eq (raw : Bytes) :
    Message.parseChecked raw = .ok (Message.parse raw) := by
  unfold Message.parseChecked Message.parse
  split
  · rfl
  · next hlen =>
      rw [slice_of_le (by omega) (by omega), ok_bind, List.drop_zero]
      split
      · rfl
      · rw [index_of_lt (by omega) 0, index_of_lt (by omega) 0, u32At_of_le (by omega),
          u32At_of_le (by omega), slice_of_le (by omega) (by omega), dropTo_of_le (by omega)]
        rfl

theorem Message.endpointsChecked_eq (m : Message) : m.endpointsChecked = .ok m.endpoints := by
  unfold Message.endpointsChecked Message.endpoints
  split
  · next h =>
      have hlen : 48 ≤ m.body.length := of_decide_eq_true (Bool.and_eq_true_iff.mp h).2
      rw [slice_of_le (by omega) hlen, ok_bind, List.drop_zero, Endpoints.parseChecked_eq]
      rfl
  · rfl

theorem getD_take_drop (xs : Bytes) {i n k : Nat} (h : i < n) :
    ((xs.take (k + n)).drop k).getD i 0 = (xs.drop k).getD i 0 := by
  rw [List.drop_take, Nat.add_sub_cancel_left, List.getD_eq_getElem?_getD,
    List.getElem?_take_of_lt h, List.getD_eq_getElem?_getD]

theorem Message.mediaChecked_eq (m : Message) : m.mediaChecked = .ok m.media := by
  unfold Message.mediaChecked Message.media
  split
  · rfl
  · next h =>
      have hlen : 58 ≤ m.body.length := by
        simp only [Bool.or_eq_true, decide_eq_true_eq, not_or] at h
        omega
      have hh : ((m.body.take 58).drop 48).length = 10 := by
        rw [List.length_drop, List.length_take]
        omega
      have hget (i : Nat) (hi : i < 10) : index ((m.body.take 58).drop 48) i =
          .ok ((m.body.drop 48).getD i 0) := by
        rw [index_of_lt (by omega) 0, getD_take_drop (k := 48) m.body hi]
      rw [slice_of_le (by omega) hlen, ok_bind, hget 8 (by omega), ok_bind, hget 9 (by omega),
        ok_bind, dropTo_of_le hlen, ok_bind]
      dsimp only
      split
      · rfl
      · rw [hget 0 (by omega), hget 1 (by omega), hget 2 (by omega), hget 3 (by omega),
          hget 4 (by omega), hget 5 (by omega), hget 6 (by omega), hget 7 (by omega),
          slice_of_le (by omega) (by omega), List.drop_zero]
        rfl

/-! ## Discovery -/

/-- What `discovery_request_room` and `discovery_reply_room` share: the text up to the first
    zero byte behind the tag. -/
def discoveryRoom (tag : UInt8) (payload : Bytes) : Checked (Option String) := do
  if payload.head? ≠ some tag then return none
  let data ← dropTo payload 1
  let name ← slice data 0 ((data.findIdx? (· == 0)).getD data.length)
  return some (fromUtf8Lossy name)

/-- `discovery_request_room`. -/
def discoveryRequestRoom (payload : Bytes) : Checked (Option String) := discoveryRoom 1 payload

/-- `discovery_reply_room`. -/
def discoveryReplyRoom (payload : Bytes) : Checked (Option String) := discoveryRoom 2 payload

theorem discoveryRoom_returns (tag : UInt8) (payload : Bytes) :
    Returns (discoveryRoom tag payload) := by
  unfold discoveryRoom
  split
  · exact .ok trivial
  · next h =>
      have hne : payload ≠ [] := fun he => h (by rw [he]; exact nofun)
      have hlen := List.length_pos_of_ne_nil hne
      refine (Yields.dropTo hlen).bind fun data _ => ?_
      refine (Yields.slice (Nat.zero_le _) (position_le data (Nat.le_refl _))).bind fun _ _ => ?_
      exact .ok trivial

/-! ## Splitting -/

/-- `logical_size`. -/
def logicalSizeChecked (data : Bytes) : Checked (Option Nat) := do
  match ← Message.parseChecked data with
  | .error _ => return none
  | .ok m =>
      if m.isSessionLike = true ∧ m.opcode = opMedia ∧ 90 ≤ data.length then
        let mediaType := u16OfLe (← index data 80) (← index data 81)
        if mediaType = mediaJpeg then return some 1290
        else if mediaType = mediaAudio then return some 602
        else return none
      else if 32 ≤ m.declared then return some m.declared.toNat
      else if m.family = familySession ∧ m.opcode = opKeepalive then return some 80
      else return none

/-- The size of the first piece: the logical size where it fits, else up to the next magic. -/
def pieceSizeChecked (payload : Bytes) : Checked Nat := do
  match (← logicalSizeChecked payload).filter (· ≤ payload.length) with
  | some size => return size
  | none =>
      let behind ← dropTo payload magic.length
      return ((magicAt behind).map (· + magic.length)).getD payload.length

/-- One round of the loop of `split_coalesced`, on the rest of the payload and the pieces so
    far. -/
def splitRound : Bytes × List Bytes → Checked (Bytes × List Bytes ⊕ List Bytes)
  | (payload, out) =>
      if payload = [] then return .inr out
      else
        match magicAt payload with
        | none => return .inr out
        | some pos => do
            let payload ← dropTo payload pos
            let size ← pieceSizeChecked payload
            if size = 0 then return .inr out
            else do
              let piece ← slice payload 0 size
              let payload ← dropTo payload size
              return .inl (payload, out ++ [piece])

/-- `split_coalesced`. -/
def splitCoalescedChecked (payload : Bytes) : Checked (List Bytes) :=
  loop splitRound (payload.length + 1) (payload, [])

theorem logicalSizeChecked_eq (data : Bytes) :
    logicalSizeChecked data = .ok (logicalSize data) := by
  unfold logicalSizeChecked logicalSize
  rw [Message.parseChecked_eq, ok_bind]
  cases Message.parse data with
  | error error => rfl
  | ok m =>
      dsimp only
      split
      · next h =>
          have hlen := h.2.2
          rw [index_of_lt (by omega) 0, index_of_lt (by omega) 0]
          simp only [ok_bind]
          split
          · rfl
          · split <;> rfl
      · split
        · rfl
        · split <;> rfl

theorem magicAt_lt {payload : Bytes} {pos : Nat} (h : magicAt payload = some pos) :
    pos + magic.length ≤ payload.length := by
  have hlen := (magic_prefix_of_magicAt h).length_le
  have hmagic : magic.length = 8 := rfl
  rw [List.length_drop] at hlen
  omega

theorem pieceSize_le {payload : Bytes} (h : magic <+: payload) :
    pieceSize payload ≤ payload.length := by
  have hlen := h.length_le
  unfold pieceSize
  cases hl : (logicalSize payload).filter (· ≤ payload.length) with
  | some size => exact of_decide_eq_true (Option.filter_eq_some_iff.mp hl).2
  | none =>
      cases hm : magicAt (payload.drop magic.length) with
      | none => exact Nat.le_refl _
      | some pos =>
          have := magicAt_lt hm
          rw [List.length_drop] at this
          show pos + magic.length ≤ payload.length
          omega

theorem pieceSizeChecked_eq {payload : Bytes} (h : magic <+: payload) :
    pieceSizeChecked payload = .ok (pieceSize payload) := by
  unfold pieceSizeChecked pieceSize
  rw [logicalSizeChecked_eq, ok_bind]
  cases (logicalSize payload).filter (· ≤ payload.length) with
  | some size => rfl
  | none =>
      rw [dropTo_of_le h.length_le]
      rfl

/-- One round, without the checks. -/
theorem splitRound_eq (payload : Bytes) (out : List Bytes) : splitRound (payload, out) = .ok
    (match magicAt payload with
    | none => .inr out
    | some pos =>
        .inl ((payload.drop pos).drop (pieceSize (payload.drop pos)),
          out ++ [(payload.drop pos).take (pieceSize (payload.drop pos))])) := by
  unfold splitRound
  dsimp only
  split
  · next h => rw [h]; rfl
  · cases hm : magicAt payload with
    | none => rfl
    | some pos =>
        have hpos := magicAt_lt hm
        have hp := magic_prefix_of_magicAt hm
        have hge := pieceSize_ge hp
        have hle := pieceSize_le hp
        have hmagic : magic.length = 8 := rfl
        dsimp only
        rw [dropTo_of_le (by omega), ok_bind, pieceSizeChecked_eq hp, ok_bind,
          if_neg (by omega), slice_of_le (Nat.zero_le _) hle, ok_bind, dropTo_of_le hle, ok_bind,
          List.drop_zero]
        rfl

/-- The loop comes to its end, with the pieces of the unchecked definition. -/
theorem splitCoalescedChecked_eq (payload : Bytes) :
    splitCoalescedChecked payload = .ok (splitCoalesced payload) := by
  obtain ⟨pieces, h, rfl⟩ :
      Yields (splitCoalescedChecked payload) (· = splitCoalesced payload) := by
    unfold splitCoalescedChecked
    refine Yields.loop (fun s => s.2 ++ splitCoalesced s.1 = splitCoalesced payload)
      (fun s => s.1.length) ?_ rfl (Nat.lt_succ_self _)
    intro s hs
    obtain ⟨rest, out⟩ := s
    have heq := splitCoalesced_eq rest
    rw [splitRound_eq]
    cases hm : magicAt rest with
    | none =>
        rw [hm] at heq
        refine .ok ?_
        show out = _
        rw [← hs, heq, List.append_nil]
    | some pos =>
        have hge := pieceSize_ge (magic_prefix_of_magicAt hm)
        have hpos := magicAt_lt hm
        have hmagic : magic.length = 8 := rfl
        rw [hm] at heq
        dsimp only at heq
        rw [if_neg (by omega)] at heq
        refine .ok ⟨?_, ?_⟩
        · show out ++ [_] ++ splitCoalesced _ = _
          rw [← hs, heq, List.append_assoc]
          rfl
        · show ((rest.drop pos).drop (pieceSize (rest.drop pos))).length < rest.length
          rw [List.length_drop, List.length_drop]
          omega
  exact h

end Michoi
