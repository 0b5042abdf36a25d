/-
  The text of the WebSocket handshake (`base64_encode`).

  Every piece of three bytes becomes four characters of the table. `group` puts the bytes of
  a piece together to a number, and the four characters are its sextets, so the library's
  decoder undoes each piece (`decodeGroup_chunkText`) and with them the whole text.
-/
import Michoi.Lib.Base64
import Michoi.Protocol.Codec

namespace Michoi

open Lib

/-- `TABLE`. -/
def base64Table : Vector Char 64 :=
  ⟨"ABCDEFGHIJKLMNOPQRSTUVWXYZabcdefghijklmnopqrstuvwxyz0123456789+/".toList.toArray, by decide⟩

/-- `TABLE[n & 63]`. -/
def base64Char (n : Nat) : Char :=
  base64Table.get ⟨n &&& 63, Nat.and_lt_two_pow n (show 63 < 2 ^ 6 by decide)⟩

/-- The number `n` of a piece; a byte that is missing counts as zero. -/
def base64Number (chunk : Bytes) : Nat :=
  (chunk.getD 0 0).toNat <<< 16 ||| (chunk.getD 1 0).toNat <<< 8 ||| (chunk.getD 2 0).toNat

/-- The four characters of a piece. -/
def base64Text (chunk : Bytes) : List Char :=
  let n := base64Number chunk
  [base64Char (n >>> 18), base64Char (n >>> 12),
    if 1 < chunk.length then base64Char (n >>> 6) else '=',
    if 2 < chunk.length then base64Char n else '=']

/-- `base64_encode`. -/
def base64Encode (bytes : Bytes) : List Char := (chunks 3 bytes).flatMap base64Text

/-! ## One piece -/

theorem value_base64Char (n : Nat) : Base64.value? (base64Char n) = some (n % 64) := by
  have htable : ∀ i : Fin 64, Base64.value? (base64Table.get i) = some i.val := by decide +kernel
  unfold base64Char
  rw [htable]
  exact congrArg some (Nat.and_two_pow_sub_one_eq_mod n 6)

theorem value_base64Char_shift (n i : Nat) :
    Base64.value? (base64Char (n >>> i)) = some (n / 2 ^ i % 64) := by
  rw [value_base64Char, Nat.shiftRight_eq_div_pow]

theorem base64Number_eq (chunk : Bytes) :
    base64Number chunk =
      (chunk.getD 0 0).toNat * 2 ^ 16 + (chunk.getD 1 0).toNat * 2 ^ 8 +
        (chunk.getD 2 0).toNat := by
  have h₁ := (chunk.getD 1 0).toNat_lt
  have h₂ := (chunk.getD 2 0).toNat_lt
  unfold base64Number
  rw [Nat.or_assoc, ← Nat.shiftLeft_add_eq_or_of_lt h₂, ← Nat.shiftLeft_add_eq_or_of_lt (by
    rw [Nat.shiftLeft_eq]
    omega), Nat.shiftLeft_eq, Nat.shiftLeft_eq, Nat.add_assoc]

theorem ofNat_base64Number (a b c : UInt8) :
    UInt8.ofNat (base64Number [a, b, c] / 2 ^ 16) = a ∧
      UInt8.ofNat (base64Number [a, b, c] / 2 ^ 8 % 256) = b ∧
      UInt8.ofNat (base64Number [a, b, c] % 256) = c := by
  have hn : base64Number [a, b, c] = a.toNat * 2 ^ 16 + b.toNat * 2 ^ 8 + c.toNat :=
    base64Number_eq _
  have hb := b.toNat_lt
  have hc := c.toNat_lt
  have hfirst : base64Number [a, b, c] / 2 ^ 16 = a.toNat := by omega
  have hsecond : base64Number [a, b, c] / 2 ^ 8 % 256 = b.toNat := by omega
  have hthird : base64Number [a, b, c] % 256 = c.toNat := by omega
  rw [hfirst, hsecond, hthird]
  exact ⟨UInt8.ofNat_toNat, UInt8.ofNat_toNat, UInt8.ofNat_toNat⟩

/-- The first sextet is whole, for the number has 24 bits. -/
theorem value_base64Char_first (chunk : Bytes) :
    Base64.value? (base64Char (base64Number chunk >>> 18)) =
      some (base64Number chunk / 2 ^ 18) := by
  have h₀ := (chunk.getD 0 0).toNat_lt
  have h₁ := (chunk.getD 1 0).toNat_lt
  have h₂ := (chunk.getD 2 0).toNat_lt
  have hn := base64Number_eq chunk
  rw [value_base64Char_shift, Nat.mod_eq_of_lt (by omega)]

/-! ## Piece after piece -/

@[elab_as_elim]
theorem threes_induction {motive : Bytes → Prop} (nil : motive []) (one : ∀ a, motive [a])
    (two : ∀ a b, motive [a, b])
    (more : ∀ a b c rest, motive rest → motive (a :: b :: c :: rest)) :
    ∀ bytes, motive bytes
  | [] => nil
  | [a] => one a
  | [a, b] => two a b
  | a :: b :: c :: rest => more a b c rest (threes_induction nil one two more rest)

theorem base64Encode_more (a b c : UInt8) (rest : Bytes) :
    base64Encode (a :: b :: c :: rest) = base64Text [a, b, c] ++ base64Encode rest := by
  unfold base64Encode
  rw [chunks_eq_cons (by decide) (List.cons_ne_nil _ _), List.flatMap_cons]
  rfl

theorem length_base64Encode (bytes : Bytes) :
    (base64Encode bytes).length = 4 * ((bytes.length + 2) / 3) := by
  induction bytes using threes_induction with
  | nil => rfl
  | one a =>
      show 4 = 4 * ((1 + 2) / 3)
      rfl
  | two a b =>
      show 4 = 4 * ((2 + 2) / 3)
      rfl
  | more a b c rest ih =>
      rw [base64Encode_more, List.length_append, ih]
      show 4 + _ = 4 * ((rest.length + 3 + 2) / 3)
      omega

theorem isSome_value_base64Char (ns : List Nat) :
    ∀ c ∈ ns.map base64Char, (Base64.value? c).isSome := by
  intro c hc
  obtain ⟨n, -, rfl⟩ := List.mem_map.mp hc
  rw [value_base64Char]
  rfl

theorem padded_base64Encode (bytes : Bytes) :
    Base64.Padded ((3 - bytes.length % 3) % 3) (base64Encode bytes) := by
  induction bytes using threes_induction with
  | nil => exact ⟨[], rfl, nofun⟩
  | one a => exact ⟨(base64Text [a]).take 2, rfl, isSome_value_base64Char [_, _]⟩
  | two a b => exact ⟨(base64Text [a, b]).take 3, rfl, isSome_value_base64Char [_, _, _]⟩
  | more a b c rest ih =>
      have hlength : (a :: b :: c :: rest).length % 3 = rest.length % 3 :=
        Nat.add_mod_right rest.length 3
      rw [base64Encode_more, hlength]
      exact ih.cons (isSome_value_base64Char [_, _, _, _])

theorem decode_base64Encode (bytes : Bytes) :
    Base64.decode (base64Encode bytes) = some bytes := by
  induction bytes using threes_induction with
  | nil => rfl
  | one a =>
      -- the bytes that are missing are read as zeros, and the decoder finds them zero
      obtain ⟨hfirst, hsecond, hthird⟩ := ofNat_base64Number a 0 0
      have hzero : base64Number [a, 0, 0] % 2 ^ 16 = 0 := by
        rw [base64Number_eq]
        show (a.toNat * 2 ^ 16 + 0 * 2 ^ 8 + 0) % 2 ^ 16 = 0
        omega
      have hgroup := Base64.decodeGroup_one hzero (value_base64Char_first [a, 0, 0])
        (value_base64Char_shift _ 12)
      rw [hfirst] at hgroup
      show (Base64.decodeGroup true _ _ Base64.pad Base64.pad >>= fun octets => some (octets ++ []))
        = _
      exact congrArg (· >>= fun octets => some (octets ++ [])) hgroup
  | two a b =>
      obtain ⟨hfirst, hsecond, hthird⟩ := ofNat_base64Number a b 0
      have hzero : base64Number [a, b, 0] % 2 ^ 8 = 0 := by
        rw [base64Number_eq]
        show (a.toNat * 2 ^ 16 + b.toNat * 2 ^ 8 + 0) % 2 ^ 8 = 0
        omega
      have hgroup := Base64.decodeGroup_two hzero (value_base64Char_first [a, b, 0])
        (value_base64Char_shift _ 12) (value_base64Char_shift _ 6)
      rw [hfirst, hsecond] at hgroup
      exact congrArg (· >>= fun octets => some (octets ++ [])) hgroup
  | more a b c rest ih =>
      obtain ⟨hfirst, hsecond, hthird⟩ := ofNat_base64Number a b c
      have hgroup := @Base64.decodeGroup_full _ _ _ _ _ (base64Encode rest).isEmpty
        (value_base64Char_first [a, b, c]) (value_base64Char_shift _ 12)
        (value_base64Char_shift _ 6) (value_base64Char _)
      rw [hfirst, hsecond, hthird] at hgroup
      rw [base64Encode_more]
      show (Base64.decodeGroup (base64Encode rest).isEmpty _ _ _ _ >>= fun octets =>
        Base64.decode (base64Encode rest) >>= fun more => some (octets ++ more)) = _
      rw [ih]
      exact congrArg (· >>= fun octets => some (octets ++ rest)) hgroup

/-- **The encoder is standard.** -/
theorem base64Encode_standard (bytes : Bytes) :
    (base64Encode bytes).length = 4 * ((bytes.length + 2) / 3) ∧
      Base64.Padded ((3 - bytes.length % 3) % 3) (base64Encode bytes) ∧
      Base64.decode (base64Encode bytes) = some bytes :=
  ⟨length_base64Encode bytes, padded_base64Encode bytes, decode_base64Encode bytes⟩

end Michoi
