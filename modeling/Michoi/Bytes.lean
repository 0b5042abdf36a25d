/-
  Byte strings, text and addresses.

  A Rust `String` is a Lean `String`: both are sequences of Unicode scalar values.
  `String::as_bytes` is `asBytes`, and `String::from_utf8_lossy` is `fromUtf8Lossy`,
  which puts U+FFFD for each maximal ill-formed piece as the standard library does.
-/
import Mathlib.Data.List.Basic

namespace Michoi

abbrev Bytes := List UInt8

/-! ## Little-endian integers -/

/-- `u16::from_le_bytes`. -/
def u16OfLe (b₀ b₁ : UInt8) : UInt16 := b₀.toUInt16 ||| b₁.toUInt16 <<< 8

/-- `u32::from_le_bytes`. -/
def u32OfLe (b₀ b₁ b₂ b₃ : UInt8) : UInt32 :=
  b₀.toUInt32 ||| b₁.toUInt32 <<< 8 ||| b₂.toUInt32 <<< 16 ||| b₃.toUInt32 <<< 24

/-- `u16::to_le_bytes`. -/
def u16ToLe (n : UInt16) : Bytes := [n.toUInt8, (n >>> 8).toUInt8]

/-- `u16::to_be_bytes`. -/
def u16ToBe (n : UInt16) : Bytes := [(n >>> 8).toUInt8, n.toUInt8]

/-- `u32::to_le_bytes`. -/
def u32ToLe (n : UInt32) : Bytes :=
  [n.toUInt8, (n >>> 8).toUInt8, (n >>> 16).toUInt8, (n >>> 24).toUInt8]

/-- A little-endian integer read back. -/
theorem u16OfLe_toLe (n : UInt16) : u16OfLe n.toUInt8 (n >>> 8).toUInt8 = n := by
  rw [← UInt16.toBitVec_inj]
  refine BitVec.eq_of_getLsbD_eq fun i hi => ?_
  have h8 : ((8 : UInt16).toBitVec % 16).toNat = 8 := rfl
  simp only [u16OfLe, UInt16.toBitVec_or, UInt16.toBitVec_shiftLeft, UInt16.toBitVec_shiftRight,
    UInt8.toBitVec_toUInt16, UInt16.toBitVec_toUInt8, BitVec.getLsbD_or, BitVec.getLsbD_setWidth,
    BitVec.shiftLeft_eq', BitVec.getLsbD_shiftLeft, BitVec.ushiftRight_eq',
    BitVec.getLsbD_ushiftRight, h8]
  grind

theorem u32OfLe_toLe (n : UInt32) :
    u32OfLe n.toUInt8 (n >>> 8).toUInt8 (n >>> 16).toUInt8 (n >>> 24).toUInt8 = n := by
  rw [← UInt32.toBitVec_inj]
  refine BitVec.eq_of_getLsbD_eq fun i hi => ?_
  have h8 : ((8 : UInt32).toBitVec % 32).toNat = 8 := rfl
  have h16 : ((16 : UInt32).toBitVec % 32).toNat = 16 := rfl
  have h24 : ((24 : UInt32).toBitVec % 32).toNat = 24 := rfl
  simp only [u32OfLe, UInt32.toBitVec_or, UInt32.toBitVec_shiftLeft, UInt32.toBitVec_shiftRight,
    UInt8.toBitVec_toUInt32, UInt32.toBitVec_toUInt8, BitVec.getLsbD_or, BitVec.getLsbD_setWidth,
    BitVec.shiftLeft_eq', BitVec.getLsbD_shiftLeft, BitVec.ushiftRight_eq',
    BitVec.getLsbD_ushiftRight, h8, h16, h24]
  grind

/-- `Vec::resize(n, 0)`, also `copy_from_slice` of a shorter slice into zeros. -/
def resize (bytes : Bytes) (n : Nat) : Bytes := bytes.take n ++ List.replicate (n - bytes.length) 0

/-! ## Text -/

/-- `str::as_bytes`. -/
def asBytes (s : String) : Bytes := s.toList.flatMap String.utf8EncodeChar

/-- U+FFFD, the replacement character. -/
def replacement : Char := Char.ofNat 0xfffd

/-- A UTF-8 continuation byte. -/
def isContinuation (b : UInt8) : Bool := 0x80 ≤ b && b ≤ 0xbf

/-- `utf8_char_width`: how long a sequence the first byte announces, 0 if none. -/
def utf8CharWidth (b : UInt8) : Nat :=
  if b < 0x80 then 1
  else if 0xc2 ≤ b && b ≤ 0xdf then 2
  else if 0xe0 ≤ b && b ≤ 0xef then 3
  else if 0xf0 ≤ b && b ≤ 0xf4 then 4
  else 0

/-- The second bytes a three- or four-byte sequence may have after its first byte. -/
def secondByteOk (first second : UInt8) : Bool :=
  if first = 0xe0 then 0xa0 ≤ second && second ≤ 0xbf
  else if first = 0xed then 0x80 ≤ second && second ≤ 0x9f
  else if first = 0xf0 then 0x90 ≤ second && second ≤ 0xbf
  else if first = 0xf4 then 0x80 ≤ second && second ≤ 0x8f
  else isContinuation second

/-- The scalar value from the payload bits of a sequence. -/
def scalar (lead : Nat) (tail : Bytes) : Char :=
  Char.ofNat (tail.foldl (fun n b => n * 64 + b.toNat % 64) lead)

/-- The first character after a lossy decoding, and how many bytes after the first one it
    takes. A missing byte reads as zero, which continues no sequence. -/
def decodeFirst (b : UInt8) (rest : Bytes) : Char × Nat :=
  let b₁ := rest.getD 0 0
  let b₂ := rest.getD 1 0
  let b₃ := rest.getD 2 0
  match utf8CharWidth b with
  | 1 => (Char.ofNat b.toNat, 0)
  | 2 =>
      if isContinuation b₁ then (scalar (b.toNat % 32) [b₁], 1) else (replacement, 0)
  | 3 =>
      if !secondByteOk b b₁ then (replacement, 0)
      else if !isContinuation b₂ then (replacement, 1)
      else (scalar (b.toNat % 16) [b₁, b₂], 2)
  | 4 =>
      if !secondByteOk b b₁ then (replacement, 0)
      else if !isContinuation b₂ then (replacement, 1)
      else if !isContinuation b₃ then (replacement, 2)
      else (scalar (b.toNat % 8) [b₁, b₂, b₃], 3)
  | _ => (replacement, 0)

/-- The characters of a byte string; `skip` bytes belong to the character before. -/
def lossyChars : Nat → Bytes → List Char
  | _, [] => []
  | skip + 1, _ :: rest => lossyChars skip rest
  | 0, b :: rest => (decodeFirst b rest).1 :: lossyChars (decodeFirst b rest).2 rest

/-- `String::from_utf8_lossy`. -/
def fromUtf8Lossy (bytes : Bytes) : String := String.ofList (lossyChars 0 bytes)

example : fromUtf8Lossy [0x53, 0xc3, 0xa9, 0xe2, 0x82, 0x31, 0xff] =
    String.ofList ['S', 'é', replacement, '1', replacement] := by decide

/-- `char::is_whitespace`. -/
def isWhitespace (c : Char) : Bool :=
  let n := c.toNat
  (9 ≤ n && n ≤ 13) || n = 0x20 || n = 0x85 || n = 0xa0 || n = 0x1680 ||
    (0x2000 ≤ n && n ≤ 0x200a) || n = 0x2028 || n = 0x2029 || n = 0x202f || n = 0x205f ||
    n = 0x3000

/-- `str::trim`. -/
def trim (s : String) : String :=
  String.ofList ((s.toList.dropWhile isWhitespace).reverse.dropWhile isWhitespace).reverse

/-- The characters before and after a byte offset; `none` where the offset is past the
    end or inside a character, where slicing panics. -/
def splitAtByte : Nat → List Char → Option (List Char × List Char)
  | 0, cs => some ([], cs)
  | _ + 1, [] => none
  | n + 1, c :: cs =>
      if c.utf8Size ≤ n + 1 then
        (splitAtByte (n + 1 - c.utf8Size) cs).map fun r => (c :: r.1, r.2)
      else none

/-! ## Addresses -/

/-- `Ipv4Addr`, by its octets. -/
structure Ipv4Addr where
  a : UInt8
  b : UInt8
  c : UInt8
  d : UInt8
  deriving DecidableEq, Repr

namespace Ipv4Addr

/-- `Ipv4Addr::UNSPECIFIED`. -/
def unspecified : Ipv4Addr := ⟨0, 0, 0, 0⟩

def isUnspecified (ip : Ipv4Addr) : Bool := ip = unspecified

def octets (ip : Ipv4Addr) : Bytes := [ip.a, ip.b, ip.c, ip.d]

end Ipv4Addr

/-- `IpAddr`. -/
inductive IpAddr where
  | v4 (ip : Ipv4Addr)
  | v6 (octets : Vector UInt8 16)
  deriving DecidableEq, Repr

structure SocketAddr where
  ip : IpAddr
  port : UInt16
  deriving DecidableEq, Repr

structure MacAddress where
  octets : Vector UInt8 6
  deriving DecidableEq, Repr

end Michoi
