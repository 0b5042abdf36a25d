/-
  Base64: three octets as four letters of six bits each.

  A text is read in groups of four letters. The last group may stand for two octets or for
  one, and then ends with one pad or with two; the bits of its last letter that belong to no
  octet are zero. `decodeGroup_full`, `decodeGroup_two` and `decodeGroup_one` say what the
  letters of a number of 24 bits stand for.
-/
import Mathlib.Algebra.Group.Nat.Defs
import Mathlib.Data.List.Basic

namespace Lib

namespace Base64

/-- The six bits that a letter of the alphabet stands for. -/
def value? (c : Char) : Option Nat :=
  if 'A' ≤ c ∧ c ≤ 'Z' then some (c.toNat - 'A'.toNat)
  else if 'a' ≤ c ∧ c ≤ 'z' then some (c.toNat - 'a'.toNat + 26)
  else if '0' ≤ c ∧ c ≤ '9' then some (c.toNat - '0'.toNat + 52)
  else if c = '+' then some 62
  else if c = '/' then some 63
  else none

def pad : Char := '='

/-- The octets of a group; only the last group has pads. -/
def decodeGroup (last : Bool) (a b c d : Char) : Option (List UInt8) := do
  let v ← value? a
  let w ← value? b
  let first := UInt8.ofNat (v * 4 + w / 16)
  if last = true ∧ c = pad ∧ d = pad then
    if w % 16 = 0 then some [first] else none
  else do
    let x ← value? c
    let second := UInt8.ofNat (w % 16 * 16 + x / 4)
    if last = true ∧ d = pad then
      if x % 4 = 0 then some [first, second] else none
    else do
      let y ← value? d
      some [first, second, UInt8.ofNat (x % 4 * 64 + y)]

/-- The octets of a text. -/
def decode : List Char → Option (List UInt8)
  | [] => some []
  | a :: b :: c :: d :: rest => do
      let octets ← decodeGroup rest.isEmpty a b c d
      let more ← decode rest
      some (octets ++ more)
  | _ => none

/-- A text of letters, with `pads` pads at its end. -/
def Padded (pads : Nat) (text : List Char) : Prop :=
  ∃ letters, text = letters ++ List.replicate pads pad ∧ ∀ c ∈ letters, (value? c).isSome

variable {a b c d : Char} {n pads : Nat} {last : Bool}

theorem ne_pad {v : Nat} (h : value? c = some v) : c ≠ pad := by
  have hpad : value? pad = none := by decide
  rintro rfl
  rw [hpad] at h
  cases h

theorem Padded.cons {text letters : List Char} (h : Padded pads text)
    (hletters : ∀ c ∈ letters, (value? c).isSome) : Padded pads (letters ++ text) := by
  obtain ⟨more, rfl, hmore⟩ := h
  refine ⟨letters ++ more, (List.append_assoc ..).symm, fun c hc => ?_⟩
  exact (List.mem_append.mp hc).elim (hletters c) (hmore c)

/-! ## The letters of a number -/

theorem decodeGroup_full (ha : value? a = some (n / 2 ^ 18))
    (hb : value? b = some (n / 2 ^ 12 % 64)) (hc : value? c = some (n / 2 ^ 6 % 64))
    (hd : value? d = some (n % 64)) :
    decodeGroup last a b c d =
      some [UInt8.ofNat (n / 2 ^ 16), UInt8.ofNat (n / 2 ^ 8 % 256), UInt8.ofNat (n % 256)] := by
  have hfirst : n / 2 ^ 18 * 4 + n / 2 ^ 12 % 64 / 16 = n / 2 ^ 16 := by omega
  have hsecond : n / 2 ^ 12 % 64 % 16 * 16 + n / 2 ^ 6 % 64 / 4 = n / 2 ^ 8 % 256 := by omega
  have hthird : n / 2 ^ 6 % 64 % 4 * 64 + n % 64 = n % 256 := by omega
  unfold decodeGroup
  rw [ha, hb, hc, hd]
  simp only [Option.bind_eq_bind, Option.bind_some, ne_pad hd, and_false, if_false, hfirst,
    hsecond, hthird]

/-- Two octets: the third is none. -/
theorem decodeGroup_two (hn : n % 2 ^ 8 = 0) (ha : value? a = some (n / 2 ^ 18))
    (hb : value? b = some (n / 2 ^ 12 % 64)) (hc : value? c = some (n / 2 ^ 6 % 64)) :
    decodeGroup true a b c pad =
      some [UInt8.ofNat (n / 2 ^ 16), UInt8.ofNat (n / 2 ^ 8 % 256)] := by
  have hfirst : n / 2 ^ 18 * 4 + n / 2 ^ 12 % 64 / 16 = n / 2 ^ 16 := by omega
  have hsecond : n / 2 ^ 12 % 64 % 16 * 16 + n / 2 ^ 6 % 64 / 4 = n / 2 ^ 8 % 256 := by omega
  have hrest : n / 2 ^ 6 % 64 % 4 = 0 := by omega
  unfold decodeGroup
  rw [ha, hb, hc]
  simp only [Option.bind_eq_bind, Option.bind_some, ne_pad hc, false_and, and_false, if_false,
    true_and, if_true, hrest, hfirst, hsecond]

/-- One octet. -/
theorem decodeGroup_one (hn : n % 2 ^ 16 = 0) (ha : value? a = some (n / 2 ^ 18))
    (hb : value? b = some (n / 2 ^ 12 % 64)) :
    decodeGroup true a b pad pad = some [UInt8.ofNat (n / 2 ^ 16)] := by
  have hfirst : n / 2 ^ 18 * 4 + n / 2 ^ 12 % 64 / 16 = n / 2 ^ 16 := by omega
  have hrest : n / 2 ^ 12 % 64 % 16 = 0 := by omega
  unfold decodeGroup
  rw [ha, hb]
  simp only [Option.bind_eq_bind, Option.bind_some, and_self, if_true, hrest, hfirst]

end Base64

end Lib
