/-
  What the server does with text: the methods of `str` and `usize` that it calls. The
  characters of a `str` are a `List Char`.

  Each method is followed by what it gives on text that was put together from parts:
  words with a blank between them, lines with their ends, a value with blanks around it,
  the digits of a number.
-/
import Mathlib.Algebra.Group.Nat.Defs
import Mathlib.Data.List.Infix
import Mathlib.Data.List.TakeWhile
import Michoi.Bytes.Utf8

namespace Michoi

/-! ## Cutting -/

/-- `split("\r\n")`. -/
def splitCrlf : List Char → List (List Char)
  | [] => [[]]
  | [c] => [[c]]
  | c :: d :: rest =>
      if c = '\r' ∧ d = '\n' then [] :: splitCrlf rest
      else (splitCrlf (d :: rest)).modifyHead (c :: ·)

/-- `split_whitespace()`. -/
def splitWhitespace (cs : List Char) : List (List Char) :=
  (cs.splitOnP isWhitespace).filter fun word => !word.isEmpty

/-- `split_once(c)`. -/
def splitOnce (c : Char) : List Char → Option (List Char × List Char)
  | [] => none
  | d :: rest =>
      if d = c then some ([], rest) else (splitOnce c rest).map fun r => (d :: r.1, r.2)

/-- `trim()`. -/
def trimChars (cs : List Char) : List Char :=
  ((cs.dropWhile isWhitespace).reverse.dropWhile isWhitespace).reverse

/-- `to_ascii_lowercase()`. -/
def toAsciiLowercase (s : String) : String := String.ofList (s.toList.map Char.toLower)

/-- `eq_ignore_ascii_case`. -/
def eqIgnoreAsciiCase (s t : String) : Bool := toAsciiLowercase s == toAsciiLowercase t

/-- `contains(t)`. -/
def contains (s t : String) : Bool := decide (t.toList <:+: s.toList)

/-- `strip_prefix(t)`. -/
def stripPrefix (t cs : List Char) : Option (List Char) :=
  if t <+: cs then some (cs.drop t.length) else none

/-- `replace(from, to)` for a nonempty `from`; the counter bounds the characters left. -/
def replaceLoop (old new : List Char) : Nat → List Char → List Char
  | 0, cs => cs
  | _ + 1, [] => []
  | n + 1, c :: cs =>
      if old <+: c :: cs then new ++ replaceLoop old new n ((c :: cs).drop old.length)
      else c :: replaceLoop old new n cs

def replace (old new : List Char) (cs : List Char) : List Char :=
  replaceLoop old new cs.length cs

/-! ## Text put together -/

theorem splitCrlf_line {cs : List Char} (h : '\r' ∉ cs) (rest : List Char) :
    splitCrlf (cs ++ '\r' :: '\n' :: rest) = cs :: splitCrlf rest := by
  induction cs with
  | nil => simp [splitCrlf]
  | cons c cs ih =>
      rw [List.mem_cons, not_or] at h
      have hnext := ih h.2
      cases cs with
      | nil => simp [splitCrlf, Ne.symm h.1]
      | cons d cs =>
          rw [List.cons_append, List.cons_append, splitCrlf, if_neg (fun hc => h.1 hc.1.symm),
            ← List.cons_append, hnext]
          rfl

/-- Two words and a third, with one blank between each. -/
theorem splitWhitespace_three {u v w : List Char} (hu : u ≠ [] ∧ ∀ c ∈ u, isWhitespace c = false)
    (hv : v ≠ [] ∧ ∀ c ∈ v, isWhitespace c = false)
    (hw : w ≠ [] ∧ ∀ c ∈ w, isWhitespace c = false) :
    splitWhitespace (u ++ ' ' :: (v ++ ' ' :: w)) = [u, v, w] := by
  unfold splitWhitespace
  rw [List.splitOnP_append_cons_of_forall_mem hu.2 ' ' (by decide),
    List.splitOnP_append_cons_of_forall_mem hv.2 ' ' (by decide), List.splitOnP_eq_singleton hw.2]
  simp [hu.1, hv.1, hw.1]

theorem splitOnce_append {c : Char} {before : List Char} (h : c ∉ before) (after : List Char) :
    splitOnce c (before ++ c :: after) = some (before, after) := by
  induction before with
  | nil => simp [splitOnce]
  | cons d before ih =>
      rw [List.mem_cons, not_or] at h
      simp [splitOnce, Ne.symm h.1, ih h.2]

theorem splitOnce_none {c : Char} {cs : List Char} (h : c ∉ cs) : splitOnce c cs = none := by
  induction cs with
  | nil => rfl
  | cons d cs ih =>
      rw [List.mem_cons, not_or] at h
      simp [splitOnce, Ne.symm h.1, ih h.2]

/-- The part before the first separator. -/
theorem headD_splitOn_append {c : Char} {before : List Char} (h : c ∉ before) (after : List Char) :
    ((before ++ c :: after).splitOn c).headD [] = before := by
  have hbefore : ∀ d ∈ before, (d == c) = false := by
    intro d hd
    exact beq_eq_false_iff_ne.mpr (ne_of_mem_of_not_mem hd h)
  rw [List.splitOn_eq_splitOnP,
    List.splitOnP_append_cons_of_forall_mem hbefore c (beq_self_eq_true c)]
  rfl

theorem headD_splitOn {c : Char} {cs : List Char} (h : c ∉ cs) :
    (cs.splitOn c).headD [] = cs := by
  rw [List.splitOn_eq_singleton h]
  rfl

theorem dropWhile_append_word {p : Char → Bool} {c : Char} (h : p c = false)
    (before after : List Char) :
    (before ++ c :: after).dropWhile p = before.dropWhile p ++ c :: after := by
  rw [List.dropWhile_append]
  split
  · next hall =>
      rw [List.isEmpty_iff.mp hall, List.dropWhile_cons_of_neg (by simp [h]), List.nil_append]
  · rfl

/-- Trimming stops at a word, from either side. -/
theorem trimChars_append {word : List Char} (hne : word ≠ [])
    (hword : ∀ c ∈ word, isWhitespace c = false) (before after : List Char) :
    trimChars (before ++ word ++ after) =
      before.dropWhile isWhitespace ++ word ++ (after.reverse.dropWhile isWhitespace).reverse := by
  obtain ⟨c, cs, hfirst⟩ := List.exists_cons_of_ne_nil hne
  obtain ⟨front, d, hlast⟩ := List.eq_nil_or_concat word |>.resolve_left hne
  have hc : isWhitespace c = false := hword c (by rw [hfirst]; simp)
  have hd : isWhitespace d = false := hword d (by rw [hlast]; simp)
  unfold trimChars
  have hleft : (before ++ word ++ after).dropWhile isWhitespace =
      before.dropWhile isWhitespace ++ word ++ after := by
    rw [hfirst, List.append_assoc, List.cons_append, dropWhile_append_word hc]
    simp
  have hright : (before.dropWhile isWhitespace ++ word ++ after).reverse.dropWhile isWhitespace =
      after.reverse.dropWhile isWhitespace ++ (before.dropWhile isWhitespace ++ word).reverse := by
    rw [List.reverse_append, hlast, List.concat_eq_append, ← List.append_assoc,
      List.reverse_append, List.reverse_singleton, List.singleton_append,
      dropWhile_append_word hd]
  rw [hleft, hright, List.reverse_append, List.reverse_reverse]

/-- Blanks around a word are trimmed. -/
theorem trimChars_word {before word after : List Char} (hne : word ≠ [])
    (hword : ∀ c ∈ word, isWhitespace c = false)
    (hbefore : ∀ c ∈ before, isWhitespace c = true) (hafter : ∀ c ∈ after, isWhitespace c = true) :
    trimChars (before ++ word ++ after) = word := by
  rw [trimChars_append hne hword, List.dropWhile_eq_nil_iff.mpr hbefore,
    List.dropWhile_eq_nil_iff.mpr (fun c hc => hafter c (List.mem_reverse.mp hc))]
  simp

/-- There is nothing to trim from a word. -/
theorem trimChars_eq {word : List Char} (hne : word ≠ [])
    (hword : ∀ c ∈ word, isWhitespace c = false) : trimChars word = word := by
  have h : trimChars ([] ++ word ++ []) = word := trimChars_word hne hword (by simp) (by simp)
  simpa using h

theorem toLower_toLower (c : Char) : c.toLower.toLower = c.toLower := by
  unfold Char.toLower
  split
  · next h =>
    have h1 : ¬ (c.val + ('a'.val - 'A'.val) ≥ 'A'.val ∧
        c.val + ('a'.val - 'A'.val) ≤ 'Z'.val) := by
      simp only [ge_iff_le, UInt32.le_iff_toNat_le] at h ⊢
      have := UInt32.toNat_add c.val ('a'.val - 'A'.val)
      have e : ('a'.val - 'A'.val).toNat = 32 := by decide
      have ea : 'A'.val.toNat = 65 := by decide
      have ez : 'Z'.val.toNat = 90 := by decide
      rw [this]
      omega
    dsimp only
    rw [dif_neg h1]
  · rfl

theorem toAsciiLowercase_idem (s : String) :
    toAsciiLowercase (toAsciiLowercase s) = toAsciiLowercase s := by
  unfold toAsciiLowercase
  rw [String.toList_ofList, List.map_map]
  congr 2
  funext c
  exact toLower_toLower c

/-- A visible ASCII character. -/
def isVisible (c : Char) : Bool := 0x21 ≤ c.toNat && c.toNat ≤ 0x7e

theorem isVisible_iff {c : Char} : isVisible c = true ↔ 0x21 ≤ c.toNat ∧ c.toNat ≤ 0x7e := by
  simp [isVisible]

theorem not_isWhitespace_of_isVisible {c : Char} (h : isVisible c = true) :
    isWhitespace c = false := by
  rw [isVisible_iff] at h
  unfold isWhitespace
  dsimp only
  generalize c.toNat = n at h
  simp
  omega

theorem isVisible_of_toLower {c : Char} (h : isVisible c.toLower = true) : isVisible c = true := by
  unfold Char.toLower at h
  split at h
  · next hupper =>
      have hA : 'A'.toNat ≤ c.toNat := UInt32.le_iff_toNat_le.mp hupper.1
      have hZ : c.toNat ≤ 'Z'.toNat := UInt32.le_iff_toNat_le.mp hupper.2
      rw [isVisible_iff]
      exact ⟨Nat.le_trans (by decide) hA, Nat.le_trans hZ (by decide)⟩
  · exact h

/-- Text contains a part of it, in any case. -/
theorem contains_lower {s t : String} {before after : List Char}
    (h : s.toList = before ++ t.toList ++ after) :
    contains (toAsciiLowercase s) (toAsciiLowercase t) = true := by
  unfold contains toAsciiLowercase
  rw [decide_eq_true_iff, String.toList_ofList, String.toList_ofList, h, List.map_append,
    List.map_append]
  exact ⟨_, _, rfl⟩

theorem utf8EncodeChar_ascii {c : Char} (h : c.toNat < 128) :
    String.utf8EncodeChar c = [UInt8.ofNat c.toNat] := by
  unfold String.utf8EncodeChar
  rw [show c.val.toNat = c.toNat from rfl]
  dsimp only
  rw [if_pos (by omega)]

/-- The bytes of a character that is not ASCII are not either. -/
theorem le_of_mem_encode {c : Char} {b : UInt8} (hc : 128 ≤ c.toNat)
    (h : b ∈ String.utf8EncodeChar c) : 128 ≤ b.toNat := by
  have hrange := char_range c
  have hbyte (n : Nat) (hn : n < 256) (hle : 128 ≤ n) : 128 ≤ (UInt8.ofNat n).toNat := by
    rwa [toNat_ofNat_lt hn]
  revert b
  unfold String.utf8EncodeChar
  rw [show c.val.toNat = c.toNat from rfl]
  dsimp only
  generalize c.toNat = v at hrange hc
  rw [if_neg (by omega)]
  split
  · simp only [List.forall_mem_cons]
    exact ⟨hbyte _ (by omega) (by omega), hbyte _ (by omega) (by omega), nofun⟩
  split
  · simp only [List.forall_mem_cons]
    exact ⟨hbyte _ (by omega) (by omega), hbyte _ (by omega) (by omega),
      hbyte _ (by omega) (by omega), nofun⟩
  · simp only [List.forall_mem_cons]
    exact ⟨hbyte _ (by omega) (by omega), hbyte _ (by omega) (by omega),
      hbyte _ (by omega) (by omega), hbyte _ (by omega) (by omega), nofun⟩

/-- The byte of an ASCII character stands for nothing else. -/
theorem toNat_of_mem_encode {c : Char} {b : UInt8} (h : b ∈ String.utf8EncodeChar c)
    (hb : b.toNat < 128) : b.toNat = c.toNat := by
  by_cases hc : c.toNat < 128
  · rw [utf8EncodeChar_ascii hc] at h
    rw [List.mem_singleton.mp h, toNat_ofNat_lt (by omega)]
  · exact absurd (le_of_mem_encode (Nat.le_of_not_lt hc) h) (Nat.not_le.mpr hb)

/-- ASCII text is one byte a character. -/
theorem asBytes_ascii {s : String} (h : ∀ c ∈ s.toList, c.toNat < 128) :
    asBytes s = s.toList.map fun c => UInt8.ofNat c.toNat := by
  unfold asBytes
  rw [List.flatMap_congr fun c hc => utf8EncodeChar_ascii (h c hc), ← List.map_eq_flatMap]

theorem exists_char_of_mem_asBytes {s : String} (h : ∀ c ∈ s.toList, c.toNat < 128) {b : UInt8}
    (hb : b ∈ asBytes s) : ∃ c ∈ s.toList, b.toNat = c.toNat := by
  rw [asBytes_ascii h] at hb
  obtain ⟨c, hc, rfl⟩ := List.mem_map.mp hb
  exact ⟨c, hc, toNat_ofNat_lt (Nat.lt_trans (h c hc) (by decide))⟩

/-! ## Replacing -/

section

variable {old new : List Char}

/-- The counter is enough. -/
theorem replaceLoop_eq (hold : old ≠ []) {n : Nat} {cs : List Char} (h : cs.length ≤ n) :
    replaceLoop old new n cs = replace old new cs := by
  unfold replace
  induction n using Nat.strongRecOn generalizing cs with
  | ind n ih =>
      cases n with
      | zero => rw [Nat.eq_zero_of_le_zero h]
      | succ n =>
          cases cs with
          | nil => rfl
          | cons c cs =>
              rw [List.length_cons] at h
              have hdrop : ((c :: cs).drop old.length).length ≤ cs.length := by
                have := List.length_pos_iff.mpr hold
                rw [List.length_drop, List.length_cons]
                omega
              rw [List.length_cons, replaceLoop, replaceLoop, @ih n (by omega) cs (by omega),
                @ih n (by omega) ((c :: cs).drop old.length) (Nat.le_trans hdrop (by omega)),
                @ih cs.length (by omega) ((c :: cs).drop old.length) hdrop]

theorem replace_old (hold : old ≠ []) (cs : List Char) :
    replace old new (old ++ cs) = new ++ replace old new cs := by
  obtain ⟨c, rest, rfl⟩ := List.exists_cons_of_ne_nil hold
  have hdrop : ((c :: rest) ++ cs).drop (c :: rest).length = cs := List.drop_left
  unfold replace
  rw [List.length_append, List.length_cons, Nat.succ_add, List.cons_append, replaceLoop,
    if_pos (show c :: rest <+: c :: (rest ++ cs) from List.prefix_append (c :: rest) cs),
    ← List.cons_append, hdrop, replaceLoop_eq hold (by omega), replace]

theorem replace_cons {c : Char} {cs : List Char} (h : ¬ old <+: c :: cs) :
    replace old new (c :: cs) = c :: replace old new cs := by
  unfold replace
  rw [List.length_cons, replaceLoop, if_neg h]

/-- A character of its own replaced by another. -/
theorem replace_char (c d : Char) (cs : List Char) :
    replace [c] [d] cs = cs.map fun x => if x = c then d else x := by
  induction cs with
  | nil => rfl
  | cons x cs ih =>
      by_cases hx : x = c
      · subst hx
        have hfirst := @replace_old [x] [d] (by simp) cs
        rw [List.singleton_append] at hfirst
        rw [hfirst, ih, List.map_cons, if_pos rfl]
        rfl
      · rw [replace_cons (by simp [Ne.symm hx]), ih, List.map_cons, if_neg hx]

end

/-! ## Numbers -/

/-- `char::to_digit`. -/
def toDigit (radix : Nat) (c : Char) : Option Nat :=
  let d :=
    if '0' ≤ c ∧ c ≤ '9' then some (c.toNat - 48)
    else if 'a' ≤ c ∧ c ≤ 'z' then some (c.toNat - 87)
    else if 'A' ≤ c ∧ c ≤ 'Z' then some (c.toNat - 55)
    else none
  d.filter (· < radix)

/-- The value of some digits, most significant first. -/
def digitsValue (radix : Nat) (value : Nat) : List Char → Option Nat
  | [] => some value
  | c :: rest => (toDigit radix c).bind fun d => digitsValue radix (value * radix + d) rest

/-- `usize::from_str_radix`, for integers of so many bits; `parse` is radix 10. -/
def fromStrRadix (bits radix : Nat) (cs : List Char) : Option Nat :=
  let digits := match cs with
    | '+' :: rest => rest
    | _ => cs
  if digits.isEmpty then none
  else (digitsValue radix 0 digits).filter (· < 2 ^ bits)

/-- `{:x}`. -/
def hex (n : Nat) : String := String.ofList (Nat.toDigits 16 n)

theorem toDigit_digitChar {d : Nat} (h : d < 16) : toDigit 16 d.digitChar = some d := by
  revert d
  decide

theorem digitsValue_append (radix value : Nat) (xs ys : List Char) :
    digitsValue radix value (xs ++ ys) =
      (digitsValue radix value xs).bind fun n => digitsValue radix n ys := by
  induction xs generalizing value with
  | nil => rfl
  | cons c xs ih =>
      rw [List.cons_append, digitsValue, digitsValue]
      simp only [ih, Option.bind_assoc]

/-- The digits of a number are worth it. -/
theorem digitsValue_hex (n : Nat) : digitsValue 16 0 (hex n).toList = some n := by
  unfold hex
  rw [String.toList_ofList]
  induction n using Nat.strongRecOn with
  | ind n ih =>
      by_cases h : n < 16
      · rw [Nat.toDigits_of_lt_base h]
        simp [digitsValue, toDigit_digitChar h]
      · have hd : n % 16 < 16 := Nat.mod_lt n (by decide)
        rw [Nat.toDigits_of_base_le (by decide) (by omega), digitsValue_append,
          ih (n / 16) (by omega)]
        simp only [Option.bind_some, digitsValue, toDigit_digitChar hd]
        rw [Nat.mul_comm, Nat.div_add_mod]

/-- The digits of a number are worth it, in any radix up to 16. -/
theorem digitsValue_toDigits {radix : Nat} (hlow : 1 < radix) (hhigh : radix ≤ 16) (n : Nat) :
    digitsValue radix 0 (Nat.toDigits radix n) = some n := by
  have hdigit {d : Nat} (h : d < radix) : toDigit radix d.digitChar = some d := by
    have h16 := toDigit_digitChar (h.trans_le hhigh)
    unfold toDigit at h16 ⊢
    rw [Option.filter_eq_some_iff] at h16 ⊢
    exact ⟨h16.1, decide_eq_true h⟩
  induction n using Nat.strongRecOn with
  | ind n ih =>
      by_cases h : n < radix
      · rw [Nat.toDigits_of_lt_base h]
        simp [digitsValue, hdigit h]
      · have hd : n % radix < radix := Nat.mod_lt n (by omega)
        have hsmaller : n / radix < n := Nat.div_lt_self (by omega) hlow
        rw [Nat.toDigits_of_base_le hlow (by omega), digitsValue_append, ih _ hsmaller]
        simp only [Option.bind_some, digitsValue, hdigit hd]
        rw [Nat.mul_comm, Nat.div_add_mod]

theorem digitsValue_toString (n : Nat) : digitsValue 10 0 (toString n).toList = some n := by
  change digitsValue 10 0 (String.ofList (Nat.toDigits 10 n)).toList = some n
  rw [String.toList_ofList]
  exact digitsValue_toDigits (by decide) (by decide) n

theorem toString_ne_nil (n : Nat) : (toString n).toList ≠ [] := by
  change (String.ofList (Nat.toDigits 10 n)).toList ≠ []
  rw [String.toList_ofList]
  exact Nat.toDigits_ne_nil

theorem hex_ne_empty (n : Nat) : hex n ≠ "" := by
  intro h
  have hnil := String.toList_eq_nil_iff.mpr h
  rw [hex, String.toList_ofList] at hnil
  exact Nat.toDigits_ne_nil hnil

/-- What is parsed fits. -/
theorem fromStrRadix_lt {bits radix n : Nat} {cs : List Char}
    (h : fromStrRadix bits radix cs = some n) : n < 2 ^ bits := by
  unfold fromStrRadix at h
  dsimp only at h
  generalize (match cs with | '+' :: rest => rest | _ => cs) = digits at h
  split at h
  · cases h
  · exact of_decide_eq_true (Option.filter_eq_some_iff.mp h).2

/-- A digit of any radix is a letter or a digit. -/
theorem isVisible_of_toDigit {radix : Nat} {c : Char} (h : (toDigit radix c).isSome = true) :
    isVisible c = true := by
  have hle {a b : Char} : a ≤ b ↔ a.toNat ≤ b.toNat := Iff.rfl
  rw [isVisible_iff]
  unfold toDigit at h
  simp only [hle] at h
  have h0 : '0'.toNat = 48 := rfl
  have h9 : '9'.toNat = 57 := rfl
  have ha : 'a'.toNat = 97 := rfl
  have hz : 'z'.toNat = 122 := rfl
  have hA : 'A'.toNat = 65 := rfl
  have hZ : 'Z'.toNat = 90 := rfl
  rw [h0, h9, ha, hz, hA, hZ] at h
  split at h
  · omega
  split at h
  · omega
  split at h
  · omega
  · simp at h

theorem toDigit_of_digitsValue {radix value n : Nat} {digits : List Char}
    (h : digitsValue radix value digits = some n) :
    ∀ c ∈ digits, (toDigit radix c).isSome = true := by
  induction digits generalizing value with
  | nil => simp
  | cons c rest ih =>
      rw [digitsValue, Option.bind_eq_some_iff] at h
      obtain ⟨d, hd, hrest⟩ := h
      intro c' hc'
      rcases List.mem_cons.mp hc' with rfl | hc'
      · rw [hd]
        rfl
      · exact ih hrest c' hc'

theorem hex_ascii (n : Nat) : ∀ c ∈ (hex n).toList, c.toNat < 128 := by
  intro c hc
  have hvisible := isVisible_of_toDigit (toDigit_of_digitsValue (digitsValue_hex n) c hc)
  exact Nat.lt_of_le_of_lt (isVisible_iff.mp hvisible).2 (by decide)

/-- How many digits a number has at most. -/
theorem length_hex_le {n digits : Nat} (hpos : 0 < digits) (h : n < 16 ^ digits) :
    (asBytes (hex n)).length ≤ digits := by
  rw [asBytes_ascii (hex_ascii n), List.length_map, hex, String.toList_ofList]
  exact (Nat.length_toDigits_le_iff (by decide) hpos).mpr h

/-- Digits are parsed to their number, if it fits. -/
theorem fromStrRadix_eq {bits radix n : Nat} {digits : List Char} (hne : digits ≠ [])
    (h : digitsValue radix 0 digits = some n) :
    fromStrRadix bits radix digits = if n < 2 ^ bits then some n else none := by
  obtain ⟨c, rest, rfl⟩ := List.exists_cons_of_ne_nil hne
  have hplus : c ≠ '+' := by
    rintro rfl
    have hdigit := toDigit_of_digitsValue h '+' List.mem_cons_self
    simp [toDigit] at hdigit
  unfold fromStrRadix
  split
  · next heq => exact absurd (List.cons.inj heq).1 hplus
  · simp only [List.isEmpty_cons, Bool.false_eq_true, if_false, h]
    simp [Option.filter_some]

theorem fromStrRadix_digits {bits radix n : Nat} {digits : List Char} (hne : digits ≠ [])
    (h : digitsValue radix 0 digits = some n) (hn : n < 2 ^ bits) :
    fromStrRadix bits radix digits = some n := by
  rw [fromStrRadix_eq hne h, if_pos hn]

end Michoi
