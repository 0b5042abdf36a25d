/-
  A dialled number in the browser and in the Agent.

  The page shows and posts what `fullStationId` makes of the number (`web/pad.html`); the
  Agent expands what it is given with `expand_station_number`. `expand_short` and
  `fullStationId_short` are the two on a number that is short enough, and there they agree.
  On a longer one the page puts an S before the number and the Agent does not.
-/
import Michoi.Agent
import Michoi.Bytes.Text

namespace Michoi

/-! ## The page -/

/-- `slice(from, to)` of a string of characters with one code unit each. -/
def jsSlice (cs : List Char) (start stop : Nat) : List Char := (cs.take stop).drop start

/-- `fullStationId`, on such strings. -/
def fullStationId (deviceId value : String) : String :=
  -- `/^[A-Za-z]/.test(value)`
  if value.toList.head?.any Char.isAlpha then value
  else
    let local_ := if deviceId.isEmpty then "S00000000000" else deviceId
    if local_.length ≤ value.length + 1 then "S" ++ value
    else
      String.ofList ('S' :: jsSlice local_.toList 1 (local_.length - 1 - value.length) ++
        value.toList ++ local_.toList.drop (local_.length - 1))

/-! ## Ids and numbers -/

/-- An ASCII id that begins with S. -/
structure RoomId (id : String) : Prop where
  ascii : ∀ c ∈ id.toList, c.toNat < 128
  begins : ∃ rest, id.toList = 'S' :: rest

structure DigitString (input : String) : Prop where
  nonempty : input.toList ≠ []
  digits : ∀ c ∈ input.toList, c.isDigit = true

variable {local_ input : String}

theorem isDigit_iff {c : Char} : c.isDigit = true ↔ 0x30 ≤ c.toNat ∧ c.toNat ≤ 0x39 := by
  rw [Char.isDigit, Bool.and_eq_true, decide_eq_true_iff, decide_eq_true_iff]
  exact Iff.rfl

theorem not_isAlpha_of_isDigit {c : Char} (h : c.isDigit = true) : ¬ c.isAlpha = true := by
  have hdigit := (isDigit_iff.mp h).2
  intro halpha
  rcases (Bool.or_eq_true _ _).mp halpha with hupper | hlower
  · have hletter : 0x41 ≤ c.toNat := UInt32.le_iff_toNat_le.mp (of_decide_eq_true hupper).1
    omega
  · have hletter : 0x61 ≤ c.toNat :=
      UInt32.le_iff_toNat_le.mp (of_decide_eq_true ((Bool.and_eq_true _ _).mp hlower).1)
    omega

theorem DigitString.ascii (h : DigitString input) : ∀ c ∈ input.toList, c.toNat < 128 :=
  fun c hc => Nat.lt_of_le_of_lt (isDigit_iff.mp (h.digits c hc)).2 (by decide)

theorem length_asBytes_ascii {s : String} (h : ∀ c ∈ s.toList, c.toNat < 128) :
    (asBytes s).length = s.length := by
  rw [asBytes_ascii h, List.length_map, String.length_toList]

theorem utf8Size_ascii {c : Char} (h : c.toNat < 128) : c.utf8Size = 1 := by
  have hle : c.val ≤ 0x7f := UInt32.le_iff_toNat_le.mpr (Nat.le_of_lt_succ h)
  simp [Char.utf8Size, hle]

/-- In ASCII text every byte offset is between two characters. -/
theorem splitAtByte_ascii {cs : List Char} (h : ∀ c ∈ cs, c.toNat < 128) {n : Nat}
    (hn : n ≤ cs.length) : splitAtByte n cs = some (cs.take n, cs.drop n) := by
  induction cs generalizing n with
  | nil =>
      obtain rfl := Nat.le_zero.mp hn
      rfl
  | cons c cs ih =>
      cases n with
      | zero => rfl
      | succ n =>
          have hrest := ih (fun c' hc' => h c' (List.mem_cons_of_mem _ hc'))
            (Nat.le_of_succ_le_succ hn)
          simp [splitAtByte, utf8Size_ascii (h c List.mem_cons_self), hrest]

/-- The Agent leaves alone what begins with a letter. -/
theorem expand_of_begins {id : String} (h : ∃ rest, id.toList = 'S' :: rest) :
    expandStationNumber local_ id = some id := by
  obtain ⟨rest, hid⟩ := h
  have hbytes : asBytes id = 0x53 :: rest.flatMap String.utf8EncodeChar := by
    unfold asBytes
    rw [hid]
    rfl
  simp [expandStationNumber, hbytes]

/-- So does the page. -/
theorem fullStationId_of_begins {deviceId id : String} (h : ∃ rest, id.toList = 'S' :: rest) :
    fullStationId deviceId id = id := by
  obtain ⟨rest, hid⟩ := h
  have hletter : id.toList.head?.any Char.isAlpha = true := by
    rw [hid]
    rfl
  rw [fullStationId, if_pos hletter]

/-- What the Agent asks of a number. -/
theorem DigitString.numeric (h : DigitString input) :
    (input.isEmpty || !(asBytes input).all fun b => 0x30 ≤ b && b ≤ 0x39) = false := by
  have hall : (asBytes input).all (fun b => 0x30 ≤ b && b ≤ 0x39) = true := by
    rw [List.all_eq_true]
    intro b hb
    obtain ⟨c, hc, hbc⟩ := exists_char_of_mem_asBytes h.ascii hb
    have hdigit := isDigit_iff.mp (h.digits c hc)
    simp only [UInt8.le_iff_toNat_le, Bool.and_eq_true, decide_eq_true_eq, hbc]
    exact hdigit
  have hne : input.isEmpty = false := by
    rw [← Bool.not_eq_true, String.isEmpty_iff]
    intro hempty
    exact h.nonempty (by rw [hempty]; rfl)
  rw [hall, hne]
  rfl

/-- The id with a number in the place before its last character. -/
def fullId (local_ input : String) : String :=
  String.ofList (local_.toList.take (local_.length - 1 - input.length) ++ input.toList ++
    local_.toList.drop (local_.length - 1))

theorem expand_short (hl : RoomId local_) (hi : DigitString input)
    (h : input.length + 1 < local_.length) :
    expandStationNumber local_ input = some (fullId local_ input) := by
  have hlength := length_asBytes_ascii hl.ascii
  have hchars : local_.toList.length = local_.length := String.length_toList
  have hfront := splitAtByte_ascii hl.ascii (n := local_.length - 1 - input.length) (by omega)
  have hback := splitAtByte_ascii hl.ascii (n := local_.length - 1) (by omega)
  unfold expandStationNumber
  dsimp only
  rw [hi.numeric, hlength, length_asBytes_ascii hi.ascii, if_neg Bool.false_ne_true, if_pos h,
    hfront, hback]
  simp [fullId, String.ofList_append, String.append_assoc]

theorem expand_long (hl : RoomId local_) (hi : DigitString input)
    (h : local_.length ≤ input.length + 1) : expandStationNumber local_ input = some input := by
  unfold expandStationNumber
  dsimp only
  rw [hi.numeric, length_asBytes_ascii hl.ascii, length_asBytes_ascii hi.ascii,
    if_neg Bool.false_ne_true, if_neg (Nat.not_lt.mpr h)]

/-- The page's tests on a number. -/
theorem fullStationId_digits (hl : RoomId local_) (hi : DigitString input) :
    fullStationId local_ input = if local_.length ≤ input.length + 1 then "S" ++ input
      else String.ofList ('S' :: jsSlice local_.toList 1 (local_.length - 1 - input.length) ++
        input.toList ++ local_.toList.drop (local_.length - 1)) := by
  have hletter : ¬ input.toList.head?.any Char.isAlpha = true := by
    obtain ⟨c, rest, hinput⟩ := List.exists_cons_of_ne_nil hi.nonempty
    rw [hinput, List.head?_cons, Option.any_some]
    exact not_isAlpha_of_isDigit (hi.digits c (hinput ▸ List.mem_cons_self))
  have hne : ¬ local_.isEmpty = true := by
    obtain ⟨rest, hlocal⟩ := hl.begins
    rw [String.isEmpty_iff]
    rintro rfl
    cases hlocal
  rw [fullStationId, if_neg hletter]
  simp only [if_neg hne]

theorem fullStationId_short (hl : RoomId local_) (hi : DigitString input)
    (h : input.length + 1 < local_.length) :
    fullStationId local_ input = fullId local_ input := by
  rw [fullStationId_digits hl hi, if_neg (Nat.not_le.mpr h), fullId]
  obtain ⟨rest, hlocal⟩ := hl.begins
  obtain ⟨k, hk⟩ : ∃ k, local_.length - 1 - input.length = k + 1 :=
    ⟨local_.length - 2 - input.length, by omega⟩
  simp [jsSlice, hlocal, hk]

/-! ## Both -/

/-- An id has the local id's pattern, with a number before its last character. -/
structure Patterned (local_ input id : String) : Prop where
  length : id.length = local_.length
  last : id.toList.getLast? = local_.toList.getLast?
  leading : id.toList.take (local_.length - 1 - input.length) =
    local_.toList.take (local_.length - 1 - input.length)
  number : (id.toList.drop (local_.length - 1 - input.length)).take input.length = input.toList

/-- The browser and the Agent give one id, expanding it again changes nothing, and a short
    number stands in the local id's pattern. -/
structure ExpandedTo (local_ input id : String) : Prop where
  agent : expandStationNumber local_ input = some id
  browser : fullStationId local_ input = id
  agentAgain : expandStationNumber local_ id = some id
  browserAgain : fullStationId local_ id = id
  patterned : input.length ≤ local_.length - 2 → Patterned local_ input id

theorem patterned_fullId (h : input.length + 1 < local_.length) :
    Patterned local_ input (fullId local_ input) := by
  have hchars : local_.toList.length = local_.length := String.length_toList
  have hdigits : input.toList.length = input.length := String.length_toList
  have hfront : (local_.toList.take (local_.length - 1 - input.length)).length =
      local_.length - 1 - input.length := List.length_take_of_le (by omega)
  have hback : local_.toList.drop (local_.length - 1) ≠ [] := by
    rw [Ne, List.drop_eq_nil_iff, String.length_toList]
    omega
  constructor
  · rw [fullId, String.length_ofList, List.length_append, List.length_append, hfront, hdigits,
      List.length_drop, hchars]
    omega
  · rw [fullId, String.toList_ofList, List.getLast?_append_of_ne_nil _ hback,
      List.getLast?_drop, if_neg (by rw [String.length_toList]; omega)]
  · rw [fullId, String.toList_ofList, List.append_assoc, List.take_append_of_le_length (by omega),
      List.take_of_length_le (by omega)]
  · rw [fullId, String.toList_ofList, List.append_assoc, List.drop_append_of_le_length (by omega),
      List.drop_of_length_le (by omega), List.nil_append,
      List.take_append_of_le_length (by omega), List.take_of_length_le (by omega)]

theorem fullId_begins (hl : RoomId local_) (h : input.length + 1 < local_.length) :
    ∃ rest, (fullId local_ input).toList = 'S' :: rest := by
  obtain ⟨rest, hlocal⟩ := hl.begins
  obtain ⟨k, hk⟩ : ∃ k, local_.length - 1 - input.length = k + 1 :=
    ⟨local_.length - 2 - input.length, by omega⟩
  exact ⟨_, by rw [fullId, String.toList_ofList, hk, hlocal]; rfl⟩

/-- **Browser and Agent expand alike** exactly the numbers that leave room for a letter and a
    last character. -/
theorem expandedTo_iff (hl : RoomId local_) (hi : DigitString input) :
    (∃ id, ExpandedTo local_ input id) ↔ input.length + 1 < local_.length := by
  constructor
  · rintro ⟨id, h⟩
    by_contra hlong
    have hlong := Nat.le_of_not_lt hlong
    have hagent := h.agent
    rw [expand_long hl hi hlong, Option.some.injEq] at hagent
    have hbrowser := h.browser
    rw [fullStationId_digits hl hi, if_pos hlong, ← hagent] at hbrowser
    have hlength := congrArg String.length hbrowser
    rw [String.length_append] at hlength
    have hone : "S".length = 1 := rfl
    omega
  · intro h
    have hbegins := fullId_begins hl h
    exact ⟨_, expand_short hl hi h, fullStationId_short hl hi h, expand_of_begins hbegins,
      fullStationId_of_begins hbegins, fun _ => patterned_fullId h⟩

/-- The Agent does not change what the page posts. -/
theorem expand_fullStationId (hl : RoomId local_) (hi : DigitString input) :
    expandStationNumber local_ (fullStationId local_ input) =
      some (fullStationId local_ input) := by
  apply expand_of_begins
  rw [fullStationId_digits hl hi]
  split
  · exact ⟨input.toList, by simp⟩
  · exact ⟨_, by rw [String.toList_ofList]; rfl⟩

theorem expandedTo_short : ∃ id, ExpandedTo "S00000000000" "3003" id := by
  have hl : RoomId "S00000000000" := ⟨by simp, ⟨_, rfl⟩⟩
  exact (expandedTo_iff hl ⟨by simp, by simp⟩).mpr (by decide)

/-- A full id typed without its letter. -/
theorem expanded_differently :
    expandStationNumber "S00000000000" "00000030030" = some "00000030030" ∧
      fullStationId "S00000000000" "00000030030" = "S00000030030" ∧
      ¬ ∃ id, ExpandedTo "S00000000000" "00000030030" id := by
  have hagent : expandStationNumber "S00000000000" "00000030030" = some "00000030030" := by
    decide +kernel
  have hbrowser : fullStationId "S00000000000" "00000030030" = "S00000030030" := by
    decide +kernel
  refine ⟨hagent, hbrowser, fun ⟨id, h⟩ => ?_⟩
  have hsame := Option.some.inj (hagent.symm.trans h.agent)
  rw [← h.browser, hbrowser] at hsame
  exact absurd hsame (by decide)

end Michoi
