/-
  Text survives its encoding: `from_utf8_lossy` of the bytes of a string is the string.

  `lossyChars_encode` is one character, by the length of its encoding; the bounds on the
  second byte are where a scalar value is not a surrogate and not past the last plane. By the
  same bounds an ASCII character comes from its own byte only, malformed bytes or not, and a
  byte string can be decoded piece by piece where its pieces end in ASCII.
-/
import Michoi.Bytes

namespace Michoi

/-! ## Bytes by their values -/

theorem isContinuation_of_toNat {b : UInt8} {n : Nat} (h : b.toNat = n % 64 + 128) :
    isContinuation b = true := by
  simp only [isContinuation, Bool.and_eq_true, decide_eq_true_eq, UInt8.le_iff_toNat_le]
  constructor
  · show 128 ≤ b.toNat
    omega
  · show b.toNat ≤ 191
    omega

theorem utf8CharWidth_eq (b : UInt8) : utf8CharWidth b =
    if b.toNat < 128 then 1
    else if 194 ≤ b.toNat ∧ b.toNat ≤ 223 then 2
    else if 224 ≤ b.toNat ∧ b.toNat ≤ 239 then 3
    else if 240 ≤ b.toNat ∧ b.toNat ≤ 244 then 4
    else 0 := by
  simp only [utf8CharWidth, Bool.and_eq_true, decide_eq_true_eq, UInt8.le_iff_toNat_le,
    UInt8.lt_iff_toNat_lt]
  rfl

theorem secondByteOk_of_toNat {first second : UInt8} {n : Nat} (h : second.toNat = n % 64 + 128)
    (he0 : first.toNat = 224 → 160 ≤ second.toNat) (hed : first.toNat = 237 → second.toNat ≤ 159)
    (hf0 : first.toNat = 240 → 144 ≤ second.toNat)
    (hf4 : first.toNat = 244 → second.toNat ≤ 143) : secondByteOk first second = true := by
  have hcont := isContinuation_of_toNat h
  simp only [isContinuation, Bool.and_eq_true, decide_eq_true_eq, UInt8.le_iff_toNat_le] at hcont
  unfold secondByteOk
  split
  · next hb => simpa [UInt8.le_iff_toNat_le] using ⟨he0 (by rw [hb]; rfl), hcont.2⟩
  split
  · next hb => simpa [UInt8.le_iff_toNat_le] using ⟨hcont.1, hed (by rw [hb]; rfl)⟩
  split
  · next hb => simpa [UInt8.le_iff_toNat_le] using ⟨hf0 (by rw [hb]; rfl), hcont.2⟩
  split
  · next hb => simpa [UInt8.le_iff_toNat_le] using ⟨hcont.1, hf4 (by rw [hb]; rfl)⟩
  · exact isContinuation_of_toNat h

theorem toNat_ofNat_lt {n : Nat} (h : n < 256) : (UInt8.ofNat n).toNat = n := by
  rw [UInt8.toNat_ofNat']
  omega

/-! ## One character -/

/-- A scalar value is no surrogate, and not past the last plane. -/
theorem char_range (c : Char) : c.toNat < 0xd800 ∨ 0xdfff < c.toNat ∧ c.toNat < 0x110000 :=
  c.valid

theorem lossyChars_encode (c : Char) (rest : Bytes) :
    lossyChars 0 (String.utf8EncodeChar c ++ rest) = c :: lossyChars 0 rest := by
  have hrange := char_range c
  have hback : Char.ofNat c.toNat = c := Char.ofNat_toNat c
  unfold String.utf8EncodeChar
  rw [show c.val.toNat = c.toNat from rfl]
  dsimp only
  generalize c.toNat = v at hrange hback
  split
  · next h =>
      have h₀ := toNat_ofNat_lt (n := v) (by omega)
      generalize UInt8.ofNat v = b₀ at h₀
      have hwidth : utf8CharWidth b₀ = 1 := by rw [utf8CharWidth_eq, if_pos (by omega)]
      simp only [List.cons_append, List.nil_append, lossyChars, decodeFirst, hwidth, h₀, hback]
  split
  · next h =>
      have h₀ := toNat_ofNat_lt (n := v / 64 % 0x20 + 0xc0) (by omega)
      have h₁ := toNat_ofNat_lt (n := v % 0x40 + 0x80) (by omega)
      generalize UInt8.ofNat (v / 64 % 0x20 + 0xc0) = b₀ at h₀
      generalize UInt8.ofNat (v % 0x40 + 0x80) = b₁ at h₁
      have hwidth : utf8CharWidth b₀ = 2 := by
        rw [utf8CharWidth_eq, if_neg (by omega), if_pos (by omega)]
      have hscalar : b₀.toNat % 32 * 64 + b₁.toNat % 64 = v := by omega
      simp only [List.cons_append, List.nil_append, lossyChars, decodeFirst, hwidth,
        List.getD_cons_zero, isContinuation_of_toNat h₁, if_true, scalar, List.foldl_cons,
        List.foldl_nil, hscalar, hback]
  split
  · next h =>
      have h₀ := toNat_ofNat_lt (n := v / 4096 % 0x10 + 0xe0) (by omega)
      have h₁ := toNat_ofNat_lt (n := v / 64 % 0x40 + 0x80) (by omega)
      have h₂ := toNat_ofNat_lt (n := v % 0x40 + 0x80) (by omega)
      generalize UInt8.ofNat (v / 4096 % 0x10 + 0xe0) = b₀ at h₀
      generalize UInt8.ofNat (v / 64 % 0x40 + 0x80) = b₁ at h₁
      generalize UInt8.ofNat (v % 0x40 + 0x80) = b₂ at h₂
      have hwidth : utf8CharWidth b₀ = 3 := by
        rw [utf8CharWidth_eq, if_neg (by omega), if_neg (by omega), if_pos (by omega)]
      have hsecond : secondByteOk b₀ b₁ = true :=
        secondByteOk_of_toNat h₁ (by omega) (by omega) (by omega) (by omega)
      have hscalar : (b₀.toNat % 16 * 64 + b₁.toNat % 64) * 64 + b₂.toNat % 64 = v := by omega
      simp only [List.cons_append, List.nil_append, lossyChars, decodeFirst, hwidth,
        List.getD_cons_zero, List.getD_cons_succ, hsecond, isContinuation_of_toNat h₂,
        Bool.not_true, Bool.false_eq_true, if_false, scalar, List.foldl_cons, List.foldl_nil,
        hscalar, hback]
  · next h =>
      have h₀ := toNat_ofNat_lt (n := v / 262144 % 0x08 + 0xf0) (by omega)
      have h₁ := toNat_ofNat_lt (n := v / 4096 % 0x40 + 0x80) (by omega)
      have h₂ := toNat_ofNat_lt (n := v / 64 % 0x40 + 0x80) (by omega)
      have h₃ := toNat_ofNat_lt (n := v % 0x40 + 0x80) (by omega)
      generalize UInt8.ofNat (v / 262144 % 0x08 + 0xf0) = b₀ at h₀
      generalize UInt8.ofNat (v / 4096 % 0x40 + 0x80) = b₁ at h₁
      generalize UInt8.ofNat (v / 64 % 0x40 + 0x80) = b₂ at h₂
      generalize UInt8.ofNat (v % 0x40 + 0x80) = b₃ at h₃
      have hwidth : utf8CharWidth b₀ = 4 := by
        rw [utf8CharWidth_eq, if_neg (by omega), if_neg (by omega), if_neg (by omega),
          if_pos (by omega)]
      have hsecond : secondByteOk b₀ b₁ = true :=
        secondByteOk_of_toNat h₁ (by omega) (by omega) (by omega) (by omega)
      have hscalar : ((b₀.toNat % 8 * 64 + b₁.toNat % 64) * 64 + b₂.toNat % 64) * 64 +
          b₃.toNat % 64 = v := by omega
      simp only [List.cons_append, List.nil_append, lossyChars, decodeFirst, hwidth,
        List.getD_cons_zero, List.getD_cons_succ, hsecond, isContinuation_of_toNat h₂,
        isContinuation_of_toNat h₃, Bool.not_true, Bool.false_eq_true, if_false, scalar,
        List.foldl_cons, List.foldl_nil, hscalar, hback]

/-! ## Text -/

/-- Text is decoded to itself, whatever follows it. -/
theorem lossyChars_flatMap_append (cs : List Char) (rest : Bytes) :
    lossyChars 0 (cs.flatMap String.utf8EncodeChar ++ rest) = cs ++ lossyChars 0 rest := by
  induction cs with
  | nil => rfl
  | cons c cs ih =>
      rw [List.flatMap_cons, List.append_assoc, lossyChars_encode, ih, List.cons_append]

theorem lossyChars_asBytes_append (s : String) (rest : Bytes) :
    lossyChars 0 (asBytes s ++ rest) = s.toList ++ lossyChars 0 rest :=
  lossyChars_flatMap_append s.toList rest

theorem lossyChars_asBytes (s : String) : lossyChars 0 (asBytes s) = s.toList := by
  have h := lossyChars_asBytes_append s []
  rwa [List.append_nil, show lossyChars 0 [] = [] from rfl, List.append_nil] at h

theorem fromUtf8Lossy_asBytes (s : String) : fromUtf8Lossy (asBytes s) = s := by
  unfold fromUtf8Lossy
  rw [lossyChars_asBytes, String.ofList_toList]

/-- Only the NUL character has a zero byte. -/
theorem zero_not_mem_encode {c : Char} (h : c ≠ Char.ofNat 0) :
    (0 : UInt8) ∉ String.utf8EncodeChar c := by
  have hrange := char_range c
  have hne : c.toNat ≠ 0 := fun h0 => h (by rw [← h0, Char.ofNat_toNat])
  have hbyte (n : Nat) (hn : n < 256) (hpos : n ≠ 0) : (0 : UInt8) ≠ UInt8.ofNat n := by
    intro h0
    have := congrArg UInt8.toNat h0
    rw [toNat_ofNat_lt hn] at this
    exact hpos this.symm
  unfold String.utf8EncodeChar
  rw [show c.val.toNat = c.toNat from rfl]
  dsimp only
  generalize c.toNat = v at hrange hne
  split
  · simp only [List.mem_cons, List.not_mem_nil, or_false]
    exact hbyte _ (by omega) hne
  split
  · simp only [List.mem_cons, List.not_mem_nil, or_false, not_or]
    exact ⟨hbyte _ (by omega) (by omega), hbyte _ (by omega) (by omega)⟩
  split
  · simp only [List.mem_cons, List.not_mem_nil, or_false, not_or]
    exact ⟨hbyte _ (by omega) (by omega), hbyte _ (by omega) (by omega),
      hbyte _ (by omega) (by omega)⟩
  · simp only [List.mem_cons, List.not_mem_nil, or_false, not_or]
    exact ⟨hbyte _ (by omega) (by omega), hbyte _ (by omega) (by omega),
      hbyte _ (by omega) (by omega), hbyte _ (by omega) (by omega)⟩

theorem zero_not_mem_asBytes {s : String} (h : Char.ofNat 0 ∉ s.toList) :
    (0 : UInt8) ∉ asBytes s := by
  unfold asBytes
  rw [List.mem_flatMap]
  rintro ⟨c, hc, h0⟩
  exact zero_not_mem_encode (fun he => h (he ▸ hc)) h0

/-! ## Characters that are one byte -/

theorem toNat_ofNat_of_isScalar {n : Nat} (h : n.isValidChar) : (Char.ofNat n).toNat = n := by
  unfold Char.ofNat
  rw [dif_pos h]
  rfl

/-- A continuation byte carries its value in the lower six bits. -/
theorem toNat_of_isContinuation {b : UInt8} (h : isContinuation b = true) :
    128 ≤ b.toNat ∧ b.toNat ≤ 191 := by
  simpa [isContinuation, UInt8.le_iff_toNat_le] using h

theorem toNat_of_secondByteOk {first second : UInt8} (h : secondByteOk first second = true) :
    128 ≤ second.toNat ∧ second.toNat ≤ 191 ∧ (first.toNat = 224 → 160 ≤ second.toNat) ∧
      (first.toNat = 237 → second.toNat ≤ 159) ∧ (first.toNat = 240 → 144 ≤ second.toNat) ∧
      (first.toNat = 244 → second.toNat ≤ 143) := by
  simp only [secondByteOk, isContinuation, ← UInt8.toNat_inj, UInt8.le_iff_toNat_le] at h
  simp only [UInt8.reduceToNat] at h
  split at h
  · simp only [Bool.and_eq_true, decide_eq_true_eq] at h
    omega
  split at h
  · simp only [Bool.and_eq_true, decide_eq_true_eq] at h
    omega
  split at h
  · simp only [Bool.and_eq_true, decide_eq_true_eq] at h
    omega
  split at h
  · simp only [Bool.and_eq_true, decide_eq_true_eq] at h
    omega
  · simp only [Bool.and_eq_true, decide_eq_true_eq] at h
    omega

/-- The shortest sequence of its length has a bit in the first or in the second byte. -/
theorem decodeFirst_wide {b : UInt8} (h : 128 ≤ b.toNat) (rest : Bytes) :
    128 ≤ (decodeFirst b rest).1.toNat := by
  have hreplacement : 128 ≤ replacement.toNat := by decide
  have hwidth := utf8CharWidth_eq b
  unfold decodeFirst
  dsimp only
  split
  · next hw =>
      rw [hw] at hwidth
      grind
  · next hw =>
      rw [hw] at hwidth
      split
      · next hc =>
          have := toNat_of_isContinuation hc
          simp only [scalar, List.foldl_cons, List.foldl_nil]
          rw [toNat_ofNat_of_isScalar (.inl (by omega))]
          grind
      · exact hreplacement
  · next hw =>
      rw [hw] at hwidth
      split
      · exact hreplacement
      split
      · exact hreplacement
      next hs hc =>
        have h₁ := toNat_of_secondByteOk (by simpa using hs)
        simp only [scalar, List.foldl_cons, List.foldl_nil]
        rw [toNat_ofNat_of_isScalar (by unfold Nat.isValidChar; grind)]
        grind
  · next hw =>
      rw [hw] at hwidth
      split
      · exact hreplacement
      split
      · exact hreplacement
      split
      · exact hreplacement
      next hs hc hc' =>
        have h₁ := toNat_of_secondByteOk (by simpa using hs)
        simp only [scalar, List.foldl_cons, List.foldl_nil]
        rw [toNat_ofNat_of_isScalar (by unfold Nat.isValidChar; grind)]
        grind
  · exact hreplacement

theorem decodeFirst_ascii {b : UInt8} (h : b.toNat < 128) (rest : Bytes) :
    decodeFirst b rest = (Char.ofNat b.toNat, 0) := by
  have hwidth : utf8CharWidth b = 1 := by rw [utf8CharWidth_eq, if_pos h]
  simp [decodeFirst, hwidth]

/-- An ASCII character comes from its own byte. -/
theorem exists_byte_of_mem_lossyChars {c : Char} (hc : c.toNat < 128) {bytes : Bytes} {skip : Nat}
    (h : c ∈ lossyChars skip bytes) : ∃ b ∈ bytes, b.toNat = c.toNat := by
  induction bytes generalizing skip with
  | nil => cases skip <;> simp [lossyChars] at h
  | cons b rest ih =>
      cases skip with
      | succ skip =>
          obtain ⟨b', hb', heq⟩ := ih h
          exact ⟨b', List.mem_cons_of_mem _ hb', heq⟩
      | zero =>
          rw [lossyChars, List.mem_cons] at h
          rcases h with rfl | h
          · by_cases hb : b.toNat < 128
            · refine ⟨b, List.mem_cons_self, ?_⟩
              rw [decodeFirst_ascii hb, toNat_ofNat_of_isScalar (.inl (by omega))]
            · have := decodeFirst_wide (Nat.le_of_not_lt hb) rest
              omega
          · obtain ⟨b', hb', heq⟩ := ih h
            exact ⟨b', List.mem_cons_of_mem _ hb', heq⟩

/-- Bytes without a zero are decoded to text without a NUL. -/
theorem nul_not_mem_fromUtf8Lossy {bytes : Bytes} (h : (0 : UInt8) ∉ bytes) :
    Char.ofNat 0 ∉ (fromUtf8Lossy bytes).toList := by
  unfold fromUtf8Lossy
  rw [String.toList_ofList]
  intro hmem
  obtain ⟨b, hb, hzero⟩ := exists_byte_of_mem_lossyChars (by decide) hmem
  obtain rfl : b = 0 := UInt8.toNat_inj.mp hzero
  exact h hb

/-! ## Cutting a byte string at an ASCII byte -/

theorem not_continuation_of_ascii {a : UInt8} (h : a.toNat < 128) : isContinuation a = false := by
  cases hc : isContinuation a with
  | false => rfl
  | true =>
      have := toNat_of_isContinuation hc
      omega

theorem not_secondByteOk_of_ascii {a : UInt8} (h : a.toNat < 128) (first : UInt8) :
    secondByteOk first a = false := by
  cases hs : secondByteOk first a with
  | false => rfl
  | true =>
      have := toNat_of_secondByteOk hs
      omega

/-- A sequence does not go past the end of the bytes. -/
theorem decodeFirst_le (b : UInt8) (rest : Bytes) : (decodeFirst b rest).2 ≤ rest.length := by
  have hzero : (0 : UInt8).toNat < 128 := by decide
  have hcont := not_continuation_of_ascii hzero
  have hsecond := not_secondByteOk_of_ascii hzero b
  unfold decodeFirst
  dsimp only
  match rest with
  | [] => split <;> simp [hcont, hsecond]
  | [x] => split <;> simp [hcont] <;> split <;> simp
  | [x, y] => split <;> simp [hcont] <;> grind
  | x :: y :: z :: tail => split <;> simp <;> grind

/-- A sequence does not go past an ASCII byte. -/
theorem decodeFirst_append {a : UInt8} (h : a.toNat < 128) (b : UInt8) (bytes rest : Bytes) :
    decodeFirst b (bytes ++ a :: rest) = decodeFirst b bytes := by
  have hzero : (0 : UInt8).toNat < 128 := by decide
  have hcont := not_continuation_of_ascii hzero
  have hsecond := not_secondByteOk_of_ascii hzero b
  have hcont' := not_continuation_of_ascii h
  have hsecond' := not_secondByteOk_of_ascii h b
  unfold decodeFirst
  dsimp only
  match bytes with
  | [] => simp [hcont, hsecond, hcont', hsecond']
  | [x] => simp [hcont, hcont']
  | [x, y] => simp [hcont, hcont']
  | x :: y :: z :: tail => simp

theorem lossyChars_skip_append {a : UInt8} (h : a.toNat < 128) (rest : Bytes) {skip : Nat}
    {bytes : Bytes} (hskip : skip ≤ bytes.length) :
    lossyChars skip (bytes ++ a :: rest) =
      lossyChars skip bytes ++ Char.ofNat a.toNat :: lossyChars 0 rest := by
  induction bytes generalizing skip with
  | nil =>
      obtain rfl : skip = 0 := Nat.le_zero.mp hskip
      simp only [List.nil_append, lossyChars, decodeFirst_ascii h]
  | cons b bytes ih =>
      cases skip with
      | zero =>
          rw [List.cons_append, lossyChars, lossyChars, decodeFirst_append h,
            ih (decodeFirst_le b bytes), List.cons_append]
      | succ skip =>
          rw [List.cons_append, lossyChars, lossyChars]
          exact ih (Nat.le_of_succ_le_succ hskip)

/-- Decoding can be cut at an ASCII byte. -/
theorem lossyChars_append {a : UInt8} (h : a.toNat < 128) (bytes rest : Bytes) :
    lossyChars 0 (bytes ++ a :: rest) =
      lossyChars 0 bytes ++ Char.ofNat a.toNat :: lossyChars 0 rest :=
  lossyChars_skip_append h rest (Nat.zero_le _)

/-- Text that starts with an ASCII character decodes to itself, whatever stands around it. -/
theorem lossyChars_around {s : String} {c : Char} {cs : List Char} (hc : c.toNat < 128)
    (hs : c :: cs = s.toList) (before after : Bytes) :
    lossyChars 0 (before ++ asBytes s ++ after) =
      lossyChars 0 before ++ s.toList ++ lossyChars 0 after := by
  have hbyte : String.utf8EncodeChar c = [UInt8.ofNat c.toNat] := by
    unfold String.utf8EncodeChar
    rw [show c.val.toNat = c.toNat from rfl]
    dsimp only
    rw [if_pos (by omega)]
  have hnat : (UInt8.ofNat c.toNat).toNat = c.toNat := toNat_ofNat_lt (by omega)
  unfold asBytes
  rw [← hs, List.flatMap_cons, hbyte, List.append_assoc, List.append_assoc, List.singleton_append,
    lossyChars_append (by rw [hnat]; exact hc), lossyChars_flatMap_append, hnat,
    Char.ofNat_toNat]
  simp

end Michoi
