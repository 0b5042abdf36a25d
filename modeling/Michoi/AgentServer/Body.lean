/-
  Well-formed bodies read back.

  The reader of chunked bodies takes a line of at most `maxLine` bytes before its end
  (`readLine_line`). A body with longer lines fails; every other one is read to its end, and
  no further: `readBody_bare`.
-/
import Michoi.AgentServer.Limit
import Michoi.AgentServer.Sent

namespace Michoi

open Lib

/-- The longest line that `read_line` takes, without its end. -/
def maxLine : Nat := 1023

/-! ## Lines -/

theorem readLine_line {line : Bytes} (h : cr ∉ line) (rest : Bytes) :
    readLine (line ++ crlf ++ rest) =
      if line.length ≤ maxLine then .ok (lossyChars 0 line, rest) else .error .failed := by
  unfold readLine crlf
  rw [scan_append (endsFirst_line h) (by simp), List.length_append]
  by_cases hshort : line.length ≤ maxLine
  · have : line.length ≤ 1023 := hshort
    rw [if_pos (by simp; omega), if_pos hshort]
    simp
  · have : ¬ line.length ≤ 1023 := hshort
    rw [if_neg (by simp; omega), if_neg hshort]

/-- An empty line. -/
theorem readLine_crlf (rest : Bytes) : readLine (crlf ++ rest) = .ok ([], rest) := by
  have h := readLine_line List.not_mem_nil rest
  rw [List.nil_append, if_pos (by decide)] at h
  exact h

/-- Blanks are white space. -/
theorem isWhitespace_of_blank {bytes : Bytes} (h : Blank bytes) :
    ∀ c ∈ lossyChars 0 bytes, isWhitespace c = true := by
  induction bytes with
  | nil => simp [lossyChars]
  | cons b rest ih =>
      have hb : b = 0x20 ∨ b = 0x09 := h b List.mem_cons_self
      have hascii : b.toNat < 128 := by
        rcases hb with rfl | rfl <;> decide
      rw [lossyChars, decodeFirst_ascii hascii]
      intro c hc
      rcases List.mem_cons.mp hc with rfl | hc
      · rcases hb with rfl | rfl <;> decide
      · exact ih (fun b hb => h b (List.mem_cons_of_mem _ hb)) c hc

/-- What the digits of a number are. -/
theorem digits_ok {radix n : Nat} {digits : String}
    (h : digitsValue radix 0 digits.toList = some n) :
    ∀ c ∈ digits.toList, isVisible c = true ∧ isWhitespace c = false := by
  intro c hc
  have hvisible := isVisible_of_toDigit (toDigit_of_digitsValue h c hc)
  exact ⟨hvisible, not_isWhitespace_of_isVisible hvisible⟩

theorem not_digit_semicolon : (toDigit 16 ';').isSome = false := by decide

section

variable {n : Nat} {size : String} {ext : Bytes}

theorem sizeLine_ok (hsize : digitsValue 16 0 size.toList = some n) (hext : Extension ext) :
    cr ∉ asBytes size ++ ext := by
  rw [List.mem_append, not_or]
  refine ⟨not_mem_asBytes_of_visible (fun c hc => .inl (digits_ok hsize c hc).1) (by decide), ?_⟩
  exact fun hmem => (hext.1 cr hmem).1 rfl

/-- The size in a line, before its extensions. -/
theorem trimmed_sizeLine (hne : size ≠ "") (hsize : digitsValue 16 0 size.toList = some n)
    (hext : Extension ext) :
    trimChars (((lossyChars 0 (asBytes size ++ ext)).splitOn ';').headD []) = size.toList := by
  have hword : size.toList ≠ [] := fun hnil => hne (String.toList_eq_nil_iff.mp hnil)
  have hspace : ∀ c ∈ size.toList, isWhitespace c = false := fun c hc => (digits_ok hsize c hc).2
  have hsemicolon : ';' ∉ size.toList := by
    intro hmem
    have := toDigit_of_digitsValue hsize ';' hmem
    simp [not_digit_semicolon] at this
  rw [lossyChars_asBytes_append]
  rcases hext.2 with rfl | ⟨blanks, more, rfl, hblanks⟩
  · rw [show lossyChars 0 [] = [] from rfl, List.append_nil, headD_splitOn hsemicolon,
      trimChars_eq hword hspace]
  · have hblank : ';' ∉ lossyChars 0 blanks := by
      intro hmem
      have := isWhitespace_of_blank hblanks ';' hmem
      revert this
      decide
    rw [lossyChars_append (by decide), show Char.ofNat (0x3b : UInt8).toNat = ';' from rfl,
      ← List.append_assoc, headD_splitOn_append (by simp [hsemicolon, hblank])]
    exact @trimChars_word [] _ _ hword hspace (by simp) (isWhitespace_of_blank hblanks)

theorem readChunkSize_line (bits : Nat) (rest : Bytes) (hne : size ≠ "")
    (hsize : digitsValue 16 0 size.toList = some n) (hn : n < 2 ^ bits) (hext : Extension ext) :
    readChunkSize bits (asBytes size ++ ext ++ crlf ++ rest) =
      if (asBytes size ++ ext).length ≤ maxLine then .ok (n, rest) else .error .failed := by
  have hword : size.toList ≠ [] := fun hnil => hne (String.toList_eq_nil_iff.mp hnil)
  unfold readChunkSize
  rw [readLine_line (sizeLine_ok hsize hext)]
  by_cases hshort : (asBytes size ++ ext).length ≤ maxLine
  · rw [if_pos hshort, if_pos hshort]
    simp only [trimmed_sizeLine hne hsize hext, fromStrRadix_digits hword hsize hn]
  · rw [if_neg hshort, if_neg hshort]

end

/-! ## Chunks -/

section

variable {bits limit : Nat} {body rest : Bytes}

/-- A buffer within the limit of bodies fits a `Vec`. -/
theorem maxBody_le_isizeMax (hbits : bits = 32 ∨ bits = 64) : maxBody ≤ isizeMax bits := by
  rcases hbits with rfl | rfl <;> decide

theorem isizeMax_lt (bits : Nat) : isizeMax bits < 2 ^ bits := by
  have hpos := Nat.two_pow_pos (bits - 1)
  have hle := Nat.pow_le_pow_right (show 0 < 2 by decide) (Nat.sub_le bits 1)
  unfold isizeMax
  omega

theorem readExact_append (xs rest : Bytes) : readExact xs.length (xs ++ rest) = .ok (xs, rest) := by
  unfold readExact
  rw [if_pos (by simp)]
  simp

/-- A chunk is read whole, unless its line is too long. -/
theorem chunkRound_chunk (rest : Bytes) {c : Chunk} (h : c.WellFormed)
    (hvec : body.length + c.data.length ≤ isizeMax bits)
    (hfits : body.length + c.data.length ≤ limit) :
    (chunkRound bits limit body (c.bytes ++ rest)).step =
      if c.line.length ≤ maxLine then .more (body ++ c.data) rest else .fault .failed := by
  have husize := isizeMax_lt bits
  have hbytes : c.bytes ++ rest =
      asBytes c.size ++ c.ext ++ crlf ++ (c.data ++ (crlf ++ rest)) := by
    simp [Chunk.bytes, Chunk.line]
  have hpos : c.data.length ≠ 0 := fun hzero => h.data (List.length_eq_zero_iff.mp hzero)
  have hsize := readChunkSize_line bits (c.data ++ (crlf ++ rest)) h.sizeDigits h.size (by omega)
    h.ext
  rw [hbytes]
  by_cases hshort : c.line.length ≤ maxLine
  · rw [show asBytes c.size ++ c.ext = c.line from rfl, if_pos hshort] at hsize
    rw [show asBytes c.size ++ c.ext = c.line from rfl, if_pos hshort,
      chunkRound_of_size hsize hpos, Nat.mod_eq_of_lt (by omega), if_neg (by omega)]
    unfold readChunk
    simp only [readExact_append, List.length_append, readLine_crlf]
    rw [if_neg (by omega), if_neg (by omega)]
  · rw [show asBytes c.size ++ c.ext = c.line from rfl, if_neg hshort] at hsize
    rw [show asBytes c.size ++ c.ext = c.line from rfl, if_neg hshort]
    unfold chunkRound
    rw [hsize]

/-- The chunks of a body, one round each. -/
theorem chunkedLoop_chunks {chunks : List Chunk} (h : ∀ c ∈ chunks, c.WellFormed) (n : Nat)
    (hvec : body.length + (chunks.flatMap Chunk.data).length ≤ isizeMax bits)
    (hfits : body.length + (chunks.flatMap Chunk.data).length ≤ limit) :
    (chunkedLoop bits limit (chunks.length + n) body
        (chunks.flatMap Chunk.bytes ++ rest)).result =
      if ∀ line ∈ chunks.map Chunk.line, line.length ≤ maxLine then
        (chunkedLoop bits limit n (body ++ chunks.flatMap Chunk.data) rest).result
      else .error .failed := by
  induction chunks generalizing body with
  | nil => simp
  | cons c chunks ih =>
      rw [List.flatMap_cons, List.length_append] at hvec hfits
      have hround := chunkRound_chunk (chunks.flatMap Chunk.bytes ++ rest)
        (h c List.mem_cons_self) (show body.length + c.data.length ≤ isizeMax bits by omega)
        (show body.length + c.data.length ≤ limit by omega)
      rw [List.flatMap_cons, List.append_assoc, List.length_cons,
        show chunks.length + 1 + n = chunks.length + n + 1 by omega, chunkedLoop]
      dsimp only
      rw [hround]
      by_cases hshort : c.line.length ≤ maxLine
      · rw [if_pos hshort]
        dsimp only
        rw [ih (fun c hc => h c (List.mem_cons_of_mem _ hc)) (by rw [List.length_append]; omega)
          (by rw [List.length_append]; omega)]
        simp [hshort]
      · rw [if_neg hshort, if_neg (by simp [hshort])]

/-- The lines of a trailer section, up to the empty one. -/
theorem readTrailers_lines (rest : Bytes) {trailers : List Field}
    (h : ∀ f ∈ trailers, f.WellFormed) (n : Nat) :
    readTrailers (trailers.length + 1 + n)
        (headLines cr lf (trailers.map Field.line) ++ crlf ++ rest) =
      if ∀ line ∈ trailers.map Field.line, line.length ≤ maxLine then .ok ((), rest)
      else .error .failed := by
  induction trailers with
  | nil =>
      rw [show ([] : List Field).length + 1 + n = n + 1 by simp [Nat.add_comm], readTrailers]
      simp only [List.map_nil, headLines, List.flatMap_nil, List.nil_append, readLine_crlf]
      simp
  | cons f trailers ih =>
      have hline := Field.line_ok (h f List.mem_cons_self)
      have hsome : (lossyChars 0 f.line).isEmpty = false := by
        have hheader := Field.headerOf_line (h f List.mem_cons_self)
        cases hempty : lossyChars 0 f.line with
        | nil =>
            rw [hempty] at hheader
            cases hheader
        | cons c cs => rfl
      have hsplit : headLines cr lf ((f :: trailers).map Field.line) ++ crlf ++ rest =
          f.line ++ crlf ++ (headLines cr lf (trailers.map Field.line) ++ crlf ++ rest) := by
        simp [headLines, crlf]
      rw [hsplit, List.length_cons,
        show trailers.length + 1 + 1 + n = trailers.length + 1 + n + 1 by omega, readTrailers,
        readLine_line hline.1]
      by_cases hshort : f.line.length ≤ maxLine
      · rw [if_pos hshort]
        simp only [hsome, Bool.false_eq_true, if_false]
        rw [ih (fun f hf => h f (List.mem_cons_of_mem _ hf))]
        simp [hshort]
      · rw [if_neg hshort, if_neg (by simp [hshort])]

/-- Parts that are not empty make the whole as long as there are parts. -/
theorem length_le_length_flatMap {α β : Type} (parts : List α) {f : α → List β}
    (h : ∀ x ∈ parts, f x ≠ []) : parts.length ≤ (parts.flatMap f).length := by
  induction parts with
  | nil => simp
  | cons x parts ih =>
      have hpos := List.length_pos_iff.mpr (h x List.mem_cons_self)
      have hrest := ih fun y hy => h y (List.mem_cons_of_mem _ hy)
      rw [List.flatMap_cons, List.length_append, List.length_cons]
      omega

/-- The last chunk and the trailer section end the body. -/
theorem chunkRound_last {zeros : String} {ext : Bytes} {trailers : List Field} (hne : zeros ≠ "")
    (hzeros : digitsValue 16 0 zeros.toList = some 0) (hext : Extension ext)
    (htrailers : ∀ f ∈ trailers, f.WellFormed) :
    (chunkRound bits limit body (asBytes zeros ++ ext ++ crlf ++
        (headLines cr lf (trailers.map Field.line) ++ crlf ++ rest))).step =
      if (asBytes zeros ++ ext).length ≤ maxLine ∧
          ∀ line ∈ trailers.map Field.line, line.length ≤ maxLine then .done rest
      else .fault .failed := by
  have hsize := readChunkSize_line bits (headLines cr lf (trailers.map Field.line) ++ crlf ++ rest)
    hne hzeros (Nat.two_pow_pos bits) hext
  -- Each trailer is some bytes, so the bytes are rounds enough for `readTrailers`.
  have hcount : trailers.length ≤
      (headLines cr lf (trailers.map Field.line) ++ crlf ++ rest).length := by
    have := length_le_length_flatMap (trailers.map Field.line) (f := fun line => line ++ [cr, lf])
      (by simp)
    rw [List.length_map] at this
    rw [List.append_assoc, List.length_append]
    exact Nat.le_add_right_of_le this
  obtain ⟨n, hn⟩ := Nat.exists_eq_add_of_le hcount
  have htail := readTrailers_lines rest htrailers n
  unfold chunkRound
  by_cases hshort : (asBytes zeros ++ ext).length ≤ maxLine
  · rw [if_pos hshort] at hsize
    rw [hsize]
    dsimp only
    rw [if_pos rfl, hn, Nat.add_right_comm, htail]
    by_cases hall : ∀ line ∈ trailers.map Field.line, line.length ≤ maxLine
    · rw [if_pos hall, if_pos ⟨hshort, hall⟩]
    · rw [if_neg hall, if_neg fun h => hall h.2]
  · rw [if_neg hshort] at hsize
    rw [hsize, if_neg fun h => hshort h.1]

/-- **A body in chunks reads back**, unless one of its lines is too long. -/
theorem readChunked_bytes {chunks : List Chunk} {zeros : String} {ext : Bytes}
    {trailers : List Field} (h : (SentBody.chunked chunks zeros ext trailers).WellFormed)
    (hvec : (chunks.flatMap Chunk.data).length ≤ isizeMax bits)
    (hfits : (chunks.flatMap Chunk.data).length ≤ limit) :
    (readChunked bits limit ((SentBody.chunked chunks zeros ext trailers).bytes ++ rest)).result =
      if ∀ line ∈ (SentBody.chunked chunks zeros ext trailers).lines, line.length ≤ maxLine then
        .ok (chunks.flatMap Chunk.data, rest)
      else .error .failed := by
  obtain ⟨hchunks, hne, hzeros, hext, htrailers⟩ := h
  have hbytes : (SentBody.chunked chunks zeros ext trailers).bytes ++ rest =
      chunks.flatMap Chunk.bytes ++ (asBytes zeros ++ ext ++ crlf ++
        (headLines cr lf (trailers.map Field.line) ++ crlf ++ rest)) := by
    simp [SentBody.bytes]
  have hcount : chunks.length ≤
      ((SentBody.chunked chunks zeros ext trailers).bytes ++ rest).length := by
    have := length_le_length_flatMap chunks (f := Chunk.bytes) (by simp [Chunk.bytes, crlf])
    rw [hbytes, List.length_append]
    exact Nat.le_add_right_of_le this
  obtain ⟨n, hn⟩ := Nat.exists_eq_add_of_le hcount
  unfold readChunked
  rw [hn, Nat.add_assoc, hbytes, chunkedLoop_chunks hchunks (n + 1) (by simpa using hvec)
    (by simpa using hfits), List.nil_append, chunkedLoop]
  dsimp only
  rw [chunkRound_last hne hzeros hext htrailers]
  simp only [SentBody.lines, List.forall_mem_append, List.forall_mem_cons]
  by_cases hfirst : ∀ line ∈ chunks.map Chunk.line, line.length ≤ maxLine
  · rw [if_pos hfirst]
    by_cases hlast : (asBytes zeros ++ ext).length ≤ maxLine ∧
        ∀ line ∈ trailers.map Field.line, line.length ≤ maxLine
    · rw [if_pos hlast, if_pos ⟨hfirst, hlast⟩]
    · rw [if_neg hlast, if_neg fun h => hlast h.2]
  · rw [if_neg hfirst, if_neg fun h => hfirst h.1]

end

/-! ## Bodies -/

section

variable {bits : Nat} {r : SentRequest}

/-- A visible word is trimmed from what stands around it. -/
theorem trimmed_word {word : String} (h : IsWord word) (before after : Bytes) :
    trimChars (lossyChars 0 (before ++ asBytes word ++ after)) =
      (lossyChars 0 before).dropWhile isWhitespace ++ word.toList ++
        ((lossyChars 0 after).reverse.dropWhile isWhitespace).reverse := by
  have hne : word.toList ≠ [] := fun hnil => h.1 (String.toList_eq_nil_iff.mp hnil)
  obtain ⟨c, cs, hcons⟩ := List.exists_cons_of_ne_nil hne
  have hc := isVisible_iff.mp (h.2 c (by rw [hcons]; exact List.mem_cons_self))
  rw [lossyChars_around (by omega) hcons.symm,
    trimChars_append hne fun c hc => not_isWhitespace_of_isVisible (h.2 c hc)]

/-- The name of the coding, in any case. -/
theorem isWord_coding {coding : String} (h : toAsciiLowercase coding = "chunked") :
    IsWord coding := by
  have hchars : coding.toList.map Char.toLower = "chunked".toList := by
    rw [← h, toAsciiLowercase, String.toList_ofList]
  refine ⟨?_, fun c hc => isVisible_of_toLower ?_⟩
  · rintro rfl
    simp at hchars
  · have hmem : c.toLower ∈ "chunked".toList := hchars ▸ List.mem_map_of_mem hc
    have hletters : Visible "chunked" := by decide
    exact hletters _ hmem

/-- **A body reads back**, but not under the path of the streaming upload. -/
theorem readBody_bare (hbits : bits = 32 ∨ bits = 64) (h : r.WellFormed)
    (hpath : r.path ≠ "/v1/talk") (rest : Bytes) :
    readBody bits r.bare (r.body.bytes ++ rest) =
      if ∀ line ∈ r.body.lines, line.length ≤ maxLine then .ok (r.body.data, rest)
      else .error .failed := by
  have hannounces := h.announces
  have hbody := h.body
  have hsize := h.bodySize
  have hisize := maxBody_le_isizeMax hbits
  have husize := isizeMax_lt bits
  have hlength := SentRequest.header_bare r "content-length" (by decide)
  have hcoding := SentRequest.header_bare r "transfer-encoding" (by decide)
  unfold SentRequest.Announces at hannounces
  unfold readBody
  rw [if_pos (show r.bare.path ≠ "/v1/talk" from hpath)]
  cases hsent : r.body with
  | none =>
      rw [hsent] at hannounces
      rw [hlength, hcoding, hannounces.1, hannounces.2]
      simp [SentBody.bytes, SentBody.data, SentBody.lines]
  | sized data =>
      rw [hsent] at hannounces hsize
      obtain ⟨-, before, digits, after, hvalues, hbefore, hafter, hne, hdigits⟩ := hannounces
      have hdata : data.length ≤ maxBody := hsize
      have hword : IsWord digits := ⟨hne, fun c hc => (digits_ok hdigits c hc).1⟩
      have htrimmed := trimmed_word hword before after
      rw [List.dropWhile_eq_nil_iff.mpr (isWhitespace_of_blank hbefore),
        List.dropWhile_eq_nil_iff.mpr fun c hc =>
          isWhitespace_of_blank hafter c (List.mem_reverse.mp hc),
        List.reverse_nil, List.nil_append, List.append_nil] at htrimmed
      have hparsed : fromStrRadix bits 10 digits.toList = some data.length :=
        fromStrRadix_digits (fun hnil => hne (String.toList_eq_nil_iff.mp hnil)) hdigits (by omega)
      rw [hlength, hvalues]
      simp only [List.head?_cons, Option.map_some, htrimmed, String.toList_ofList, hparsed]
      rw [if_neg (Nat.not_lt.mpr hdata)]
      simp [SentBody.bytes, SentBody.data, SentBody.lines, readExact_append]
  | chunked chunks zeros ext trailers =>
      rw [hsent] at hannounces hsize hbody
      obtain ⟨hnone, before, coding, after, hvalues, hbefore, hafter, hname⟩ := hannounces
      have hchunked : contains (toAsciiLowercase (String.ofList
          (trimChars (lossyChars 0 (before ++ asBytes coding ++ after))))) "chunked" = true := by
        rw [← hname]
        exact contains_lower (by rw [String.toList_ofList, trimmed_word (isWord_coding hname)])
      rw [hlength, hcoding, hnone, hvalues]
      simp only [List.head?_nil, Option.map_none, List.head?_cons, Option.map_some]
      rw [if_pos hchunked]
      exact readChunked_bytes hbody (hsize.trans (maxBody_le_isizeMax hbits)) hsize

end

end Michoi
