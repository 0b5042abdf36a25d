/-
  The chunks the server writes, and how they read back.

  A written chunk is one of the chunks that `readChunked` takes, with the size as plain
  hexadecimal digits and no extension. The data is taken by its length, so it may hold line
  ends and digits of its own.

  `decode` is the coding as a client reads it while the body still grows: the data so far,
  and whether the zero chunk came.
-/
import Michoi.AgentServer.Body

namespace Michoi

open Lib

/-- `write_chunk`: what it writes. -/
def writeChunk (data : Bytes) : Bytes :=
  asBytes (hex data.length ++ "\r\n") ++ data ++ asBytes "\r\n"

/-- The zero chunk that ends a body. -/
def zeroChunk : Bytes := asBytes "0\r\n\r\n"

/-- A written chunk, in the grammar of chunked bodies. -/
def sentChunk (data : Bytes) : Chunk where
  size := hex data.length
  ext := []
  data := data

theorem asBytes_append (s t : String) : asBytes (s ++ t) = asBytes s ++ asBytes t := by
  unfold asBytes
  rw [String.toList_append, List.flatMap_append]

theorem asBytes_crlf : asBytes "\r\n" = crlf := by decide

theorem bytes_sentChunk (data : Bytes) : (sentChunk data).bytes = writeChunk data := by
  simp [sentChunk, Chunk.bytes, Chunk.line, writeChunk, asBytes_append, asBytes_crlf]

theorem extension_nil : Extension [] := ⟨nofun, .inl rfl⟩

theorem wellFormed_sentChunk {data : Bytes} (h : data ≠ []) : (sentChunk data).WellFormed where
  size := digitsValue_hex data.length
  sizeDigits := hex_ne_empty data.length
  data := h
  ext := extension_nil

/-- A size that fits `usize` makes a short line. -/
theorem length_line_sentChunk {bits : Nat} (hbits : bits = 32 ∨ bits = 64) {data : Bytes}
    (h : data.length < 2 ^ bits) : (sentChunk data).line.length ≤ maxLine := by
  have hwide : data.length < 16 ^ 16 := by
    rcases hbits with rfl | rfl
    · exact Nat.lt_trans h (by decide)
    · exact h
  have hdigits := length_hex_le (by decide) hwide
  rw [Chunk.line, sentChunk, List.append_nil]
  exact Nat.le_trans hdigits (by decide)

/-- A body of written chunks, as it is sent. -/
def sentChunks (chunks : List Bytes) : SentBody := .chunked (chunks.map sentChunk) "0" [] []

theorem bytes_sentChunks (chunks : List Bytes) :
    (sentChunks chunks).bytes = chunks.flatMap writeChunk ++ zeroChunk := by
  have hzero : zeroChunk = asBytes "0" ++ crlf ++ crlf := by decide
  simp [sentChunks, SentBody.bytes, List.flatMap_map, bytes_sentChunk, headLines, hzero]

theorem wellFormed_sentChunks {chunks : List Bytes} (h : ∀ data ∈ chunks, data ≠ []) :
    (sentChunks chunks).WellFormed := by
  refine ⟨?_, by decide, by decide, extension_nil, nofun⟩
  intro c hc
  obtain ⟨data, hdata, rfl⟩ := List.mem_map.mp hc
  exact wellFormed_sentChunk (h data hdata)

theorem flatMap_data_sentChunk (chunks : List Bytes) :
    (chunks.map sentChunk).flatMap Chunk.data = chunks.flatten := by
  rw [List.flatMap_map]
  exact List.flatMap_id'

/-- A chunk is no longer than all of them. -/
theorem length_le_length_flatten {α : Type} {parts : List (List α)} {part : List α}
    (h : part ∈ parts) : part.length ≤ parts.flatten.length :=
  (List.sublist_flatten_of_mem h).length_le

/-- **Written chunks read back**, and what follows them stays unread, where a `Vec` can hold
    them and they are within the limit. -/
theorem readChunked_writeChunk {bits limit : Nat} (hbits : bits = 32 ∨ bits = 64)
    {chunks : List Bytes} (hchunks : ∀ data ∈ chunks, data ≠ [])
    (hvec : chunks.flatten.length ≤ isizeMax bits) (htotal : chunks.flatten.length ≤ limit)
    (rest : Bytes) :
    (readChunked bits limit (chunks.flatMap writeChunk ++ zeroChunk ++ rest)).result =
      .ok (chunks.flatten, rest) := by
  have hlines : ∀ line ∈ (sentChunks chunks).lines, line.length ≤ maxLine := by
    simp only [sentChunks, SentBody.lines, List.map_nil, List.forall_mem_append,
      List.forall_mem_cons, List.map_map, List.forall_mem_map]
    refine ⟨fun data hdata => length_line_sentChunk hbits ?_, by decide,
      fun _ hline => absurd hline List.not_mem_nil⟩
    have hlength := length_le_length_flatten hdata
    have husize := isizeMax_lt bits
    omega
  have hread := @readChunked_bytes bits limit rest _ _ _ _ (wellFormed_sentChunks hchunks)
    (by rw [flatMap_data_sentChunk]; exact hvec) (by rw [flatMap_data_sentChunk]; exact htotal)
  rw [← bytes_sentChunks]
  exact hread.trans ((if_pos hlines).trans (by rw [flatMap_data_sentChunk]))

/-- Data that looks like the end of the body, with the next request behind it. -/
theorem readChunked_line_ends :
    (readChunked 64 maxBody ([asBytes "\r\n0\r\n\r\n", asBytes "a"].flatMap writeChunk ++
      zeroChunk ++ asBytes "GET / HTTP/1.1\r\n")).result =
        .ok (asBytes "\r\n0\r\n\r\na", asBytes "GET / HTTP/1.1\r\n") :=
  readChunked_writeChunk (.inr rfl) (by decide) (by decide +kernel) (by decide) _

/-! ## Decoding what was written so far -/

/-- The size in the next line, and what follows the line. -/
def decodeSize (unread : Bytes) : Option (Nat × Bytes) :=
  match scan [cr, lf] unread.length [] unread with
  | .found line rest =>
      let text := lossyChars 0 (line.take (line.length - 2))
      let digits := trimChars ((text.splitOn ';').headD [])
      if digits.isEmpty then none else (digitsValue 16 0 digits).map fun size => (size, rest)
  | .long | .ended => none

/-- What a client has of a body in chunks. -/
structure Decoded where
  data : Bytes
  ended : Bool
  deriving DecidableEq, Repr

/-- One chunk after the other; each is some bytes at least, so the bytes bound the chunks. -/
def decodeLoop : Nat → Bytes → Decoded
  | 0, _ => ⟨[], false⟩
  | n + 1, unread =>
      match decodeSize unread with
      | none => ⟨[], false⟩
      | some (size, rest) =>
          if size = 0 then ⟨[], true⟩
          else
            -- After the data comes a line end.
            let more := decodeLoop n (rest.drop (size + 2))
            ⟨rest.take size ++ more.data, more.ended⟩

def decode (unread : Bytes) : Decoded := decodeLoop (unread.length + 1) unread

theorem decodeSize_line {n : Nat} {size : String} (hne : size ≠ "")
    (hsize : digitsValue 16 0 size.toList = some n) (rest : Bytes) :
    decodeSize (asBytes size ++ crlf ++ rest) = some (n, rest) := by
  have hline := sizeLine_ok hsize extension_nil
  have htrimmed := trimmed_sizeLine hne hsize extension_nil
  rw [List.append_nil] at hline htrimmed
  have hempty : size.toList.isEmpty = false := by
    rw [List.isEmpty_eq_false_iff]
    exact fun hnil => hne (String.toList_eq_nil_iff.mp hnil)
  unfold decodeSize crlf
  rw [scan_append (endsFirst_line hline) (by simp), if_pos (by simp)]
  have htake : (asBytes size ++ [cr, lf]).take ((asBytes size ++ [cr, lf]).length - 2) =
      asBytes size := by simp
  dsimp only
  rw [htake, htrimmed, hempty, hsize]
  rfl

theorem decodeSize_writeChunk (data rest : Bytes) :
    decodeSize (writeChunk data ++ rest) = some (data.length, data ++ crlf ++ rest) := by
  have hsplit : writeChunk data ++ rest =
      asBytes (hex data.length) ++ crlf ++ (data ++ crlf ++ rest) := by
    simp [writeChunk, asBytes_append, asBytes_crlf]
  rw [hsplit, decodeSize_line (hex_ne_empty data.length) (digitsValue_hex data.length)]

theorem decodeLoop_writeChunk (n : Nat) {data : Bytes} (h : data ≠ []) (rest : Bytes) :
    decodeLoop (n + 1) (writeChunk data ++ rest) =
      ⟨data ++ (decodeLoop n rest).data, (decodeLoop n rest).ended⟩ := by
  have hpos : data.length ≠ 0 := fun hzero => h (List.length_eq_zero_iff.mp hzero)
  have hdrop : (data ++ crlf ++ rest).drop (data.length + 2) = rest :=
    List.drop_left' (by simp [crlf])
  have htake : (data ++ crlf ++ rest).take data.length = data := by
    rw [List.append_assoc, List.take_left]
  rw [decodeLoop, decodeSize_writeChunk]
  dsimp only
  rw [if_neg hpos, hdrop, htake]

theorem decodeLoop_writeChunks (n : Nat) {chunks : List Bytes} (h : ∀ data ∈ chunks, data ≠ [])
    (rest : Bytes) :
    decodeLoop (chunks.length + n) (chunks.flatMap writeChunk ++ rest) =
      ⟨chunks.flatten ++ (decodeLoop n rest).data, (decodeLoop n rest).ended⟩ := by
  induction chunks with
  | nil => simp
  | cons data chunks ih =>
      rw [List.flatMap_cons, List.append_assoc, List.length_cons,
        show chunks.length + 1 + n = chunks.length + n + 1 by omega,
        decodeLoop_writeChunk _ (h data List.mem_cons_self),
        ih fun data hdata => h data (List.mem_cons_of_mem _ hdata), List.flatten_cons,
        List.append_assoc]

/-- Written chunks decode to their data, and then what follows them. -/
theorem decode_writeChunks {chunks : List Bytes} (h : ∀ data ∈ chunks, data ≠ [])
    (rest : Bytes) : ∃ n, decode (chunks.flatMap writeChunk ++ rest) =
      ⟨chunks.flatten ++ (decodeLoop (n + 1) rest).data, (decodeLoop (n + 1) rest).ended⟩ := by
  have hcount : chunks.length ≤ (chunks.flatMap writeChunk ++ rest).length := by
    have := length_le_length_flatMap chunks (f := writeChunk)
      (by simp [writeChunk, asBytes_crlf, crlf])
    rw [List.length_append]
    exact Nat.le_add_right_of_le this
  obtain ⟨n, hn⟩ := Nat.exists_eq_add_of_le hcount
  refine ⟨n, ?_⟩
  unfold decode
  rw [hn, Nat.add_assoc, decodeLoop_writeChunks (n + 1) h]

@[simp] theorem decodeLoop_nil (n : Nat) : decodeLoop n [] = ⟨[], false⟩ := by
  cases n <;> rfl

/-- An empty chunk is a zero chunk. -/
theorem writeChunk_nil : writeChunk [] = zeroChunk := by decide +kernel

@[simp] theorem decodeLoop_zeroChunk (n : Nat) (rest : Bytes) :
    decodeLoop (n + 1) (zeroChunk ++ rest) = ⟨[], true⟩ := by
  rw [← writeChunk_nil, decodeLoop, decodeSize_writeChunk]
  rfl

/-! ## A body that breaks off -/

/-- The line of a size that has not come in whole gives none. -/
theorem decodeSize_part {n : Nat} {size : String} (hsize : digitsValue 16 0 size.toList = some n)
    {part : Bytes} (hpart : part <+: asBytes size ++ crlf) (hne : part ≠ asBytes size ++ crlf) :
    decodeSize part = none := by
  have hline := sizeLine_ok hsize extension_nil
  rw [List.append_nil] at hline
  unfold decodeSize
  split
  · next hfound => exact absurd hfound (scan_part (endsFirst_line hline) hpart hne)
  · rfl
  · rfl

/-- **Of written chunks that break off anywhere** the data decodes that came in. -/
theorem decodeLoop_of_part {chunks : List Bytes} (h : ∀ data ∈ chunks, data ≠ []) {rest : Bytes}
    (hrest : ∀ n got, got <+: rest → (decodeLoop n got).data = []) (n : Nat) {got : Bytes}
    (hgot : got <+: chunks.flatMap writeChunk ++ rest) :
    (decodeLoop n got).data <+: chunks.flatten := by
  induction chunks generalizing n got with
  | nil =>
      rw [hrest n got hgot]
      exact List.nil_prefix
  | cons data chunks ih =>
      obtain ⟨hdata, hchunks⟩ := List.forall_mem_cons.mp h
      have hsplit : (data :: chunks).flatMap writeChunk ++ rest =
          (asBytes (hex data.length) ++ crlf) ++
            (data ++ (crlf ++ (chunks.flatMap writeChunk ++ rest))) := by
        simp [writeChunk, asBytes_append, asBytes_crlf]
      rw [hsplit] at hgot
      cases n with
      | zero => exact List.nil_prefix
      | succ n =>
          by_cases hline : asBytes (hex data.length) ++ crlf <+: got
          · obtain ⟨more, rfl⟩ := hline
            have hmore := (List.prefix_append_right_inj _).mp hgot
            have hpos : data.length ≠ 0 := fun hzero => hdata (List.length_eq_zero_iff.mp hzero)
            rw [decodeLoop, decodeSize_line (hex_ne_empty _) (digitsValue_hex _)]
            dsimp only
            rw [if_neg hpos, List.flatten_cons]
            by_cases hwhole : data <+: more
            · obtain ⟨after, rfl⟩ := hwhole
              rw [List.take_left]
              apply (List.prefix_append_right_inj _).mpr
              have hafter := (List.prefix_append_right_inj _).mp hmore
              rw [List.drop_append, List.drop_eq_nil_of_le (by omega), List.nil_append,
                show data.length + 2 - data.length = crlf.length by simp [crlf]]
              apply ih hchunks n
              have hdrop := hafter.drop crlf.length
              rwa [List.drop_left] at hdrop
            · -- The data itself breaks off, and nothing follows it.
              have hin : more <+: data :=
                (List.prefix_or_prefix_of_prefix hmore (List.prefix_append ..)).resolve_right
                  hwhole
              rw [List.drop_eq_nil_of_le (by have := hin.length_le; omega), decodeLoop_nil,
                List.append_nil, List.take_of_length_le hin.length_le]
              exact hin.trans (List.prefix_append ..)
          · have hpart : got <+: asBytes (hex data.length) ++ crlf :=
              (List.prefix_or_prefix_of_prefix hgot (List.prefix_append ..)).resolve_right hline
            have hne : got ≠ asBytes (hex data.length) ++ crlf := fun heq =>
              hline (heq ▸ List.prefix_rfl)
            rw [decodeLoop, decodeSize_part (digitsValue_hex _) hpart hne]
            exact List.nil_prefix

end Michoi
