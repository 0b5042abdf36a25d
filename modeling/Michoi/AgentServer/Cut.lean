/-
  Talk-back audio does not depend on how it is cut, but for the chunks of an upload.

  `talk_upload` reads at most 65536 bytes of a chunk and takes what is left of it for the
  line end. One byte more is lost without a trace, which does no harm where it is not played
  anyway; two bytes more can be a line end, and then the framing is lost. `framing_free_iff`
  says which sizes of chunks are safe for all audio.
-/
import Mathlib.Algebra.Order.Ring.Nat
import Michoi.AgentServer.Talk
import Michoi.AgentServer.Token

namespace Michoi

open Lib

/-! ## Three ways to send audio -/

section

variable {A Q : Type} (port : TalkPort A) (lib : Library Q) (bits : Nat)

/-- The head of an upload with a length. -/
structure SizedTalk (r : Request) (length : Nat) : Prop where
  audio : requireContentType lib r mediaTypeL16 = .ok ()
  coding : r.header "transfer-encoding" = none
  length : ∃ digits, r.header "content-length" = some digits ∧
    fromStrRadix bits 10 digits.toList = some length

/-- The head of an upload in chunks. -/
structure ChunkedTalk (r : Request) : Prop where
  audio : requireContentType lib r mediaTypeL16 = .ok ()
  coding : ∃ v, r.header "transfer-encoding" = some v ∧
    contains (toAsciiLowercase v) "chunked" = true
  length : r.header "content-length" = none

/-- The audio of these pieces is played alike, sent with a length, in these pieces as chunks
    or over a socket, and the chunked upload is taken to its end. -/
structure FramingFree (agent : A) (pieces : List Bytes) : Prop where
  sized : ∀ r counts rest, SizedTalk lib bits r pieces.flatten.length →
    Played pieces.flatten
      (talkUpload port lib bits false counts r agent (pieces.flatten ++ rest)).talking.passed
  chunked : ∀ r counts rest, ChunkedTalk lib r →
    let run := talkUpload port lib bits false counts r agent
      (pieces.flatMap writeChunk ++ zeroChunk ++ rest)
    Played pieces.flatten run.talking.passed ∧ run.result = .ok (talkDone, rest)
  socket : ∀ items, socketAudio items = pieces.flatten →
    Played pieces.flatten (talkWebsocket port lib ⟨agent, [], []⟩ [] items).1.passed

end

/-- No chunk is larger than the buffer of the upload, but for one byte that comes after the
    last block that is played. -/
def KeepsFraming (sizes : List Nat) : Prop :=
  ∀ before size after, sizes = before ++ size :: after → maxPiece < size →
    size = maxPiece + 1 ∧ talkBlock * (sizes.sum / talkBlock) ≤ before.sum + maxPiece

/-! ## One chunk -/

section

variable {bits : Nat}

theorem readChunkSize_hex (hbits : bits = 32 ∨ bits = 64) {data : Bytes}
    (h : data.length < 2 ^ bits) (rest : Bytes) :
    readChunkSize bits (writeChunk data ++ rest) = .ok (data.length, data ++ crlf ++ rest) := by
  have hline := readChunkSize_line bits (data ++ crlf ++ rest) (hex_ne_empty data.length)
    (digitsValue_hex data.length) h extension_nil
  have hsplit : writeChunk data ++ rest =
      asBytes (hex data.length) ++ [] ++ crlf ++ (data ++ crlf ++ rest) := by
    simp [writeChunk, asBytes_append, asBytes_crlf]
  rw [hsplit]
  exact hline.trans (if_pos (length_line_sentChunk hbits h))

/-- A size that does not fit is an error. -/
theorem readChunkSize_large {data : Bytes} (h : ¬ data.length < 2 ^ bits) (rest : Bytes) :
    readChunkSize bits (writeChunk data ++ rest) = .error .failed := by
  have hsize := digitsValue_hex data.length
  have hne := hex_ne_empty data.length
  have hword : (hex data.length).toList ≠ [] := fun hnil => hne (String.toList_eq_nil_iff.mp hnil)
  have hsplit : writeChunk data ++ rest =
      asBytes (hex data.length) ++ [] ++ crlf ++ (data ++ crlf ++ rest) := by
    simp [writeChunk, asBytes_append, asBytes_crlf]
  unfold readChunkSize
  rw [hsplit, readLine_line (sizeLine_ok hsize extension_nil)]
  by_cases hshort : (asBytes (hex data.length) ++ []).length ≤ maxLine
  · rw [if_pos hshort]
    simp only [trimmed_sizeLine hne hsize extension_nil, fromStrRadix_eq hword hsize, if_neg h]
  · rw [if_neg hshort]

/-- What is left of the chunk after the buffer is taken for its end. -/
theorem chunkedPiece_writeChunk (hbits : bits = 32 ∨ bits = 64) {data : Bytes}
    (hne : data ≠ []) (hsize : data.length < 2 ^ bits) (rest : Bytes) :
    chunkedPiece bits (writeChunk data ++ rest) =
      match readLine (data.drop maxPiece ++ crlf ++ rest) with
      | .error fault => .error fault
      | .ok (_, unread) => .ok (some (data.take maxPiece), unread) := by
  have hpos : data.length ≠ 0 := fun hzero => hne (List.length_eq_zero_iff.mp hzero)
  have hexact : readExact (min data.length maxPiece) (data ++ crlf ++ rest) =
      .ok (data.take maxPiece, data.drop maxPiece ++ crlf ++ rest) := by
    have hread := readExact_append (data.take maxPiece) (data.drop maxPiece ++ crlf ++ rest)
    rw [List.length_take, Nat.min_comm, List.append_assoc (data.drop maxPiece),
      ← List.append_assoc, List.take_append_drop, ← List.append_assoc, ← List.append_assoc] at hread
    exact hread
  unfold chunkedPiece
  rw [readChunkSize_hex hbits hsize]
  dsimp only
  rw [if_neg hpos]
  cases hline : readLine (data.drop maxPiece ++ crlf ++ rest) with
  | error fault => simp only [hexact, hline]
  | ok line => simp only [hexact, hline]

/-- A byte before a line end, whichever it is. -/
theorem readLine_byte (b : UInt8) (rest : Bytes) :
    readLine (b :: crlf ++ rest) = .ok (lossyChars 0 [b], rest) := by
  have hends : EndsFirst [cr, lf] [b, cr, lf] := by
    refine ⟨⟨[b], rfl⟩, ?_⟩
    rintro ys hprefix ⟨before, rfl⟩
    have hlength := hprefix.length_le
    rw [List.length_append] at hlength
    match before, hlength with
    | [], _ =>
        obtain ⟨more, hmore⟩ := hprefix
        have hlf : lf = cr := (List.cons.inj (List.cons.inj hmore).2).1
        exact absurd hlf (by decide)
    | [c], _ => exact hprefix.eq_of_length rfl
    | _ :: _ :: _, hlong => simp at hlong
  unfold readLine crlf
  rw [show b :: [cr, lf] ++ rest = [b, cr, lf] ++ rest from rfl, scan_append hends (by simp),
    if_pos (by simp)]
  rfl

/-- A chunk that is followed by the next one, though its end may be lost. -/
def InStep (bits : Nat) (data : Bytes) : Prop :=
  data ≠ [] ∧ ∀ rest, chunkedPiece bits (writeChunk data ++ rest) =
    .ok (some (data.take maxPiece), rest)

theorem inStep_of_length (hbits : bits = 32 ∨ bits = 64) {data : Bytes} (hne : data ≠ [])
    (h : data.length ≤ maxPiece + 1) : InStep bits data := by
  have husize : data.length < 2 ^ bits := by
    have : maxPiece + 1 < 2 ^ bits := by
      rcases hbits with rfl | rfl <;> decide
    omega
  refine ⟨hne, fun rest => ?_⟩
  rw [chunkedPiece_writeChunk hbits hne husize]
  match hdrop : data.drop maxPiece with
  | [] => rw [List.nil_append, readLine_crlf]
  | [b] => rw [show [b] ++ crlf ++ rest = b :: crlf ++ rest from rfl, readLine_byte]
  | _ :: _ :: _ =>
      have hlength := congrArg List.length hdrop
      rw [List.length_drop, List.length_cons, List.length_cons] at hlength
      omega

theorem chunkedPiece_zeroChunk (bits : Nat) (rest : Bytes) :
    chunkedPiece bits (zeroChunk ++ rest) = .ok (none, rest) := by
  have hsplit : zeroChunk ++ rest = asBytes "0" ++ [] ++ crlf ++ (crlf ++ rest) := by
    have hzero : zeroChunk = asBytes "0" ++ crlf ++ crlf := by decide
    simp [hzero]
  have hsize := readChunkSize_line bits (crlf ++ rest) (by decide : "0" ≠ "")
    (by decide : digitsValue 16 0 "0".toList = some 0) (Nat.two_pow_pos bits) extension_nil
  rw [if_pos (by decide)] at hsize
  unfold chunkedPiece
  rw [hsplit, hsize]
  dsimp only
  rw [if_pos rfl, readTrailers, readLine_crlf]
  rfl

end

/-! ## The chunked upload -/

section

variable {A Q : Type} {port : TalkPort A} {lib : Library Q} {bits : Nat}

theorem chunkedUpload_error {s : Talking A} {unread : Bytes} {fault : Fault} (n : Nat)
    (hsize : readChunkSize bits unread = .error fault) :
    (chunkedUpload port lib bits (n + 1) s unread).result = .error fault := by
  rw [chunkedUpload]
  unfold chunkedPiece
  rw [hsize]

/-- A piece that is fed takes the upload on. -/
theorem chunkedUpload_fed {s s' : Talking A} {piece unread unread' : Bytes} (n : Nat)
    (hpiece : chunkedPiece bits unread = .ok (some piece, unread'))
    (hfeed : feed port s piece = (s', none)) :
    chunkedUpload port lib bits (n + 1) s unread = chunkedUpload port lib bits n s' unread' := by
  rw [chunkedUpload, hpiece]
  dsimp only
  rw [hfeed]

theorem chunkedUpload_pieces (haccepts : port.Accepts) {pieces : List Bytes}
    (hpieces : ∀ data ∈ pieces, InStep bits data) (n : Nat) (rest : Bytes) {fed : Bytes}
    {s : Talking A} (h : Buffered fed s) :
    ∃ s', chunkedUpload port lib bits (pieces.length + n) s (pieces.flatMap writeChunk ++ rest) =
        chunkedUpload port lib bits n s' rest ∧
      Buffered (fed ++ pieces.flatMap (List.take maxPiece)) s' := by
  induction pieces generalizing s fed with
  | nil => exact ⟨s, by simp, by simpa using h⟩
  | cons data pieces ih =>
      obtain ⟨s', hfeed, hs'⟩ := feed_spec haccepts h (data.take maxPiece)
      obtain ⟨s'', hrun, hs''⟩ := ih (fun d hd => hpieces d (List.mem_cons_of_mem _ hd)) hs'
      refine ⟨s'', ?_, by rwa [List.flatMap_cons, ← List.append_assoc]⟩
      rw [← hrun, List.length_cons, Nat.succ_add, List.flatMap_cons, List.append_assoc]
      exact chunkedUpload_fed _ ((hpieces data List.mem_cons_self).2 _) hfeed

/-- The chunks are rounds enough. -/
theorem talkUpload_chunked {r : Request} (h : ChunkedTalk lib r) (counts : Nat → Nat) (agent : A)
    (pieces : List Bytes) (rest : Bytes) : ∃ n,
    talkUpload port lib bits false counts r agent (pieces.flatMap writeChunk ++ rest) =
      chunkedUpload port lib bits (pieces.length + (n + 1)) ⟨agent, [], []⟩
        (pieces.flatMap writeChunk ++ rest) := by
  obtain ⟨coding, hcoding, hchunked⟩ := h.coding
  have hcount : pieces.length ≤ (pieces.flatMap writeChunk ++ rest).length := by
    have := length_le_length_flatMap pieces (f := writeChunk)
      (by simp [writeChunk, asBytes_crlf, crlf])
    rw [List.length_append]
    exact Nat.le_add_right_of_le this
  obtain ⟨n, hn⟩ := Nat.exists_eq_add_of_le hcount
  refine ⟨n, ?_⟩
  unfold talkUpload
  simp [h.audio, h.length, hcoding, hchunked, hn, Nat.add_assoc]

theorem talkUpload_pieces (haccepts : port.Accepts) {r : Request} (hr : ChunkedTalk lib r)
    (counts : Nat → Nat) (agent : A) {pieces : List Bytes}
    (hpieces : ∀ data ∈ pieces, InStep bits data) (rest : Bytes) :
    ∃ s', talkUpload port lib bits false counts r agent
        (pieces.flatMap writeChunk ++ zeroChunk ++ rest) = ⟨s', .ok (talkDone, rest)⟩ ∧
      Buffered (pieces.flatMap (List.take maxPiece)) s' := by
  rw [List.append_assoc]
  obtain ⟨n, hrounds⟩ := @talkUpload_chunked A Q port lib bits r hr counts agent pieces
    (zeroChunk ++ rest)
  obtain ⟨s', hrun, hs'⟩ := @chunkedUpload_pieces A Q port lib bits haccepts pieces hpieces (n + 1)
    (zeroChunk ++ rest) _ _ (buffered_idle agent)
  refine ⟨s', ?_, by simpa using hs'⟩
  rw [hrounds, hrun, chunkedUpload, chunkedPiece_zeroChunk]

/-! ## Sizes that keep the framing -/

theorem exists_first {α : Type} {p : α → Prop} [DecidablePred p] {xs : List α}
    (h : ∃ x ∈ xs, p x) :
    ∃ before x after, xs = before ++ x :: after ∧ p x ∧ ∀ y ∈ before, ¬ p y := by
  have hsome : (xs.find? fun x => decide (p x)).isSome = true := by
    simpa [List.find?_isSome] using h
  obtain ⟨x, hx⟩ := Option.isSome_iff_exists.mp hsome
  obtain ⟨hp, before, after, rfl, hbefore⟩ := List.find?_eq_some_iff_append.mp hx
  exact ⟨before, x, after, rfl, by simpa using hp, by simpa using hbefore⟩

theorem flatMap_take_of_short {pieces : List Bytes}
    (h : ∀ data ∈ pieces, ¬ maxPiece < data.length) :
    pieces.flatMap (List.take maxPiece) = pieces.flatten := by
  rw [List.flatMap_congr fun data hdata => List.take_of_length_le (Nat.not_lt.mp (h data hdata))]
  exact List.flatMap_id'

theorem length_kept_le (pieces : List Bytes) :
    (pieces.flatMap (List.take maxPiece)).length ≤ pieces.flatten.length := by
  induction pieces with
  | nil => simp
  | cons data pieces ih =>
      rw [List.flatMap_cons, List.flatten_cons, List.length_append, List.length_append,
        List.length_take]
      omega

/-- What the upload keeps of the chunks is the audio up to its last block. -/
theorem take_kept {pieces : List Bytes} (h : KeepsFraming (pieces.map List.length)) :
    (pieces.flatMap (List.take maxPiece)).take
        (talkBlock * ((pieces.flatMap (List.take maxPiece)).length / talkBlock)) =
      pieces.flatten.take (talkBlock * (pieces.flatten.length / talkBlock)) := by
  by_cases hlarge : ∃ data ∈ pieces, maxPiece < data.length
  · obtain ⟨before, data, after, rfl, hlong, hbefore⟩ := exists_first hlarge
    obtain ⟨-, hplayed⟩ := h (before.map List.length) data.length (after.map List.length)
      (by simp) hlong
    rw [← List.length_flatten, ← List.length_flatten] at hplayed
    -- Both begin with the audio up to the byte that is lost.
    refine @take_blocks_eq UInt8 talkBlock (by decide) (before.flatten ++ data.take maxPiece) _ _
      ?_ ?_ (length_kept_le _) ?_
    · rw [List.flatMap_append, flatMap_take_of_short hbefore, List.flatMap_cons,
        ← List.append_assoc]
      exact List.prefix_append _ _
    · rw [List.flatten_append, List.flatten_cons]
      exact (List.prefix_append_right_inj _).mpr
        ((List.take_prefix _ _).trans (List.prefix_append _ _))
    · rwa [List.length_append, List.length_take, Nat.min_eq_left (Nat.le_of_lt hlong)]
  · rw [flatMap_take_of_short fun data hdata hlong => hlarge ⟨data, hdata, hlong⟩]

/-! ## Sizes that do not -/

/-- Silence, as bytes. -/
def zeros (n : Nat) : Bytes := List.replicate n 0

@[simp] theorem length_zeros (n : Nat) : (zeros n).length = n := List.length_replicate

/-- Audio that reads as letters which are no digits. -/
def letters (n : Nat) : Bytes := asBytes (String.ofList (List.replicate n 'z'))

theorem letters_ascii (n : Nat) : ∀ c ∈ (String.ofList (List.replicate n 'z')).toList, c = 'z' := by
  intro c hc
  rw [String.toList_ofList] at hc
  exact List.eq_of_mem_replicate hc

@[simp] theorem length_letters (n : Nat) : (letters n).length = n := by
  rw [letters, asBytes_ascii fun c hc => by rw [letters_ascii n c hc]; decide, List.length_map,
    String.toList_ofList, List.length_replicate]

theorem cr_not_mem_letters (n : Nat) : cr ∉ letters n :=
  not_mem_asBytes_of_visible (fun c hc => .inl (by rw [letters_ascii n c hc]; decide)) (by decide)

/-- Such letters are no size. -/
theorem readChunkSize_letters (n : Nat) (rest : Bytes) :
    ∃ fault, readChunkSize bits (letters n ++ crlf ++ rest) = .error fault := by
  have hchars : lossyChars 0 (letters n) = List.replicate n 'z' := by
    rw [letters, lossyChars_asBytes, String.toList_ofList]
  have hz : ∀ c ∈ List.replicate n 'z', c = 'z' := fun c hc => List.eq_of_mem_replicate hc
  have hnone : fromStrRadix bits 16 (trimChars (List.replicate n 'z')) = none := by
    cases n with
    | zero => rfl
    | succ n =>
        rw [trimChars_eq (by simp) fun c hc => by rw [hz c hc]; decide]
        simp [fromStrRadix, List.replicate_succ, digitsValue,
          (by decide : toDigit 16 'z' = none)]
  unfold readChunkSize
  rw [readLine_line (cr_not_mem_letters n)]
  by_cases hshort : (letters n).length ≤ maxLine
  · rw [if_pos hshort]
    dsimp only
    rw [hchars, headD_splitOn fun hc => absurd (hz ';' hc) (by decide), hnone]
    exact ⟨_, rfl⟩
  · rw [if_neg hshort]
    exact ⟨_, rfl⟩

/-- A chunk that is at least two bytes too long, with a line end there. -/
def brokenChunk (more : Nat) : Bytes := zeros maxPiece ++ (crlf ++ letters more)

theorem length_brokenChunk (more : Nat) : (brokenChunk more).length = maxPiece + 2 + more := by
  simp [brokenChunk, crlf]
  omega

theorem chunkedUpload_letters (more n : Nat) (s : Talking A) (rest : Bytes) : ∃ fault,
    (chunkedUpload port lib bits n s (letters more ++ crlf ++ rest)).result = .error fault := by
  cases n with
  | zero => exact ⟨_, rfl⟩
  | succ n =>
      obtain ⟨fault, hsize⟩ := @readChunkSize_letters bits more rest
      exact ⟨fault, chunkedUpload_error n hsize⟩

/-- What is read after such a chunk are the letters. -/
theorem chunkedPiece_broken (hbits : bits = 32 ∨ bits = 64) {more : Nat}
    (hsize : (brokenChunk more).length < 2 ^ bits) (rest : Bytes) :
    chunkedPiece bits (writeChunk (brokenChunk more) ++ rest) =
      .ok (some ((brokenChunk more).take maxPiece), letters more ++ crlf ++ rest) := by
  have hne : brokenChunk more ≠ [] := by
    intro hnil
    have hlength := congrArg List.length hnil
    rw [length_brokenChunk, List.length_nil] at hlength
    omega
  have hdrop : (brokenChunk more).drop maxPiece = crlf ++ letters more :=
    List.drop_left' (length_zeros maxPiece)
  have hafter : (brokenChunk more).drop maxPiece ++ crlf ++ rest =
      crlf ++ (letters more ++ crlf ++ rest) := by
    rw [hdrop, List.append_assoc, List.append_assoc, List.append_assoc]
  rw [chunkedPiece_writeChunk hbits hne hsize, hafter, readLine_crlf]

theorem chunkedUpload_broken (haccepts : port.Accepts) (hbits : bits = 32 ∨ bits = 64)
    {fed : Bytes} {s : Talking A} (h : Buffered fed s) (more n : Nat) (rest : Bytes) : ∃ fault,
    (chunkedUpload port lib bits n s (writeChunk (brokenChunk more) ++ rest)).result =
      .error fault := by
  cases n with
  | zero => exact ⟨_, rfl⟩
  | succ n =>
      by_cases hsize : (brokenChunk more).length < 2 ^ bits
      · obtain ⟨s', hfeed, -⟩ := feed_spec haccepts h ((brokenChunk more).take maxPiece)
        rw [chunkedUpload_fed n (chunkedPiece_broken hbits hsize rest) hfeed]
        exact chunkedUpload_letters more n s' rest
      · exact ⟨_, chunkedUpload_error n (readChunkSize_large hsize rest)⟩

/-- An upload in chunks, for any server. -/
def chunkedTalk : Request where
  method := "POST"
  path := "/v1/talk"
  query := ""
  headers := [("content-type", "audio/l16"), ("transfer-encoding", "chunked")]
  body := []
  keepAlive := true

theorem chunkedTalk_ok (lib : Library Q) : ChunkedTalk lib chunkedTalk where
  audio := by
    have htype : chunkedTalk.header "content-type" = some "audio/l16" := by decide +kernel
    have hbase : mediaBase "audio/l16".toList = mediaBase mediaTypeL16.toList := by decide +kernel
    unfold requireContentType
    rw [htype]
    exact if_pos hbase
  coding := ⟨"chunked", by decide +kernel, by decide +kernel⟩
  length := by decide +kernel

theorem talkUpload_sized (haccepts : port.Accepts) {r : Request} {audio : Bytes}
    (hr : SizedTalk lib bits r audio.length) (counts : Nat → Nat) (agent : A) (rest : Bytes) :
    Played audio
      (talkUpload port lib bits false counts r agent (audio ++ rest)).talking.passed := by
  obtain ⟨digits, hdigits, hlength⟩ := hr.length
  obtain ⟨s', hrun, hs'⟩ := @sizedUpload_spec A port Q lib haccepts counts [] (audio.length + 1)
    _ (buffered_idle agent) audio (Nat.lt_succ_self _) rest
  have hupload : talkUpload port lib bits false counts r agent (audio ++ rest) =
      sizedUpload port lib counts (audio.length + 1) audio.length ⟨agent, [], []⟩
        (audio ++ rest) := by
    unfold talkUpload
    simp [hr.audio, hr.coding, hdigits, hlength]
  rw [hupload, hrun]
  exact hs'.played

/-- Sizes that keep the framing do so for all audio. -/
theorem KeepsFraming.framingFree (haccepts : port.Accepts) (hbits : bits = 32 ∨ bits = 64)
    (agent : A) {pieces : List Bytes} (hpieces : ∀ data ∈ pieces, data ≠ [])
    (h : KeepsFraming (pieces.map List.length)) : FramingFree port lib bits agent pieces where
  sized r counts rest hr := talkUpload_sized haccepts hr counts agent rest
  chunked r counts rest hr := by
    have hstep : ∀ data ∈ pieces, InStep bits data := by
      intro data hdata
      refine inStep_of_length hbits (hpieces data hdata) ?_
      by_contra hlong
      obtain ⟨before, after, rfl⟩ := List.append_of_mem hdata
      obtain ⟨hsize, -⟩ := h (before.map List.length) data.length (after.map List.length)
        (by simp) (by omega)
      omega
    obtain ⟨s', hrun, hs'⟩ := talkUpload_pieces haccepts hr counts agent hstep rest
    rw [hrun]
    exact ⟨⟨hs'.played.sizes, hs'.played.audio.trans (take_kept h)⟩, rfl⟩
  socket items hitems := by
    have hplayed := @talkWebsocket_spec A port Q lib haccepts items _ _ (buffered_idle agent) []
    rw [List.nil_append, hitems] at hplayed
    exact hplayed.played

/-- Two bytes too many can lose the framing. -/
theorem size_le_of_framingFree (haccepts : port.Accepts) (hbits : bits = 32 ∨ bits = 64)
    (agent : A) {sizes : List Nat} (hsizes : ∀ size ∈ sizes, 0 < size)
    (h : ∀ pieces, pieces.map List.length = sizes → FramingFree port lib bits agent pieces) :
    ∀ size ∈ sizes, size ≤ maxPiece + 1 := by
  by_contra hlarge
  simp only [not_forall, Nat.not_le, exists_prop] at hlarge
  obtain ⟨before, size, after, rfl, hsize, hbefore⟩ := exists_first hlarge
  obtain ⟨more, rfl⟩ := Nat.exists_eq_add_of_le hsize
  -- The audio: silence, and a line end behind the buffer of the first large chunk.
  let pieces := before.map zeros ++ brokenChunk more :: after.map zeros
  have hmap : pieces.map List.length = before ++ (maxPiece + 1 + 1 + more) :: after := by
    simp [pieces, Function.comp_def, length_brokenChunk]
  have hstep : ∀ data ∈ before.map zeros, InStep bits data := by
    intro data hdata
    obtain ⟨size, hmem, rfl⟩ := List.mem_map.mp hdata
    refine inStep_of_length hbits ?_ (by rw [length_zeros]; exact Nat.not_lt.mp (hbefore size hmem))
    rw [← List.length_pos_iff, length_zeros]
    exact hsizes size (List.mem_append_left _ hmem)
  obtain ⟨n, hrounds⟩ := @talkUpload_chunked A Q port lib bits _ (chunkedTalk_ok lib) (fun _ => 0)
    agent pieces (zeroChunk ++ [])
  obtain ⟨s', hfirst, hs'⟩ := @chunkedUpload_pieces A Q port lib bits haccepts _ hstep
    (after.length + 1 + (n + 1))
    (writeChunk (brokenChunk more) ++ ((after.map zeros).flatMap writeChunk ++ (zeroChunk ++ [])))
    _ _ (buffered_idle agent)
  obtain ⟨fault, hbroken⟩ := @chunkedUpload_broken A Q port lib bits haccepts hbits _ _ hs' more
    (after.length + 1 + (n + 1)) ((after.map zeros).flatMap writeChunk ++ (zeroChunk ++ []))
  have hsplit : pieces.flatMap writeChunk ++ (zeroChunk ++ []) =
      (before.map zeros).flatMap writeChunk ++ (writeChunk (brokenChunk more) ++
        ((after.map zeros).flatMap writeChunk ++ (zeroChunk ++ []))) := by
    simp only [pieces, List.flatMap_append, List.flatMap_cons, List.append_assoc]
  have hcount : pieces.length + (n + 1) =
      (before.map zeros).length + (after.length + 1 + (n + 1)) := by
    simp only [pieces, List.length_append, List.length_cons, List.length_map]
    omega
  have hdone := ((h pieces hmap).chunked _ (fun _ => 0) [] (chunkedTalk_ok lib)).2
  rw [List.append_assoc, hrounds, hcount, hsplit, hfirst, hbroken] at hdone
  cases hdone

/-- A lost byte that is played is missed. -/
theorem played_le_of_framingFree (haccepts : port.Accepts) (hbits : bits = 32 ∨ bits = 64)
    (agent : A) {before after : List Nat}
    (hsizes : ∀ size ∈ before ++ (maxPiece + 1) :: after, 0 < size ∧ size ≤ maxPiece + 1)
    (h : ∀ pieces, pieces.map List.length = before ++ (maxPiece + 1) :: after →
      FramingFree port lib bits agent pieces) :
    talkBlock * ((before ++ (maxPiece + 1) :: after).sum / talkBlock) ≤ before.sum + maxPiece := by
  by_contra hplayed
  rw [Nat.not_le] at hplayed
  -- The audio: silence, but for the byte that is lost.
  let pieces := before.map zeros ++ (zeros maxPiece ++ [1]) :: after.map zeros
  have hmap : pieces.map List.length = before ++ (maxPiece + 1) :: after := by
    simp [pieces, Function.comp_def]
  have hstep : ∀ data ∈ pieces, InStep bits data := by
    intro data hdata
    obtain ⟨hpos, hle⟩ := hsizes data.length (hmap ▸ List.mem_map_of_mem hdata)
    exact inStep_of_length hbits (List.length_pos_iff.mp hpos) hle
  obtain ⟨s', hrun, hs'⟩ := talkUpload_pieces haccepts (chunkedTalk_ok lib) (fun _ => 0) agent hstep
    []
  have haudio := ((h pieces hmap).chunked _ (fun _ => 0) [] (chunkedTalk_ok lib)).1.audio
  rw [hrun, hs'.played.audio] at haudio
  have hmem : (1 : UInt8) ∈ pieces.flatten.take
      (talkBlock * (pieces.flatten.length / talkBlock)) := by
    have hprefix : (before.map zeros).flatten ++ (zeros maxPiece ++ [1]) <+:
        pieces.flatten.take (talkBlock * (pieces.flatten.length / talkBlock)) := by
      rw [List.prefix_take_iff]
      have hlength : ((before.map zeros).flatten ++ (zeros maxPiece ++ [1])).length =
          before.sum + maxPiece + 1 := by
        simp [List.length_flatten, Function.comp_def, Nat.add_assoc]
      refine ⟨by simp [pieces], ?_⟩
      rw [hlength, List.length_flatten, hmap]
      exact hplayed
    exact hprefix.subset (by simp)
  rw [← haudio] at hmem
  obtain ⟨data, hdata, hone⟩ := List.mem_flatMap.mp (List.mem_of_mem_take hmem)
  simp only [pieces, List.mem_append, List.mem_cons, List.mem_map] at hdata
  have hzero : ∃ n, data.take maxPiece = zeros n := by
    rcases hdata with ⟨n, -, rfl⟩ | rfl | ⟨n, -, rfl⟩
    · exact ⟨min maxPiece n, List.take_replicate⟩
    · exact ⟨maxPiece, List.take_left' (length_zeros maxPiece)⟩
    · exact ⟨min maxPiece n, List.take_replicate⟩
  obtain ⟨n, hzero⟩ := hzero
  rw [hzero] at hone
  exact absurd (List.eq_of_mem_replicate hone) (by decide)

/-- **The sizes of chunks that are safe for all audio.** -/
theorem framing_free_iff (haccepts : port.Accepts) (hbits : bits = 32 ∨ bits = 64) (agent : A)
    {sizes : List Nat} (hsizes : ∀ size ∈ sizes, 0 < size) :
    (∀ pieces, pieces.map List.length = sizes → FramingFree port lib bits agent pieces) ↔
      KeepsFraming sizes := by
  constructor
  · rintro h before size after rfl hlong
    have hle := size_le_of_framingFree haccepts hbits agent hsizes h
    obtain rfl : size = maxPiece + 1 :=
      Nat.le_antisymm (hle size (by simp)) hlong
    exact ⟨rfl, played_le_of_framingFree haccepts hbits agent
      (fun size hsize => ⟨hsizes size hsize, hle size hsize⟩) h⟩
  · rintro h pieces rfl
    refine h.framingFree haccepts hbits agent fun data hdata hnil => ?_
    have hpos := hsizes data.length (List.mem_map_of_mem hdata)
    rw [hnil] at hpos
    exact absurd hpos (by decide)

end

/-- An Agent that accepts all audio, and its clock stands still. -/
def acceptsAll : TalkPort Unit where
  talk _ _ := (none, ())
  elapsedUs _ := 0

theorem accepts_acceptsAll : acceptsAll.Accepts := fun _ _ => rfl

/-- Two chunks of odd sizes, with any audio. -/
theorem framing_free_two :
    (∀ size ∈ [3, 600], 0 < size) ∧ KeepsFraming [3, 600] ∧
      ∀ pieces, pieces.map List.length = [3, 600] →
        FramingFree acceptsAll errorsOnly 64 () pieces := by
  have hpos : ∀ size ∈ [3, 600], 0 < size := by decide
  have hsmall : ∀ size ∈ [3, 600], size ≤ maxPiece := by decide
  have hkeeps : KeepsFraming [3, 600] := by
    intro before size after hsplit hlarge
    have hle := hsmall size (by rw [hsplit]; simp)
    omega
  exact ⟨hpos, hkeeps, (framing_free_iff accepts_acceptsAll (.inr rfl) () hpos).mpr hkeeps⟩

/-- One chunk that has a line end behind the buffer: the upload fails. -/
theorem broken_chunk_fails : ¬ FramingFree acceptsAll errorsOnly 64 () [brokenChunk 0] := by
  intro h
  have hdone := (h.chunked _ (fun _ => 0) [] (chunkedTalk_ok errorsOnly)).2
  obtain ⟨n, hrounds⟩ := @talkUpload_chunked Unit Nat acceptsAll errorsOnly 64 _
    (chunkedTalk_ok errorsOnly) (fun _ => 0) () [brokenChunk 0] (zeroChunk ++ [])
  obtain ⟨fault, hbroken⟩ := @chunkedUpload_broken Unit Nat acceptsAll errorsOnly 64
    accepts_acceptsAll (.inr rfl) _ _ (buffered_idle ()) 0 (1 + (n + 1)) (zeroChunk ++ [])
  rw [List.append_assoc, hrounds, List.flatMap_singleton, List.length_singleton, hbroken] at hdone
  cases hdone

end Michoi
