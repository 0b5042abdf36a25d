/-
  The live audio of a client (`agent_server.rs`): `pcm_stream`.

  The body is decoded at every moment, as a listener does. It is the audio with the bytes of
  each sample swapped, and it ends with the feed, unless a chunk without audio was fed: that
  chunk is written as the zero chunk. Such chunks come from media packets with a valid
  length of zero (`media_data_eq_nil_iff`).
-/
import Michoi.AgentServer.Chunks
import Michoi.AgentServer.Token
import Michoi.Protocol

namespace Michoi

/-- What a turn of the loop gets: from the receiver, or from `client_gone`. -/
inductive AudioTurn where
  | chunk (pcm : Bytes)
  | lagged (skipped : Nat)
  | closed
  | clientGone
  deriving DecidableEq, Repr

/-- The swap of the bytes of each sample; an odd byte at the end stays. -/
def swapPairs : Bytes → Bytes
  | a :: b :: rest => b :: a :: swapPairs rest
  | rest => rest

/-- The loop of `pcm_stream`: what it writes after the head. -/
def pcmLoop : List AudioTurn → Bytes
  | [] => []
  | .chunk pcm :: turns => writeChunk (swapPairs pcm) ++ pcmLoop turns
  | .lagged _ :: turns => pcmLoop turns
  | .closed :: _ => zeroChunk
  | .clientGone :: _ => []

/-- The head of the stream. -/
def pcmHead : Bytes :=
  asBytes ("HTTP/1.1 200 OK\r\nContent-Type: " ++ mediaTypeL16 ++
    "\r\nCache-Control: no-store\r\nTransfer-Encoding: chunked\r\nConnection: close\r\n\r\n")

/-- `pcm_stream`: what it wrote after these turns. -/
def pcmStream {Q : Type} [LinearOrder Q] (lib : Library Q) (r : Request)
    (turns : List AudioTurn) : Bytes :=
  match requireAccept lib r [mediaTypeL16] with
  | .error response => response.write false
  | .ok _ => pcmHead ++ pcmLoop turns

/-! ## What the listener should have -/

/-- The chunks that reach the stream. -/
def fedChunks : List AudioTurn → List Bytes
  | .chunk pcm :: turns => pcm :: fedChunks turns
  | .lagged _ :: turns => fedChunks turns
  | [] | .closed :: _ | .clientGone :: _ => []

/-- The feed has closed, and the client was still there. -/
def feedClosed : List AudioTurn → Bool
  | .chunk _ :: turns | .lagged _ :: turns => feedClosed turns
  | .closed :: _ => true
  | [] | .clientGone :: _ => false

/-- At every moment the body decodes to the audio so far, and has ended with the feed. -/
def DecodesToFeed {Q : Type} [LinearOrder Q] (lib : Library Q) (r : Request)
    (turns : List AudioTurn) : Prop :=
  ∀ sofar, sofar <+: turns → ∃ body, pcmStream lib r sofar = pcmHead ++ body ∧
    decode body = ⟨(fedChunks sofar).flatMap swapPairs, feedClosed sofar⟩

/-! ## The samples -/

@[simp] theorem length_swapPairs (pcm : Bytes) : (swapPairs pcm).length = pcm.length := by
  fun_induction swapPairs pcm with
  | case1 a b rest ih => simp [ih]
  | case2 rest => rfl

@[simp] theorem swapPairs_eq_nil_iff {pcm : Bytes} : swapPairs pcm = [] ↔ pcm = [] := by
  rw [← List.length_eq_zero_iff, length_swapPairs, List.length_eq_zero_iff]

/-! ## The body -/

/-- The body is the swapped chunks, and the zero chunk once the feed has closed. -/
theorem pcmLoop_eq (turns : List AudioTurn) :
    pcmLoop turns = ((fedChunks turns).map swapPairs).flatMap writeChunk ++
      if feedClosed turns then zeroChunk else [] := by
  induction turns with
  | nil => rfl
  | cons turn turns ih =>
      cases turn with
      | chunk pcm =>
          rw [pcmLoop, ih, fedChunks, feedClosed, List.map_cons, List.flatMap_cons,
            List.append_assoc]
      | lagged skipped => rw [pcmLoop, ih, fedChunks, feedClosed]
      | closed => simp [pcmLoop, fedChunks, feedClosed]
      | clientGone => simp [pcmLoop, fedChunks, feedClosed]

/-- Chunks with audio decode to it. -/
theorem decode_pcmLoop {turns : List AudioTurn} (h : [] ∉ fedChunks turns) :
    decode (pcmLoop turns) = ⟨(fedChunks turns).flatMap swapPairs, feedClosed turns⟩ := by
  have hchunks : ∀ data ∈ (fedChunks turns).map swapPairs, data ≠ [] := by
    rintro data hdata rfl
    obtain ⟨pcm, hpcm, hnil⟩ := List.mem_map.mp hdata
    rw [swapPairs_eq_nil_iff.mp hnil] at hpcm
    exact h hpcm
  have hflat : ((fedChunks turns).map swapPairs).flatten = (fedChunks turns).flatMap swapPairs :=
    rfl
  obtain ⟨n, hdecode⟩ := decode_writeChunks hchunks (if feedClosed turns then zeroChunk else [])
  rw [pcmLoop_eq, hdecode, hflat]
  cases feedClosed turns with
  | false => simp
  | true =>
      have hzero := decodeLoop_zeroChunk n []
      rw [List.append_nil] at hzero
      simp [hzero]

/-- A chunk without audio ends the body. -/
theorem ended_of_empty {turns : List AudioTurn} {before : List Bytes} (hbefore : [] ∉ before)
    (hfed : fedChunks turns = before ++ [[]]) : (decode (pcmLoop turns)).ended = true := by
  have hchunks : ∀ data ∈ before.map swapPairs, data ≠ [] := by
    rintro data hdata rfl
    obtain ⟨pcm, hpcm, hnil⟩ := List.mem_map.mp hdata
    rw [swapPairs_eq_nil_iff.mp hnil] at hpcm
    exact hbefore hpcm
  obtain ⟨n, hdecode⟩ := decode_writeChunks hchunks
    (zeroChunk ++ if feedClosed turns then zeroChunk else [])
  have hsplit : pcmLoop turns = (before.map swapPairs).flatMap writeChunk ++
      (zeroChunk ++ if feedClosed turns then zeroChunk else []) := by
    rw [pcmLoop_eq, hfed]
    simp [swapPairs, writeChunk_nil]
  rw [hsplit, hdecode, decodeLoop_zeroChunk]

/-- The moment at which the first chunk without audio was fed. -/
theorem exists_first_empty {turns : List AudioTurn} (h : [] ∈ fedChunks turns) :
    ∃ sofar before, sofar <+: turns ∧ [] ∉ before ∧ fedChunks sofar = before ++ [[]] ∧
      feedClosed sofar = false := by
  induction turns with
  | nil => cases h
  | cons turn turns ih =>
      cases turn with
      | chunk pcm =>
          by_cases hpcm : pcm = []
          · subst hpcm
            exact ⟨[.chunk []], [], by simp, by simp, rfl, rfl⟩
          · have hrest : [] ∈ fedChunks turns := (List.mem_cons.mp h).resolve_left (Ne.symm hpcm)
            obtain ⟨sofar, before, hprefix, hbefore, hfed, hopen⟩ := ih hrest
            exact ⟨.chunk pcm :: sofar, pcm :: before, by simpa using hprefix,
              by simp [hbefore, Ne.symm hpcm], by simp [fedChunks, hfed], hopen⟩
      | lagged skipped =>
          obtain ⟨sofar, before, hprefix, hbefore, hfed, hopen⟩ := ih h
          exact ⟨.lagged skipped :: sofar, before, by simpa using hprefix, hbefore, hfed, hopen⟩
      | closed => cases h
      | clientGone => cases h

/-- What was fed at one moment is fed later. -/
theorem fedChunks_begins {sofar turns : List AudioTurn} (h : sofar <+: turns) :
    fedChunks sofar <+: fedChunks turns := by
  obtain ⟨more, rfl⟩ := h
  induction sofar with
  | nil => exact List.nil_prefix
  | cons turn sofar ih =>
      cases turn with
      | chunk pcm => simpa [fedChunks] using ih
      | lagged skipped => simpa [fedChunks] using ih
      | closed => exact List.prefix_rfl
      | clientGone => exact List.prefix_rfl

/-- **The stream decodes to the audio that was fed**, exactly where every chunk has audio. -/
theorem decodesToFeed_iff {Q : Type} [LinearOrder Q] {lib : Library Q} {r : Request}
    {offer : String} (hoffer : requireAccept lib r [mediaTypeL16] = .ok offer)
    (turns : List AudioTurn) : DecodesToFeed lib r turns ↔ [] ∉ fedChunks turns := by
  have hstream : ∀ sofar, pcmStream lib r sofar = pcmHead ++ pcmLoop sofar := by
    intro sofar
    unfold pcmStream
    rw [hoffer]
  constructor
  · intro h hempty
    obtain ⟨sofar, before, hprefix, hbefore, hfed, hopen⟩ := exists_first_empty hempty
    obtain ⟨body, hbody, hdecode⟩ := h sofar hprefix
    obtain rfl := List.append_cancel_left ((hstream sofar).symm.trans hbody)
    have hended := ended_of_empty hbefore hfed
    rw [hdecode, hopen] at hended
    cases hended
  · intro h sofar hprefix
    have hsofar : [] ∉ fedChunks sofar := fun hmem => h ((fedChunks_begins hprefix).subset hmem)
    exact ⟨pcmLoop sofar, hstream sofar, decode_pcmLoop hsofar⟩

/-- A request for the live audio. -/
def askAudio : Request where
  method := "GET"
  path := "/v1/audio.pcm"
  query := ""
  headers := [("accept", "audio/l16")]
  body := []
  keepAlive := true

theorem requireAccept_askAudio : requireAccept errorsOnly askAudio [mediaTypeL16] =
    .ok mediaTypeL16 := by
  have hcandidates : candidates errorsOnly "audio/l16" = [⟨.num 1, 0, "audio/l16"⟩] := by rfl
  have hheader : askAudio.header "accept" = some "audio/l16" := by decide +kernel
  have hmatches : matchesRange "audio/l16" mediaTypeL16 = true := by decide +kernel
  unfold requireAccept negotiate
  rw [hheader]
  simp [hcandidates, hmatches]

/-- A stream with a gap and an odd byte, up to the close of the feed. -/
theorem decodesToFeed_gap :
    let turns := [AudioTurn.chunk [1, 2, 3], .lagged 4, .chunk [5, 6], .closed]
    [] ∉ fedChunks turns ∧ DecodesToFeed errorsOnly askAudio turns := by
  intro turns
  have hfed : [] ∉ fedChunks turns := by decide
  exact ⟨hfed, (decodesToFeed_iff requireAccept_askAudio turns).mpr hfed⟩

/-! ## Audio off the wire -/

/-- A fragment has no data exactly where its valid length says so. -/
theorem media_data_eq_nil_iff {m : Message} {media : MediaFragment} (h : m.media = some media) :
    media.data = [] ↔ media.validLength = 0 := by
  unfold Message.media at h
  dsimp only at h
  split at h
  · cases h
  split at h
  · cases h
  · next hfits =>
      obtain rfl := Option.some.inj h
      rw [← List.length_eq_zero_iff, List.length_take, Nat.min_eq_left (Nat.not_lt.mp hfits),
        ← UInt16.toNat_inj]
      rfl

/-- A media packet whose valid length is zero. -/
def emptyAudio : Bytes :=
  packet familySession opMedia 90
    (List.replicate 48 0 ++ [mediaAudio, 1, 1, 1, 0].flatMap u16ToLe)

theorem emptyAudio_fragment : ∃ m media, Message.parse emptyAudio = .ok m ∧
    m.media = some media ∧ media.mediaType = mediaAudio ∧ media.data = [] :=
  ⟨_, _, parse_packet _ _ _ _, rfl, by decide, rfl⟩

/-- The listener takes the audio of such a packet for the end of the body. -/
theorem emptyAudio_ends_body :
    ∃ m media, Message.parse emptyAudio = .ok m ∧ m.media = some media ∧
      media.mediaType = mediaAudio ∧
      ¬ DecodesToFeed errorsOnly askAudio [.chunk media.data, .chunk [1, 2]] := by
  obtain ⟨m, media, hparse, hmedia, htype, hdata⟩ := emptyAudio_fragment
  refine ⟨m, media, hparse, hmedia, htype, fun h => ?_⟩
  rw [hdata] at h
  obtain ⟨body, hbody, hdecode⟩ := h [.chunk []] (by simp)
  have hstream : pcmStream errorsOnly askAudio [.chunk []] = pcmHead ++ pcmLoop [.chunk []] := by
    unfold pcmStream
    rw [requireAccept_askAudio]
  obtain rfl := List.append_cancel_left (hstream.symm.trans hbody)
  have hended := @ended_of_empty [.chunk []] [] List.not_mem_nil rfl
  rw [hdecode] at hended
  cases hended

end Michoi
