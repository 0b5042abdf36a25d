/-
  Talk-back audio (`agent_server.rs`): `talk_upload` and the forwarding loop of
  `talk_websocket`.

  Both put what they read into one buffer and pass its blocks of 512 bytes on, so what the
  Agent gets is what `Lib.Blocks` says of the bytes that were read (`feed_spec`). A body
  with a length and the messages of a socket are read without loss; a chunk longer than the
  buffer of the upload is not, see `AgentServer.Cut`.
-/
import Michoi.AgentServer.Chunks
import Michoi.AgentServer.Route
import Michoi.Lib.Blocks

namespace Michoi

open Lib

/-- `AgentMedia::talk`: an error, or the chunk is accepted. The clock is the time since the
    upload started, by the chunks passed before. -/
structure TalkPort (A : Type) where
  talk : AudioChunk → A → Option PortError × A
  elapsedUs : Nat → Nat

/-- The state of the loops: the Agent, the chunks passed to it, and `pending`. -/
structure Talking (A : Type) where
  agent : A
  passed : List AudioChunk
  pending : Bytes

/-- The forwarded chunk: 32 ms of audio, the door station's native packet size. -/
def talkBlock : Nat := 512

section

variable {A : Type} (port : TalkPort A)

/-- `while pending.len() >= 512`, up to a chunk the Agent rejects. -/
def forwardLoop : Nat → Talking A → Talking A × Option PortError
  | 0, s => (s, none)
  | n + 1, s =>
      if talkBlock ≤ s.pending.length then
        let audio : AudioChunk :=
          { ptsUs := port.elapsedUs s.passed.length, pcm := s.pending.take talkBlock }
        let r := port.talk audio s.agent
        let s : Talking A :=
          { agent := r.2, passed := s.passed ++ [audio], pending := s.pending.drop talkBlock }
        match r.1 with
        | some error => (s, some error)
        | none => forwardLoop n s
      else (s, none)

/-- `pending.extend_from_slice(piece)` and the loop after it. -/
def feed (s : Talking A) (piece : Bytes) : Talking A × Option PortError :=
  let s := { s with pending := s.pending ++ piece }
  forwardLoop port s.pending.length s

/-! ## `talk_upload` -/

/-- The buffer a chunk of the upload is read into. -/
def maxPiece : Nat := 64 * 1024

/-- A piece of a chunked upload; `none` is its end. -/
def chunkedPiece (bits : Nat) (unread : Bytes) : ReadResult (Option Bytes) :=
  match readChunkSize bits unread with
  | .error fault => .error fault
  | .ok (size, unread) =>
      if size = 0 then
        match readTrailers (unread.length + 1) unread with
        | .error fault => .error fault
        | .ok (_, unread) => .ok (none, unread)
      else
        match readExact (min size maxPiece) unread with
        | .error fault => .error fault
        | .ok (buf, unread) =>
            match readLine unread with
            | .error fault => .error fault
            | .ok (_, unread) => .ok (some buf, unread)

/-- A piece of an upload with a length, of which so much is left. A read returns at least
    one byte of what there is, and `count` says how many. -/
def sizedPiece (count left : Nat) (unread : Bytes) : ReadResult (Option Bytes) :=
  if left = 0 then .ok (none, unread)
  else if unread.isEmpty then .error .failed
  else
    let read := min (min left 4096) (min (max 1 count) unread.length)
    .ok (some (unread.take read), unread.drop read)

/-- How an upload went: what the Agent got, and the response with the bytes left unread. -/
structure TalkRun (A : Type) where
  talking : Talking A
  result : ReadResult Response

variable {Q : Type} (lib : Library Q)

/-- The response to a rejected chunk. -/
def talkRejected (error : PortError) : Response :=
  .json lib error.httpStatus
    (.result { commandId := "talk", ok := false, error := some error, replayed := false })

/-- The response to an upload that was taken to its end. -/
def talkDone : Response := .new 204 mediaTypeJson []

/-- The loop over a chunked body. Each round reads a byte at least. -/
def chunkedUpload (bits : Nat) : Nat → Talking A → Bytes → TalkRun A
  | 0, s, _ => ⟨s, .error .failed⟩
  | n + 1, s, unread =>
      match chunkedPiece bits unread with
      | .error fault => ⟨s, .error fault⟩
      | .ok (none, unread) => ⟨s, .ok (talkDone, unread)⟩
      | .ok (some piece, unread) =>
          match feed port s piece with
          | (s, some error) => ⟨s, .ok (talkRejected lib error, unread)⟩
          | (s, none) => chunkedUpload bits n s unread

/-- The loop over a body with a length; `counts` says what each read returns. -/
def sizedUpload (counts : Nat → Nat) : Nat → Nat → Talking A → Bytes → TalkRun A
  | 0, _, s, _ => ⟨s, .error .failed⟩
  | n + 1, left, s, unread =>
      match sizedPiece (counts n) left unread with
      | .error fault => ⟨s, .error fault⟩
      | .ok (none, unread) => ⟨s, .ok (talkDone, unread)⟩
      | .ok (some piece, unread) =>
          match feed port s piece with
          | (s, some error) => ⟨s, .ok (talkRejected lib error, unread)⟩
          | (s, none) => sizedUpload counts n (left - piece.length) s unread

/-- `talk_upload`; `busy` is `TALK_BUSY`. -/
def talkUpload (bits : Nat) (busy : Bool) (counts : Nat → Nat) (r : Request) (agent : A)
    (unread : Bytes) : TalkRun A :=
  let idle : Talking A := ⟨agent, [], []⟩
  match requireContentType lib r mediaTypeL16 with
  | .error response => ⟨idle, .ok (response, unread)⟩
  | .ok () =>
      let chunked := (r.header "transfer-encoding").any fun v =>
        contains (toAsciiLowercase v) "chunked"
      match (r.header "content-length").map fun v => fromStrRadix bits 10 v.toList with
      | some none => ⟨idle, .error .failed⟩
      | none =>
          if !chunked then ⟨idle, .error .failed⟩
          else if busy then
            ⟨idle, .ok (.error lib 409 "talk_busy" "another talk-back upload is active", unread)⟩
          else chunkedUpload port lib bits (unread.length + 1) idle unread
      | some (some length) =>
          if busy then
            ⟨idle, .ok (.error lib 409 "talk_busy" "another talk-back upload is active", unread)⟩
          else if chunked then chunkedUpload port lib bits (unread.length + 1) idle unread
          else sizedUpload port lib counts (length + 1) length idle unread

/-! ## `talk_websocket` -/

/-- What `socket.next` yields: a message, or an error. -/
inductive SocketItem where
  | binary (bytes : Bytes)
  | ping (payload : Bytes)
  | close
  | other
  | failed
  deriving DecidableEq, Repr

/-- What the server sends over the socket. -/
inductive SocketReply where
  | pong (payload : Bytes)
  | rejected (text : Bytes)
  | close
  deriving DecidableEq, Repr

/-- The forwarding loop of `talk_websocket`, up to the end of the items. -/
def talkWebsocket (s : Talking A) (sent : List SocketReply) :
    List SocketItem → Talking A × List SocketReply
  | [] | .close :: _ | .failed :: _ => (s, sent)
  | .other :: items => talkWebsocket s sent items
  | .ping payload :: items => talkWebsocket s (sent ++ [.pong payload]) items
  | .binary bytes :: items =>
      match feed port s bytes with
      | (s, some error) => (s, sent ++ [.rejected (talkRejected lib error).body, .close])
      | (s, none) => talkWebsocket s sent items

end

/-! ## What the Agent gets -/

section

variable {A : Type} {port : TalkPort A} {Q : Type} {lib : Library Q} {bits : Nat}

/-- An Agent that accepts all audio. -/
def TalkPort.Accepts (port : TalkPort A) : Prop := ∀ audio agent, (port.talk audio agent).1 = none

/-- The chunks passed on are the audio in whole blocks. -/
structure Played (audio : Bytes) (passed : List AudioChunk) : Prop where
  sizes : ∀ chunk ∈ passed, chunk.pcm.length = talkBlock
  audio : passed.flatMap AudioChunk.pcm = audio.take (talkBlock * (audio.length / talkBlock))

/-- The buffer between two pieces: what was read is passed on, but for less than a block. -/
structure Buffered (fed : Bytes) (s : Talking A) : Prop where
  blocks : Blocks talkBlock fed (s.passed.map AudioChunk.pcm) s.pending
  short : s.pending.length < talkBlock

theorem buffered_idle (agent : A) : Buffered [] (⟨agent, [], []⟩ : Talking A) :=
  ⟨Blocks.nil, (by decide : 0 < talkBlock)⟩

theorem Buffered.played {fed : Bytes} {s : Talking A} (h : Buffered fed s) :
    Played fed s.passed where
  sizes := List.forall_mem_map.mp h.blocks.sizes
  audio := h.blocks.flatten_eq h.short

theorem forwardLoop_spec (haccepts : port.Accepts) {fed : Bytes} (n : Nat) {s : Talking A}
    (hn : s.pending.length ≤ n)
    (h : Blocks talkBlock fed (s.passed.map AudioChunk.pcm) s.pending) :
    ∃ s', forwardLoop port n s = (s', none) ∧ Buffered fed s' := by
  induction n generalizing s with
  | zero => exact ⟨s, rfl, h, by unfold talkBlock; omega⟩
  | succ n ih =>
      rw [forwardLoop]
      by_cases hfull : talkBlock ≤ s.pending.length
      · rw [if_pos hfull]
        dsimp only
        rw [haccepts]
        refine ih ?_ ?_
        · rw [List.length_drop]
          have : talkBlock = 512 := rfl
          omega
        · simpa using h.cut hfull
      · rw [if_neg hfull]
        exact ⟨s, rfl, h, Nat.not_le.mp hfull⟩

/-- **A piece goes through the buffer.** -/
theorem feed_spec (haccepts : port.Accepts) {fed : Bytes} {s : Talking A} (h : Buffered fed s)
    (piece : Bytes) : ∃ s', feed port s piece = (s', none) ∧ Buffered (fed ++ piece) s' :=
  forwardLoop_spec haccepts _ (Nat.le_refl _) (h.blocks.feed piece)

/-! ## Bodies with a length -/

theorem sizedUpload_spec (haccepts : port.Accepts) (counts : Nat → Nat) {fed : Bytes} (n : Nat)
    {s : Talking A} (h : Buffered fed s) {audio : Bytes} (hn : audio.length < n) (rest : Bytes) :
    ∃ s', sizedUpload port lib counts n audio.length s (audio ++ rest) =
      ⟨s', .ok (talkDone, rest)⟩ ∧ Buffered (fed ++ audio) s' := by
  induction n generalizing s fed audio with
  | zero => omega
  | succ n ih =>
      rw [sizedUpload]
      unfold sizedPiece
      by_cases hleft : audio.length = 0
      · rw [if_pos hleft]
        obtain rfl := List.length_eq_zero_iff.mp hleft
        exact ⟨s, by simp, by simpa using h⟩
      · have hsome : (audio ++ rest).isEmpty = false := by
          cases audio with
          | nil => exact absurd rfl hleft
          | cons b audio => rfl
        rw [if_neg hleft, hsome]
        simp only [Bool.false_eq_true, if_false]
        -- A read takes between one byte and all that is left.
        generalize hread : min (min audio.length 4096)
          (min (max 1 (counts n)) (audio ++ rest).length) = read
        have hbounds : 0 < read ∧ read ≤ audio.length := by
          rw [List.length_append] at hread
          omega
        have htake : (audio ++ rest).take read = audio.take read :=
          List.take_append_of_le_length hbounds.2
        have hdrop : (audio ++ rest).drop read = audio.drop read ++ rest :=
          List.drop_append_of_le_length hbounds.2
        obtain ⟨s', hfeed, hs'⟩ := feed_spec haccepts h (audio.take read)
        have hlength : audio.length - (audio.take read).length = (audio.drop read).length := by
          rw [List.length_take, List.length_drop, Nat.min_eq_left hbounds.2]
        rw [htake, hdrop, hfeed]
        dsimp only
        rw [hlength]
        obtain ⟨s'', hrun, hs''⟩ := @ih _ _ hs' (audio.drop read) (by rw [List.length_drop]; omega)
        rw [List.append_assoc, List.take_append_drop] at hs''
        exact ⟨s'', hrun, hs''⟩

/-! ## The messages of a socket -/

/-- The audio that comes over the socket before it ends. -/
def socketAudio : List SocketItem → Bytes
  | [] | .close :: _ | .failed :: _ => []
  | .other :: items | .ping _ :: items => socketAudio items
  | .binary bytes :: items => bytes ++ socketAudio items

theorem talkWebsocket_spec (haccepts : port.Accepts) (items : List SocketItem) {fed : Bytes}
    {s : Talking A} (h : Buffered fed s) (sent : List SocketReply) :
    Buffered (fed ++ socketAudio items) (talkWebsocket port lib s sent items).1 := by
  induction items generalizing s fed sent with
  | nil => simpa [talkWebsocket, socketAudio] using h
  | cons item items ih =>
      cases item with
      | binary bytes =>
          obtain ⟨s', hfeed, hs'⟩ := feed_spec haccepts h bytes
          rw [talkWebsocket, hfeed, socketAudio, ← List.append_assoc]
          exact ih hs' sent
      | ping payload => exact ih h (sent ++ [.pong payload])
      | other => exact ih h sent
      | close => simpa [talkWebsocket, socketAudio] using h
      | failed => simpa [talkWebsocket, socketAudio] using h

end

end Michoi
