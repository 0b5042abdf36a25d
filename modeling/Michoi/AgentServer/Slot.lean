/-
  The talk slot (`TALK_BUSY` of `agent_server.rs`): uploads and sockets that talk to one Agent
  at the same time.

  Every connection runs `talk_upload` or `talk_websocket` in steps of its own: the request is
  checked and the slot taken, a piece is read, a block of it is passed to the Agent, and the
  slot is given back when the function is left. `talks_one_at_a_time`: in every interleaving the
  Agent hears one talker after the other, each from its first byte on, and the slot is held by a
  talker that is there.
-/
import Michoi.AgentServer.Cut
import Michoi.AgentServer.Limit
import Michoi.Lib.Turns

namespace Michoi

open Lib

/-! ## Reading -/

/-- What a talker still has to read: a body in chunks, a body of which so much is left, or the
    messages of a socket. -/
inductive TalkSource where
  | chunked (unread : Bytes)
  | sized (left : Nat) (unread : Bytes)
  | socket (items : List SocketItem)
  deriving DecidableEq, Repr

/-- How a talker ends: an upload with a response or a fault, a socket with the last message or
    with a rejection. -/
inductive TalkEnd where
  | answered (response : Response)
  | failed (fault : Fault)
  | closed
  | rejected
  deriving DecidableEq, Repr

/-- What the loops do with what they read. -/
inductive TalkRead where
  | piece (bytes : Bytes) (rest : TalkSource)
  | message (sent : List SocketReply) (rest : TalkSource)
  | ended (e : TalkEnd)

namespace TalkSource

/-- The head of the loops; `count` says what a read returns. -/
def read (bits count : Nat) : TalkSource → TalkRead
  | chunked unread =>
      match chunkedPiece bits unread with
      | .error fault => .ended (.failed fault)
      | .ok (none, _) => .ended (.answered talkDone)
      | .ok (some piece, unread) => .piece piece (.chunked unread)
  | sized left unread =>
      match sizedPiece count left unread with
      | .error fault => .ended (.failed fault)
      | .ok (none, _) => .ended (.answered talkDone)
      | .ok (some piece, unread) => .piece piece (.sized (left - piece.length) unread)
  | socket [] | socket (.close :: _) | socket (.failed :: _) => .ended .closed
  | socket (.other :: items) => .message [] (.socket items)
  | socket (.ping payload :: items) => .message [.pong payload] (.socket items)
  | socket (.binary bytes :: items) => .piece bytes (.socket items)

/-- What a talker does when the Agent rejects a block. -/
def reject {Q : Type} (lib : Library Q) (error : PortError) :
    TalkSource → List SocketReply × TalkEnd
  | chunked _ | sized .. => ([], .answered (talkRejected lib error))
  | socket _ => ([.rejected (talkRejected lib error).body, .close], .rejected)

end TalkSource

/-! ## Requests -/

/-- What a connection calls `talk_upload` or `talk_websocket` with. -/
inductive TalkEntry where
  | upload (r : Request) (unread : Bytes)
  | socket (r : Request) (items : List SocketItem)
  deriving DecidableEq, Repr

/-- The request asks for a socket, with a key. -/
def Request.upgrades (r : Request) : Bool :=
  (r.header "sec-websocket-key").isSome &&
    (r.header "upgrade").any fun u => eqIgnoreAsciiCase u "websocket"

/-- The checks before the slot. -/
def TalkEntry.source {Q : Type} (lib : Library Q) (bits : Nat) :
    TalkEntry → Except TalkEnd TalkSource
  | upload r unread =>
      match requireContentType lib r mediaTypeL16 with
      | .error response => .error (.answered response)
      | .ok () =>
          let chunked := (r.header "transfer-encoding").any fun v =>
            contains (toAsciiLowercase v) "chunked"
          match (r.header "content-length").map fun v => fromStrRadix bits 10 v.toList with
          | some none => .error (.failed .failed)
          | none => if chunked then .ok (.chunked unread) else .error (.failed .failed)
          | some (some length) => .ok (if chunked then .chunked unread else .sized length unread)
  | socket r items =>
      if r.upgrades then .ok (.socket items)
      else .error (.answered (.error lib 400 "bad_request" "WebSocket upgrade expected"))

/-- The response where the slot is taken. -/
def talkBusy {Q : Type} (lib : Library Q) : Response :=
  .error lib 409 "talk_busy" "another talk-back upload is active"

/-! ## Steps -/

inductive TalkerPc where
  | request
  | reading (source : TalkSource)
  | forwarding (source : TalkSource)
  /-- The loop is left, `_release` is not dropped yet. -/
  | leaving (e : TalkEnd)
  | ended (e : TalkEnd)
  deriving DecidableEq, Repr

/-- Inside the loop, `_release` included. -/
def TalkerPc.holds : TalkerPc → Bool
  | reading _ | forwarding _ | leaving _ => true
  | request | ended _ => false

structure Talker where
  entry : TalkEntry
  pc : TalkerPc
  passed : List AudioChunk
  pending : Bytes
  sent : List SocketReply
  deriving DecidableEq, Repr

/-- The slot and the Agent, with all chunks that were passed to it. -/
structure TalkRoom (A : Type) where
  busy : Bool
  agent : A
  heard : List AudioChunk

namespace Talker

def new (entry : TalkEntry) : Talker where
  entry := entry
  pc := .request
  passed := []
  pending := []
  sent := []

def holds (t : Talker) : Bool := t.pc.holds

variable {A Q : Type} (port : TalkPort A) (lib : Library Q) (bits : Nat)

/-- The block that is passed on next. -/
def block (t : Talker) : AudioChunk where
  ptsUs := port.elapsedUs t.passed.length
  pcm := t.pending.take talkBlock

/-- The block was passed on. -/
def forwarded (t : Talker) : Talker :=
  { t with passed := t.passed ++ [t.block port], pending := t.pending.drop talkBlock }

/-- One step, up to the next place where another connection may run. -/
def step (count : Nat) (s : TalkRoom A) (t : Talker) : Option (TalkRoom A × Talker) :=
  match t.pc with
  | .request =>
      match t.entry.source lib bits with
      | .error e => some (s, { t with pc := .ended e })
      | .ok source =>
          -- `TALK_BUSY.swap(true)`.
          if s.busy then some (s, { t with pc := .ended (.answered (talkBusy lib)) })
          else some ({ s with busy := true }, { t with pc := .reading source })
  | .reading source =>
      match source.read bits count with
      | .piece bytes source =>
          some (s, { t with pc := .forwarding source, pending := t.pending ++ bytes })
      | .message sent source => some (s, { t with pc := .reading source, sent := t.sent ++ sent })
      | .ended e => some (s, { t with pc := .leaving e })
  | .forwarding source =>
      if talkBlock ≤ t.pending.length then
        let r := port.talk (t.block port) s.agent
        let s := { s with agent := r.2, heard := s.heard ++ [t.block port] }
        match r.1 with
        | some error =>
            let out := source.reject lib error
            some (s, { t.forwarded port with pc := .leaving out.2, sent := t.sent ++ out.1 })
        | none => some (s, t.forwarded port)
      else some (s, { t with pc := .reading source })
  | .leaving e => some ({ s with busy := false }, { t with pc := .ended e })
  | .ended _ => none

end Talker

/-- All interleavings of the connections, with an Agent that changes as it may. -/
def talkProgram {A Q : Type} (port : TalkPort A) (lib : Library Q) (bits : Nat) :
    Program (TalkRoom A) Talker Nat (A → A) where
  mayStart _ t := t = .new t.entry
  step := Talker.step port lib bits
  outside f s := { s with agent := f s.agent }

/-! ## What a talker has read -/

/-- The pieces of a chunked body, as the loop reads them. -/
def chunkedAudio (bits : Nat) : Nat → Bytes → Bytes
  | 0, _ => []
  | n + 1, unread =>
      match chunkedPiece bits unread with
      | .ok (some piece, unread) => piece ++ chunkedAudio bits n unread
      | .ok (none, _) | .error _ => []

/-- All audio that a loop reads. -/
def TalkSource.audio (bits : Nat) : TalkSource → Bytes
  | chunked unread => chunkedAudio bits (unread.length + 1) unread
  | sized left unread => unread.take left
  | socket items => socketAudio items

/-- An end after all audio. -/
def TalkEnd.Whole (e : TalkEnd) : Prop := e = .answered talkDone ∨ e = .closed

section

variable {bits : Nat}

theorem length_of_chunkedPiece {unread rest piece : Bytes}
    (h : chunkedPiece bits unread = .ok (some piece, rest)) : rest.length < unread.length := by
  unfold chunkedPiece at h
  split at h
  · cases h
  next size after hsize =>
  have hlt := length_of_readChunkSize hsize
  split at h
  · split at h <;> cases h
  split at h
  · cases h
  next buf left hexact =>
  split at h
  · cases h
  next line left' hline =>
  cases h
  have hexact' : left.length ≤ after.length := by
    unfold readExact at hexact
    split at hexact
    · cases hexact
      rw [List.length_drop]
      exact Nat.sub_le ..
    · cases hexact
  exact (length_of_readLine hline).trans_le (hexact'.trans hlt.le)

/-- More rounds than bytes are enough. -/
theorem chunkedAudio_rounds {unread : Bytes} {n m : Nat} (hn : unread.length < n)
    (hm : unread.length < m) : chunkedAudio bits n unread = chunkedAudio bits m unread := by
  induction n generalizing unread m with
  | zero => omega
  | succ n ih =>
      obtain ⟨m, rfl⟩ := Nat.exists_eq_add_one_of_ne_zero (show m ≠ 0 by omega)
      rw [chunkedAudio, chunkedAudio]
      split
      · next piece rest hpiece =>
          have hlt := length_of_chunkedPiece hpiece
          rw [ih (show rest.length < n by omega) (show rest.length < m by omega)]
      · rfl
      · rfl

theorem length_of_sizedPiece {count left : Nat} {unread rest piece : Bytes}
    (h : sizedPiece count left unread = .ok (some piece, rest)) :
    0 < piece.length ∧ piece.length ≤ left := by
  unfold sizedPiece at h
  split at h
  · cases h
  split at h
  · cases h
  next hleft hsome =>
  have hpos : unread.length ≠ 0 := fun hzero => hsome (List.isEmpty_iff.mpr
    (List.length_eq_zero_iff.mp hzero))
  cases h
  rw [List.length_take]
  omega

theorem sizedPiece_some {count left : Nat} {unread rest piece : Bytes}
    (h : sizedPiece count left unread = .ok (some piece, rest)) :
    unread.take left = piece ++ rest.take (left - piece.length) := by
  unfold sizedPiece at h
  split at h
  · cases h
  split at h
  · cases h
  generalize hread : min (min left 4096) (min (max 1 count) unread.length) = read at h
  cases h
  have hleft : read ≤ left := by omega
  have hlength : (unread.take read).length = read := by
    rw [List.length_take]
    omega
  rw [hlength, ← List.take_add, Nat.add_sub_cancel' hleft]

/-- **One read**, by what it gives. -/
theorem TalkSource.read_audio (bits : Nat) (source : TalkSource) (count : Nat) :
    match source.read bits count with
    | .piece bytes rest => source.audio bits = bytes ++ rest.audio bits
    | .message _ rest => source.audio bits = rest.audio bits
    | .ended e => e.Whole → source.audio bits = [] := by
  have hfault (fault : Fault) : ¬ (TalkEnd.failed fault).Whole := by
    rintro (h | h) <;> cases h
  cases source with
  | chunked unread =>
      dsimp only [TalkSource.audio, TalkSource.read]
      rw [chunkedAudio]
      cases hpiece : chunkedPiece bits unread with
      | error fault => exact fun h => absurd h (hfault fault)
      | ok read =>
          obtain ⟨_ | piece, rest⟩ := read
          · exact fun _ => rfl
          · exact congrArg (piece ++ ·)
              (chunkedAudio_rounds (length_of_chunkedPiece hpiece) (Nat.lt_succ_self _))
  | sized left unread =>
      dsimp only [TalkSource.audio, TalkSource.read]
      cases hpiece : sizedPiece count left unread with
      | error fault => exact fun h => absurd h (hfault fault)
      | ok read =>
          obtain ⟨_ | piece, rest⟩ := read
          · intro _
            unfold sizedPiece at hpiece
            split at hpiece
            · next hleft => rw [hleft, List.take_zero]
            · split at hpiece <;> cases hpiece
          · exact sizedPiece_some hpiece
  | socket items =>
      cases items with
      | nil => exact fun _ => rfl
      | cons item items => cases item <;> first | rfl | exact fun _ => rfl

end

/-! ## What a client sends -/

/-- The audio that a client sends with a request: in chunks that fit the buffer of the upload,
    with a length, or as messages of a socket. -/
inductive TalkEntry.Carries {Q : Type} (lib : Library Q) (bits : Nat) :
    TalkEntry → Bytes → Prop where
  | chunked {r : Request} {v : String} {pieces : List Bytes} (rest : Bytes)
      (hcoding : r.header "transfer-encoding" = some v)
      (hchunked : contains (toAsciiLowercase v) "chunked" = true)
      (hpieces : ∀ data ∈ pieces, data ≠ [] ∧ data.length ≤ maxPiece) :
      Carries lib bits (.upload r (pieces.flatMap writeChunk ++ zeroChunk ++ rest)) pieces.flatten
  | sized {r : Request} {audio : Bytes} (rest : Bytes) (hr : SizedTalk lib bits r audio.length) :
      Carries lib bits (.upload r (audio ++ rest)) audio
  | socket (r : Request) (items : List SocketItem) :
      Carries lib bits (.socket r items) (socketAudio items)

section

variable {bits : Nat}

theorem chunkedAudio_pieces (hbits : bits = 32 ∨ bits = 64) {pieces : List Bytes}
    (hpieces : ∀ data ∈ pieces, data ≠ [] ∧ data.length ≤ maxPiece) (rest : Bytes) {n : Nat}
    (hn : pieces.length < n) :
    chunkedAudio bits n (pieces.flatMap writeChunk ++ zeroChunk ++ rest) = pieces.flatten := by
  induction pieces generalizing n with
  | nil =>
      obtain ⟨n, rfl⟩ := Nat.exists_eq_add_one_of_ne_zero (Nat.ne_zero_of_lt hn)
      rw [chunkedAudio, List.flatMap_nil, List.nil_append, chunkedPiece_zeroChunk]
      rfl
  | cons data pieces ih =>
      obtain ⟨n, rfl⟩ := Nat.exists_eq_add_one_of_ne_zero (Nat.ne_zero_of_lt hn)
      obtain ⟨hne, hlength⟩ := hpieces data List.mem_cons_self
      have hpiece := (inStep_of_length hbits hne (Nat.le_succ_of_le hlength)).2
      rw [List.take_of_length_le hlength] at hpiece
      rw [chunkedAudio, List.flatMap_cons, List.append_assoc, List.append_assoc, hpiece,
        ← List.append_assoc]
      exact congrArg (data ++ ·) (ih (fun d hd => hpieces d (List.mem_cons_of_mem _ hd))
        (Nat.lt_of_succ_lt_succ hn))

/-- **The loops read what the client sent.** -/
theorem TalkEntry.Carries.audio {Q : Type} {lib : Library Q} (hbits : bits = 32 ∨ bits = 64)
    {entry : TalkEntry} {audio : Bytes} (h : entry.Carries lib bits audio) {first : TalkSource}
    (hfirst : entry.source lib bits = .ok first) : first.audio bits = audio := by
  cases h with
  | @chunked r v pieces rest hcoding hchunked hpieces =>
      have hsource : first = .chunked (pieces.flatMap writeChunk ++ zeroChunk ++ rest) := by
        have hany : ((r.header "transfer-encoding").any fun v =>
            contains (toAsciiLowercase v) "chunked") = true := by
          rw [hcoding]
          exact hchunked
        unfold TalkEntry.source at hfirst
        dsimp only at hfirst
        rw [hany] at hfirst
        split at hfirst
        · cases hfirst
        · split at hfirst
          · cases hfirst
          · exact (Except.ok.inj hfirst).symm
          · exact (Except.ok.inj hfirst).symm
      rw [hsource]
      refine chunkedAudio_pieces hbits hpieces rest (Nat.lt_succ_of_le ?_)
      have hcount := length_le_length_flatMap pieces (f := writeChunk)
        (by simp [writeChunk, asBytes_crlf, crlf])
      rw [List.length_append, List.length_append]
      omega
  | @sized r audio rest hr =>
      obtain ⟨digits, hheader, hlength⟩ := hr.length
      have hsource : (TalkEntry.upload r (audio ++ rest)).source lib bits =
          .ok (.sized audio.length (audio ++ rest)) := by
        unfold TalkEntry.source
        dsimp only
        rw [hr.audio, hr.coding, hheader, Option.map_some, hlength]
        rfl
      rw [hsource] at hfirst
      obtain rfl := Except.ok.inj hfirst
      exact List.take_left
  | socket r items =>
      unfold TalkEntry.source at hfirst
      dsimp only at hfirst
      split at hfirst
      · obtain rfl := Except.ok.inj hfirst
        rfl
      · cases hfirst

end

/-! ## What a step can do -/

section

variable {A Q : Type} {port : TalkPort A} {lib : Library Q} {bits : Nat}

inductive TalkerStep (port : TalkPort A) (lib : Library Q) (bits : Nat) (s : TalkRoom A)
    (t : Talker) : TalkRoom A → Talker → Prop where
  | refused {e : TalkEnd} (hpc : t.pc = .request) (hsource : t.entry.source lib bits = .error e) :
      TalkerStep port lib bits s t s { t with pc := .ended e }
  | taken {source : TalkSource} (hpc : t.pc = .request)
      (hsource : t.entry.source lib bits = .ok source) (hbusy : s.busy = true) :
      TalkerStep port lib bits s t s { t with pc := .ended (.answered (talkBusy lib)) }
  | enter {source : TalkSource} (hpc : t.pc = .request)
      (hsource : t.entry.source lib bits = .ok source) (hbusy : s.busy = false) :
      TalkerStep port lib bits s t { s with busy := true } { t with pc := .reading source }
  | piece {source rest : TalkSource} {count : Nat} {bytes : Bytes} (hpc : t.pc = .reading source)
      (hread : source.read bits count = .piece bytes rest) :
      TalkerStep port lib bits s t s
        { t with pc := .forwarding rest, pending := t.pending ++ bytes }
  | message {source rest : TalkSource} {count : Nat} {sent : List SocketReply}
      (hpc : t.pc = .reading source) (hread : source.read bits count = .message sent rest) :
      TalkerStep port lib bits s t s { t with pc := .reading rest, sent := t.sent ++ sent }
  | finish {source : TalkSource} {count : Nat} {e : TalkEnd} (hpc : t.pc = .reading source)
      (hread : source.read bits count = .ended e) :
      TalkerStep port lib bits s t s { t with pc := .leaving e }
  | pass {source : TalkSource} (hpc : t.pc = .forwarding source)
      (hfull : talkBlock ≤ t.pending.length) :
      TalkerStep port lib bits s t
        { s with agent := (port.talk (t.block port) s.agent).2,
                 heard := s.heard ++ [t.block port] } (t.forwarded port)
  | reject {source : TalkSource} (error : PortError) (hpc : t.pc = .forwarding source)
      (hfull : talkBlock ≤ t.pending.length) :
      TalkerStep port lib bits s t
        { s with agent := (port.talk (t.block port) s.agent).2,
                 heard := s.heard ++ [t.block port] }
        { t.forwarded port with
          pc := .leaving (source.reject lib error).2
          sent := t.sent ++ (source.reject lib error).1 }
  | drained {source : TalkSource} (hpc : t.pc = .forwarding source)
      (hshort : t.pending.length < talkBlock) :
      TalkerStep port lib bits s t s { t with pc := .reading source }
  | release {e : TalkEnd} (hpc : t.pc = .leaving e) :
      TalkerStep port lib bits s t { s with busy := false } { t with pc := .ended e }

theorem talkerStep_of_step {count : Nat} {s s' : TalkRoom A} {t t' : Talker}
    (h : t.step port lib bits count s = some (s', t')) : TalkerStep port lib bits s t s' t' := by
  unfold Talker.step at h
  split at h
  · next hpc =>
      split at h
      · next hsource =>
          cases h
          exact .refused hpc hsource
      · next hsource =>
          split at h <;> cases h
          · next hbusy => exact .taken hpc hsource hbusy
          · next hbusy => exact .enter hpc hsource (Bool.eq_false_iff.mpr hbusy)
  · next hpc =>
      split at h <;> cases h
      · next hread => exact .piece hpc hread
      · next hread => exact .message hpc hread
      · next hread => exact .finish hpc hread
  · next hpc =>
      split at h
      · next hfull =>
          dsimp only at h
          split at h <;> cases h
          · exact .reject _ hpc hfull
          · exact .pass hpc hfull
      · next hshort =>
          cases h
          exact .drained hpc (Nat.not_le.mp hshort)
  · next hpc =>
      cases h
      exact .release hpc
  · cases h

/-! ## The talkers -/

/-- What a talker has passed on, has in its buffer and has yet to read is all its audio. -/
def Talker.Reads (bits : Nat) (t : Talker) (first : TalkSource) (rest : Bytes) : Prop :=
  Blocks talkBlock (first.audio bits) (t.passed.map AudioChunk.pcm) (t.pending ++ rest)

/-- What holds of a talker, for where it stands. -/
def Talker.Ok (lib : Library Q) (bits : Nat) (t : Talker) : Prop :=
  match t.pc with
  | .request => t = .new t.entry
  | .reading source => ∃ first, t.entry.source lib bits = .ok first ∧
      t.Reads bits first (source.audio bits) ∧ t.pending.length < talkBlock
  | .forwarding source => ∃ first, t.entry.source lib bits = .ok first ∧
      t.Reads bits first (source.audio bits)
  | .leaving e | .ended e => (t.passed = [] ∧ ¬ e.Whole) ∨
      ∃ first rest, t.entry.source lib bits = .ok first ∧ t.Reads bits first rest ∧
        (e.Whole → rest = [] ∧ t.pending.length < talkBlock)

/-- A response with another status is no end after all audio. -/
theorem not_whole_answered {response : Response} (hstatus : response.status ≠ 204) :
    ¬ (TalkEnd.answered response).Whole := by
  rintro (h | h)
  · exact hstatus (congrArg Response.status (TalkEnd.answered.inj h))
  · cases h

theorem TalkSource.not_whole_reject (error : PortError) (source : TalkSource) :
    ¬ (source.reject lib error).2.Whole := by
  have hstatus : error.httpStatus ≠ 204 := by
    cases error with
    | call error => cases error <;> decide
    | unsupported => decide
  cases source with
  | socket items => rintro (h | h) <;> cases h
  | chunked | sized => exact not_whole_answered hstatus

theorem TalkEntry.not_whole_source {entry : TalkEntry} {e : TalkEnd}
    (h : entry.source lib bits = .error e) : ¬ e.Whole := by
  have hfailed : ¬ (TalkEnd.failed .failed).Whole := by
    rintro (h | h) <;> cases h
  have hstatus (status : Nat) (hne : status ≠ 204) (value : Payload) :
      ¬ (TalkEnd.answered (.json lib status value)).Whole := not_whole_answered hne
  unfold TalkEntry.source at h
  cases entry with
  | upload r unread =>
      dsimp only at h
      split at h
      · next htype =>
          cases h
          unfold requireContentType at htype
          split at htype
          · split at htype <;> cases htype
            exact hstatus 415 (by decide) _
          · cases htype
            exact hstatus 415 (by decide) _
      · split at h
        · cases h
          exact hfailed
        · split at h <;> cases h
          exact hfailed
        · cases h
  | socket r items =>
      dsimp only at h
      split at h <;> cases h
      exact hstatus 400 (by decide) _

/-- A block goes from the buffer to the Agent. -/
theorem Talker.Reads.forwarded {t : Talker} {first : TalkSource} {rest : Bytes}
    (h : t.Reads bits first rest) (hfull : talkBlock ≤ t.pending.length) :
    (t.forwarded port).Reads bits first rest := by
  have hcut := h.cut (by rw [List.length_append]; omega)
  rw [List.take_append_of_le_length hfull, List.drop_append_of_le_length hfull] at hcut
  unfold Talker.Reads Talker.forwarded
  rwa [List.map_append]

theorem Talker.Ok.step {s s' : TalkRoom A} {t t' : Talker} (h : t.Ok lib bits)
    (hstep : TalkerStep port lib bits s t s' t') : t'.Ok lib bits := by
  unfold Talker.Ok at h
  cases hstep with
  | refused hpc hsource =>
      rw [hpc] at h
      exact .inl ⟨congrArg Talker.passed h, TalkEntry.not_whole_source hsource⟩
  | taken hpc hsource hbusy =>
      rw [hpc] at h
      exact .inl ⟨congrArg Talker.passed h, not_whole_answered (by decide : 409 ≠ 204)⟩
  | @enter first hpc hsource hbusy =>
      rw [hpc] at h
      have hpassed : t.passed = [] := congrArg Talker.passed h
      have hpending : t.pending = [] := congrArg Talker.pending h
      refine ⟨first, hsource, ?_, by rw [hpending]; decide⟩
      unfold Talker.Reads
      rw [hpassed, hpending]
      exact Blocks.nil.feed _
  | @piece source rest count bytes hpc hread =>
      rw [hpc] at h
      obtain ⟨first, hfirst, hreads, -⟩ := h
      have haudio := source.read_audio bits count
      rw [hread] at haudio
      refine ⟨first, hfirst, ?_⟩
      unfold Talker.Reads at hreads ⊢
      rwa [haudio, ← List.append_assoc] at hreads
  | @message source rest count sent hpc hread =>
      rw [hpc] at h
      obtain ⟨first, hfirst, hreads, hshort⟩ := h
      have haudio := source.read_audio bits count
      rw [hread] at haudio
      exact ⟨first, hfirst, haudio ▸ hreads, hshort⟩
  | @finish source count e hpc hread =>
      rw [hpc] at h
      obtain ⟨first, hfirst, hreads, hshort⟩ := h
      have haudio := source.read_audio bits count
      rw [hread] at haudio
      exact .inr ⟨first, _, hfirst, hreads, fun he => ⟨haudio he, hshort⟩⟩
  | @pass source hpc hfull =>
      rw [hpc] at h
      obtain ⟨first, hfirst, hreads⟩ := h
      unfold Talker.Ok
      rw [show (t.forwarded port).pc = .forwarding source from hpc]
      exact ⟨first, hfirst, hreads.forwarded hfull⟩
  | @reject source error hpc hfull =>
      rw [hpc] at h
      obtain ⟨first, hfirst, hreads⟩ := h
      exact .inr ⟨first, _, hfirst, hreads.forwarded hfull,
        fun he => absurd he (source.not_whole_reject error)⟩
  | @drained source hpc hshort =>
      rw [hpc] at h
      obtain ⟨first, hfirst, hreads⟩ := h
      exact ⟨first, hfirst, hreads, hshort⟩
  | release hpc =>
      rw [hpc] at h
      exact h

/-! ## The slot -/

/-- The request was checked. -/
def Talker.Entered (t : Talker) : Prop := t.pc ≠ .request

/-- What holds of the room and all talkers. -/
structure TalkOk (lib : Library Q) (bits : Nat) (p : Pool (TalkRoom A) Talker) : Prop where
  talkers : ∀ t ∈ p.threads, t.Ok lib bits
  busy : p.shared.busy = true ↔ ∃ t ∈ p.threads, t.holds = true
  turns : ∃ order, TurnsIn (fun t => t.holds = true) Talker.Entered Talker.passed p.shared.heard
    p.threads order

theorem TalkOk.start (agent : A) : TalkOk lib bits (⟨⟨false, agent, []⟩, []⟩ : Pool _ _) where
  talkers _ h := absurd h List.not_mem_nil
  busy := by simp
  turns := ⟨[], .nil⟩

theorem Talker.holds_of_pc {t : Talker} {pc : TalkerPc} (hpc : t.pc = pc)
    (hholds : pc.holds = true) : t.holds = true := (congrArg TalkerPc.holds hpc).trans hholds

/-- A step that leaves the slot. -/
theorem exists_holds_set {ts : List Talker} {i : Nat} {t t' : Talker} (hl : ts[i]? = some t)
    (hsame : t'.holds = t.holds) :
    (∃ k ∈ ts, k.holds = true) ↔ ∃ k ∈ ts.set i t', k.holds = true := by
  refine ⟨fun h => exists_set h hl fun hholds => hsame.trans hholds, ?_⟩
  rintro ⟨k, hk, hholds⟩
  rcases List.mem_or_eq_of_mem_set hk with hk | rfl
  · exact ⟨k, hk, hholds⟩
  · exact ⟨t, List.mem_of_getElem? hl, hsame ▸ hholds⟩

section

variable {p : Pool (TalkRoom A) Talker} {i : Nat} {t t' : Talker} {s' : TalkRoom A}

theorem TalkOk.busy_step (h : TalkOk lib bits p) (hl : p.threads[i]? = some t)
    (hstep : TalkerStep port lib bits p.shared t s' t') :
    s'.busy = true ↔ ∃ k ∈ p.threads.set i t', k.holds = true := by
  have hsame (hheld : t'.holds = t.holds) (hbusy : s'.busy = p.shared.busy) :
      s'.busy = true ↔ ∃ k ∈ p.threads.set i t', k.holds = true := by
    rw [hbusy, h.busy]
    exact exists_holds_set hl hheld
  have hout (hpc : t.pc = .request) : t.holds = false := congrArg TalkerPc.holds hpc
  cases hstep with
  | refused hpc | taken hpc => exact hsame (hout hpc).symm rfl
  | enter hpc hsource hbusy =>
      exact iff_of_true rfl ⟨_, List.mem_of_getElem? (getElem?_set_self hl), rfl⟩
  | piece hpc | message hpc | finish hpc | drained hpc =>
      exact hsame (Talker.holds_of_pc hpc rfl).symm rfl
  | pass hpc hfull => exact hsame rfl rfl
  | reject error hpc hfull => exact hsame (Talker.holds_of_pc hpc rfl).symm rfl
  | release hpc =>
      -- No other talker has the slot.
      obtain ⟨order, hturns⟩ := h.turns
      refine iff_of_false nofun ?_
      rintro ⟨k, hk, hholds⟩
      obtain ⟨j, hj⟩ := List.mem_iff_getElem?.mp hk
      rcases getElem?_set_cases hj with ⟨-, rfl⟩ | ⟨hji, hj⟩
      · cases hholds
      · exact hji (hturns.atMostOne j i k t hj hl hholds (Talker.holds_of_pc hpc rfl))

theorem TalkOk.turns_step (h : TalkOk lib bits p) (hl : p.threads[i]? = some t)
    (hstep : TalkerStep port lib bits p.shared t s' t') :
    ∃ order, TurnsIn (fun t => t.holds = true) Talker.Entered Talker.passed s'.heard
      (p.threads.set i t') order := by
  obtain ⟨order, hturns⟩ := h.turns
  cases hstep with
  | refused hpc | taken hpc =>
      exact ⟨order, hturns.keep hl rfl (fun hin => by cases hin) fun hin => absurd hpc hin⟩
  | enter hpc hsource hbusy =>
      have hfree : ∀ k ∈ p.threads, ¬ k.holds = true := fun k hk hholds => by
        rw [h.busy.mpr ⟨k, hk, hholds⟩] at hbusy
        cases hbusy
      exact ⟨_, hturns.enter hl (fun hin => hin hpc) hfree rfl nofun⟩
  | piece hpc | message hpc | finish hpc | drained hpc =>
      exact ⟨order, hturns.keep hl rfl (fun _ => Talker.holds_of_pc hpc rfl) fun _ => nofun⟩
  | pass hpc hfull =>
      refine ⟨order, hturns.write hl (Talker.holds_of_pc hpc rfl) rfl fun hrequest => ?_⟩
      exact absurd (hpc.symm.trans hrequest) nofun
  | reject error hpc hfull =>
      exact ⟨order, hturns.write hl (Talker.holds_of_pc hpc rfl) rfl nofun⟩
  | release hpc => exact ⟨order, hturns.keep hl rfl (fun hin => by cases hin) fun _ => nofun⟩

theorem TalkOk.step (h : TalkOk lib bits p) (hl : p.threads[i]? = some t)
    (hstep : TalkerStep port lib bits p.shared t s' t') :
    TalkOk lib bits ⟨s', p.threads.set i t'⟩ where
  talkers k hk := by
    rcases List.mem_or_eq_of_mem_set hk with hk | rfl
    · exact h.talkers k hk
    · exact (h.talkers t (List.mem_of_getElem? hl)).step hstep
  busy := h.busy_step hl hstep
  turns := h.turns_step hl hstep

end

theorem TalkOk.next {p q : Pool (TalkRoom A) Talker} {m : Move Talker Nat (A → A)}
    (h : TalkOk lib bits p) (hq : (talkProgram port lib bits).system.next p m = some q) :
    TalkOk lib bits q := by
  obtain ⟨t, -, hstart, rfl⟩ | ⟨i, count, t, s', t', -, hl, hstep, rfl⟩ | ⟨f, -, rfl⟩ :=
    Program.next_cases hq
  · have hnew : t = .new t.entry := of_decide_eq_true hstart
    have hfresh : t.holds = false := hnew ▸ rfl
    obtain ⟨order, hturns⟩ := h.turns
    refine ⟨List.forall_mem_append.mpr ⟨h.talkers, List.forall_mem_singleton.mpr ?_⟩, ?_, order,
      hturns.append (by rw [hfresh]; decide) (hnew ▸ rfl)⟩
    · unfold Talker.Ok
      rw [show t.pc = .request from hnew ▸ rfl]
      exact hnew
    · rw [h.busy]
      simp [or_and_right, exists_or, hfresh]
  · exact h.step hl (talkerStep_of_step hstep)
  · exact ⟨h.talkers, h.busy, h.turns⟩

/-- What a talker has passed on: blocks of its audio from the first byte on, and all of them
    where it was taken to its end. -/
structure Talker.Told (lib : Library Q) (bits : Nat) (t : Talker) : Prop where
  sizes : ∀ chunk ∈ t.passed, chunk.pcm.length = talkBlock
  audio : t.passed ≠ [] → ∃ first, t.entry.source lib bits = .ok first ∧
    t.passed.flatMap AudioChunk.pcm <+: first.audio bits
  whole : ∀ e, t.pc = .ended e → e.Whole → ∃ first, t.entry.source lib bits = .ok first ∧
    Played (first.audio bits) t.passed

theorem Talker.Reads.told {t : Talker} {first : TalkSource} {rest : Bytes}
    (h : t.Reads bits first rest) (hfirst : t.entry.source lib bits = .ok first)
    (hwhole : ∀ e, t.pc = .ended e → e.Whole → rest = [] ∧ t.pending.length < talkBlock) :
    t.Told lib bits where
  sizes := List.forall_mem_map.mp h.sizes
  audio _ := ⟨first, hfirst, _, h.whole⟩
  whole e hpc he := by
    obtain ⟨rfl, hshort⟩ := hwhole e hpc he
    refine ⟨first, hfirst, List.forall_mem_map.mp h.sizes, ?_⟩
    exact h.flatten_eq (by rwa [List.append_nil])

theorem Talker.told_of_nothing {t : Talker} (hpassed : t.passed = [])
    (hwhole : ∀ e, t.pc = .ended e → ¬ e.Whole) : t.Told lib bits where
  sizes chunk hchunk := by
    rw [hpassed] at hchunk
    exact absurd hchunk List.not_mem_nil
  audio hne := absurd hpassed hne
  whole e hpc he := absurd he (hwhole e hpc)

theorem Talker.Ok.told {t : Talker} (h : t.Ok lib bits) : t.Told lib bits := by
  unfold Talker.Ok at h
  split at h
  · next hpc =>
      refine Talker.told_of_nothing (congrArg Talker.passed h) fun e he => ?_
      exact absurd (hpc.symm.trans he) nofun
  · next hpc =>
      obtain ⟨first, hfirst, hreads, -⟩ := h
      exact hreads.told hfirst fun e he => absurd (hpc.symm.trans he) nofun
  · next hpc =>
      obtain ⟨first, hfirst, hreads⟩ := h
      exact hreads.told hfirst fun e he => absurd (hpc.symm.trans he) nofun
  · next hpc =>
      obtain ⟨hpassed, -⟩ | ⟨first, rest, hfirst, hreads, -⟩ := h
      · exact Talker.told_of_nothing hpassed fun e he => absurd (hpc.symm.trans he) nofun
      · exact hreads.told hfirst fun e he => absurd (hpc.symm.trans he) nofun
  · next e hpc =>
      obtain ⟨hpassed, hpart⟩ | ⟨first, rest, hfirst, hreads, hwhole⟩ := h
      · refine Talker.told_of_nothing hpassed fun e' he => ?_
        exact TalkerPc.ended.inj (hpc.symm.trans he) ▸ hpart
      · refine hreads.told hfirst fun e' he => ?_
        exact TalkerPc.ended.inj (hpc.symm.trans he) ▸ hwhole

/-- A talker has passed on what its client sent from the first byte on, and all whole blocks of
    it where it was taken to its end. -/
structure Talker.TellsOf (t : Talker) (audio : Bytes) : Prop where
  part : t.passed.flatMap AudioChunk.pcm <+: audio
  whole : ∀ e, t.pc = .ended e → e.Whole → Played audio t.passed

theorem Talker.Told.tellsOf {t : Talker} (h : t.Told lib bits) (hbits : bits = 32 ∨ bits = 64)
    {audio : Bytes} (hcarries : t.entry.Carries lib bits audio) : t.TellsOf audio where
  part := by
    by_cases hpassed : t.passed = []
    · rw [hpassed]
      exact List.nil_prefix
    · obtain ⟨first, hfirst, hpart⟩ := h.audio hpassed
      rwa [hcarries.audio hbits hfirst] at hpart
  whole e hpc he := by
    obtain ⟨first, hfirst, hplayed⟩ := h.whole e hpc he
    rwa [hcarries.audio hbits hfirst] at hplayed

/-- The slot is free where no talker has it. -/
theorem TalkOk.not_busy {p : Pool (TalkRoom A) Talker} (h : TalkOk lib bits p)
    (hfree : ∀ k ∈ p.threads, k.holds = false) : p.shared.busy = false := by
  rw [Bool.eq_false_iff, Ne, h.busy]
  rintro ⟨k, hk, hholds⟩
  rw [hfree k hk] at hholds
  cases hholds

/-- A valid request gets the free slot. -/
theorem step_enter {s : TalkRoom A} {t : Talker} {first : TalkSource} (hpc : t.pc = .request)
    (hfirst : t.entry.source lib bits = .ok first) (hbusy : s.busy = false) (count : Nat) :
    t.step port lib bits count s =
      some ({ s with busy := true }, { t with pc := .reading first }) := by
  unfold Talker.step
  rw [hpc]
  dsimp only
  rw [hfirst, hbusy]
  rfl

/-- **One talker after the other**, in every interleaving of uploads and sockets: at most one has
    the slot, it is taken only while one has it, and whoever comes while none has it gets it.
    What the Agent has heard is what the talkers passed on, one after the other, and this is
    what their loops read from the first byte on in blocks of 512 bytes, and what their clients
    sent where no chunk is larger than the buffer of the upload. -/
theorem talks_one_at_a_time (port : TalkPort A) (lib : Library Q) (bits : Nat) (agent : A)
    {moves : List (Move Talker Nat (A → A))} {q : Pool (TalkRoom A) Talker}
    (hrun : (talkProgram port lib bits).system.run ⟨⟨false, agent, []⟩, []⟩ moves = some q) :
    AtMostOne (fun t => t.holds = true) q.threads ∧
      (q.shared.busy = true ↔ ∃ t ∈ q.threads, t.holds = true) ∧
      (∀ (i : Nat) t first, q.threads[i]? = some t → t.pc = .request →
        t.entry.source lib bits = .ok first → (∀ k ∈ q.threads, k.holds = false) →
        ∀ count, ∃ q', (talkProgram port lib bits).system.next q (.step i count) = some q' ∧
          ∃ t', q'.threads[i]? = some t' ∧ t'.holds = true) ∧
      (∃ order : List Nat, order.Nodup ∧
        q.shared.heard = order.flatMap (partAt Talker.passed q.threads)) ∧
      ∀ t ∈ q.threads, t.Told lib bits ∧ (bits = 32 ∨ bits = 64 →
        ∀ audio, t.entry.Carries lib bits audio → t.TellsOf audio) := by
  have hok : TalkOk lib bits q :=
    System.run_induction (fun _ _ _ hp hq => hp.next hq) (.start agent) hrun
  obtain ⟨order, hturns⟩ := hok.turns
  refine ⟨hturns.atMostOne, hok.busy, fun i t first hl hpc hfirst hfree count => ?_,
    ⟨order, hturns.nodup, hturns.log⟩, fun t ht => ?_⟩
  · have hstep := @step_enter A Q port lib bits _ t first hpc hfirst (hok.not_busy hfree) count
    exact ⟨_, Program.next_step hl hstep, _, getElem?_set_self hl, rfl⟩
  · have htold := (hok.talkers t ht).told
    exact ⟨htold, fun hbits audio => htold.tellsOf hbits⟩

end

/-- A socket with a ping, 600 bytes of audio and its end. -/
def talkingSocket : Talker := .new (.socket
  ⟨"GET", "/v1/talk.ws", "", [("sec-websocket-key", "AA=="), ("upgrade", "WebSocket")], [], true⟩
  [.ping [7], .binary (zeros 600), .close])

/-- An upload of 512 bytes in two chunks. -/
def talkingUpload : Talker := .new (.upload
  ⟨"POST", "/v1/talk", "", [("content-type", "audio/l16"), ("transfer-encoding", "chunked")], [],
    true⟩
  ([zeros 300, zeros 212].flatMap writeChunk ++ zeroChunk ++ []))

theorem carries_talkingUpload :
    talkingUpload.entry.Carries errorsOnly 64 [zeros 300, zeros 212].flatten :=
  .chunked (v := "chunked") [] (by decide) (by decide +kernel) (by decide +kernel)

/-- An upload comes while the socket talks, and another one after it. -/
def threeTalkers : List (Move Talker Nat (Unit → Unit)) :=
  [.start talkingSocket, .start talkingUpload, .step 0 1, .step 0 1, .step 1 1, .step 0 1,
    .step 0 1, .start talkingUpload, .step 0 1, .step 0 1, .step 0 1] ++
      List.replicate 8 (.step 2 1)

/-- The socket's talk and the second upload reach the Agent, and of the upload both chunks. -/
theorem talks_three : ∃ q, (talkProgram acceptsAll errorsOnly 64).system.run
      ⟨⟨false, (), []⟩, []⟩ threeTalkers = some q ∧
    q.threads.map Talker.pc = [.ended .closed, .ended (.answered (talkBusy errorsOnly)),
      .ended (.answered talkDone)] ∧
    (∃ order : List Nat, order.Nodup ∧
      q.shared.heard = order.flatMap (partAt Talker.passed q.threads)) ∧
    ∃ t, q.threads[2]? = some t ∧ t.TellsOf [zeros 300, zeros 212].flatten := by
  have hend : ((talkProgram acceptsAll errorsOnly 64).system.run ⟨⟨false, (), []⟩, []⟩
      threeTalkers).map (fun q => (q.threads.map Talker.pc, (q.threads[2]?).map Talker.entry)) =
      some ([.ended .closed, .ended (.answered (talkBusy errorsOnly)),
        .ended (.answered talkDone)], some talkingUpload.entry) := by decide +kernel
  obtain ⟨q, hrun, hboth⟩ := Option.map_eq_some_iff.mp hend
  obtain ⟨hpcs, hentry⟩ := Prod.mk.inj hboth
  obtain ⟨t, ht, hentry⟩ := Option.map_eq_some_iff.mp hentry
  obtain ⟨-, -, -, horder, htold⟩ := talks_one_at_a_time acceptsAll errorsOnly 64 () hrun
  refine ⟨q, hrun, hpcs, horder, t, ht, ?_⟩
  exact (htold t (List.mem_of_getElem? ht)).2 (.inr rfl) _ (hentry ▸ carries_talkingUpload)

end Michoi
