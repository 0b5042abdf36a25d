/-
  A talker alone on the slot does what `talk_upload` and `talk_websocket` do in one go.

  The steps of `AgentServer.Slot` follow the loops of `AgentServer.Talk`: what a talker has
  passed on, what it sends and how it ends are the result of the function, and so is the Agent.
-/
import Michoi.AgentServer.Slot

namespace Michoi

open Lib

namespace Talking

variable {A : Type}

/-- The room of a talker in this state. -/
def room (s : Talking A) (busy : Bool) (heard : List AudioChunk) : TalkRoom A where
  busy := busy
  agent := s.agent
  heard := heard ++ s.passed

def talker (s : Talking A) (entry : TalkEntry) (pc : TalkerPc) (sent : List SocketReply) :
    Talker where
  entry := entry
  pc := pc
  passed := s.passed
  pending := s.pending
  sent := sent

end Talking

section

variable {A Q : Type} {port : TalkPort A} {lib : Library Q} {bits count : Nat}
  {heard : List AudioChunk} {entry : TalkEntry} {sent : List SocketReply}

/-- The talker gets from one state of the loop to another while it has the slot. -/
def Goes (port : TalkPort A) (lib : Library Q) (bits count : Nat) (heard : List AudioChunk)
    (s : Talking A) (t : Talker) (s' : Talking A) (t' : Talker) : Prop :=
  Alone (talkProgram port lib bits) count (s.room true heard) t (s'.room true heard) t'

theorem Goes.step {s s' s'' : Talking A} {t t' t'' : Talker}
    (h : Talker.step port lib bits count (s.room true heard) t = some (s'.room true heard, t'))
    (rest : Goes port lib bits count heard s' t' s'' t'') :
    Goes port lib bits count heard s t s'' t'' := Alone.step h rest

theorem Goes.one {s s' : Talking A} {t t' : Talker}
    (h : Talker.step port lib bits count (s.room true heard) t = some (s'.room true heard, t')) :
    Goes port lib bits count heard s t s' t' := .step h .refl

/-- Where a talker is after the blocks of a piece. -/
def Talking.fed (s : Talking A) (lib : Library Q) (entry : TalkEntry) (source : TalkSource)
    (sent : List SocketReply) : Option PortError → Talker
  | none => s.talker entry (.reading source) sent
  | some error => s.talker entry (.leaving (source.reject lib error).2)
      (sent ++ (source.reject lib error).1)

/-! ## The blocks of a piece -/

theorem step_short (source : TalkSource) {s : Talking A} (hshort : s.pending.length < talkBlock) :
    Talker.step port lib bits count (s.room true heard)
        (s.talker entry (.forwarding source) sent) =
      some (s.room true heard, s.talker entry (.reading source) sent) := by
  unfold Talker.step Talking.talker
  dsimp only
  rw [if_neg (Nat.not_le.mpr hshort)]

/-- The block that goes to the Agent, and what the Agent makes of it. -/
theorem step_block (source : TalkSource) {s : Talking A} (hfull : talkBlock ≤ s.pending.length) :
    let audio : AudioChunk :=
      { ptsUs := port.elapsedUs s.passed.length, pcm := s.pending.take talkBlock }
    let r := port.talk audio s.agent
    let s' : Talking A :=
      { agent := r.2, passed := s.passed ++ [audio], pending := s.pending.drop talkBlock }
    Talker.step port lib bits count (s.room true heard)
        (s.talker entry (.forwarding source) sent) =
      some (s'.room true heard, match r.1 with
        | some error => s'.fed lib entry source sent (some error)
        | none => s'.talker entry (.forwarding source) sent) := by
  dsimp only
  unfold Talker.step Talking.talker Talking.room Talking.fed
  dsimp only
  rw [if_pos hfull, List.append_assoc]
  unfold Talker.block Talker.forwarded
  dsimp only
  cases (port.talk ⟨port.elapsedUs s.passed.length, s.pending.take talkBlock⟩ s.agent).1 <;> rfl

theorem forward_alone (source : TalkSource) (n : Nat) (s : Talking A) (hn : s.pending.length ≤ n) :
    Goes port lib bits count heard s (s.talker entry (.forwarding source) sent)
      (forwardLoop port n s).1
      ((forwardLoop port n s).1.fed lib entry source sent (forwardLoop port n s).2) := by
  induction n generalizing s with
  | zero => exact Goes.one (step_short source (by unfold talkBlock; omega))
  | succ n ih =>
      rw [forwardLoop]
      by_cases hfull : talkBlock ≤ s.pending.length
      · rw [if_pos hfull]
        have hstep := @step_block A Q port lib bits count heard entry sent source s hfull
        dsimp only at hstep ⊢
        cases hport : (port.talk
          ⟨port.elapsedUs s.passed.length, s.pending.take talkBlock⟩ s.agent).1 with
        | some error =>
            rw [hport] at hstep
            exact Goes.one hstep
        | none =>
            rw [hport] at hstep
            have hless : (s.pending.drop talkBlock).length ≤ n := by
              rw [List.length_drop]
              have : talkBlock = 512 := rfl
              omega
            exact Goes.step hstep (ih _ hless)
      · rw [if_neg hfull]
        exact Goes.one (step_short source (Nat.not_le.mp hfull))

/-- A piece goes through the buffer. -/
theorem feed_alone {source rest : TalkSource} (s : Talking A) {piece : Bytes}
    (hread : source.read bits count = .piece piece rest) :
    Goes port lib bits count heard s (s.talker entry (.reading source) sent)
      (Michoi.feed port s piece).1
      ((Michoi.feed port s piece).1.fed lib entry rest sent (Michoi.feed port s piece).2) := by
  have hstep : Talker.step port lib bits count (s.room true heard)
      (s.talker entry (.reading source) sent) =
        some (Talking.room { s with pending := s.pending ++ piece } true heard,
          Talking.talker { s with pending := s.pending ++ piece } entry (.forwarding rest) sent) := by
    unfold Talker.step Talking.talker
    dsimp only
    rw [hread]
    rfl
  exact Goes.step hstep (forward_alone rest _ _ (Nat.le_refl _))

/-- The end of the loop. -/
theorem over_alone {source : TalkSource} (s : Talking A) {e : TalkEnd}
    (hread : source.read bits count = .ended e) :
    Goes port lib bits count heard s (s.talker entry (.reading source) sent) s
      (s.talker entry (.leaving e) sent) := by
  apply Goes.one
  unfold Talker.step Talking.talker
  dsimp only
  rw [hread]

/-! ## The loops -/

/-- How the function ends. -/
def TalkEnd.of : ReadResult Response → TalkEnd
  | .ok (response, _) => .answered response
  | .error fault => .failed fault

theorem chunked_alone (n : Nat) (s : Talking A) {unread : Bytes} (hn : unread.length < n) :
    Goes port lib bits count heard s (s.talker entry (.reading (.chunked unread)) sent)
      (chunkedUpload port lib bits n s unread).talking
      ((chunkedUpload port lib bits n s unread).talking.talker entry
        (.leaving (.of (chunkedUpload port lib bits n s unread).result)) sent) := by
  induction n generalizing s unread with
  | zero => omega
  | succ n ih =>
      rw [chunkedUpload]
      split
      · next hpiece => exact over_alone s (by simp only [TalkSource.read, hpiece]; rfl)
      · next hpiece => exact over_alone s (by simp only [TalkSource.read, hpiece]; rfl)
      · next piece rest hpiece =>
          have hfeed := @feed_alone A Q port lib bits count heard entry sent (.chunked unread)
            (.chunked rest) s piece (by simp only [TalkSource.read, hpiece])
          split
          · next hrejected =>
              rw [hrejected, Talking.fed, TalkSource.reject, List.append_nil] at hfeed
              exact hfeed
          · next hfed =>
              rw [hfed] at hfeed
              have hlt := length_of_chunkedPiece hpiece
              exact Alone.trans hfeed (ih _ (by omega))

theorem sized_alone (n left : Nat) (s : Talking A) {unread : Bytes} (hn : left < n) :
    Goes port lib bits count heard s (s.talker entry (.reading (.sized left unread)) sent)
      (sizedUpload port lib (fun _ => count) n left s unread).talking
      ((sizedUpload port lib (fun _ => count) n left s unread).talking.talker entry
        (.leaving (.of (sizedUpload port lib (fun _ => count) n left s unread).result)) sent) := by
  induction n generalizing left s unread with
  | zero => omega
  | succ n ih =>
      rw [sizedUpload]
      split
      · next hpiece => exact over_alone s (by simp only [TalkSource.read, hpiece]; rfl)
      · next hpiece => exact over_alone s (by simp only [TalkSource.read, hpiece]; rfl)
      · next piece rest hpiece =>
          have hfeed := @feed_alone A Q port lib bits count heard entry sent (.sized left unread)
            (.sized (left - piece.length) rest) s piece (by simp only [TalkSource.read, hpiece])
          split
          · next hrejected =>
              rw [hrejected, Talking.fed, TalkSource.reject, List.append_nil] at hfeed
              exact hfeed
          · next hfed =>
              rw [hfed] at hfeed
              -- A piece is a byte at least.
              have hpos := length_of_sizedPiece hpiece
              exact Alone.trans hfeed (ih _ _ (by omega))

theorem messages_alone (items : List SocketItem) (s : Talking A) (sent : List SocketReply) :
    ∃ e, Goes port lib bits count heard s (s.talker entry (.reading (.socket items)) sent)
      (talkWebsocket port lib s sent items).1
      ((talkWebsocket port lib s sent items).1.talker entry (.leaving e)
        (talkWebsocket port lib s sent items).2) := by
  induction items generalizing s sent with
  | nil => exact ⟨.closed, over_alone s rfl⟩
  | cons item items ih =>
      cases item with
      | close | failed => exact ⟨.closed, over_alone s rfl⟩
      | other =>
          have hstep : Talker.step port lib bits count (s.room true heard)
              (s.talker entry (.reading (.socket (.other :: items))) sent) =
                some (s.room true heard, s.talker entry (.reading (.socket items)) sent) := by
            unfold Talker.step Talking.talker
            dsimp only [TalkSource.read]
            rw [List.append_nil]
          exact (ih s sent).imp fun _ hrest => Goes.step hstep hrest
      | ping payload =>
          have hstep : Talker.step port lib bits count (s.room true heard)
              (s.talker entry (.reading (.socket (.ping payload :: items))) sent) =
                some (s.room true heard,
                  s.talker entry (.reading (.socket items)) (sent ++ [.pong payload])) := rfl
          exact (ih s (sent ++ [.pong payload])).imp fun _ hrest => Goes.step hstep hrest
      | binary bytes =>
          have hfeed := @feed_alone A Q port lib bits count heard entry sent
            (.socket (.binary bytes :: items)) (.socket items) s bytes rfl
          rw [talkWebsocket]
          split
          · next hrejected =>
              rw [hrejected] at hfeed
              exact ⟨.rejected, hfeed⟩
          · next hfed =>
              rw [hfed] at hfeed
              exact (ih _ sent).imp fun _ hrest => Alone.trans hfeed hrest

/-! ## The functions -/

/-- The talker takes the slot, and gives it back. -/
theorem within_slot {source : TalkSource} {agent : A} {s : Talking A} {e : TalkEnd}
    (hsource : entry.source lib bits = .ok source)
    (h : Goes port lib bits count heard ⟨agent, [], []⟩
      (Talking.talker (⟨agent, [], []⟩ : Talking A) entry (.reading source) []) s
      (s.talker entry (.leaving e) sent)) :
    Alone (talkProgram port lib bits) count ⟨false, agent, heard⟩ (.new entry)
      (s.room false heard) (s.talker entry (.ended e) sent) := by
  have henter : Talker.step port lib bits count ⟨false, agent, heard⟩ (.new entry) =
      some (Talking.room (⟨agent, [], []⟩ : Talking A) true heard,
        Talking.talker (⟨agent, [], []⟩ : Talking A) entry (.reading source) []) := by
    unfold Talker.step Talker.new Talking.room Talking.talker
    dsimp only
    rw [hsource, List.append_nil]
    rfl
  have hrelease : Talker.step port lib bits count (s.room true heard)
      (s.talker entry (.leaving e) sent) =
        some (s.room false heard, s.talker entry (.ended e) sent) := rfl
  exact .step henter (Alone.trans h (.one hrelease))

/-- A request that is refused leaves everything. -/
theorem refused_alone {agent : A} {e : TalkEnd} (hsource : entry.source lib bits = .error e) :
    Alone (talkProgram port lib bits) count ⟨false, agent, heard⟩ (.new entry)
      (Talking.room (⟨agent, [], []⟩ : Talking A) false heard)
      (Talking.talker (⟨agent, [], []⟩ : Talking A) entry (.ended e) []) := by
  have hstep : Talker.step port lib bits count ⟨false, agent, heard⟩ (.new entry) =
      some (Talking.room (⟨agent, [], []⟩ : Talking A) false heard,
        Talking.talker (⟨agent, [], []⟩ : Talking A) entry (.ended e) []) := by
    unfold Talker.step Talker.new Talking.room Talking.talker
    dsimp only
    rw [hsource, List.append_nil]
  exact .one hstep

/-- **An upload alone** is `talk_upload`: the chunks that the Agent gets, the Agent after them,
    and the end. -/
theorem upload_alone (port : TalkPort A) (lib : Library Q) (bits count : Nat) (agent : A)
    (heard : List AudioChunk) (r : Request) (unread : Bytes) :
    Alone (talkProgram port lib bits) count ⟨false, agent, heard⟩ (.new (.upload r unread))
      ((talkUpload port lib bits false (fun _ => count) r agent unread).talking.room false heard)
      ((talkUpload port lib bits false (fun _ => count) r agent unread).talking.talker
        (.upload r unread)
        (.ended (.of (talkUpload port lib bits false (fun _ => count) r agent unread).result))
        []) := by
  unfold talkUpload
  dsimp only
  split
  · next htype =>
      apply refused_alone
      unfold TalkEntry.source
      dsimp only
      rw [htype]
      rfl
  · next htype =>
      split
      · next hlength =>
          apply refused_alone
          unfold TalkEntry.source
          dsimp only
          rw [htype, hlength]
          rfl
      · next hlength =>
          split
          · next hcoding =>
              apply refused_alone
              unfold TalkEntry.source
              dsimp only
              rw [htype, hlength]
              exact if_neg (by simpa using hcoding)
          · next hcoding =>
              have hsource : (TalkEntry.upload r unread).source lib bits = .ok (.chunked unread) := by
                unfold TalkEntry.source
                dsimp only
                rw [htype, hlength]
                exact if_pos (by simpa using hcoding)
              exact within_slot hsource (chunked_alone _ _ (Nat.lt_succ_self _))
      · next length hlength =>
          have hsource : (TalkEntry.upload r unread).source lib bits = .ok
              (if (r.header "transfer-encoding").any fun v => contains (toAsciiLowercase v) "chunked"
                then .chunked unread else .sized length unread) := by
            unfold TalkEntry.source
            dsimp only
            rw [htype, hlength]
          rw [if_neg Bool.false_ne_true]
          split
          · next hcoding =>
              rw [if_pos hcoding] at hsource
              exact within_slot hsource (chunked_alone _ _ (Nat.lt_succ_self _))
          · next hcoding =>
              rw [if_neg hcoding] at hsource
              exact within_slot hsource (sized_alone _ _ _ (Nat.lt_succ_self _))

/-- **A socket alone** is the loop of `talk_websocket`. -/
theorem socket_alone (port : TalkPort A) (lib : Library Q) (bits count : Nat) (agent : A)
    (heard : List AudioChunk) {r : Request} (hr : r.upgrades = true) (items : List SocketItem) :
    ∃ e, Alone (talkProgram port lib bits) count ⟨false, agent, heard⟩ (.new (.socket r items))
      ((talkWebsocket port lib ⟨agent, [], []⟩ [] items).1.room false heard)
      ((talkWebsocket port lib ⟨agent, [], []⟩ [] items).1.talker (.socket r items) (.ended e)
        (talkWebsocket port lib ⟨agent, [], []⟩ [] items).2) := by
  have hsource : (TalkEntry.socket r items).source lib bits = .ok (.socket items) := if_pos hr
  exact (messages_alone items ⟨agent, [], []⟩ []).imp fun _ h => within_slot hsource h

end

end Michoi
