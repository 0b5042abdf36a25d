/-
  The live picture (`mjpeg_stream` of `agent_server.rs`): the frames that the Agent shows, any
  number of connections that write them as parts, and a client that reads the parts.

  `push_video` of the Agent is two atomic steps: it keeps the frame, then it broadcasts it. It
  is called from the receive loop alone. A connection subscribes, then writes the frame that is
  kept, and then what it receives; it may end at any time, and then takes no more steps.

  Left out: a request that accepts neither media type, which is answered before anything here.
-/
import Michoi.AgentServer.Client
import Michoi.Lib.Broadcast
import Michoi.Lib.System
import Michoi.Media

namespace Michoi

open Lib

/-! ## The frames -/

structure VideoFeed where
  /-- `latest`, which `snapshot` returns. -/
  latest : Option VideoFrame
  live : Broadcast VideoFrame
  /-- The frame that `push_video` has kept and is about to broadcast. -/
  pushing : Option VideoFrame
  deriving DecidableEq, Repr

namespace VideoFeed

def start (capacity : Nat) : VideoFeed := ⟨none, .new capacity, none⟩

/-- Every frame shown so far. -/
def shown (f : VideoFeed) : List VideoFrame := f.live.sent ++ f.pushing.toList

end VideoFeed

/-! ## The connections -/

/-- Where a connection stands. From its subscription on it holds a receiver. -/
inductive MjpegPc where
  | request
  | subscribed (next : Nat)
  | live (next : Nat)
  deriving DecidableEq, Repr

structure MjpegStream where
  pc : MjpegPc
  /-- How many frames had been broadcast when the connection subscribed. -/
  since : Nat
  /-- The frames written, oldest first. -/
  written : List VideoFrame
  /-- How many frames the channel dropped before the receiver got them. -/
  skipped : Nat
  deriving DecidableEq, Repr

namespace MjpegStream

def connect : MjpegStream := ⟨.request, 0, [], 0⟩

/-- One step of `mjpeg_stream`; `none` while it waits for the channel. -/
def step (f : VideoFeed) (s : MjpegStream) : Option MjpegStream :=
  match s.pc with
  | .request => some { s with pc := .subscribed f.live.subscribe, since := f.live.sent.length }
  | .subscribed next => some { s with pc := .live next, written := s.written ++ f.latest.toList }
  | .live next =>
      match f.live.recv next with
      | (.value frame, next) => some { s with pc := .live next, written := s.written ++ [frame] }
      | (.lagged, oldest) =>
          some { s with pc := .live oldest, skipped := s.skipped + (oldest - next) }
      | (.empty, _) => none

end MjpegStream

structure MjpegServer where
  feed : VideoFeed
  streams : List MjpegStream

/-- `push_video` in its two steps, a new connection, or a step of one. -/
inductive MjpegMove where
  | keep (frame : VideoFrame)
  | broadcast
  | connect
  | stream (i : Nat)

def MjpegServer.next (p : MjpegServer) : MjpegMove → Option MjpegServer
  | .keep frame =>
      match p.feed.pushing with
      | none => some { p with feed := { p.feed with latest := some frame, pushing := some frame } }
      | some _ => none
  | .broadcast => p.feed.pushing.map fun frame =>
      { p with feed := { p.feed with live := p.feed.live.send frame, pushing := none } }
  | .connect => some { p with streams := p.streams ++ [.connect] }
  | .stream i =>
      (p.streams[i]?).bind fun s => (s.step p.feed).map fun s' =>
        { p with streams := p.streams.set i s' }

/-- All interleavings. -/
def mjpegSystem : System MjpegServer MjpegMove where
  next := MjpegServer.next

/-! ## The wire -/

/-- The head of the response. -/
def mjpegHead : Bytes :=
  asBytes ("HTTP/1.1 200 OK\r\nContent-Type: multipart/x-mixed-replace; boundary=frame\r\n" ++
    "Cache-Control: no-store\r\nConnection: close\r\n\r\n")

/-- `part`. -/
def mjpegPart (frame : VideoFrame) : Bytes :=
  asBytes ("--frame\r\nContent-Type: image/jpeg\r\nContent-Length: " ++
    toString frame.jpeg.length ++ "\r\nX-Pts-Us: " ++ toString frame.ptsUs ++ "\r\n\r\n") ++
    frame.jpeg ++ asBytes "\r\n"

/-- What is on the wire: the head comes after the subscription. -/
def MjpegStream.bytes (s : MjpegStream) : Bytes :=
  match s.pc with
  | .request => []
  | _ => mjpegHead ++ s.written.flatMap mjpegPart

/-! ## The client -/

def ptsField : Bytes := asBytes "X-Pts-Us: "

/-- A part is as long as it says, and a line end. -/
def partLength (lines : List Bytes) : Option Nat := (lineValue contentLength lines).map (· + 2)

def frameOf (m : Framed UInt8) : Option VideoFrame :=
  (lineValue ptsField m.lines).map fun ptsUs => ⟨ptsUs, m.body.take (m.body.length - 2)⟩

/-- The frames of a client that reads parts by their length. -/
def readPictures (got : Bytes) : List VideoFrame :=
  (readMessages cr lf partLength (bodyOf got).length (bodyOf got)).filterMap frameOf

/-! ## A part reads back -/

/-- A part, as lines and a body. -/
def partOf (frame : VideoFrame) : Framed UInt8 where
  lines := [asBytes "--frame", asBytes "Content-Type: image/jpeg",
    contentLength ++ asBytes (toString frame.jpeg.length),
    ptsField ++ asBytes (toString frame.ptsUs)]
  body := frame.jpeg ++ crlf

theorem mjpegPart_eq (frame : VideoFrame) : mjpegPart frame = (partOf frame).bytes cr lf := by
  have hopen : asBytes "--frame\r\nContent-Type: image/jpeg\r\nContent-Length: " =
      asBytes "--frame" ++ crlf ++ (asBytes "Content-Type: image/jpeg" ++ crlf) ++
        contentLength := by decide +kernel
  have hpts : asBytes "\r\nX-Pts-Us: " = crlf ++ ptsField := by decide
  have hend : asBytes "\r\n\r\n" = crlf ++ crlf := by decide
  unfold mjpegPart
  rw [asBytes_append, asBytes_append, asBytes_append, asBytes_append, hopen, hpts, hend,
    asBytes_crlf]
  simp [partOf, Framed.bytes, headLines, crlf]

theorem lineValue_length (frame : VideoFrame) :
    lineValue contentLength (partOf frame).lines = some frame.jpeg.length := by
  have hbefore : ∀ line ∈ [asBytes "--frame", asBytes "Content-Type: image/jpeg"],
      contentLength.isPrefixOf line = false := by decide +kernel
  exact lineValue_digits hbefore _

theorem lineValue_pts (frame : VideoFrame) :
    lineValue ptsField (partOf frame).lines = some frame.ptsUs := by
  have hname : ptsField.isPrefixOf (contentLength ++ asBytes (toString frame.jpeg.length)) =
      false := by
    have hpts : ptsField = 0x58 :: asBytes "-Pts-Us: " := by decide
    have hlength : contentLength = 0x43 :: asBytes "ontent-Length: " := by decide
    rw [hpts, hlength]
    rfl
  have hbefore : ∀ line ∈ [asBytes "--frame", asBytes "Content-Type: image/jpeg",
      contentLength ++ asBytes (toString frame.jpeg.length)],
      ptsField.isPrefixOf line = false := by
    simp only [List.forall_mem_cons]
    exact ⟨by decide, by decide, hname, fun _ h => absurd h List.not_mem_nil⟩
  exact lineValue_digits hbefore _

theorem wellFormed_partOf (frame : VideoFrame) : (partOf frame).WellFormed cr partLength where
  lines := by
    have hname (name : Bytes) (hname : cr ∉ name ∧ name ≠ []) (n : Nat) :
        cr ∉ name ++ asBytes (toString n) ∧ name ++ asBytes (toString n) ≠ [] := by
      refine ⟨fun h => ?_, List.append_ne_nil_of_left_ne_nil hname.2 _⟩
      exact (List.mem_append.mp h).elim hname.1 (cr_not_mem_digits n)
    simp only [partOf, List.forall_mem_cons]
    exact ⟨by decide, by decide, hname _ (by decide) _, hname _ (by decide) _,
      fun _ h => absurd h List.not_mem_nil⟩
  length := by
    unfold partLength
    rw [lineValue_length, Option.map_some]
    simp [partOf, crlf]

theorem frameOf_partOf (frame : VideoFrame) : frameOf (partOf frame) = some frame := by
  unfold frameOf
  rw [lineValue_pts, Option.map_some]
  simp [partOf, crlf]

theorem mjpegHead_ends : EndsFirst [cr, lf, cr, lf] mjpegHead := by
  let lines := ["HTTP/1.1 200 OK", "Content-Type: multipart/x-mixed-replace; boundary=frame",
    "Cache-Control: no-store", "Connection: close"].map asBytes
  have hlines : mjpegHead = headLines cr lf lines ++ [cr, lf] := by decide +kernel
  have hplain : ∀ line ∈ lines, cr ∉ line ∧ line ≠ [] := by decide +kernel
  rw [hlines]
  exact endsFirst_lines (by decide) hplain (by decide)

/-- **Parts that break off anywhere**: the client has the frames that came in whole. -/
theorem readPictures_prefix {s : MjpegStream} (hs : s.pc = .request → s.written = [])
    {got : Bytes} (hgot : got <+: s.bytes) :
    readPictures got <+: s.written ∧ (got = s.bytes → readPictures got = s.written) := by
  have hparts : s.written.flatMap mjpegPart =
      (s.written.map partOf).flatMap (Framed.bytes cr lf) := by
    rw [List.flatMap_map]
    exact List.flatMap_congr fun frame _ => mjpegPart_eq frame
  have hback : (s.written.map partOf).filterMap frameOf = s.written := by
    rw [List.filterMap_map]
    exact (List.filterMap_congr fun frame _ => frameOf_partOf frame).trans List.filterMap_some
  have hwf : ∀ m ∈ s.written.map partOf, m.WellFormed cr partLength :=
    List.forall_mem_map.mpr fun frame _ => wellFormed_partOf frame
  have hbody : bodyOf got <+: s.written.flatMap mjpegPart ∧
      (got = s.bytes → bodyOf got = s.written.flatMap mjpegPart) := by
    unfold MjpegStream.bytes at hgot ⊢
    split at hgot
    · next hpc =>
        obtain rfl := List.prefix_nil.mp hgot
        rw [hs hpc]
        exact ⟨List.prefix_rfl, fun _ => rfl⟩
    · exact bodyOf_prefix mjpegHead_ends hgot
  rw [hparts] at hbody
  obtain ⟨hread, hall⟩ := readMessages_prefix hwf hbody.1 (Nat.le_refl _)
  unfold readPictures
  refine ⟨hback ▸ hread.filterMap _, fun heq => ?_⟩
  rw [hall (hbody.2 heq), hback]

/-! ## What a connection writes -/

/-- What a connection has written when its receiver stands at `next`: the frame that was kept,
    and the frames broadcast from its subscription on, without those the channel dropped. -/
structure PictureFollows (f : VideoFeed) (s : MjpegStream) (next : Nat)
    (kept : Option VideoFrame) (lives : List VideoFrame) : Prop where
  written : s.written = kept.toList ++ lives
  kept_shown : ∀ frame ∈ kept, ∃ i, s.since ≤ i + 1 ∧ f.shown[i]? = some frame
  kept_none : kept = none → s.since = 0
  since_le : s.since ≤ next
  next_le : next ≤ f.live.sent.length
  inOrder : lives.Sublist ((f.live.sent.take next).drop s.since)
  count : lives.length + s.skipped = next - s.since

/-- What holds of a connection, for where it stands. -/
def MjpegStream.Ok (f : VideoFeed) (s : MjpegStream) : Prop :=
  match s.pc with
  | .request => s.written = [] ∧ s.skipped = 0
  | .subscribed next =>
      s.written = [] ∧ s.skipped = 0 ∧ next = s.since ∧ next ≤ f.live.sent.length
  | .live next => ∃ kept lives, PictureFollows f s next kept lives

/-- The feed went on. -/
structure VideoFeed.Grows (f f' : VideoFeed) : Prop where
  sent : f.live.sent <+: f'.live.sent
  shown : f.shown <+: f'.shown

theorem PictureFollows.grow {f f' : VideoFeed} {s : MjpegStream} {next : Nat}
    {kept : Option VideoFrame} {lives : List VideoFrame}
    (h : PictureFollows f s next kept lives) (hf : f.Grows f') :
    PictureFollows f' s next kept lives where
  written := h.written
  kept_shown frame hframe := by
    obtain ⟨i, hi, hat⟩ := h.kept_shown frame hframe
    obtain ⟨more, hmore⟩ := hf.shown
    refine ⟨i, hi, ?_⟩
    rw [← hmore, List.getElem?_append_left (List.getElem?_eq_some_iff.mp hat).1, hat]
  kept_none := h.kept_none
  since_le := h.since_le
  next_le := h.next_le.trans hf.sent.length_le
  inOrder := by
    obtain ⟨more, hmore⟩ := hf.sent
    rw [← hmore, List.take_append_of_le_length h.next_le]
    exact h.inOrder
  count := h.count

theorem MjpegStream.Ok.grow {f f' : VideoFeed} {s : MjpegStream} (h : s.Ok f)
    (hf : f.Grows f') : s.Ok f' := by
  unfold MjpegStream.Ok at h ⊢
  split at h
  · exact h
  · exact ⟨h.1, h.2.1, h.2.2.1, h.2.2.2.trans hf.sent.length_le⟩
  · obtain ⟨kept, lives, hfollows⟩ := h
    exact ⟨kept, lives, hfollows.grow hf⟩

/-- The frame that is kept is the last one shown. -/
def VideoFeed.Kept (f : VideoFeed) : Prop := f.latest = f.shown.getLast?

/-- The first part of a connection. -/
theorem PictureFollows.first {f : VideoFeed} {s : MjpegStream} (hf : f.Kept)
    (hwritten : s.written = f.latest.toList) (hskipped : s.skipped = 0)
    (hle : s.since ≤ f.live.sent.length) : PictureFollows f s s.since f.latest [] := by
  have hshown : f.live.sent.length ≤ f.shown.length := by
    unfold VideoFeed.shown
    rw [List.length_append]
    exact Nat.le_add_right ..
  refine ⟨?_, fun frame hframe => ?_, fun hnone => ?_, Nat.le_refl _, hle,
    List.nil_sublist _, ?_⟩
  · rw [hwritten, List.append_nil]
  · -- It was shown before the subscription as the last one, or later.
    have hlast : f.shown.getLast? = some frame := hf ▸ hframe
    rw [List.getLast?_eq_getElem?] at hlast
    exact ⟨_, by omega, hlast⟩
  · have hnothing : f.shown = [] := List.getLast?_eq_none_iff.mp (hf ▸ hnone)
    rw [hnothing] at hshown
    exact Nat.le_zero.mp (hle.trans hshown)
  · rw [Nat.sub_self, hskipped]
    rfl

/-- A frame was received and written. -/
theorem PictureFollows.received {f : VideoFeed} {s s' : MjpegStream} {next : Nat}
    {kept : Option VideoFrame} {lives : List VideoFrame} {frame : VideoFrame}
    (h : PictureFollows f s next kept lives) (hget : f.live.sent[next]? = some frame)
    (hsince : s'.since = s.since) (hwritten : s'.written = s.written ++ [frame])
    (hskipped : s'.skipped = s.skipped) :
    PictureFollows f s' (next + 1) kept (lives ++ [frame]) where
  written := by rw [hwritten, h.written, List.append_assoc]
  kept_shown := hsince ▸ h.kept_shown
  kept_none := hsince ▸ h.kept_none
  since_le := hsince ▸ Nat.le_succ_of_le h.since_le
  next_le := (List.getElem?_eq_some_iff.mp hget).1
  inOrder := by
    have hlonger : (f.live.sent.take (next + 1)).drop s.since =
        (f.live.sent.take next).drop s.since ++ [frame] := by
      rw [List.take_add_one, hget, Option.toList_some, List.drop_append_of_le_length]
      rw [List.length_take, Nat.min_eq_left h.next_le]
      exact h.since_le
    rw [hsince, hlonger]
    exact h.inOrder.append (List.Sublist.refl _)
  count := by
    have hcount := h.count
    have hle := h.since_le
    rw [List.length_append, List.length_singleton, hskipped, hsince]
    omega

/-- The channel dropped what the receiver had not come to. -/
theorem PictureFollows.lagged {f : VideoFeed} {s s' : MjpegStream} {next : Nat}
    {kept : Option VideoFrame} {lives : List VideoFrame}
    (h : PictureFollows f s next kept lives) (hlag : next < f.live.oldest)
    (hsince : s'.since = s.since) (hwritten : s'.written = s.written)
    (hskipped : s'.skipped = s.skipped + (f.live.oldest - next)) :
    PictureFollows f s' f.live.oldest kept lives where
  written := by rw [hwritten, h.written]
  kept_shown := hsince ▸ h.kept_shown
  kept_none := hsince ▸ h.kept_none
  since_le := hsince ▸ h.since_le.trans hlag.le
  next_le := Nat.sub_le ..
  inOrder := by
    have hupto : f.live.sent.take next <+: f.live.sent.take f.live.oldest :=
      List.take_prefix_take_left hlag.le
    rw [hsince]
    exact h.inOrder.trans (hupto.drop s.since).sublist
  count := by
    have hcount := h.count
    have hle := h.since_le
    rw [hskipped, hsince]
    omega

theorem MjpegStream.Ok.step {f : VideoFeed} {s s' : MjpegStream} (h : s.Ok f) (hf : f.Kept)
    (hs : s.step f = some s') : s'.Ok f := by
  unfold MjpegStream.Ok at h
  unfold MjpegStream.step at hs
  split at hs
  · next hpc =>
      rw [hpc] at h
      cases hs
      exact ⟨h.1, h.2, rfl, Nat.le_refl _⟩
  · next next hpc =>
      rw [hpc] at h
      cases hs
      obtain ⟨hwritten, hskipped, rfl, hle⟩ := h
      refine ⟨f.latest, [], .first hf ?_ hskipped hle⟩
      exact (congrArg (· ++ f.latest.toList) hwritten).trans (List.nil_append _)
  · next next hpc =>
      rw [hpc] at h
      obtain ⟨kept, lives, h⟩ := h
      obtain ⟨frame, hrecv, -, hqueue⟩ | ⟨hrecv, hlag⟩ | ⟨hrecv, -⟩ := f.live.recv_cases next
      all_goals
        rw [hrecv] at hs
        cases hs
      · have hget : f.live.sent[next]? = some frame := by
          rw [← List.head?_drop]
          exact congrArg List.head? hqueue
        exact ⟨kept, _, h.received hget rfl rfl rfl⟩
      · exact ⟨kept, lives, h.lagged hlag rfl rfl rfl⟩

/-- The feed and all connections. -/
structure MjpegServer.Ok (p : MjpegServer) : Prop where
  kept : p.feed.Kept
  streams : ∀ s ∈ p.streams, s.Ok p.feed

theorem MjpegServer.Ok.start (capacity : Nat) : (⟨.start capacity, []⟩ : MjpegServer).Ok :=
  ⟨rfl, fun _ h => absurd h List.not_mem_nil⟩

theorem MjpegServer.Ok.next {p q : MjpegServer} {m : MjpegMove} (h : p.Ok)
    (hq : mjpegSystem.next p m = some q) : q.Ok := by
  cases m with
  | keep frame =>
      dsimp only [mjpegSystem, MjpegServer.next] at hq
      split at hq
      · next hidle =>
          cases hq
          have hshown : p.feed.shown = p.feed.live.sent := by
            unfold VideoFeed.shown
            rw [hidle]
            exact List.append_nil _
          refine ⟨List.getLast?_concat.symm, fun s hs => (h.streams s hs).grow ⟨?_, ?_⟩⟩
          · exact List.prefix_rfl
          · rw [hshown]
            exact List.prefix_append ..
      · cases hq
  | broadcast =>
      obtain ⟨frame, hframe, rfl⟩ := Option.map_eq_some_iff.mp hq
      have hshown : p.feed.shown = p.feed.live.sent ++ [frame] := by
        unfold VideoFeed.shown
        rw [hframe]
        rfl
      refine ⟨?_, fun s hs => (h.streams s hs).grow ⟨List.prefix_append .., ?_⟩⟩
      · change p.feed.latest = (p.feed.live.sent ++ [frame] ++ []).getLast?
        rw [List.append_nil, ← hshown]
        exact h.kept
      · change p.feed.shown <+: p.feed.live.sent ++ [frame] ++ []
        rw [List.append_nil, hshown]
  | connect =>
      cases hq
      refine ⟨h.kept, List.forall_mem_append.mpr ⟨h.streams, ?_⟩⟩
      exact List.forall_mem_singleton.mpr ⟨rfl, rfl⟩
  | stream i =>
      obtain ⟨s, hs, hq⟩ := Option.bind_eq_some_iff.mp hq
      obtain ⟨s', hstep, rfl⟩ := Option.map_eq_some_iff.mp hq
      refine ⟨h.kept, fun t ht => ?_⟩
      rcases List.mem_or_eq_of_mem_set ht with ht | rfl
      · exact h.streams t ht
      · exact (h.streams s (List.mem_of_getElem? hs)).step h.kept hstep

/-- **The live picture**, in every interleaving of the Agent and all connections, and wherever
    the bytes of a connection break off: a client that reads the parts by their length has the
    first frames that the connection wrote, whatever bytes are in them, and all of them when
    all bytes came. These are the frame that was kept, which is one shown after the subscription
    or the last one before it, and then frames broadcast after the subscription, in order and
    none twice; and none is missing where the channel has dropped none. -/
theorem live_picture_in_order (capacity : Nat) {moves : List MjpegMove} {q : MjpegServer}
    (hrun : mjpegSystem.run ⟨.start capacity, []⟩ moves = some q) {s : MjpegStream}
    (hs : s ∈ q.streams) :
    (∀ got, got <+: s.bytes → readPictures got <+: s.written ∧
        (got = s.bytes → readPictures got = s.written)) ∧
      ∀ next, s.pc = .live next →
        ∃ kept lives, PictureFollows q.feed s next kept lives ∧
          (s.skipped = 0 → lives = (q.feed.live.sent.take next).drop s.since) := by
  have hok : q.Ok := System.run_induction (fun _ _ _ hp hq => hp.next hq) (.start capacity) hrun
  have hstream := hok.streams s hs
  unfold MjpegStream.Ok at hstream
  refine ⟨fun got hgot => readPictures_prefix (fun hpc => ?_) hgot, fun next hpc => ?_⟩
  · rw [hpc] at hstream
    exact hstream.1
  · rw [hpc] at hstream
    obtain ⟨kept, lives, hfollows⟩ := hstream
    refine ⟨kept, lives, hfollows, fun hnone => hfollows.inOrder.eq_of_length ?_⟩
    have hcount := hfollows.count
    rw [hnone, Nat.add_zero] at hcount
    rw [List.length_drop, List.length_take, Nat.min_eq_left hfollows.next_le, hcount]

/-- A frame is kept between a subscription and the first part, and broadcast after it. -/
def keptTwice : List MjpegMove := [.keep ⟨40, [0xff, 0xd8]⟩, .broadcast, .connect, .stream 0,
  .keep ⟨80, [0xff, 0xd8, 0x0d, 0x0a]⟩, .stream 0, .broadcast, .stream 0]

/-- The client gets it twice. -/
theorem picture_twice : ∃ q s, mjpegSystem.run ⟨.start 16, []⟩ keptTwice = some q ∧
    s ∈ q.streams ∧ readPictures s.bytes =
      [⟨80, [0xff, 0xd8, 0x0d, 0x0a]⟩, ⟨80, [0xff, 0xd8, 0x0d, 0x0a]⟩] := by
  have hend : (mjpegSystem.run ⟨.start 16, []⟩ keptTwice).map (fun q => q.streams) =
      some [⟨.live 2, 1, [⟨80, [0xff, 0xd8, 0x0d, 0x0a]⟩, ⟨80, [0xff, 0xd8, 0x0d, 0x0a]⟩], 0⟩] := by
    decide
  obtain ⟨q, hrun, hstreams⟩ := Option.map_eq_some_iff.mp hend
  have hmem : _ ∈ q.streams := hstreams ▸ List.mem_cons_self
  exact ⟨q, _, hrun, hmem,
    ((live_picture_in_order 16 hrun hmem).1 _ List.prefix_rfl).2 rfl⟩

end Michoi
