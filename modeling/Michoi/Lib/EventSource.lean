/-
  Event streams (`text/event-stream`), byte by byte, as a browser reads them.

  The bytes of a line are kept as they are: in UTF-8 no other character has the bytes of a
  line end. A byte order mark is left out. A reader that reconnects goes on with the id it has.

  * `EventSource.feed`: one byte.
  * `SourceBlock`: what a server sends between two empty lines.
  * `feedAll_of_part`: of a stream that breaks off anywhere, the reader has handed on the
    messages of the blocks that came in whole, and its last id is theirs.
-/
import Mathlib.Data.List.Infix

namespace Lib

structure SourceEvent where
  type : List UInt8
  data : List UInt8
  lastId : List UInt8
  deriving DecidableEq, Repr

structure EventSource where
  /-- The line so far. -/
  line : List UInt8
  /-- The last byte ended a line, and a line feed after it belongs to it. -/
  afterCr : Bool
  typeBuffer : List UInt8
  dataBuffer : List UInt8
  idBuffer : List UInt8
  /-- What the reader sends when it reconnects. -/
  lastId : List UInt8
  /-- How long it waits before it does, in digits. -/
  retry : List UInt8
  events : List SourceEvent
  deriving DecidableEq, Repr

namespace EventSource

/-- Carriage return, line feed, colon and space. -/
def cr : UInt8 := 13

def lf : UInt8 := 10

def colon : UInt8 := 58

def space : UInt8 := 32

/-- `event`, `data`, `id`, `retry`, and the type of an event that names none: `message`. -/
def eventName : List UInt8 := [101, 118, 101, 110, 116]

def dataName : List UInt8 := [100, 97, 116, 97]

def idName : List UInt8 := [105, 100]

def retryName : List UInt8 := [114, 101, 116, 114, 121]

def messageName : List UInt8 := [109, 101, 115, 115, 97, 103, 101]

/-- A reader that connects, with the id it has. -/
def start (lastId : List UInt8) : EventSource where
  line := []
  afterCr := false
  typeBuffer := []
  dataBuffer := []
  idBuffer := lastId
  lastId := lastId
  retry := []
  events := []

/-- An empty line: without data there is no event. -/
def dispatch (s : EventSource) : EventSource :=
  if s.dataBuffer = [] then { s with lastId := s.idBuffer, typeBuffer := [] }
  else
    let type := if s.typeBuffer = [] then messageName else s.typeBuffer
    { s with
      lastId := s.idBuffer
      typeBuffer := []
      dataBuffer := []
      events := s.events ++ [⟨type, s.dataBuffer.dropLast, s.idBuffer⟩] }

def isDigit (b : UInt8) : Bool := 48 ≤ b && b ≤ 57

def field (s : EventSource) (name value : List UInt8) : EventSource :=
  if name = eventName then { s with typeBuffer := value }
  else if name = dataName then { s with dataBuffer := s.dataBuffer ++ value ++ [lf] }
  else if name = idName then if 0 ∈ value then s else { s with idBuffer := value }
  else if name = retryName then if value.all isDigit then { s with retry := value } else s
  else s

/-- The value of a field is what follows the colon, without one space. -/
def fieldValue (rest : List UInt8) : List UInt8 :=
  match rest.tail with
  | b :: value => if b = space then value else b :: value
  | [] => []

/-- A line, at its end. -/
def process (s : EventSource) (line : List UInt8) : EventSource :=
  match line with
  | [] => s.dispatch
  | b :: rest =>
      if b = colon then s
      else
        let line := b :: rest
        s.field (line.takeWhile (· ≠ colon)) (fieldValue (line.dropWhile (· ≠ colon)))

def feed (s : EventSource) (b : UInt8) : EventSource :=
  if b = lf then
    if s.afterCr then { s with afterCr := false } else { s with line := [] }.process s.line
  else if b = cr then { { s with line := [] }.process s.line with afterCr := true }
  else { s with line := s.line ++ [b], afterCr := false }

def feedAll (s : EventSource) (bytes : List UInt8) : EventSource := bytes.foldl feed s

theorem feedAll_append (s : EventSource) (xs ys : List UInt8) :
    s.feedAll (xs ++ ys) = (s.feedAll xs).feedAll ys := List.foldl_append

/-! ## Lines -/

/-- No line end inside. -/
def Plain (bytes : List UInt8) : Prop := ∀ b ∈ bytes, b ≠ cr ∧ b ≠ lf

theorem plain_iff_all {bytes : List UInt8} :
    bytes.all (fun b => b != cr && b != lf) = true ↔ Plain bytes := by
  simp [Plain]

instance (bytes : List UInt8) : Decidable (Plain bytes) := decidable_of_iff _ plain_iff_all

/-- At the start of a line. -/
structure Ready (s : EventSource) : Prop where
  line : s.line = []
  afterCr : s.afterCr = false

variable {s : EventSource}

theorem Ready.dispatch (h : s.Ready) : s.dispatch.Ready := by
  unfold EventSource.dispatch
  split <;> exact ⟨h.line, h.afterCr⟩

theorem Ready.field (h : s.Ready) (name value : List UInt8) : (s.field name value).Ready := by
  unfold EventSource.field
  repeat' split
  all_goals exact ⟨h.line, h.afterCr⟩

theorem Ready.process (h : s.Ready) (line : List UInt8) : (s.process line).Ready := by
  unfold EventSource.process
  split
  · exact h.dispatch
  · split
    · exact h
    · exact h.field ..

/-- What is no line end waits for one. -/
theorem feedAll_plain {bytes : List UInt8} (h : Plain bytes) (hcr : s.afterCr = false) :
    s.feedAll bytes = { s with line := s.line ++ bytes } := by
  induction bytes generalizing s with
  | nil => rw [List.append_nil]; rfl
  | cons b bytes ih =>
      obtain ⟨hb, hbytes⟩ := List.forall_mem_cons.mp h
      have hfeed : s.feed b = { s with line := s.line ++ [b] } := by
        unfold feed
        rw [if_neg hb.2, if_neg hb.1, hcr]
      have hrest := ih (s := { s with line := s.line ++ [b] }) hbytes hcr
      rw [List.append_assoc, List.singleton_append] at hrest
      change (s.feed b).feedAll bytes = _
      rw [hfeed, hrest]

theorem feed_lf (hcr : s.afterCr = false) :
    s.feed lf = { s with line := [] }.process s.line := by
  unfold feed
  rw [if_pos rfl, hcr]
  rfl

theorem feedAll_line {line : List UInt8} (h : Plain line) (hs : s.Ready) :
    s.feedAll (line ++ [lf]) = s.process line := by
  have hclear : { s with line := [] } = s := by
    cases s
    cases hs.line
    rfl
  calc
    s.feedAll (line ++ [lf]) = { s with line := s.line ++ line }.feed lf := by
      rw [feedAll_append, feedAll_plain h hs.afterCr]
      rfl
    _ = { s with line := [] }.process (s.line ++ line) :=
      feed_lf (s := { s with line := s.line ++ line }) hs.afterCr
    _ = s.process line := by rw [hclear, hs.line, List.nil_append]

/-- A line with something in it dispatches nothing. -/
theorem process_quiet {line : List UInt8} (hne : line ≠ []) :
    (s.process line).events = s.events ∧ (s.process line).lastId = s.lastId := by
  obtain ⟨b, rest, rfl⟩ := List.exists_cons_of_ne_nil hne
  unfold process
  dsimp only
  split
  · exact ⟨rfl, rfl⟩
  · unfold field
    repeat' split
    all_goals exact ⟨rfl, rfl⟩

/-! ## Blocks -/

/-- Lines, and the empty line after them. -/
def blockBytes (lines : List (List UInt8)) : List UInt8 :=
  lines.flatMap (fun line => line ++ [lf]) ++ [lf]

theorem Ready.foldl (h : s.Ready) (lines : List (List UInt8)) :
    (lines.foldl EventSource.process s).Ready := by
  induction lines generalizing s with
  | nil => exact h
  | cons line lines ih => exact ih (h.process line)

theorem feedAll_lines {lines : List (List UInt8)} (h : ∀ line ∈ lines, Plain line)
    (hs : s.Ready) :
    s.feedAll (lines.flatMap fun line => line ++ [lf]) = lines.foldl process s := by
  induction lines generalizing s with
  | nil => rfl
  | cons line lines ih =>
      obtain ⟨hline, hlines⟩ := List.forall_mem_cons.mp h
      rw [List.flatMap_cons, feedAll_append, feedAll_line hline hs, ih hlines (hs.process line)]
      rfl

theorem feedAll_block {lines : List (List UInt8)} (h : ∀ line ∈ lines, Plain line)
    (hs : s.Ready) : s.feedAll (blockBytes lines) = (lines.foldl process s).dispatch := by
  unfold blockBytes
  have hplain : Plain [] := nofun
  rw [feedAll_append, feedAll_lines h hs]
  exact feedAll_line hplain (hs.foldl lines)

/-- Of a block that is not whole nothing is handed on. -/
theorem feedAll_part {lines : List (List UInt8)} (h : ∀ line ∈ lines, Plain line ∧ line ≠ [])
    (hs : s.Ready) {part : List UInt8} (hpart : part <+: blockBytes lines)
    (hne : part ≠ blockBytes lines) :
    (s.feedAll part).events = s.events ∧ (s.feedAll part).lastId = s.lastId := by
  induction lines generalizing s part with
  | nil =>
      rcases List.prefix_cons_iff.mp hpart with rfl | ⟨rest, rfl, hrest⟩
      · exact ⟨rfl, rfl⟩
      · exact absurd (List.prefix_nil.mp hrest ▸ rfl) hne
  | cons line lines ih =>
      obtain ⟨⟨hplain, hsome⟩, hlines⟩ := List.forall_mem_cons.mp h
      have hsplit : blockBytes (line :: lines) = line ++ [lf] ++ blockBytes lines := by
        unfold blockBytes
        rw [List.flatMap_cons, List.append_assoc]
      rw [hsplit] at hpart hne
      by_cases hlen : part.length ≤ line.length
      · -- The part ends within the line.
        have hin : part <+: line := by
          rw [List.append_assoc] at hpart
          exact List.prefix_of_prefix_length_le hpart (List.prefix_append ..) hlen
        have hpartPlain : Plain part := fun b hb => hplain b (hin.subset hb)
        rw [feedAll_plain hpartPlain hs.afterCr]
        exact ⟨rfl, rfl⟩
      · have hout : line ++ [lf] <+: part :=
          List.prefix_of_prefix_length_le (List.prefix_append ..) hpart (by simp; omega)
        obtain ⟨rest, rfl⟩ := hout
        have hrest : rest <+: blockBytes lines := (List.prefix_append_right_inj _).mp hpart
        have hrestNe : rest ≠ blockBytes lines := fun heq => hne (heq ▸ rfl)
        obtain ⟨hevents, hid⟩ := ih hlines (hs.process line) hrest hrestNe
        rw [feedAll_append, feedAll_line hplain hs, hevents, hid]
        exact process_quiet hsome

end EventSource

/-- What a server sends between two empty lines: an event with its id, a comment, or how long
    to wait before reconnecting. -/
inductive SourceBlock where
  | message (eventId type data : List UInt8)
  | comment (text : List UInt8)
  | hint (digits : List UInt8)
  deriving DecidableEq, Repr

namespace SourceBlock

open EventSource

def lines : SourceBlock → List (List UInt8)
  | message eventId type data =>
      [idName ++ [colon, space] ++ eventId, eventName ++ [colon, space] ++ type,
        dataName ++ [colon, space] ++ data]
  | comment text => [[colon, space] ++ text]
  | hint digits => [retryName ++ [colon, space] ++ digits]

def bytes (b : SourceBlock) : List UInt8 := blockBytes b.lines

def WellFormed : SourceBlock → Prop
  | message eventId type data => (Plain eventId ∧ 0 ∉ eventId) ∧ (Plain type ∧ type ≠ []) ∧ Plain data
  | comment text => Plain text
  | hint digits => ∀ b ∈ digits, isDigit b = true

/-- What the reader hands on. -/
def events : SourceBlock → List SourceEvent
  | message eventId type data => [⟨type, data, eventId⟩]
  | _ => []

/-- The last id after the block. -/
def lastId (old : List UInt8) : SourceBlock → List UInt8
  | message eventId _ _ => eventId
  | _ => old

end SourceBlock

namespace EventSource

variable {s : EventSource}

/-- Between two blocks. -/
structure Rests (s : EventSource) : Prop extends Ready s where
  typeBuffer : s.typeBuffer = []
  dataBuffer : s.dataBuffer = []
  idBuffer : s.idBuffer = s.lastId

theorem Rests.start (lastId : List UInt8) : (start lastId).Rests := ⟨⟨rfl, rfl⟩, rfl, rfl, rfl⟩

theorem plain_append {xs ys : List UInt8} (hx : Plain xs) (hy : Plain ys) : Plain (xs ++ ys) :=
  fun b hb => (List.mem_append.mp hb).elim (hx b) (hy b)

theorem plain_of_digits {digits : List UInt8} (h : ∀ b ∈ digits, isDigit b = true) :
    Plain digits := by
  intro b hb
  have hdigit := h b hb
  constructor <;> rintro rfl <;> revert hdigit <;> decide

end EventSource

open EventSource

theorem SourceBlock.plain_lines {b : SourceBlock} (h : b.WellFormed) :
    ∀ line ∈ b.lines, Plain line ∧ line ≠ [] := by
  cases b with
  | message eventId type data =>
      obtain ⟨⟨hid, -⟩, ⟨htype, -⟩, hdata⟩ := h
      simp only [SourceBlock.lines, List.forall_mem_cons]
      exact ⟨⟨plain_append (by decide) hid, by simp [idName]⟩,
        ⟨plain_append (by decide) htype, by simp [eventName]⟩,
        ⟨plain_append (by decide) hdata, by simp [dataName]⟩,
        fun _ h => absurd h List.not_mem_nil⟩
  | comment text =>
      simp only [SourceBlock.lines, List.forall_mem_singleton]
      exact ⟨plain_append (by decide) h, by simp⟩
  | hint digits =>
      simp only [SourceBlock.lines, List.forall_mem_singleton]
      exact ⟨plain_append (by decide) (plain_of_digits h), by simp [retryName]⟩

/-- The last id is that of the last event. -/
theorem SourceBlock.foldl_lastId (old : List UInt8) (blocks : List SourceBlock) :
    blocks.foldl SourceBlock.lastId old =
      (((blocks.flatMap SourceBlock.events).getLast?).map SourceEvent.lastId).getD old := by
  induction blocks generalizing old with
  | nil => rfl
  | cons b blocks ih =>
      rw [List.foldl_cons, ih, List.flatMap_cons, List.getLast?_append]
      cases (blocks.flatMap SourceBlock.events).getLast? with
      | none => cases b <;> rfl
      | some e => rfl

namespace EventSource

variable {s : EventSource}

/-- A field, by its name and its value. -/
theorem process_field {name : List UInt8} (hname : name ≠ []) (hcolon : colon ∉ name)
    (value : List UInt8) : s.process (name ++ [colon, space] ++ value) = s.field name value := by
  obtain ⟨b, rest, rfl⟩ := List.exists_cons_of_ne_nil hname
  have hb : b ≠ colon := fun h => hcolon (h ▸ List.mem_cons_self)
  have hnot : ∀ x ∈ b :: rest, decide (x ≠ colon) = true := fun x hx =>
    decide_eq_true fun h => hcolon (h ▸ hx)
  have htake : (b :: rest ++ [colon, space] ++ value).takeWhile (· ≠ colon) = b :: rest := by
    rw [List.append_assoc, List.takeWhile_append_of_pos hnot]
    simp
  have hdrop : (b :: rest ++ [colon, space] ++ value).dropWhile (· ≠ colon) =
      [colon, space] ++ value := by
    rw [List.append_assoc, List.dropWhile_append_of_pos hnot]
    simp
  change (if b = colon then s else s.field _ _) = _
  rw [if_neg hb]
  have hvalue : fieldValue ([colon, space] ++ value) = value := by
    change (if space = space then value else space :: value) = value
    exact if_pos rfl
  exact congrArg₂ s.field htake (hdrop ▸ hvalue)

/-- **A whole block**: its event is handed on, and its id kept. -/
theorem Rests.block (hs : s.Rests) {b : SourceBlock} (hb : b.WellFormed) :
    (s.feedAll b.bytes).Rests ∧ (s.feedAll b.bytes).events = s.events ++ b.events ∧
      (s.feedAll b.bytes).lastId = b.lastId s.lastId := by
  have hfeed := feedAll_block (fun line hline => (SourceBlock.plain_lines hb line hline).1)
    hs.toReady
  have hready := (hs.toReady.foldl b.lines).dispatch
  unfold SourceBlock.bytes
  rw [hfeed]
  cases b with
  | message eventId type data =>
      obtain ⟨⟨-, hid⟩, ⟨-, htype⟩, -⟩ := hb
      have hlines : (SourceBlock.message eventId type data).lines.foldl process s =
          { s with
            idBuffer := eventId
            typeBuffer := type
            dataBuffer := data ++ [lf] } := by
        simp only [SourceBlock.lines, List.foldl_cons, List.foldl_nil]
        rw [process_field (by decide) (by decide), process_field (by decide) (by decide),
          process_field (by decide) (by decide)]
        simp only [field, if_neg hid, hs.dataBuffer, List.nil_append]
        rfl
      rw [hlines] at hready ⊢
      have hdispatch : EventSource.dispatch { s with
            idBuffer := eventId
            typeBuffer := type
            dataBuffer := data ++ [lf] } =
          { s with
            idBuffer := eventId
            lastId := eventId
            typeBuffer := []
            dataBuffer := []
            events := s.events ++ [⟨type, data, eventId⟩] } := by
        simp [EventSource.dispatch, htype]
      rw [hdispatch] at hready ⊢
      exact ⟨⟨hready, rfl, rfl, rfl⟩, rfl, rfl⟩
  | comment text =>
      have hlines : (SourceBlock.comment text).lines.foldl process s = s := rfl
      rw [hlines] at hready ⊢
      have hdispatch : s.dispatch = { s with lastId := s.idBuffer, typeBuffer := [] } :=
        if_pos hs.dataBuffer
      rw [hdispatch] at hready ⊢
      exact ⟨⟨hready, rfl, hs.dataBuffer, rfl⟩, (List.append_nil _).symm, hs.idBuffer⟩
  | hint digits =>
      have hlines : (SourceBlock.hint digits).lines.foldl process s =
          { s with retry := digits } := by
        simp only [SourceBlock.lines, List.foldl_cons, List.foldl_nil]
        rw [process_field (by decide) (by decide)]
        exact if_pos (List.all_eq_true.mpr hb)
      rw [hlines] at hready ⊢
      have hdispatch : EventSource.dispatch { s with retry := digits } =
          { s with retry := digits, lastId := s.idBuffer, typeBuffer := [] } :=
        if_pos hs.dataBuffer
      rw [hdispatch] at hready ⊢
      exact ⟨⟨hready, rfl, hs.dataBuffer, rfl⟩, (List.append_nil _).symm, hs.idBuffer⟩

/-- **A stream that breaks off anywhere**: what was handed on is that of the blocks that came
    in whole. -/
theorem Rests.feedAll_of_part {blocks : List SourceBlock} (hblocks : ∀ b ∈ blocks, b.WellFormed)
    (hs : s.Rests) {got : List UInt8} (hgot : got <+: blocks.flatMap SourceBlock.bytes) :
    ∃ whole, whole <+: blocks ∧
      (s.feedAll got).events = s.events ++ whole.flatMap SourceBlock.events ∧
      (s.feedAll got).lastId = whole.foldl SourceBlock.lastId s.lastId ∧
      (got = blocks.flatMap SourceBlock.bytes → whole = blocks) := by
  induction blocks generalizing s got with
  | nil =>
      obtain rfl := List.prefix_nil.mp hgot
      exact ⟨[], List.prefix_rfl, (List.append_nil _).symm, rfl, fun _ => rfl⟩
  | cons b blocks ih =>
      obtain ⟨hb, hrest⟩ := List.forall_mem_cons.mp hblocks
      rw [List.flatMap_cons] at hgot ⊢
      by_cases hwhole : b.bytes <+: got
      · obtain ⟨more, rfl⟩ := hwhole
        obtain ⟨hnext, hevents, hid⟩ := hs.block hb
        obtain ⟨whole, hprefix, hev, hlast, hall⟩ :=
          ih hrest hnext ((List.prefix_append_right_inj _).mp hgot)
        refine ⟨b :: whole, List.cons_prefix_cons.mpr ⟨rfl, hprefix⟩, ?_, ?_, fun heq => ?_⟩
        · rw [feedAll_append, hev, hevents, List.flatMap_cons, List.append_assoc]
        · rw [feedAll_append, hlast, hid, List.foldl_cons]
        · rw [hall (List.append_cancel_left heq)]
      · -- The block is not whole, and nothing of it is handed on.
        have hpart : got <+: b.bytes :=
          (List.prefix_or_prefix_of_prefix hgot (List.prefix_append ..)).resolve_right hwhole
        have hne : got ≠ b.bytes := fun heq => hwhole (heq ▸ List.prefix_rfl)
        obtain ⟨hevents, hid⟩ :=
          feedAll_part (SourceBlock.plain_lines hb) hs.toReady hpart hne
        refine ⟨[], List.nil_prefix, ?_, hid, fun heq => ?_⟩
        · rw [hevents, List.flatMap_nil, List.append_nil]
        · exact absurd (heq ▸ List.prefix_append ..) hwhole

end EventSource

end Lib
