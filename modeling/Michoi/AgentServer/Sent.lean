/-
  What a client sends: well-formed requests as bytes, and their heads read back.

  A `SentRequest` follows the grammar of HTTP/1.1, in the form in which a head has no
  `Connection` and no `Expect`. `bytes` is the message on the wire. `parseHead_head` reads its
  head back, and `header_eq` says which field a lookup finds.
-/
import Michoi.AgentServer

namespace Michoi

open Lib

/-- The line end. -/
def crlf : Bytes := [cr, lf]

/-! ## Fields -/

/-- A header or trailer field as it is sent; the value has the blanks around it. -/
structure Field where
  name : String
  value : Bytes
  deriving DecidableEq, Repr

/-- No line end inside. -/
def OneLine (bytes : Bytes) : Prop := ∀ b ∈ bytes, b ≠ cr ∧ b ≠ lf

instance (bytes : Bytes) : Decidable (OneLine bytes) := List.decidableBAll _ _

/-- Visible ASCII. -/
def Visible (s : String) : Prop := ∀ c ∈ s.toList, isVisible c = true

instance (s : String) : Decidable (Visible s) := List.decidableBAll _ _

/-- Visible ASCII, and not empty. -/
def IsWord (s : String) : Prop := s ≠ "" ∧ Visible s

instance (s : String) : Decidable (IsWord s) := inferInstanceAs (Decidable (_ ∧ _))

/-- Optional whitespace of HTTP. -/
def Blank (bytes : Bytes) : Prop := ∀ b ∈ bytes, b = 0x20 ∨ b = 0x09

instance (bytes : Bytes) : Decidable (Blank bytes) := List.decidableBAll _ _

namespace Field

structure WellFormed (f : Field) : Prop where
  name : IsWord f.name
  noColon : ':' ∉ f.name.toList
  value : OneLine f.value

instance (f : Field) : Decidable f.WellFormed :=
  decidable_of_iff (IsWord f.name ∧ ':' ∉ f.name.toList ∧ OneLine f.value)
    ⟨fun h => ⟨h.1, h.2.1, h.2.2⟩, fun h => ⟨h.name, h.noColon, h.value⟩⟩

def line (f : Field) : Bytes := asBytes f.name ++ 0x3a :: f.value

/-- The field as the server keeps it. -/
def kept (f : Field) : String × String :=
  (toAsciiLowercase f.name, String.ofList (trimChars (lossyChars 0 f.value)))

end Field

/-! ## Bodies -/

/-- A chunk: its size in hexadecimal, its extensions and its data. -/
structure Chunk where
  size : String
  ext : Bytes
  data : Bytes
  deriving DecidableEq, Repr

/-- Chunk extensions: none, or a semicolon and what follows it, with blanks before it. -/
def Extension (ext : Bytes) : Prop :=
  OneLine ext ∧ (ext = [] ∨ ∃ blanks rest, ext = blanks ++ 0x3b :: rest ∧ Blank blanks)

namespace Chunk

structure WellFormed (c : Chunk) : Prop where
  size : digitsValue 16 0 c.size.toList = some c.data.length
  sizeDigits : c.size ≠ ""
  data : c.data ≠ []
  ext : Extension c.ext

def line (c : Chunk) : Bytes := asBytes c.size ++ c.ext

def bytes (c : Chunk) : Bytes := c.line ++ crlf ++ (c.data ++ crlf)

end Chunk

/-- How a body is sent: not at all, after its length, or in chunks with a last chunk of size
    zero and a trailer section. -/
inductive SentBody where
  | none
  | sized (data : Bytes)
  | chunked (chunks : List Chunk) (zeros : String) (ext : Bytes) (trailers : List Field)
  deriving DecidableEq, Repr

namespace SentBody

/-- The body itself. -/
def data : SentBody → Bytes
  | none => []
  | sized data => data
  | chunked chunks _ _ _ => chunks.flatMap Chunk.data

/-- The lines that frame it. -/
def lines : SentBody → List Bytes
  | none | sized _ => []
  | chunked chunks zeros ext trailers =>
      chunks.map Chunk.line ++ (asBytes zeros ++ ext) :: trailers.map Field.line

/-- The body on the wire. -/
def bytes : SentBody → Bytes
  | none => []
  | sized data => data
  | chunked chunks zeros ext trailers =>
      chunks.flatMap Chunk.bytes ++ (asBytes zeros ++ ext ++ crlf ++
        (headLines cr lf (trailers.map Field.line) ++ crlf))

/-- Its parts are well formed. -/
def WellFormed : SentBody → Prop
  | none | sized _ => True
  | chunked chunks zeros ext trailers =>
      (∀ c ∈ chunks, c.WellFormed) ∧ zeros ≠ "" ∧ digitsValue 16 0 zeros.toList = some 0 ∧
        Extension ext ∧ ∀ f ∈ trailers, f.WellFormed

end SentBody

/-! ## Requests -/

structure SentRequest where
  method : String
  path : String
  query : Option String
  fields : List Field
  body : SentBody
  deriving DecidableEq, Repr

namespace SentRequest

def target (r : SentRequest) : String :=
  match r.query with
  | none => r.path
  | some query => r.path ++ "?" ++ query

def startLine (r : SentRequest) : Bytes := asBytes (r.method ++ " " ++ r.target ++ " HTTP/1.1")

def headLinesOf (r : SentRequest) : List Bytes := r.startLine :: r.fields.map Field.line

def head (r : SentRequest) : Bytes := headLines cr lf r.headLinesOf ++ crlf

/-- The message on the wire. -/
def bytes (r : SentRequest) : Bytes := r.head ++ r.body.bytes

/-- The values of the fields of one name, which is in lower case. -/
def values (r : SentRequest) (name : String) : List Bytes :=
  (r.fields.filter fun f => toAsciiLowercase f.name = name).map Field.value

/-- The head announces the body: no body with neither field, a length with one
    `Content-Length` of its decimal digits, chunks with one `Transfer-Encoding` whose last
    coding is `chunked`. -/
def Announces (r : SentRequest) : Prop :=
  match r.body with
  | .none => r.values "content-length" = [] ∧ r.values "transfer-encoding" = []
  | .sized data =>
      r.values "transfer-encoding" = [] ∧
        ∃ before digits after, r.values "content-length" = [before ++ asBytes digits ++ after] ∧
          Blank before ∧ Blank after ∧ digits ≠ "" ∧
          digitsValue 10 0 digits.toList = some data.length
  | .chunked .. =>
      r.values "content-length" = [] ∧
        ∃ before coding after, r.values "transfer-encoding" = [before ++ asBytes coding ++ after] ∧
          (Blank before ∨ ∃ codings blanks, before = codings ++ 0x2c :: blanks ∧ Blank blanks) ∧
          Blank after ∧ toAsciiLowercase coding = "chunked"

structure WellFormed (r : SentRequest) : Prop where
  method : IsWord r.method
  path : IsWord r.path
  noQuery : '?' ∉ r.path.toList
  query : ∀ query ∈ r.query, Visible query
  fields : ∀ f ∈ r.fields, f.WellFormed
  noConnection : r.values "connection" = []
  noExpect : r.values "expect" = []
  announces : r.Announces
  body : r.body.WellFormed
  headSize : r.head.length ≤ maxHead
  bodySize : r.body.data.length ≤ maxBody

/-- The request that its head alone makes. -/
def bare (r : SentRequest) : Request where
  method := r.method
  path := r.path
  query := r.query.getD ""
  headers := r.fields.map Field.kept
  body := []
  keepAlive := true

/-- The request as it is meant. -/
def request (r : SentRequest) : Request := { r.bare with body := r.body.data }

end SentRequest

/-! ## The head read back -/

theorem not_mem_asBytes_of_visible {s : String} {b : UInt8}
    (h : ∀ c ∈ s.toList, isVisible c = true ∨ c = ' ') (hb : b.toNat < 0x20) : b ∉ asBytes s := by
  have hrange : ∀ c ∈ s.toList, 0x20 ≤ c.toNat ∧ c.toNat < 128 := by
    intro c hc
    rcases h c hc with hv | rfl
    · have := isVisible_iff.mp hv
      omega
    · decide
  intro hmem
  obtain ⟨c, hc, heq⟩ := exists_char_of_mem_asBytes (fun c hc => (hrange c hc).2) hmem
  have := hrange c hc
  omega

theorem cr_not_mem_lossyChars {bytes : Bytes} (h : cr ∉ bytes) : '\r' ∉ lossyChars 0 bytes := by
  intro hmem
  obtain ⟨b, hb, heq⟩ := exists_byte_of_mem_lossyChars (by decide) hmem
  obtain rfl : b = cr := UInt8.toNat_inj.mp heq
  exact h hb

theorem Field.line_ok {f : Field} (h : f.WellFormed) : cr ∉ f.line ∧ f.line ≠ [] := by
  unfold Field.line
  refine ⟨?_, by simp⟩
  rw [List.mem_append, List.mem_cons, not_or, not_or]
  refine ⟨not_mem_asBytes_of_visible (fun c hc => .inl (h.name.2 c hc)) (by decide), by decide, ?_⟩
  exact fun hmem => (h.value cr hmem).1 rfl

/-- The lines of a head, decoded and split. -/
theorem splitCrlf_headLines {lines : List Bytes} (h : ∀ line ∈ lines, cr ∉ line) :
    splitCrlf (lossyChars 0 (headLines cr lf lines ++ crlf)) =
      lines.map (lossyChars 0) ++ [[], []] := by
  induction lines with
  | nil => decide
  | cons line lines ih =>
      have hhead : headLines cr lf (line :: lines) ++ crlf =
          line ++ cr :: (lf :: (headLines cr lf lines ++ crlf)) := by
        simp [headLines]
      have hend : lossyChars 0 (lf :: (headLines cr lf lines ++ crlf)) =
          '\n' :: lossyChars 0 (headLines cr lf lines ++ crlf) := by
        rw [lossyChars, decodeFirst_ascii (by decide)]
        rfl
      rw [hhead, lossyChars_append (by decide), hend, show Char.ofNat cr.toNat = '\r' from rfl,
        splitCrlf_line (cr_not_mem_lossyChars (h line List.mem_cons_self)),
        ih (fun l hl => h l (List.mem_cons_of_mem _ hl)), List.map_cons, List.cons_append]

theorem Field.headerOf_line {f : Field} (h : f.WellFormed) :
    headerOf (lossyChars 0 f.line) = some f.kept := by
  have hcolon : Char.ofNat (0x3a : UInt8).toNat = ':' := rfl
  have hname : trimChars f.name.toList = f.name.toList := by
    exact trimChars_eq (fun hnil => h.name.1 (String.toList_eq_nil_iff.mp hnil))
      (fun c hc => not_isWhitespace_of_isVisible (h.name.2 c hc))
  unfold headerOf Field.line Field.kept
  rw [lossyChars_append (by decide), lossyChars_asBytes, hcolon, splitOnce_append h.noColon,
    Option.map_some, hname, String.ofList_toList]

namespace SentRequest

variable {r : SentRequest}

theorem target_ok (h : r.WellFormed) : IsWord r.target := by
  unfold target
  cases hquery : r.query with
  | none => exact h.path
  | some query =>
      constructor
      · intro hempty
        have := congrArg String.toList hempty
        simp at this
      · intro c hc
        simp only [String.toList_append, List.mem_append] at hc
        rcases hc with (hc | hc) | hc
        · exact h.path.2 c hc
        · obtain rfl : c = '?' := by simpa using hc
          decide
        · exact h.query query hquery c hc

theorem splitOnce_target (h : r.WellFormed) :
    (splitOnce '?' r.target.toList).getD (r.target.toList, []) =
      (r.path.toList, (r.query.getD "").toList) := by
  unfold target
  cases r.query with
  | none =>
      dsimp only
      rw [splitOnce_none h.noQuery]
      rfl
  | some query =>
      dsimp only
      rw [String.toList_append, String.toList_append, List.append_assoc,
        show "?".toList = ['?'] from rfl, List.singleton_append, splitOnce_append h.noQuery]
      rfl

theorem startLine_words (h : r.WellFormed) :
    splitWhitespace (lossyChars 0 r.startLine) =
      [r.method.toList, r.target.toList, "HTTP/1.1".toList] := by
  have hword {s : String} (hs : IsWord s) :
      s.toList ≠ [] ∧ ∀ c ∈ s.toList, isWhitespace c = false :=
    ⟨fun hnil => hs.1 (String.toList_eq_nil_iff.mp hnil),
      fun c hc => not_isWhitespace_of_isVisible (hs.2 c hc)⟩
  unfold startLine
  rw [lossyChars_asBytes]
  have hsplit : (r.method ++ " " ++ r.target ++ " HTTP/1.1").toList =
      r.method.toList ++ ' ' :: (r.target.toList ++ ' ' :: "HTTP/1.1".toList) := by
    simp [String.toList_append]
  rw [hsplit]
  exact splitWhitespace_three (hword h.method) (hword (target_ok h)) (hword (by decide))

theorem startLine_ok (h : r.WellFormed) : cr ∉ r.startLine ∧ r.startLine ≠ [] := by
  constructor
  · refine not_mem_asBytes_of_visible (fun c hc => ?_) (by decide)
    simp only [String.toList_append, List.mem_append] at hc
    rcases hc with ((hc | hc) | hc) | hc
    · exact .inl (h.method.2 c hc)
    · exact .inr (by simpa using hc)
    · exact .inl ((target_ok h).2 c hc)
    · have hversion : ∀ c ∈ " HTTP/1.1".toList, isVisible c = true ∨ c = ' ' := by simp [isVisible]
      exact hversion c hc
  · intro hempty
    have hwords := startLine_words h
    rw [hempty] at hwords
    simp [lossyChars, splitWhitespace] at hwords

theorem lines_ok (h : r.WellFormed) : ∀ line ∈ r.headLinesOf, cr ∉ line ∧ line ≠ [] := by
  intro line hline
  rcases List.mem_cons.mp hline with rfl | hline
  · exact startLine_ok h
  · obtain ⟨f, hf, rfl⟩ := List.mem_map.mp hline
    exact Field.line_ok (h.fields f hf)

/-- The head is read to its end, and no further. -/
theorem scan_head (h : r.WellFormed) (rest : Bytes) :
    scan [cr, lf, cr, lf] maxHead [] (r.head ++ rest) = .found r.head rest := by
  have hends : EndsFirst [cr, lf, cr, lf] r.head :=
    endsFirst_lines (by decide) (lines_ok h) (by simp [headLinesOf])
  rw [scan_append hends (by simp [head, crlf]), if_pos (Nat.le_succ_of_le h.headSize)]

/-- A field is found by its name, in any case. -/
theorem header_bare (r : SentRequest) (name : String)
    (hname : toAsciiLowercase name = name) :
    r.bare.header name =
      (r.values name).head?.map fun value => String.ofList (trimChars (lossyChars 0 value)) := by
  have hkept : (fun h : String × String => eqIgnoreAsciiCase h.1 name) ∘ Field.kept =
      fun f => decide (toAsciiLowercase f.name = name) := by
    funext f
    unfold eqIgnoreAsciiCase Field.kept
    dsimp only [Function.comp_apply]
    rw [hname, toAsciiLowercase_idem]
    exact Bool.beq_eq_decide_eq _ _
  unfold Request.header values bare
  rw [List.find?_map, List.head?_map, List.head?_filter, Option.map_map, Option.map_map,
    hkept]
  rfl

/-- Without such a field, the lookup in the parsed headers finds nothing. -/
theorem find?_kept_none {name : String} (h : r.values name = []) :
    (r.fields.map Field.kept).find? (fun f => f.1 == name) = none := by
  rw [List.find?_eq_none]
  intro kept hkept
  obtain ⟨f, hf, rfl⟩ := List.mem_map.mp hkept
  have hother : ¬ toAsciiLowercase f.name = name := by
    intro heq
    have hvalue : f.value ∈ r.values name :=
      List.mem_map_of_mem (List.mem_filter.mpr ⟨hf, by simpa using heq⟩)
    rw [h] at hvalue
    cases hvalue
  simpa [Field.kept] using hother

/-- The lines of well-formed fields, as headers. -/
theorem filterMap_headerOf {fields : List Field} (h : ∀ f ∈ fields, f.WellFormed) :
    ((fields.map fun f => lossyChars 0 f.line).filter fun line => !line.isEmpty).filterMap
        headerOf = fields.map Field.kept := by
  have hline : ∀ f ∈ fields, headerOf (lossyChars 0 f.line) = some f.kept :=
    fun f hf => Field.headerOf_line (h f hf)
  have hsome : ∀ line ∈ fields.map fun f => lossyChars 0 f.line, (!line.isEmpty) = true := by
    intro line hmem
    obtain ⟨f, hf, rfl⟩ := List.mem_map.mp hmem
    cases hempty : lossyChars 0 f.line with
    | nil =>
        have := hline f hf
        rw [hempty] at this
        cases this
    | cons c cs => rfl
  rw [List.filter_eq_self.mpr hsome, List.filterMap_map, ← List.filterMap_eq_map]
  exact List.filterMap_congr hline

/-- **The head reads back.** -/
theorem parseHead_head (h : r.WellFormed) : parseHead r.head = some r.bare := by
  have hlines : splitCrlf (lossyChars 0 r.head) =
      lossyChars 0 r.startLine :: ((r.fields.map fun f => lossyChars 0 f.line) ++ [[], []]) := by
    unfold head
    rw [splitCrlf_headLines fun line hline => (lines_ok h line hline).1]
    simp [headLinesOf, Function.comp_def]
  have hheaders : (((r.fields.map fun f : Field => lossyChars 0 f.line) ++
      ([[], []] : List (List Char))).filter fun line => !line.isEmpty).filterMap headerOf =
        r.fields.map Field.kept := by
    rw [List.filter_append, List.filterMap_append, filterMap_headerOf h.fields]
    simp
  unfold parseHead
  simp only [hlines, startLine_words h, splitOnce_target h, hheaders,
    find?_kept_none h.noConnection]
  unfold bare
  simp

theorem interim_bare (h : r.WellFormed) : interim r.bare = [] := by
  unfold interim
  rw [header_bare _ _ (by decide), h.noExpect]
  rfl

end SentRequest

end Michoi
