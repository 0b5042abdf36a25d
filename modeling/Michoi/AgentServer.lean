/-
  The HTTP control plane (`agent_server.rs`): reading one request from a connection.

  A connection is the bytes that are still unread, and how they end: with an orderly close
  of the peer, or without one (a reset, or nothing more until the idle timeout). A read that
  fails ends the connection; a panic ends the process, as the release profile aborts.

  `usize` is a number below `2 ^ bits`, and sums wrap, as they do in that profile.
-/
import Michoi.Bytes.Text
import Michoi.Lib.Checked
import Michoi.Lib.Scan

namespace Michoi

open Lib

def maxHead : Nat := 16 * 1024

def maxBody : Nat := 1024 * 1024

/-- How the bytes of a connection end. -/
inductive Ending where
  | closed | broken
  deriving DecidableEq, Repr

/-- Why nothing was read: an `Err`, or a panic. -/
inductive Fault where
  | failed | panicked
  deriving DecidableEq, Repr

/-- What is read, and the bytes left unread. -/
abbrev ReadResult (α : Type) := Except Fault (α × Bytes)

def cr : UInt8 := 0x0d

def lf : UInt8 := 0x0a

/-! ## Requests -/

structure Request where
  method : String
  path : String
  query : String
  headers : List (String × String)
  body : Bytes
  keepAlive : Bool
  deriving DecidableEq, Repr

namespace Request

/-- `Request::header`. -/
def header (r : Request) (name : String) : Option String :=
  (r.headers.find? fun h => eqIgnoreAsciiCase h.1 name).map Prod.snd

/-- `Request::query_param`. -/
def queryParam (r : Request) (name : String) : Option String :=
  (r.query.toList.splitOn '&').findSome? fun pair =>
    (splitOnce '=' pair).bind fun kv =>
      if kv.1 = name.toList then
        some (String.ofList (replace ['+'] [' ']
          (replace "%2B".toList ['+'] (replace "%3D".toList ['='] kv.2))))
      else none

end Request

/-! ## Chunked bodies -/

/-- `reader.read_exact`. -/
def readExact (n : Nat) (unread : Bytes) : ReadResult Bytes :=
  if n ≤ unread.length then .ok (unread.take n, unread.drop n) else .error .failed

/-- `read_line`. -/
def readLine (unread : Bytes) : ReadResult (List Char) :=
  match scan [cr, lf] 1024 [] unread with
  | .found line rest => .ok (lossyChars 0 (line.take (line.length - 2)), rest)
  | .long | .ended => .error .failed

/-- `read_chunk_size`. -/
def readChunkSize (bits : Nat) (unread : Bytes) : ReadResult Nat :=
  match readLine unread with
  | .error fault => .error fault
  | .ok (line, rest) =>
      match fromStrRadix bits 16 (trimChars ((line.splitOn ';').headD [])) with
      | some size => .ok (size, rest)
      | none => .error .failed

/-- The trailer section: lines up to an empty one. -/
def readTrailers : Nat → Bytes → ReadResult Unit
  | 0, _ => .error .failed
  | n + 1, unread =>
      match readLine unread with
      | .error fault => .error fault
      | .ok (line, rest) => if line.isEmpty then .ok ((), rest) else readTrailers n rest

/-- The most bytes a `Vec` holds; a larger capacity overflows, which is a panic. -/
def isizeMax (bits : Nat) : Nat := 2 ^ (bits - 1) - 1

/-- How one round of `read_chunked` ends: with the whole body, with a longer body and the
    next round, or with a fault. -/
inductive ChunkStep where
  | done (unread : Bytes)
  | more (body unread : Bytes)
  | fault (fault : Fault)
  deriving DecidableEq, Repr

/-- What one round saw and did: the bytes it started with, the size that was announced, the
    buffer that was allocated, and its end. -/
structure ChunkRound where
  held : Nat
  announced : Option Nat
  allocated : Option Nat
  step : ChunkStep
  deriving DecidableEq, Repr

/-- `vec![0; size]`, `read_exact`, `extend_from_slice` and the line after the chunk. -/
def readChunk (bits : Nat) (body : Bytes) (size : Nat) (unread : Bytes) : Option Nat × ChunkStep :=
  if isizeMax bits < size then (none, .fault .panicked)
  else
    (some size, match readExact size unread with
      | .error fault => .fault fault
      | .ok (chunk, unread) =>
          if isizeMax bits < (body ++ chunk).length then .fault .panicked
          else
            match readLine unread with
            | .error fault => .fault fault
            | .ok (_, unread) => .more (body ++ chunk) unread)

/-- One round of `read_chunked`. -/
def chunkRound (bits limit : Nat) (body unread : Bytes) : ChunkRound :=
  match readChunkSize bits unread with
  | .error fault => ⟨body.length, none, none, .fault fault⟩
  | .ok (size, unread) =>
      if size = 0 then
        match readTrailers (unread.length + 1) unread with
        | .error fault => ⟨body.length, some size, none, .fault fault⟩
        | .ok (_, unread) => ⟨body.length, some size, none, .done unread⟩
      else if limit < (body.length + size) % 2 ^ bits then
        ⟨body.length, some size, none, .fault .failed⟩
      else
        let r := readChunk bits body size unread
        ⟨body.length, some size, r.1, r.2⟩

/-- The rounds of `read_chunked`, and what it returns. -/
structure ChunkedRun where
  rounds : List ChunkRound
  result : ReadResult Bytes

/-- The loop of `read_chunked`. Each round reads a byte at least, so the bytes bound the
    rounds. -/
def chunkedLoop (bits limit : Nat) : Nat → Bytes → Bytes → ChunkedRun
  | 0, _, _ => ⟨[], .error .failed⟩
  | n + 1, body, unread =>
      let round := chunkRound bits limit body unread
      match round.step with
      | .done unread => ⟨[round], .ok (body, unread)⟩
      | .fault fault => ⟨[round], .error fault⟩
      | .more body unread =>
          let run := chunkedLoop bits limit n body unread
          ⟨round :: run.rounds, run.result⟩

/-- `read_chunked`. -/
def readChunked (bits limit : Nat) (unread : Bytes) : ChunkedRun :=
  chunkedLoop bits limit (unread.length + 1) [] unread

/-! ## The head and the body -/

/-- A line of the head as a header; a line without a colon is none. -/
def headerOf (line : List Char) : Option (String × String) :=
  (splitOnce ':' line).map fun kv =>
    (toAsciiLowercase (String.ofList (trimChars kv.1)), String.ofList (trimChars kv.2))

/-- The head of a request, `none` where the method or the target is missing. -/
def parseHead (head : Bytes) : Option Request :=
  match splitCrlf (lossyChars 0 head) with
  | [] => none
  | requestLine :: lines =>
      match splitWhitespace requestLine with
      | method :: target :: rest =>
          let version := rest.headD "HTTP/1.1".toList
          let (path, query) := (splitOnce '?' target).getD (target, [])
          let headers := (lines.filter fun line => !line.isEmpty).filterMap headerOf
          let connection := (headers.find? fun h => h.1 == "connection").map fun h =>
            toAsciiLowercase h.2
          some {
            method := String.ofList method
            path := String.ofList path
            query := String.ofList query
            headers := headers
            body := []
            keepAlive :=
              if connection = some "close" then false
              else if connection = some "keep-alive" then true
              else decide (version = "HTTP/1.1".toList) }
      | _ => none

/-- `100 Continue`, for a client that waits for it. -/
def interim (r : Request) : Bytes :=
  match r.header "expect" with
  | some v =>
      if eqIgnoreAsciiCase v "100-continue" then asBytes "HTTP/1.1 100 Continue\r\n\r\n" else []
  | none => []

/-- The body of a request whose head was read. -/
def readBody (bits : Nat) (r : Request) (unread : Bytes) : ReadResult Bytes :=
  if r.path ≠ "/v1/talk" then
    match r.header "content-length" with
    | some length =>
        match fromStrRadix bits 10 length.toList with
        | none => .error .failed
        | some length => if maxBody < length then .error .failed else readExact length unread
    | none =>
        match r.header "transfer-encoding" with
        | some v =>
            if contains (toAsciiLowercase v) "chunked" then
              (readChunked bits maxBody unread).result
            else .ok ([], unread)
        | none => .ok ([], unread)
  else .ok ([], unread)

/-- What `read_request` wrote and returned; `none` where the peer closed between or inside
    heads. -/
structure RequestRead where
  written : Bytes
  result : Except Fault (Option (Request × Bytes))

/-- `read_request`. -/
def readRequest (bits : Nat) (ending : Ending) (unread : Bytes) : RequestRead :=
  match scan [cr, lf, cr, lf] maxHead [] unread with
  | .long => ⟨[], .error .failed⟩
  | .ended =>
      match ending with
      | .closed => ⟨[], .ok none⟩
      | .broken => ⟨[], .error .failed⟩
  | .found head rest =>
      match parseHead head with
      | none => ⟨[], .error .failed⟩
      | some request =>
          match readBody bits request rest with
          | .error fault => ⟨interim request, .error fault⟩
          | .ok (body, unread) => ⟨interim request, .ok (some ({ request with body }, unread))⟩

end Michoi
