/-
  The HTTP control plane (`agent_server.rs`): negotiation, authentication, the router and
  the loop of a connection.

  The Agent behind the server is any implementation of its traits: `AgentPort` has one
  `AgentCall` for each method the router calls, and the calls are written down. A reply that
  the router only serialises is taken as its JSON. `Library` has what the server takes from
  outside: `serde_json`, the parser of `f32`, and the documents that are compiled in.

  A route that streams takes the connection over; here the loop ends with it. Writes
  succeed: a write that fails ends the connection and changes nothing else.
-/
import Mathlib.Data.List.Sort
import Michoi.AgentApi
import Michoi.AgentServer
import Michoi.Media

namespace Michoi

/-! ## The Agent's side -/

/-- `CallError` with the variant for requests that a mode does not support. -/
inductive PortError where
  | call (error : CallError)
  | unsupported
  deriving DecidableEq, Repr

namespace PortError

/-- `CallError::http_status`. -/
def httpStatus : PortError → Nat
  | call .unlockCooldown => 429
  | call .agentOffline => 503
  | unsupported => 501
  | call .calleeUnreachable => 502
  | call _ => 409

/-- `CallError`'s `Display`. -/
def message : PortError → String
  | call .notRinging => "no ringing call is available"
  | call .padOwnsCall => "the physical pad owns this call"
  | call .unlockNotAllowed => "unlock is allowed only after the remote session has answered"
  | call .unlockCooldown => "unlock cooldown is active"
  | call .noCall => "no call is active"
  | call .agentOffline => "the Agent is offline"
  | unsupported => "this operation is not supported in this mode"
  | call .calleeUnreachable => "the callee did not answer discovery (offline or wrong number)"

end PortError

/-- `CommandResult`, as the router gets it. -/
structure PortResult where
  commandId : String
  ok : Bool
  error : Option PortError
  replayed : Bool
  deriving DecidableEq, Repr

/-- `CommandResult::http_status`. -/
def PortResult.httpStatus (r : PortResult) : Nat := (r.error.map PortError.httpStatus).getD 200

/-- The methods of `AgentControl` and `AgentMedia` that the router calls. -/
inductive AgentCall where
  | agentId | state | mediaInfo | snapshot | clockUs | cameras
  | command (action : CallAction) (commandId : String)
  | callElevator (commandId : String) (roomId : Option String)
  | startMonitor (cameraId : String)
  | stopMonitor
  | dial (calleeId : String)
  | hangupCall
  deriving DecidableEq, Repr

/-- What a method returns. -/
def AgentCall.Reply : AgentCall → Type
  | agentId => String
  | state | mediaInfo | cameras => Bytes
  | snapshot => Option VideoFrame
  | clockUs => Nat
  | command .. | callElevator .. => PortResult
  | startMonitor _ | stopMonitor | dial _ | hangupCall => Except PortError Unit

/-- An implementation of the traits, with all that its replies depend on as its state. -/
class AgentPort (A : Type) where
  reply : (c : AgentCall) → A → c.Reply × A

/-- The Agent, and the calls that were made so far. -/
structure Asked (A : Type) where
  agent : A
  calls : List AgentCall

abbrev Handler (A : Type) := StateM (Asked A)

/-- A call of a method. -/
def ask {A : Type} [AgentPort A] (c : AgentCall) : Handler A c.Reply := fun s =>
  let r := AgentPort.reply c s.agent
  (r.1, ⟨r.2, s.calls ++ [c]⟩)

/-! ## What is taken from outside -/

/-- What the router serialises. -/
inductive Payload where
  | error (error message : String)
  | negotiation (error : String) (supported : List String)
  | uiConfig (resolutions : List String) (resolutionDefault : String) (fps : List Nat)
      (fpsDefault : Nat)
  | apiInfo (agentId : String) (mediaTypes capabilities : List String)
  | result (r : PortResult)
  | done (field : Option (String × String))

/-- A value of `f32`: NaN, or a number, of which only the order matters here. -/
inductive Quality (Q : Type) where
  | nan
  | num (q : Q)
  deriving DecidableEq, Repr

/-- `f32::partial_cmp`: nothing is ordered with NaN. -/
def Quality.partialCmp {Q : Type} [LinearOrder Q] : Quality Q → Quality Q → Option Ordering
  | num a, num b => some (compare a b)
  | _, _ => none

/-- `>` of `f32`. -/
def Quality.gt {Q : Type} [LinearOrder Q] (a b : Quality Q) : Bool :=
  a.partialCmp b == some .gt

structure Library (Q : Type) where
  /-- `serde_json::to_vec`. -/
  toVec : Payload → Bytes
  /-- `serde_json::from_slice` at the types of the request bodies. -/
  commandRequest : Bytes → Except String String
  monitorRequest : Bytes → Except String String
  dialRequest : Bytes → Except String String
  elevatorRequest : Bytes → Except String (String × Option String)
  /-- `str::parse::<f32>`, with `0.0` and `1.0`. -/
  parseQ : String → Option (Quality Q)
  zero : Q
  one : Q
  openapiYaml : Bytes
  padHtml : Bytes
  swaggerHtml : Bytes

/-- `ServerConfig`, without the address and the lifetime of event streams. -/
structure ServerConfig where
  token : Option String
  swagger : Bool
  webUi : Bool
  cameraResolutions : List String
  cameraResolutionDefault : String
  cameraFps : List Nat
  cameraFpsDefault : Nat

/-! ## Responses -/

def mediaTypeJson : String := "application/json; v=1"

def mediaTypeEvents : String := "text/event-stream"

def mediaTypeJpeg : String := "image/jpeg"

def mediaTypeL16 : String := "audio/L16; rate=8000; channels=1"

structure Response where
  status : Nat
  headers : List (String × String)
  body : Bytes
  deriving DecidableEq, Repr

section

variable {Q : Type}

namespace Response

/-- `Response::new`. -/
def new (status : Nat) (contentType : String) (body : Bytes) : Response where
  status := status
  headers := [("Content-Type", contentType)]
  body := body

/-- `Response::header`. -/
def header (r : Response) (name value : String) : Response :=
  { r with headers := r.headers ++ [(name, value)] }

/-- `Response::json`. -/
def json (lib : Library Q) (status : Nat) (value : Payload) : Response :=
  new status mediaTypeJson (lib.toVec value)

/-- `Response::error`. -/
def error (lib : Library Q) (status : Nat) (error message : String) : Response :=
  json lib status (.error error message)

/-- `Response::negotiation`. -/
def negotiation (lib : Library Q) (status : Nat) (error : String) (supported : List String) :
    Response :=
  json lib status (.negotiation error supported)

/-- `reason`. -/
def reason : Nat → String
  | 200 => "OK"
  | 204 => "No Content"
  | 400 => "Bad Request"
  | 401 => "Unauthorized"
  | 404 => "Not Found"
  | 405 => "Method Not Allowed"
  | 406 => "Not Acceptable"
  | 409 => "Conflict"
  | 413 => "Payload Too Large"
  | 415 => "Unsupported Media Type"
  | 429 => "Too Many Requests"
  | 500 => "Internal Server Error"
  | 501 => "Not Implemented"
  | 503 => "Service Unavailable"
  | _ => "Unknown"

/-- `write_response`. -/
def write (r : Response) (keepAlive : Bool) : Bytes :=
  asBytes ("HTTP/1.1 " ++ toString r.status ++ " " ++ reason r.status ++ "\r\n") ++
    (r.headers.flatMap fun h => asBytes (h.1 ++ ": " ++ h.2 ++ "\r\n")) ++
    asBytes ("Content-Length: " ++ toString r.body.length ++ "\r\n") ++
    asBytes (if keepAlive then "Connection: keep-alive\r\n\r\n" else "Connection: close\r\n\r\n") ++
    r.body

end Response

/-! ## Negotiation and authentication -/

/-- `media_base`. -/
def mediaBase (value : List Char) : String :=
  toAsciiLowercase (String.ofList (trimChars ((value.splitOn ';').headD [])))

/-- A range of an `Accept` header: its q value, its place and its name. -/
structure Candidate (Q : Type) where
  q : Quality Q
  index : Nat
  base : String

/-- The q value of an item: its last `q` parameter. -/
def qualityOf (lib : Library Q) (params : List (List Char)) : Quality Q :=
  params.foldl (fun q param =>
    match splitOnce '=' param with
    | some (k, v) =>
        if eqIgnoreAsciiCase (String.ofList (trimChars k)) "q" then
          (lib.parseQ (String.ofList (trimChars v))).getD (.num lib.zero)
        else q
    | none => q) (.num lib.one)

/-- An item of the header, unless its name is empty. -/
def rangeOf (lib : Library Q) (item : List Char × Nat) : Option (Candidate Q) :=
  let parts := item.1.splitOn ';'
  let base := toAsciiLowercase (String.ofList (trimChars (parts.headD [])))
  if base.isEmpty then none else some ⟨qualityOf lib parts.tail, item.2, base⟩

/-- The ranges of a header, also those with nothing to accept. -/
def ranges (lib : Library Q) (accept : String) : List (Candidate Q) :=
  (accept.toList.splitOn ',').zipIdx.filterMap (rangeOf lib)

/-- The ranges a client accepts, in the order of the header. -/
def candidates [LinearOrder Q] (lib : Library Q) (accept : String) : List (Candidate Q) :=
  (ranges lib accept).filter fun c => c.q.gt (.num lib.zero)

/-- What the sort compares: larger q values first, then the place. At `none` the `unwrap`
    panics. -/
def Candidate.order [LinearOrder Q] (a b : Candidate Q) : Option Ordering :=
  (b.q.partialCmp a.q).map fun q => q.then (compare a.index b.index)

/-- The order of the candidates. -/
def Candidate.before [LinearOrder Q] (a b : Candidate Q) : Bool := a.order b != some .gt

/-- An offered type is one of a range. -/
def matchesRange (wanted : String) (offer : String) : Bool :=
  let base := mediaBase offer.toList
  wanted == base || wanted == "*/*" ||
    -- `strip_suffix("/*")`, and then `starts_with` the prefix and its slash.
    (decide ("/*".toList <:+ wanted.toList) &&
      decide (wanted.toList.take (wanted.toList.length - 1) <+: base.toList))

/-- `negotiate`. -/
def negotiate [LinearOrder Q] (lib : Library Q) (accept : Option String) (offered : List String) :
    Option String :=
  accept.bind fun accept =>
    ((candidates lib accept).mergeSort Candidate.before).findSome? fun wanted =>
      offered.find? (matchesRange wanted.base)

/-- `require_accept`. -/
def requireAccept [LinearOrder Q] (lib : Library Q) (r : Request) (offered : List String) :
    Except Response String :=
  match negotiate lib (r.header "accept") offered with
  | some offer => .ok offer
  | none => .error (.negotiation lib 406 "not_acceptable" offered)

/-- `require_content_type`. -/
def requireContentType (lib : Library Q) (r : Request) (expected : String) :
    Except Response Unit :=
  match r.header "content-type" with
  | some value =>
      if mediaBase value.toList = mediaBase expected.toList then .ok ()
      else .error (.negotiation lib 415 "unsupported_media_type" [expected])
  | none => .error (.negotiation lib 415 "unsupported_media_type" [expected])

/-- What a bearer header presents. -/
def Request.bearer (r : Request) : Option (List Char) :=
  (r.header "authorization").bind fun v =>
    ((stripPrefix "Bearer ".toList v.toList).or (stripPrefix "bearer ".toList v.toList)).map
      trimChars

/-- `authorized`. -/
def authorized (r : Request) : Option String → Bool
  | none => true
  | some token => r.bearer == some token.toList || r.queryParam "token" == some token

/-! ## Routes -/

variable {A : Type} [AgentPort A] [LinearOrder Q]

/-- `command`. -/
def commandRoute (lib : Library Q) (r : Request) (action : CallAction) : Handler A Response :=
  match requireAccept lib r [mediaTypeJson] with
  | .error response => pure response
  | .ok _ =>
      match requireContentType lib r mediaTypeJson with
      | .error response => pure response
      | .ok () =>
          match lib.commandRequest r.body with
          | .error e => pure (.error lib 400 "bad_request" ("invalid body: " ++ e))
          | .ok commandId =>
              if commandId.isEmpty || 128 < (asBytes commandId).length then
                pure (.error lib 400 "bad_request" "command_id must be 1..128 characters")
              else do
                let result ← ask (.command action commandId)
                return .json lib (PortResult.httpStatus result) (.result result)

/-- The end of a handler whose method returns nothing. -/
def answerUnit (lib : Library Q) (failure : String) (field : Option (String × String)) :
    Except PortError Unit → Response
  | .ok () => .json lib 200 (.done field)
  | .error e => .error lib e.httpStatus failure e.message

/-- `monitor_start`. -/
def monitorStart (lib : Library Q) (r : Request) : Handler A Response :=
  match requireAccept lib r [mediaTypeJson] with
  | .error response => pure response
  | .ok _ =>
      match requireContentType lib r mediaTypeJson with
      | .error response => pure response
      | .ok () =>
          match lib.monitorRequest r.body with
          | .error e => pure (.error lib 400 "bad_request" ("invalid body: " ++ e))
          | .ok cameraId =>
              if cameraId.isEmpty || 34 < (asBytes cameraId).length then
                pure (.error lib 400 "bad_request" "camera_id must be 1..34 characters")
              else do
                let result ← ask (.startMonitor cameraId)
                return answerUnit lib "monitor_failed" (some ("camera_id", cameraId)) result

/-- `monitor_stop`. -/
def monitorStop (lib : Library Q) (r : Request) : Handler A Response :=
  match requireAccept lib r [mediaTypeJson] with
  | .error response => pure response
  | .ok _ => do
      let result ← ask .stopMonitor
      return answerUnit lib "monitor_failed" none result

/-- `dial`. -/
def dialRoute (lib : Library Q) (r : Request) : Handler A Response :=
  match requireAccept lib r [mediaTypeJson] with
  | .error response => pure response
  | .ok _ =>
      match requireContentType lib r mediaTypeJson with
      | .error response => pure response
      | .ok () =>
          match lib.dialRequest r.body with
          | .error e => pure (.error lib 400 "bad_request" ("invalid body: " ++ e))
          | .ok calleeId =>
              if calleeId.isEmpty || 34 < (asBytes calleeId).length then
                pure (.error lib 400 "bad_request" "callee_id must be 1..34 characters")
              else do
                let result ← ask (.dial calleeId)
                return answerUnit lib "dial_failed" (some ("callee_id", calleeId)) result

/-- `dial_hangup`. -/
def dialHangup (lib : Library Q) (r : Request) : Handler A Response :=
  match requireAccept lib r [mediaTypeJson] with
  | .error response => pure response
  | .ok _ => do
      let result ← ask .hangupCall
      return answerUnit lib "dial_failed" none result

/-- `elevator`. -/
def elevatorRoute (lib : Library Q) (r : Request) : Handler A Response :=
  match requireAccept lib r [mediaTypeJson] with
  | .error response => pure response
  | .ok _ =>
      match requireContentType lib r mediaTypeJson with
      | .error response => pure response
      | .ok () =>
          match lib.elevatorRequest r.body with
          | .error e => pure (.error lib 400 "bad_request" ("invalid body: " ++ e))
          | .ok (commandId, roomId) =>
              if commandId.isEmpty || 128 < (asBytes commandId).length then
                pure (.error lib 400 "bad_request" "command_id must be 1..128 characters")
              else if roomId.any fun room => 34 < (asBytes room).length then
                pure (.error lib 400 "bad_request" "room_id must be at most 34 characters")
              else do
                let result ← ask (.callElevator commandId roomId)
                return .json lib (PortResult.httpStatus result) (.result result)

/-- `GET /v1`. -/
def apiInfo (lib : Library Q) (r : Request) : Handler A Response :=
  match requireAccept lib r [mediaTypeJson] with
  | .error response => pure response
  | .ok _ => do
      let agentId ← ask .agentId
      return .json lib 200 (.apiInfo agentId
        [mediaTypeJson, mediaTypeEvents, mediaTypeJpeg, mediaTypeL16]
        ["events", "snapshot", "mjpeg", "pcm", "talk", "talk-ws", "talk-video-ws", "pad",
          "cameras", "monitor", "elevator", "dial"])

/-- The routes that only serialise what a method returns. -/
def serialised (lib : Library Q) (r : Request) (read : Handler A Bytes) : Handler A Response :=
  match requireAccept lib r [mediaTypeJson] with
  | .error response => pure response
  | .ok _ => do
      let json ← read
      return .new 200 mediaTypeJson json

/-- `GET /v1/snapshot.jpg`. -/
def snapshotRoute (lib : Library Q) (r : Request) : Handler A Response :=
  match requireAccept lib r [mediaTypeJpeg] with
  | .error response => pure response
  | .ok _ => do
      let snapshot : Option VideoFrame ← ask .snapshot
      match snapshot with
      | some frame =>
          let clockUs : Nat ← ask .clockUs
          let ageMs := (clockUs - frame.ptsUs) / 1000
          return ((Response.new 200 mediaTypeJpeg frame.jpeg).header "Cache-Control"
            "no-store").header "X-Frame-Age-Ms" (toString ageMs)
      | none => return .error lib 404 "no_frame" "no door frame received yet"

/-- The routes that take the connection over. -/
def streams (r : Request) : Bool :=
  (r.method == "GET" && r.path == "/v1/events") || (r.method == "POST" && r.path == "/v1/talk") ||
    (r.method == "GET" && r.path == "/v1/stream.mjpeg") ||
    (r.method == "GET" && r.path == "/v1/audio.pcm") ||
    (r.method == "GET" && r.path == "/v1/talk.ws") ||
    (r.method == "GET" && r.path == "/v1/talk-video.ws")

/-- The arms of `route` that need nothing of the Agent. -/
def documentRoute (lib : Library Q) (config : ServerConfig) (r : Request) : Option Response :=
  match r.method, r.path with
  | "GET", "/openapi.yaml" => some (.new 200 "application/yaml" lib.openapiYaml)
  | "GET", "/" | "GET", "/pad" =>
      if config.webUi then
        some ((Response.new 200 "text/html; charset=utf-8" lib.padHtml).header "Cache-Control"
          "no-cache")
      else some (.error lib 404 "not_found" "the browser Pad is disabled on this server")
  | "GET", "/v1/ui-config" =>
      some (.json lib 200 (.uiConfig config.cameraResolutions config.cameraResolutionDefault
        config.cameraFps config.cameraFpsDefault))
  | "GET", "/swagger" =>
      if config.swagger then some (.new 200 "text/html; charset=utf-8" lib.swaggerHtml)
      else some (.error lib 404 "not_found" "Swagger UI is disabled on this server")
  | _, _ => none

/-- The arms that are handlers. -/
def agentRoute (lib : Library Q) (r : Request) : Option (Handler A Response) :=
  match r.method, r.path with
  | "GET", "/v1/" | "GET", "/v1" => some (apiInfo lib r)
  | "GET", "/v1/state" => some (serialised lib r (ask .state))
  | "GET", "/v1/media" => some (serialised lib r (ask .mediaInfo))
  | "GET", "/v1/snapshot.jpg" => some (snapshotRoute lib r)
  | "GET", "/v1/cameras" => some (serialised lib r (ask .cameras))
  | "POST", "/v1/monitor" => some (monitorStart lib r)
  | "POST", "/v1/monitor/stop" => some (monitorStop lib r)
  | "POST", "/v1/dial" => some (dialRoute lib r)
  | "POST", "/v1/dial/hangup" => some (dialHangup lib r)
  | "POST", "/v1/elevator" => some (elevatorRoute lib r)
  | "POST", "/v1/call/claim" => some (commandRoute lib r .claim)
  | "POST", "/v1/call/unlock" => some (commandRoute lib r .unlock)
  | "POST", "/v1/call/hangup" => some (commandRoute lib r .hangup)
  | _, _ => none

/-- The arms for everything else. -/
def noRoute (lib : Library Q) (r : Request) : Response :=
  if streams r then .error lib 500 "internal" "streaming route reached the plain router"
  else if "/v1/".toList <+: r.path.toList then
    .error lib 404 "not_found" ("no route for " ++ r.path)
  else .error lib 404 "not_found" "unknown path"

/-- `route`: its arms have different methods and paths. -/
def route (lib : Library Q) (config : ServerConfig) (r : Request) : Handler A Response :=
  match documentRoute lib config r with
  | some response => pure response
  | none => (agentRoute lib r).getD (pure (noRoute lib r))

/-! ## The connection -/

/-- One answered request, with the bytes that were left unread when it was answered. -/
structure Exchange where
  request : Request
  unread : Bytes
  response : Response
  deriving DecidableEq, Repr

structure HttpSession (A : Type) where
  port : Asked A
  written : Bytes
  exchanges : List Exchange

/-- How a connection ends: in order, with a fault, or in the hands of a stream. -/
inductive SessionEnd where
  | closed
  | fault (fault : Fault)
  | handedOver (request : Request) (unread : Bytes)
  deriving DecidableEq, Repr

/-- The paths that need no token. -/
def isPublic (path : String) : Bool :=
  path == "/openapi.yaml" || path == "/swagger" || path == "/" || path == "/pad" ||
    path == "/v1/ui-config"

/-- The answer to a request without the token. -/
def unauthorized (lib : Library Q) : Response :=
  (Response.error lib 401 "unauthorized" "bearer token required").header "WWW-Authenticate"
    "Bearer"

/-- A response was written. -/
def HttpSession.answer (s : HttpSession A) (request : Request) (unread : Bytes)
    (response : Response) (keepAlive : Bool) : HttpSession A :=
  { s with
    written := s.written ++ response.write keepAlive
    exchanges := s.exchanges ++ [⟨request, unread, response⟩] }

/-- The loop of `connection`. A request is some bytes at least, so the bytes bound the
    rounds. -/
def connectionLoop (lib : Library Q) (config : ServerConfig) (bits : Nat) (ending : Ending) :
    Nat → HttpSession A → Bytes → HttpSession A × SessionEnd
  | 0, s, _ => (s, .fault .failed)
  | n + 1, s, unread =>
      let read := readRequest bits ending unread
      let s := { s with written := s.written ++ read.written }
      match read.result with
      | .error fault => (s, .fault fault)
      | .ok none => (s, .closed)
      | .ok (some (request, unread)) =>
          if !isPublic request.path && !authorized request config.token then
            (s.answer request unread (unauthorized lib) false, .closed)
          else if streams request then (s, .handedOver request unread)
          else
            let r := route lib config request s.port
            let s := { s with port := r.2 }.answer request unread r.1 request.keepAlive
            if request.keepAlive then connectionLoop lib config bits ending n s unread
            else (s, .closed)

/-- `connection`. -/
def connection (lib : Library Q) (config : ServerConfig) (bits : Nat) (agent : A)
    (unread : Bytes) (ending : Ending) : HttpSession A × SessionEnd :=
  connectionLoop lib config bits ending (unread.length + 1) ⟨⟨agent, []⟩, [], []⟩ unread

end

end Michoi
