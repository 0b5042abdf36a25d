/-
  The responses of a connection, as their client reads them (`write_response` and `connection`
  of `agent_server.rs`).

  A client reads each response by the length in its head and passes over `100 Continue`. It
  has the responses that the server wrote, one by one, whatever bytes it sent before and
  whatever is in their bodies: no byte of a request gets into a head (`route_fixed`).
-/
import Michoi.AgentServer.Client
import Michoi.AgentServer.Frame

namespace Michoi

open Lib

/-! ## The fields of responses -/

/-- The fields that do not tell the age of a frame. -/
def fixedFields : List (String × String) :=
  [("Content-Type", mediaTypeJson), ("Content-Type", mediaTypeJpeg),
    ("Content-Type", "application/yaml"), ("Content-Type", "text/html; charset=utf-8"),
    ("Cache-Control", "no-cache"), ("Cache-Control", "no-store"), ("WWW-Authenticate", "Bearer")]

/-- A field whose text the server has fixed, up to a number. -/
def FieldFixed (field : String × String) : Prop :=
  field ∈ fixedFields ∨ ∃ n : Nat, field = ("X-Frame-Age-Ms", toString n)

namespace Response

/-- The server's statuses. -/
def statuses : List Nat := [200, 400, 401, 404, 406, 409, 415, 429, 500, 501, 502, 503]

/-- One of the server's statuses, with such fields. -/
structure Fixed (r : Response) : Prop where
  status : r.status ∈ statuses
  headers : ∀ field ∈ r.headers, FieldFixed field

section

variable {Q : Type} {lib : Library Q} {status : Nat}

theorem fixed_new (h : status ∈ statuses) {contentType : String}
    (hfield : ("Content-Type", contentType) ∈ fixedFields) (body : Bytes) :
    (new status contentType body).Fixed where
  status := h
  headers := List.forall_mem_singleton.mpr (.inl hfield)

theorem Fixed.header {r : Response} (h : r.Fixed) {name value : String}
    (hfield : FieldFixed (name, value)) : (r.header name value).Fixed where
  status := h.status
  headers := List.forall_mem_append.mpr ⟨h.headers, List.forall_mem_singleton.mpr hfield⟩

theorem fixed_json (h : status ∈ statuses) (value : Payload) : (json lib status value).Fixed :=
  fixed_new h (by decide) _

theorem fixed_error (h : status ∈ statuses) (error message : String) :
    (Response.error lib status error message).Fixed := fixed_json h _

end

end Response

theorem PortError.httpStatus_mem (e : PortError) : e.httpStatus ∈ Response.statuses := by
  cases e with
  | call error => cases error <;> decide
  | unsupported => decide

theorem PortResult.httpStatus_mem (r : PortResult) : r.httpStatus ∈ Response.statuses := by
  unfold PortResult.httpStatus
  cases r.error with
  | none => decide
  | some e => exact e.httpStatus_mem

/-! ## The handlers -/

section

variable {Q : Type} {lib : Library Q} {A : Type} {r : Request}

/-- Whatever the Agent replies, the response is fixed but for its body. -/
def HandlerFixed (h : Handler A Response) : Prop := ∀ s, (h s).1.Fixed

theorem fixed_pure {response : Response} (h : response.Fixed) :
    HandlerFixed (pure response : Handler A Response) := fun _ => h

theorem fixed_bind {α : Type} (h : Handler A α) {next : α → Handler A Response}
    (hnext : ∀ reply, HandlerFixed (next reply)) : HandlerFixed (h >>= next) :=
  fun s => hnext (h s).1 (h s).2

theorem fixed_of_requireContentType {expected : String} {response : Response}
    (h : requireContentType lib r expected = .error response) : response.Fixed := by
  unfold requireContentType at h
  split at h
  · split at h <;> cases h
    exact Response.fixed_json (by decide) _
  · cases h
    exact Response.fixed_json (by decide) _

theorem fixed_answerUnit (failure : String) (field : Option (String × String))
    (result : Except PortError Unit) : (answerUnit lib failure field result).Fixed := by
  cases result with
  | ok => exact Response.fixed_json (by decide) _
  | error e => exact Response.fixed_error e.httpStatus_mem ..

theorem fixed_noRoute (r : Request) : (noRoute lib r).Fixed := by
  unfold noRoute
  split
  · exact Response.fixed_error (by decide) ..
  split <;> exact Response.fixed_error (by decide) ..

theorem fixed_unauthorized (lib : Library Q) : (unauthorized lib).Fixed :=
  (Response.fixed_error (by decide) ..).header (.inl (by decide))

theorem fixed_documentRoute {config : ServerConfig} {response : Response}
    (h : documentRoute lib config r = some response) : response.Fixed := by
  unfold documentRoute at h
  split at h
  · cases h
    exact Response.fixed_new (by decide) (by decide) _
  · split at h <;> cases h
    · exact (Response.fixed_new (by decide) (by decide) _).header (.inl (by decide))
    · exact Response.fixed_error (by decide) ..
  · split at h <;> cases h
    · exact (Response.fixed_new (by decide) (by decide) _).header (.inl (by decide))
    · exact Response.fixed_error (by decide) ..
  · cases h
    exact Response.fixed_json (by decide) _
  · split at h <;> cases h
    · exact Response.fixed_new (by decide) (by decide) _
    · exact Response.fixed_error (by decide) ..
  · cases h

variable [LinearOrder Q] [AgentPort A]

omit [AgentPort A] in
/-- What every handler begins with. -/
theorem fixed_accept {offered : List String} {next : String → Handler A Response}
    (hnext : ∀ offer, HandlerFixed (next offer)) :
    HandlerFixed (match requireAccept lib r offered with
      | .error response => pure response
      | .ok offer => next offer) := by
  split
  · next response haccept =>
      unfold requireAccept at haccept
      split at haccept <;> cases haccept
      exact fixed_pure (Response.fixed_json (by decide) _)
  · exact hnext _

omit [LinearOrder Q] [AgentPort A] in
/-- A handler that reads a body goes on with its type. -/
theorem fixed_typed {next : Handler A Response} (hnext : HandlerFixed next) :
    HandlerFixed (match requireContentType lib r mediaTypeJson with
      | .error response => pure response
      | .ok () => next) := by
  split
  · next htype => exact fixed_pure (fixed_of_requireContentType htype)
  · exact hnext

omit [LinearOrder Q] [AgentPort A] in
/-- A check of a body. -/
theorem fixed_check {p : Prop} [Decidable p] {message : String} {next : Handler A Response}
    (hnext : HandlerFixed next) :
    HandlerFixed (if p then pure (.error lib 400 "bad_request" message) else next) := by
  split
  · exact fixed_pure (Response.fixed_error (by decide) ..)
  · exact hnext

theorem commandRoute_fixed (action : CallAction) :
    HandlerFixed (commandRoute lib r action : Handler A Response) := by
  refine fixed_accept fun _ => fixed_typed ?_
  split
  · exact fixed_pure (Response.fixed_error (by decide) ..)
  · exact fixed_check <| fixed_bind _ fun result =>
      fixed_pure (Response.fixed_json (PortResult.httpStatus_mem result) _)

theorem elevatorRoute_fixed : HandlerFixed (elevatorRoute lib r : Handler A Response) := by
  refine fixed_accept fun _ => fixed_typed ?_
  split
  · exact fixed_pure (Response.fixed_error (by decide) ..)
  · exact fixed_check <| fixed_check <| fixed_bind _ fun result =>
      fixed_pure (Response.fixed_json (PortResult.httpStatus_mem result) _)

theorem monitorStart_fixed : HandlerFixed (monitorStart lib r : Handler A Response) := by
  refine fixed_accept fun _ => fixed_typed ?_
  split
  · exact fixed_pure (Response.fixed_error (by decide) ..)
  · exact fixed_check <| fixed_bind _ fun result => fixed_pure (fixed_answerUnit _ _ result)

theorem dialRoute_fixed : HandlerFixed (dialRoute lib r : Handler A Response) := by
  refine fixed_accept fun _ => fixed_typed ?_
  split
  · exact fixed_pure (Response.fixed_error (by decide) ..)
  · exact fixed_check <| fixed_bind _ fun result => fixed_pure (fixed_answerUnit _ _ result)

theorem monitorStop_fixed : HandlerFixed (monitorStop lib r : Handler A Response) :=
  fixed_accept fun _ => fixed_bind _ fun result => fixed_pure (fixed_answerUnit _ _ result)

theorem dialHangup_fixed : HandlerFixed (dialHangup lib r : Handler A Response) :=
  fixed_accept fun _ => fixed_bind _ fun result => fixed_pure (fixed_answerUnit _ _ result)

theorem apiInfo_fixed : HandlerFixed (apiInfo lib r : Handler A Response) :=
  fixed_accept fun _ => fixed_bind _ fun _ => fixed_pure (Response.fixed_json (by decide) _)

omit [AgentPort A] in
theorem serialised_fixed (read : Handler A Bytes) : HandlerFixed (serialised lib r read) :=
  fixed_accept fun _ => fixed_bind _ fun _ =>
    fixed_pure (Response.fixed_new (by decide) (by decide) _)

theorem snapshotRoute_fixed : HandlerFixed (snapshotRoute lib r : Handler A Response) := by
  apply fixed_accept
  intro _
  apply fixed_bind
  intro snapshot
  split
  · apply fixed_bind
    intro clockUs
    apply fixed_pure
    have hframe (frame : VideoFrame) : (Response.new 200 mediaTypeJpeg frame.jpeg).Fixed :=
      Response.fixed_new (by decide) (by decide) _
    exact ((hframe _).header (.inl (by decide))).header (.inr ⟨_, rfl⟩)
  · exact fixed_pure (Response.fixed_error (by decide) ..)

/-- No arm puts anything of a request into a head. -/
theorem route_fixed (config : ServerConfig) :
    HandlerFixed (route lib config r : Handler A Response) := by
  unfold route
  split
  · next hdocument => exact fixed_pure (fixed_documentRoute hdocument)
  unfold agentRoute
  split
  · exact apiInfo_fixed
  · exact apiInfo_fixed
  · exact serialised_fixed _
  · exact serialised_fixed _
  · exact snapshotRoute_fixed
  · exact serialised_fixed _
  · exact monitorStart_fixed
  · exact monitorStop_fixed
  · exact dialRoute_fixed
  · exact dialHangup_fixed
  · exact elevatorRoute_fixed
  · exact commandRoute_fixed _
  · exact commandRoute_fixed _
  · exact commandRoute_fixed _
  · exact fixed_pure (fixed_noRoute r)

end

/-! ## Reading responses -/

/-- The status in the first line of a head. -/
def statusOf (lines : List Bytes) : Option Nat :=
  digitsValue 10 0 ((lossyChars 0 ((lines.headD []).drop 9)).takeWhile fun c => c ≠ ' ')

/-- The length of a body: the responses with some statuses have none. -/
def replyLength (lines : List Bytes) : Option Nat :=
  (statusOf lines).bind fun status =>
    if status < 200 ∨ status = 204 ∨ status = 304 then some 0 else lineValue contentLength lines

/-- Not an interim response. -/
def isFinal (m : Framed UInt8) : Bool := (statusOf m.lines).any fun status => 200 ≤ status

/-- The responses of a client that reads them by their lengths and passes over interim ones. -/
def readReplies (got : Bytes) : List (Framed UInt8) :=
  (readMessages cr lf replyLength got.length got).filter isFinal

/-! ## A response reads back -/

namespace Response

def statusLine (status : Nat) : String := "HTTP/1.1 " ++ toString status ++ " " ++ reason status

def connectionLine (keepAlive : Bool) : String :=
  if keepAlive then "Connection: keep-alive" else "Connection: close"

/-- A response, as lines and a body. -/
def message (r : Response) (keepAlive : Bool) : Framed UInt8 where
  lines := asBytes (statusLine r.status) ::
    (r.headers.map fun h => asBytes (h.1 ++ ": " ++ h.2)) ++
      [contentLength ++ asBytes (toString r.body.length), asBytes (connectionLine keepAlive)]
  body := r.body

theorem write_eq (r : Response) (keepAlive : Bool) :
    r.write keepAlive = (r.message keepAlive).bytes cr lf := by
  have hconnection : asBytes (if keepAlive then "Connection: keep-alive\r\n\r\n"
      else "Connection: close\r\n\r\n") = asBytes (connectionLine keepAlive) ++ crlf ++ crlf := by
    cases keepAlive <;> decide
  have hheaders : (r.headers.flatMap fun h => asBytes (h.1 ++ ": " ++ h.2 ++ "\r\n")) =
      headLines cr lf (r.headers.map fun h => asBytes (h.1 ++ ": " ++ h.2)) := by
    rw [headLines, List.flatMap_map]
    exact List.flatMap_congr fun h _ => by rw [asBytes_append, asBytes_crlf]; rfl
  unfold write
  rw [hconnection, hheaders, asBytes_append, asBytes_append ("Content-Length: " ++ _),
    asBytes_append "Content-Length: ", asBytes_crlf]
  simp [message, Framed.bytes, headLines, statusLine, contentLength, crlf, asBytes_append]

/-- The statuses of responses can be read, and none of them goes without a body. -/
theorem statusOf_message {r : Response} (h : r.Fixed) (keepAlive : Bool) :
    statusOf (r.message keepAlive).lines = some r.status := by
  have hall : ∀ status ∈ statuses, digitsValue 10 0 ((lossyChars 0
      ((asBytes (statusLine status)).drop 9)).takeWhile fun c => c ≠ ' ') = some status := by
    decide +kernel
  exact hall _ h.status

theorem isFinal_message {r : Response} (h : r.Fixed) (keepAlive : Bool) :
    isFinal (r.message keepAlive) = true := by
  have hall : ∀ status ∈ statuses, 200 ≤ status := by decide
  unfold isFinal
  rw [statusOf_message h]
  exact decide_eq_true (hall _ h.status)

/-- A line of a field is a line, and states no length. -/
theorem FieldFixed.line {field : String × String} (h : FieldFixed field) :
    (cr ∉ asBytes (field.1 ++ ": " ++ field.2) ∧ asBytes (field.1 ++ ": " ++ field.2) ≠ []) ∧
      contentLength.isPrefixOf (asBytes (field.1 ++ ": " ++ field.2)) = false := by
  rcases h with h | ⟨n, rfl⟩
  · revert field
    decide +kernel
  · have hname : asBytes "X-Frame-Age-Ms: " = 0x58 :: asBytes "-Frame-Age-Ms: " := by decide
    have hlength : contentLength = 0x43 :: asBytes "ontent-Length: " := by decide
    dsimp only
    rw [asBytes_append]
    refine ⟨⟨fun hmem => ?_, List.append_ne_nil_of_left_ne_nil (by decide) _⟩, ?_⟩
    · exact (List.mem_append.mp hmem).elim (by decide) (cr_not_mem_digits n)
    · change contentLength.isPrefixOf (asBytes "X-Frame-Age-Ms: " ++ _) = false
      rw [hname, hlength]
      rfl

theorem wellFormed_message {r : Response} (h : r.Fixed) (keepAlive : Bool) :
    (r.message keepAlive).WellFormed cr replyLength where
  lines := by
    have hstatus : ∀ status ∈ statuses,
        cr ∉ asBytes (statusLine status) ∧ asBytes (statusLine status) ≠ [] := by decide +kernel
    have hlength : cr ∉ contentLength ++ asBytes (toString r.body.length) ∧
        contentLength ++ asBytes (toString r.body.length) ≠ [] := by
      refine ⟨fun hmem => ?_, List.append_ne_nil_of_left_ne_nil (by decide) _⟩
      exact (List.mem_append.mp hmem).elim (by decide) (cr_not_mem_digits _)
    have hconnection : cr ∉ asBytes (connectionLine keepAlive) ∧
        asBytes (connectionLine keepAlive) ≠ [] := by cases keepAlive <;> decide
    intro line hline
    simp only [message, List.mem_cons, List.mem_append, List.mem_map, List.not_mem_nil,
      or_false, List.cons_append] at hline
    rcases hline with rfl | ⟨field, hfield, rfl⟩ | rfl | rfl
    · exact hstatus _ h.status
    · exact (FieldFixed.line (h.headers field hfield)).1
    · exact hlength
    · exact hconnection
  length := by
    have hbody : ∀ status ∈ statuses, ¬ (status < 200 ∨ status = 204 ∨ status = 304) := by decide
    have hstatus : ∀ status ∈ statuses,
        contentLength.isPrefixOf (asBytes (statusLine status)) = false := by decide +kernel
    have hbefore : ∀ line ∈ asBytes (statusLine r.status) ::
        (r.headers.map fun h => asBytes (h.1 ++ ": " ++ h.2)),
        contentLength.isPrefixOf line = false := by
      refine List.forall_mem_cons.mpr ⟨hstatus _ h.status, List.forall_mem_map.mpr ?_⟩
      exact fun field hfield => (FieldFixed.line (h.headers field hfield)).2
    unfold replyLength
    rw [statusOf_message h, Option.bind_some, if_neg (hbody _ h.status)]
    exact lineValue_digits hbefore _

end Response

/-! ## The session -/

/-- The interim response, as lines and a body. -/
def continueMessage : Framed UInt8 := ⟨[asBytes "HTTP/1.1 100 Continue"], []⟩

theorem interim_eq (r : Request) :
    ∃ messages : List (Framed UInt8), interim r = messages.flatMap (Framed.bytes cr lf) ∧
      ∀ m ∈ messages, m = continueMessage := by
  unfold interim
  split
  · split
    · exact ⟨[continueMessage], by decide +kernel, by simp⟩
    · exact ⟨[], rfl, fun _ h => absurd h List.not_mem_nil⟩
  · exact ⟨[], rfl, fun _ h => absurd h List.not_mem_nil⟩

theorem readRequest_written (bits : Nat) (ending : Ending) (unread : Bytes) :
    ∃ messages : List (Framed UInt8), (readRequest bits ending unread).written =
        messages.flatMap (Framed.bytes cr lf) ∧ ∀ m ∈ messages, m = continueMessage := by
  have hnone : ∃ messages : List (Framed UInt8), ([] : Bytes) =
      messages.flatMap (Framed.bytes cr lf) ∧ ∀ m ∈ messages, m = continueMessage :=
    ⟨[], rfl, fun _ h => absurd h List.not_mem_nil⟩
  unfold readRequest
  split
  · exact hnone
  · split <;> exact hnone
  · split
    · exact hnone
    · split <;> exact interim_eq _

/-- A message is the response of an exchange. -/
def Exchange.Answered (x : Exchange) (m : Framed UInt8) : Prop :=
  x.response.Fixed ∧ ∃ keepAlive, m = x.response.message keepAlive

/-- What a session has written is messages, one for each exchange but for interim ones. -/
structure HttpSession.Messages {A : Type} (s : HttpSession A) (messages : List (Framed UInt8)) :
    Prop where
  written : s.written = messages.flatMap (Framed.bytes cr lf)
  wellFormed : ∀ m ∈ messages, m.WellFormed cr replyLength
  answered : List.Forall₂ Exchange.Answered s.exchanges (messages.filter isFinal)

section

variable {A : Type} {s : HttpSession A} {messages : List (Framed UInt8)}

theorem HttpSession.Messages.interim (h : s.Messages messages) {more : List (Framed UInt8)}
    (hmore : ∀ m ∈ more, m = continueMessage) {written : Bytes}
    (hwritten : written = more.flatMap (Framed.bytes cr lf)) :
    HttpSession.Messages { s with written := s.written ++ written } (messages ++ more) where
  written := by rw [List.flatMap_append, ← h.written, ← hwritten]
  wellFormed m hm := by
    rcases List.mem_append.mp hm with hm | hm
    · exact h.wellFormed m hm
    · rw [hmore m hm]
      exact ⟨by decide +kernel, by decide +kernel⟩
  answered := by
    have hnone : more.filter isFinal = [] := by
      refine List.filter_eq_nil_iff.mpr fun m hm => ?_
      rw [hmore m hm]
      decide +kernel
    rw [List.filter_append, hnone, List.append_nil]
    exact h.answered

theorem HttpSession.Messages.answer (h : s.Messages messages) {response : Response}
    (hfixed : response.Fixed) (request : Request) (unread : Bytes) (keepAlive : Bool) :
    (s.answer request unread response keepAlive).Messages
      (messages ++ [response.message keepAlive]) where
  written := by
    rw [List.flatMap_append, ← h.written, List.flatMap_singleton, ← Response.write_eq]
    rfl
  wellFormed := List.forall_mem_append.mpr
    ⟨h.wellFormed, List.forall_mem_singleton.mpr (Response.wellFormed_message hfixed _)⟩
  answered := by
    have hfinal : [response.message keepAlive].filter isFinal = [response.message keepAlive] :=
      List.filter_cons_of_pos (Response.isFinal_message hfixed _)
    rw [List.filter_append, hfinal]
    exact List.rel_append h.answered (.cons ⟨hfixed, keepAlive, rfl⟩ .nil)

end

section

variable {Q : Type} [LinearOrder Q] {A : Type} [AgentPort A]

theorem connectionLoop_messages (lib : Library Q) (config : ServerConfig) (bits : Nat)
    (ending : Ending) (n : Nat) {s : HttpSession A} {messages : List (Framed UInt8)}
    (h : s.Messages messages) (bytes : Bytes) :
    ∃ messages, (connectionLoop lib config bits ending n s bytes).1.Messages messages := by
  induction n generalizing s messages bytes with
  | zero => exact ⟨messages, h⟩
  | succ n ih =>
      obtain ⟨more, hwritten, hmore⟩ := readRequest_written bits ending bytes
      have hread := h.interim hmore hwritten
      unfold connectionLoop
      dsimp only
      split
      · exact ⟨_, hread⟩
      · exact ⟨_, hread⟩
      · next request unread hrequest =>
          split
          · exact ⟨_, hread.answer (fixed_unauthorized lib) request unread false⟩
          split
          · exact ⟨_, hread⟩
          · have hport : HttpSession.Messages ⟨(route lib config request s.port).2,
                s.written ++ (readRequest bits ending bytes).written, s.exchanges⟩
                (messages ++ more) :=
              ⟨hread.written, hread.wellFormed, hread.answered⟩
            have hfixed : (route lib config request s.port).1.Fixed := route_fixed config s.port
            have hanswer := hport.answer hfixed request unread request.keepAlive
            split
            · exact ih hanswer unread
            · exact ⟨_, hanswer⟩

/-- **The responses of a connection**: whatever a client sends, it gets responses with the
    server's own fields, and reads from what came in the first of them as they were written,
    whatever is in their bodies; and all of them when all bytes came. -/
theorem replies_read_back (lib : Library Q) (config : ServerConfig) (bits : Nat) (agent : A)
    (unread : Bytes) (ending : Ending) {got : Bytes}
    (hgot : got <+: (connection lib config bits agent unread ending).1.written) :
    ∃ answered, answered <+: (connection lib config bits agent unread ending).1.exchanges ∧
      List.Forall₂ Exchange.Answered answered (readReplies got) ∧
      (got = (connection lib config bits agent unread ending).1.written →
        answered = (connection lib config bits agent unread ending).1.exchanges) := by
  have hstart : HttpSession.Messages (⟨⟨agent, []⟩, [], []⟩ : HttpSession A) [] :=
    ⟨rfl, fun _ h => absurd h List.not_mem_nil, .nil⟩
  obtain ⟨messages, h⟩ :=
    connectionLoop_messages lib config bits ending (unread.length + 1) hstart unread
  change (connection lib config bits agent unread ending).1.Messages messages at h
  generalize (connection lib config bits agent unread ending).1 = s at h hgot ⊢
  rw [h.written] at hgot ⊢
  obtain ⟨hread, hall⟩ := readMessages_prefix h.wellFormed hgot (Nat.le_refl _)
  obtain ⟨rest, hrest⟩ := hread.filter isFinal
  have hanswered := h.answered
  rw [← hrest] at hanswered
  refine ⟨_, List.take_prefix _ _, List.forall₂_take_append _ _ _ hanswered, fun heq => ?_⟩
  have hlength : (readReplies got).length = s.exchanges.length := by
    unfold readReplies
    rw [hall heq, h.answered.length_eq]
  rw [hlength]
  exact List.take_length

end

/-- A field with a line break in its value, and a request after it that has no token. -/
def brokenField : Bytes :=
  asBytes "GET /pad HTTP/1.1\r\nExpect: 100-continue\r\nX: a\nContent-Length: 9\r\n\r\n" ++
    asBytes "GET /v1/state HTTP/1.1\r\n\r\n"

/-- The client passes over `100 Continue` and gets the page and the error. -/
theorem replies_broken_field :
    let s := (connection errorsOnly guarded 64 (NamedAgent.mk "hall") brokenField .closed).1
    s.exchanges.map (fun x => x.response.status) = [200, 401] ∧
      List.Forall₂ Exchange.Answered s.exchanges (readReplies s.written) := by
  intro s
  obtain ⟨answered, -, hreplies, hall⟩ := replies_read_back errorsOnly guarded 64
    (NamedAgent.mk "hall") brokenField .closed List.prefix_rfl
  rw [hall rfl] at hreplies
  exact ⟨by decide +kernel, hreplies⟩

end Michoi
