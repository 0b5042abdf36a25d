/-
  Requests back to back on one connection.

  `InFrame`: each request is read from its own bytes and from no others, and answered once.
  `readBody` goes by the path before it goes by the announcement, so a body under the path of
  the streaming upload is left unread whatever the method is, and is taken for the next
  request; and the lines of a chunked body have a limit of their own. `in_frame_iff`: that is
  all that can go wrong.
-/
import Michoi.AgentServer.Body
import Michoi.AgentServer.Token

namespace Michoi

/-- One request as it is meant or read, with the bytes behind it. -/
structure FramedRequest where
  method : String
  path : String
  query : String
  body : Bytes
  unread : Bytes
  deriving DecidableEq, Repr

def Exchange.framed (x : Exchange) : FramedRequest where
  method := x.request.method
  path := x.request.path
  query := x.request.query
  body := x.request.body
  unread := x.unread

/-- Requests back to back. -/
def stream (requests : List SentRequest) : Bytes := requests.flatMap SentRequest.bytes

/-- The requests as they are meant. -/
def framesOf : List SentRequest → List FramedRequest
  | [] => []
  | r :: rest => ⟨r.method, r.path, r.query.getD "", r.body.data, stream rest⟩ :: framesOf rest

/-- How a connection ends of which all bytes were read. -/
def Ending.last : Ending → SessionEnd
  | closed => .closed
  | broken => .fault .failed

/-- Exactly these requests are read, and each gets one response. -/
structure InFrame {A : Type} (requests : List SentRequest) (ending : Ending)
    (x : HttpSession A × SessionEnd) : Prop where
  requests : x.1.exchanges.map Exchange.framed = framesOf requests
  responses : x.1.written = x.1.exchanges.flatMap fun e => e.response.write true
  ending : x.2 = ending.last

theorem length_framesOf (requests : List SentRequest) :
    (framesOf requests).length = requests.length := by
  induction requests with
  | nil => rfl
  | cons r requests ih => rw [framesOf, List.length_cons, ih, List.length_cons]

/-- One response for each request. -/
theorem InFrame.length_exchanges {A : Type} {requests : List SentRequest} {ending : Ending}
    {x : HttpSession A × SessionEnd} (h : InFrame requests ending x) :
    x.1.exchanges.length = requests.length := by
  rw [← length_framesOf, ← h.requests, List.length_map]

namespace SentRequest

/-- What the server can read: no body under the path of the streaming upload, and no line too
    long in a body in chunks. -/
def Readable (r : SentRequest) : Prop :=
  if r.path = "/v1/talk" then r.body.bytes = []
  else ∀ line ∈ r.body.lines, line.length ≤ maxLine

instance (r : SentRequest) : Decidable r.Readable := inferInstanceAs (Decidable (ite ..))

end SentRequest

section

variable {bits : Nat} {ending : Ending} {r : SentRequest}

/-! ## One request -/

theorem readBody_of_readable (hbits : bits = 32 ∨ bits = 64) (h : r.WellFormed)
    (hreadable : r.Readable) (rest : Bytes) :
    readBody bits r.bare (r.body.bytes ++ rest) = .ok (r.body.data, rest) := by
  unfold SentRequest.Readable at hreadable
  by_cases hpath : r.path = "/v1/talk"
  · rw [if_pos hpath] at hreadable
    have hdata : r.body.data = [] := by
      cases hbody : r.body with
      | none => rfl
      | sized data =>
          rw [hbody] at hreadable
          exact hreadable
      | chunked chunks zeros ext trailers =>
          rw [hbody] at hreadable
          simp [SentBody.bytes, crlf] at hreadable
    unfold readBody
    rw [if_neg (fun hne => hne hpath), hreadable, hdata, List.nil_append]
  · rw [if_neg hpath] at hreadable
    rw [readBody_bare hbits h hpath, if_pos hreadable]

/-- What an unreadable request does: its body is left on the connection, or the connection
    fails. -/
theorem readBody_of_not_readable (hbits : bits = 32 ∨ bits = 64) (h : r.WellFormed)
    (hreadable : ¬ r.Readable) (rest : Bytes) :
    (r.body.bytes ≠ [] ∧
        readBody bits r.bare (r.body.bytes ++ rest) = .ok ([], r.body.bytes ++ rest)) ∨
      readBody bits r.bare (r.body.bytes ++ rest) = .error .failed := by
  unfold SentRequest.Readable at hreadable
  by_cases hpath : r.path = "/v1/talk"
  · rw [if_pos hpath] at hreadable
    refine .inl ⟨hreadable, ?_⟩
    unfold readBody
    rw [if_neg (fun hne => hne hpath)]
  · rw [if_neg hpath] at hreadable
    rw [readBody_bare hbits h hpath, if_neg hreadable]
    exact .inr rfl

theorem readRequest_bytes (h : r.WellFormed) (rest : Bytes) :
    readRequest bits ending (r.bytes ++ rest) =
      match readBody bits r.bare (r.body.bytes ++ rest) with
      | .error fault => ⟨[], .error fault⟩
      | .ok (body, unread) => ⟨[], .ok (some ({ r.bare with body }, unread))⟩ := by
  unfold readRequest SentRequest.bytes
  rw [List.append_assoc, SentRequest.scan_head h]
  cases hread : readBody bits r.bare (r.body.bytes ++ rest) with
  | error fault => simp [SentRequest.parseHead_head h, SentRequest.interim_bare h, hread]
  | ok read => simp [SentRequest.parseHead_head h, SentRequest.interim_bare h, hread]

/-! ## The loop -/

variable {A : Type}

/-- A session, and then another. -/
def HttpSession.followedBy (s t : HttpSession A) : HttpSession A where
  port := t.port
  written := s.written ++ t.written
  exchanges := s.exchanges ++ t.exchanges

theorem inFrame_cons {requests : List SentRequest} {body : Bytes} {response : Response}
    {port : Asked A} (x : HttpSession A × SessionEnd) (hbody : body = r.body.data) :
    InFrame (r :: requests) ending
        (HttpSession.followedBy ⟨port, response.write true,
          [⟨{ r.bare with body }, stream requests, response⟩]⟩ x.1, x.2) ↔
      InFrame requests ending x := by
  have hframed : Exchange.framed ⟨{ r.bare with body }, stream requests, response⟩ =
      ⟨r.method, r.path, r.query.getD "", r.body.data, stream requests⟩ := by
    rw [hbody]
    rfl
  constructor
  · rintro ⟨hrequests, hresponses, hending⟩
    simp only [HttpSession.followedBy, List.singleton_append, List.map_cons, framesOf, hframed,
      List.flatMap_cons] at hrequests hresponses
    exact ⟨(List.cons.inj hrequests).2, List.append_cancel_left hresponses, hending⟩
  · rintro ⟨hrequests, hresponses, hending⟩
    refine ⟨?_, ?_, hending⟩
    · simp only [HttpSession.followedBy, List.singleton_append, List.map_cons, framesOf, hframed,
        hrequests]
    · simp only [HttpSession.followedBy, List.singleton_append, List.flatMap_cons, hresponses]

variable {Q : Type} [LinearOrder Q] {lib : Library Q} {config : ServerConfig} [AgentPort A]

/-- The loop only adds to what it started with. -/
theorem connectionLoop_from (n : Nat) (s : HttpSession A) (unread : Bytes) :
    connectionLoop lib config bits ending n s unread =
      let x := connectionLoop lib config bits ending n ⟨s.port, [], []⟩ unread
      (s.followedBy x.1, x.2) := by
  induction n generalizing s unread with
  | zero => simp [connectionLoop, HttpSession.followedBy]
  | succ n ih =>
      unfold connectionLoop
      dsimp only
      cases (readRequest bits ending unread).result with
      | error fault => simp [HttpSession.followedBy]
      | ok read =>
          match read with
          | none => simp [HttpSession.followedBy]
          | some (request, left) =>
              dsimp only
              split
              · simp [HttpSession.followedBy, HttpSession.answer]
              split
              · simp [HttpSession.followedBy]
              split
              · rw [ih]
                conv_rhs => rw [ih]
                simp [HttpSession.followedBy, HttpSession.answer]
              · simp [HttpSession.followedBy, HttpSession.answer]

/-- A request that was read is answered, and the loop goes on behind it. -/
theorem connectionLoop_of_read (lib : Library Q) (ending : Ending) (h : r.WellFormed)
    (hstreams : streams r.request = false)
    (hauthorized : authorized r.request config.token = true) {rest body left : Bytes}
    (hread : readBody bits r.bare (r.body.bytes ++ rest) = .ok (body, left)) (n : Nat)
    (port : Asked A) :
    ∃ port' response, connectionLoop lib config bits ending (n + 1) ⟨port, [], []⟩
        (r.bytes ++ rest) =
      connectionLoop lib config bits ending n
        ⟨port', response.write true, [⟨{ r.bare with body }, left, response⟩]⟩ left := by
  have hauthorized' : authorized { r.bare with body } config.token = true := hauthorized
  have hstreams' : streams { r.bare with body } = false := hstreams
  refine ⟨(route lib config { r.bare with body } port).2,
    (route lib config { r.bare with body } port).1, ?_⟩
  rw [connectionLoop, readRequest_bytes h, hread]
  dsimp only
  rw [hauthorized', hstreams']
  simp [HttpSession.answer, SentRequest.bare]

/-- A request whose body fails is not answered. -/
theorem connectionLoop_of_fault (h : r.WellFormed) {rest : Bytes} {fault : Fault}
    (hread : readBody bits r.bare (r.body.bytes ++ rest) = .error fault) (n : Nat)
    (port : Asked A) :
    connectionLoop lib config bits ending (n + 1) ⟨port, [], []⟩ (r.bytes ++ rest) =
      (⟨port, [], []⟩, .fault fault) := by
  rw [connectionLoop, readRequest_bytes h, hread]
  rfl

/-- The loop over the rest of a connection. -/
theorem connectionLoop_inFrame_iff (hbits : bits = 32 ∨ bits = 64) {requests : List SentRequest}
    (h : ∀ r ∈ requests, r.WellFormed ∧ streams r.request = false ∧
      authorized r.request config.token = true) {n : Nat} (hn : requests.length < n)
    (port : Asked A) :
    InFrame requests ending
        (connectionLoop lib config bits ending n ⟨port, [], []⟩ (stream requests)) ↔
      ∀ r ∈ requests, r.Readable := by
  induction requests generalizing n port with
  | nil =>
      obtain ⟨n, rfl⟩ := Nat.exists_eq_add_of_le' (show 1 ≤ n from hn)
      refine ⟨fun _ r hr => absurd hr List.not_mem_nil, fun _ => ?_⟩
      cases ending with
      | closed => exact ⟨rfl, rfl, rfl⟩
      | broken => exact ⟨rfl, rfl, rfl⟩
  | cons r requests ih =>
      obtain ⟨hwell, hstreams, hauthorized⟩ := h r List.mem_cons_self
      rw [List.length_cons] at hn
      obtain ⟨n, rfl⟩ := Nat.exists_eq_add_of_le' (show 1 ≤ n by omega)
      rw [stream, List.flatMap_cons, ← stream, List.forall_mem_cons]
      by_cases hreadable : r.Readable
      · have hread := readBody_of_readable hbits hwell hreadable (stream requests)
        obtain ⟨port', response, hloop⟩ := connectionLoop_of_read lib ending hwell
          hstreams hauthorized hread n port
        rw [hloop, connectionLoop_from, inFrame_cons _ rfl,
          ih (fun r hr => h r (List.mem_cons_of_mem _ hr)) (by omega) port']
        simp [hreadable]
      · refine iff_of_false ?_ fun hall => hreadable hall.1
        rcases readBody_of_not_readable hbits hwell hreadable (stream requests) with
          ⟨hbytes, hread⟩ | hread
        · -- The first request is read from fewer bytes than it has.
          obtain ⟨port', response, hloop⟩ := connectionLoop_of_read lib ending hwell
            hstreams hauthorized hread n port
          rw [hloop, connectionLoop_from]
          rintro ⟨hrequests, -, -⟩
          simp only [HttpSession.followedBy, List.singleton_append, List.map_cons, framesOf]
            at hrequests
          have hunread : r.body.bytes ++ stream requests = stream requests :=
            congrArg FramedRequest.unread (List.cons.inj hrequests).1
          exact hbytes (List.append_left_eq_self.mp hunread)
        · rw [connectionLoop_of_fault hwell hread]
          rintro ⟨hrequests, -, -⟩
          cases hrequests

end

section

variable {Q : Type} [LinearOrder Q] {A : Type} [AgentPort A]

/-- **When a connection stays in frame.** For every list of well-formed requests, of any
    methods, paths, queries and bodies: exactly when none of them has a body under the path of
    the streaming upload, and no line that frames a body in chunks is too long. -/
theorem in_frame_iff (lib : Library Q) (config : ServerConfig) {bits : Nat}
    (hbits : bits = 32 ∨ bits = 64) (ending : Ending) (requests : List SentRequest)
    (h : ∀ r ∈ requests, r.WellFormed ∧ streams r.request = false ∧
      authorized r.request config.token = true) (agent : A) :
    InFrame requests ending (connection lib config bits agent (stream requests) ending) ↔
      ∀ r ∈ requests, r.Readable := by
  have hcount : requests.length ≤ (stream requests).length :=
    length_le_length_flatMap requests fun r _ => by simp [SentRequest.bytes, SentRequest.head, crlf]
  exact connectionLoop_inFrame_iff hbits h (Nat.lt_succ_of_le hcount) ⟨agent, []⟩

end

/-! ## Three requests, and one too many -/

/-- A server with a token, and a page. -/
def guarded : ServerConfig := ⟨some "t", false, true, [], "", [], 0⟩

/-- A request without a body. -/
def askState : SentRequest :=
  ⟨"GET", "/v1/state", some "token=t", [⟨"Host", asBytes " door"⟩], .none⟩

/-- A body in two chunks, one with an extension, and a trailer. -/
def dialInChunks : SentRequest :=
  ⟨"POST", "/v1/dial", some "token=t", [⟨"Transfer-Encoding", asBytes " Chunked"⟩],
    .chunked [⟨"2", asBytes " ;x=y", asBytes "ab"⟩, ⟨"01", [], asBytes "c"⟩] "0" []
      [⟨"Digest", asBytes " z"⟩]⟩

/-- A body after its length, which is given with blanks around it. -/
def putSized (path length : String) (data : Bytes) : SentRequest :=
  ⟨"PUT", path, some "token=t", [⟨"Content-Length", asBytes " " ++ asBytes length ++ asBytes " "⟩],
    .sized data⟩

theorem askState_wellFormed : askState.WellFormed where
  method := by decide
  path := by decide
  noQuery := by decide
  query := by decide
  fields := by decide
  noConnection := by decide +kernel
  noExpect := by decide +kernel
  announces := ⟨by decide +kernel, by decide +kernel⟩
  body := trivial
  headSize := by decide +kernel
  bodySize := by decide +kernel

theorem dialInChunks_wellFormed : dialInChunks.WellFormed where
  method := by decide
  path := by decide
  noQuery := by decide
  query := by decide
  fields := by decide
  noConnection := by decide +kernel
  noExpect := by decide +kernel
  announces := ⟨by decide +kernel, asBytes " ", "Chunked", [], by decide +kernel,
    .inl (by decide +kernel), by decide +kernel, by decide +kernel⟩
  body := by
    refine ⟨?_, by decide +kernel, by decide +kernel, ⟨by decide +kernel, .inl rfl⟩,
      by decide +kernel⟩
    intro c hc
    rcases List.mem_pair.mp hc with rfl | rfl
    · exact ⟨by decide +kernel, by decide +kernel, by decide +kernel,
        by decide +kernel, .inr ⟨asBytes " ", asBytes "x=y", by decide +kernel, by decide +kernel⟩⟩
    · exact ⟨by decide +kernel, by decide +kernel, by decide +kernel, by decide +kernel, .inl rfl⟩
  headSize := by decide +kernel
  bodySize := by decide +kernel

theorem values_putSized {path length : String} {data : Bytes} (name : String) :
    (putSized path length data).values name =
      if "content-length" = name then [asBytes " " ++ asBytes length ++ asBytes " "] else [] := by
  have hname : toAsciiLowercase "Content-Length" = "content-length" := by decide +kernel
  unfold SentRequest.values putSized
  rw [List.filter_singleton, hname]
  by_cases h : "content-length" = name
  · simp [h]
  · simp [h]

theorem putSized_wellFormed {path length : String} {data : Bytes}
    (hpath : IsWord path ∧ '?' ∉ path.toList) (hne : length ≠ "")
    (hlength : digitsValue 10 0 length.toList = some data.length) (hdata : data.length ≤ maxBody)
    (hhead : (putSized path length data).head.length ≤ maxHead) :
    (putSized path length data).WellFormed where
  method := (by decide +kernel : IsWord "PUT")
  path := hpath.1
  noQuery := hpath.2
  query := (by decide : ∀ query ∈ some "token=t", Visible query)
  fields := by
    intro f hf
    obtain rfl := List.mem_singleton.mp hf
    refine ⟨(by decide +kernel : IsWord "Content-Length"),
      (by decide +kernel : ':' ∉ "Content-Length".toList), ?_⟩
    have hblank : OneLine (asBytes " ") := by decide
    have hvisible : ∀ c ∈ length.toList, isVisible c = true ∨ c = ' ' :=
      fun c hc => .inl (digits_ok hlength c hc).1
    have hdigits : OneLine (asBytes length) := by
      intro b hb
      refine ⟨?_, ?_⟩ <;> rintro rfl
      · exact not_mem_asBytes_of_visible hvisible (by decide +kernel) hb
      · exact not_mem_asBytes_of_visible hvisible (by decide +kernel) hb
    exact List.forall_mem_append.mpr ⟨List.forall_mem_append.mpr ⟨hblank, hdigits⟩, hblank⟩
  noConnection := by rw [values_putSized, if_neg (by decide +kernel)]
  noExpect := by rw [values_putSized, if_neg (by decide +kernel)]
  announces := by
    refine ⟨?_, asBytes " ", length, asBytes " ", ?_, by decide +kernel, by decide +kernel, hne,
      hlength⟩
    · rw [values_putSized, if_neg (by decide +kernel)]
    · rw [values_putSized, if_pos rfl]
  body := trivial
  headSize := hhead
  bodySize := hdata

/-- Both ways to announce a body, and a request without one between them. -/
theorem in_frame_three :
    let requests := [dialInChunks, askState, putSized "/pad" "3" (asBytes "abc")]
    (∀ r ∈ requests, r.WellFormed ∧ streams r.request = false ∧
        authorized r.request guarded.token = true) ∧
      (∀ r ∈ requests, r.Readable) ∧
      InFrame requests .closed
        (connection errorsOnly guarded 64 (NamedAgent.mk "hall") (stream requests) .closed) := by
  intro requests
  have hwell : ∀ r ∈ requests, r.WellFormed ∧ streams r.request = false ∧
      authorized r.request guarded.token = true := by
    intro r hr
    simp only [requests, List.mem_cons, List.not_mem_nil, or_false] at hr
    rcases hr with rfl | rfl | rfl
    · exact ⟨dialInChunks_wellFormed, by decide +kernel, by decide +kernel⟩
    · exact ⟨askState_wellFormed, by decide +kernel, by decide +kernel⟩
    · exact ⟨putSized_wellFormed (by decide +kernel) (by decide +kernel) (by decide +kernel)
        (by decide +kernel) (by decide +kernel), by decide +kernel, by decide +kernel⟩
  have hreadable : ∀ r ∈ requests, r.Readable := by decide +kernel
  exact ⟨hwell, hreadable,
    (in_frame_iff errorsOnly guarded (.inr rfl) .closed requests hwell _).mpr hreadable⟩

/-- The body of one request, which is taken for another one. -/
def hidden : SentRequest :=
  putSized "/v1/talk" "34" (asBytes "GET /v1/state?token=t HTTP/1.1\r\n\r\n")

/-- One request with a body under the path of the streaming upload, and two answers. -/
theorem body_taken_for_request :
    (hidden.WellFormed ∧ streams hidden.request = false ∧
        authorized hidden.request guarded.token = true) ∧
      ((connection errorsOnly guarded 64 (NamedAgent.mk "hall") (stream [hidden])
        .closed).1.exchanges.map fun e => (e.request.method, e.request.path)) =
          [("PUT", "/v1/talk"), ("GET", "/v1/state")] ∧
      ¬ InFrame [hidden] .closed
        (connection errorsOnly guarded 64 (NamedAgent.mk "hall") (stream [hidden]) .closed) := by
  have hwell : hidden.WellFormed :=
    putSized_wellFormed (by decide) (by decide) (by decide +kernel) (by decide +kernel)
      (by decide +kernel)
  have hread : ((connection errorsOnly guarded 64 (NamedAgent.mk "hall") (stream [hidden])
      .closed).1.exchanges.map fun e => (e.request.method, e.request.path)) =
        [("PUT", "/v1/talk"), ("GET", "/v1/state")] := by
    decide +kernel
  have htwo : ∀ x : HttpSession NamedAgent × SessionEnd, (x.1.exchanges.map fun e =>
      (e.request.method, e.request.path)) = [("PUT", "/v1/talk"), ("GET", "/v1/state")] →
        ¬ InFrame [hidden] .closed x := by
    intro x hx h
    have hlength := congrArg List.length hx
    rw [List.length_map, h.length_exchanges] at hlength
    cases hlength
  exact ⟨⟨hwell, by decide +kernel, by decide +kernel⟩, hread, htwo _ hread⟩

end Michoi
