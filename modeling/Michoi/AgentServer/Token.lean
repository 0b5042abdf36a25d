/-
  A connection without the token.

  `requestsOn` are the requests that can be read from a byte stream. Where none of them
  presents the token, the connection serves the public paths, none of which reaches a
  handler (`route_of_public`), and ends with the first other one. So it is a function of
  the bytes alone: `connectionLoop_alike` runs two Agents side by side.
-/
import Michoi.AgentServer.Route

namespace Michoi

/-- The requests of a byte stream, up to one that is to be the last. -/
def requestsLoop (bits : Nat) (ending : Ending) : Nat → Bytes → List Request
  | 0, _ => []
  | n + 1, unread =>
      match (readRequest bits ending unread).result with
      | .ok (some (request, unread)) =>
          request :: if request.keepAlive then requestsLoop bits ending n unread else []
      | .ok none | .error _ => []

def requestsOn (bits : Nat) (ending : Ending) (unread : Bytes) : List Request :=
  requestsLoop bits ending (unread.length + 1) unread

/-- The request carries the token, in a bearer header or in its query. -/
def Presents (r : Request) (token : String) : Prop :=
  r.bearer = some token.toList ∨ r.queryParam "token" = some token

instance (r : Request) (token : String) : Decidable (Presents r token) :=
  inferInstanceAs (Decidable (_ ∨ _))

theorem authorized_iff (r : Request) (token : String) :
    authorized r (some token) = true ↔ Presents r token := by
  unfold authorized Presents
  simp only [Bool.or_eq_true, beq_iff_eq]

section

variable {Q : Type} [LinearOrder Q] {lib : Library Q} {config : ServerConfig}

/-! ## The public paths -/

theorem agentRoute_of_public {A : Type} [AgentPort A] {r : Request}
    (h : isPublic r.path = true) : agentRoute (A := A) lib r = none := by
  simp only [isPublic, Bool.or_eq_true, beq_iff_eq] at h
  unfold agentRoute
  rcases h with (((h | h) | h) | h) | h <;> rw [h] <;> split <;> first | rfl | simp_all

/-- A public path is answered without the Agent, whatever the method. -/
theorem route_of_public (lib : Library Q) (config : ServerConfig) {r : Request}
    (h : isPublic r.path = true) :
    ∃ response, ∀ (A : Type) (_ : AgentPort A) (s : Asked A),
      route lib config r s = (response, s) := by
  refine ⟨(documentRoute lib config r).getD (noRoute lib r), fun A _ s => ?_⟩
  unfold route
  rw [agentRoute_of_public h]
  cases documentRoute lib config r <;> rfl

theorem not_streams_of_public {r : Request} (h : isPublic r.path = true) : streams r = false := by
  simp only [isPublic, Bool.or_eq_true, beq_iff_eq] at h
  unfold streams
  rcases h with (((h | h) | h) | h) | h <;> rw [h] <;> simp

/-! ## Two Agents -/

/-- Two connections show the peer the same and end alike, and no stream takes them over. -/
structure Alike {A B : Type} (x : HttpSession A × SessionEnd) (y : HttpSession B × SessionEnd) :
    Prop where
  written : x.1.written = y.1.written
  exchanges : x.1.exchanges = y.1.exchanges
  ending : x.2 = y.2
  kept : ∀ request unread, x.2 ≠ .handedOver request unread

variable {A B : Type} [AgentPort A] [AgentPort B] {bits : Nat} {ending : Ending} {token : String}

/-- Two Agents behind one stream: the sessions stay alike, and no Agent is asked. -/
theorem connectionLoop_alike (lib : Library Q) (htoken : config.token = some token) (n : Nat)
    {unread : Bytes} (hnone : ∀ r ∈ requestsLoop bits ending n unread, ¬ Presents r token)
    {s : HttpSession A} {t : HttpSession B} (hwritten : s.written = t.written)
    (hexchanges : s.exchanges = t.exchanges) :
    Alike (connectionLoop lib config bits ending n s unread)
        (connectionLoop lib config bits ending n t unread) ∧
      (connectionLoop lib config bits ending n s unread).1.port = s.port ∧
      (connectionLoop lib config bits ending n t unread).1.port = t.port := by
  induction n generalizing unread s t with
  | zero => exact ⟨⟨hwritten, hexchanges, rfl, nofun⟩, rfl, rfl⟩
  | succ n ih =>
      rw [requestsLoop] at hnone
      unfold connectionLoop
      dsimp only
      cases hread : (readRequest bits ending unread).result with
      | error fault => exact ⟨⟨by rw [hwritten], hexchanges, rfl, nofun⟩, rfl, rfl⟩
      | ok r =>
          match r with
          | none => exact ⟨⟨by rw [hwritten], hexchanges, rfl, nofun⟩, rfl, rfl⟩
          | some (request, rest) =>
              rw [hread] at hnone
              dsimp only at hnone ⊢
              have hunauthorized : authorized request config.token = false := by
                rw [htoken, Bool.eq_false_iff]
                exact fun h => hnone request List.mem_cons_self ((authorized_iff _ _).mp h)
              by_cases hpublic : isPublic request.path = true
              · obtain ⟨response, hroute⟩ := route_of_public lib config hpublic
                simp only [hpublic, Bool.not_true, Bool.false_and, Bool.false_eq_true, if_false,
                  not_streams_of_public hpublic, hroute]
                by_cases hkeep : request.keepAlive = true
                · simp only [hkeep, if_true] at hnone ⊢
                  exact ih (fun r hr => hnone r (List.mem_cons_of_mem _ hr))
                    (by simp only [HttpSession.answer, hwritten])
                    (by simp only [HttpSession.answer, hexchanges])
                · simp only [hkeep, if_false, Bool.false_eq_true]
                  exact ⟨⟨by simp only [HttpSession.answer, hwritten],
                    by simp only [HttpSession.answer, hexchanges], rfl, nofun⟩, rfl, rfl⟩
              · simp only [Bool.not_eq_true] at hpublic
                simp only [hpublic, hunauthorized, Bool.not_false, Bool.and_self, if_true]
                exact ⟨⟨by simp only [HttpSession.answer, hwritten],
                  by simp only [HttpSession.answer, hexchanges], rfl, nofun⟩, rfl, rfl⟩

/-! ## The refusal -/

/-- The first request for a path that is not public is answered 401, and is the last. -/
def RefusesFirst (requests : List Request) (x : HttpSession A × SessionEnd) : Prop :=
  ∀ pre r post, requests = pre ++ r :: post → (∀ q ∈ pre, isPublic q.path = true) →
    isPublic r.path = false → x.2 = .closed ∧
      ∃ earlier last, x.1.exchanges = earlier ++ [last] ∧ earlier.map Exchange.request = pre ∧
        last.request = r ∧ last.response.status = 401 ∧
        last.response.write false <:+ x.1.written

theorem connectionLoop_refuses (lib : Library Q) (htoken : config.token = some token) (n : Nat)
    {unread : Bytes} (hnone : ∀ r ∈ requestsLoop bits ending n unread, ¬ Presents r token)
    {s : HttpSession A} {pre post : List Request} {r : Request}
    (hrequests : requestsLoop bits ending n unread = pre ++ r :: post)
    (hpre : ∀ q ∈ pre, isPublic q.path = true) (hr : isPublic r.path = false) :
    (connectionLoop lib config bits ending n s unread).2 = .closed ∧
      ∃ earlier rest, (connectionLoop lib config bits ending n s unread).1.exchanges =
          s.exchanges ++ earlier ++ [⟨r, rest, unauthorized lib⟩] ∧
        earlier.map Exchange.request = pre ∧
        (unauthorized lib).write false <:+
          (connectionLoop lib config bits ending n s unread).1.written := by
  induction n generalizing unread s pre with
  | zero =>
      rw [requestsLoop] at hrequests
      simp at hrequests
  | succ n ih =>
      rw [requestsLoop] at hnone hrequests
      unfold connectionLoop
      dsimp only
      cases hread : (readRequest bits ending unread).result with
      | error fault =>
          rw [hread] at hrequests
          simp at hrequests
      | ok read =>
          match read with
          | none =>
              rw [hread] at hrequests
              simp at hrequests
          | some (request, rest) =>
              rw [hread] at hnone hrequests
              dsimp only at hnone hrequests ⊢
              have hunauthorized : authorized request config.token = false := by
                rw [htoken, Bool.eq_false_iff]
                exact fun h => hnone request List.mem_cons_self ((authorized_iff _ _).mp h)
              cases pre with
              | nil =>
                  obtain ⟨rfl, -⟩ := List.cons.inj hrequests
                  simp only [hr, hunauthorized, Bool.not_false, Bool.and_self, if_true]
                  exact ⟨trivial, [], rest, by simp [HttpSession.answer], rfl,
                    List.suffix_append _ _⟩
              | cons q pre =>
                  obtain ⟨rfl, hlater⟩ := List.cons.inj hrequests
                  have hpublic : isPublic request.path = true := hpre request List.mem_cons_self
                  obtain ⟨response, hroute⟩ := route_of_public lib config hpublic
                  simp only [hpublic, Bool.not_true, Bool.false_and, Bool.false_eq_true, if_false,
                    not_streams_of_public hpublic, hroute]
                  by_cases hkeep : request.keepAlive = true
                  · simp only [hkeep, if_true] at hnone hlater ⊢
                    obtain ⟨hclosed, earlier, left, hexchanges, hmap, hwritten⟩ :=
                      ih (fun r hr => hnone r (List.mem_cons_of_mem _ hr)) hlater
                        (fun q hq => hpre q (List.mem_cons_of_mem _ hq))
                        (s := { s with
                          written := s.written ++ (readRequest bits ending unread).written
                            }.answer request rest response true)
                    refine ⟨hclosed, ⟨request, rest, response⟩ :: earlier, left, ?_, ?_, hwritten⟩
                    · rw [hexchanges]
                      simp [HttpSession.answer]
                    · rw [List.map_cons, hmap]
                  · simp [hkeep] at hlater

/-- No method of the Agent was called, and no stream took the connection over. -/
def Unasked (a : A) (x : HttpSession A × SessionEnd) : Prop :=
  x.1.port = ⟨a, []⟩ ∧ ∀ request unread, x.2 ≠ .handedOver request unread

/-- **Without the token nothing of the Agent is visible or touched.** For every stream in
    which no request presents the token, and any two Agents: both connections write the same,
    neither Agent is touched, and the first request for a path that is not public is refused
    and is the last. -/
theorem nothing_without_token (lib : Library Q) (config : ServerConfig)
    (htoken : config.token = some token) (unread : Bytes)
    (hnone : ∀ r ∈ requestsOn bits ending unread, ¬ Presents r token) (a : A) (b : B) :
    (connection lib config bits a unread ending).1.written =
        (connection lib config bits b unread ending).1.written ∧
      Unasked a (connection lib config bits a unread ending) ∧
      Unasked b (connection lib config bits b unread ending) ∧
      RefusesFirst (requestsOn bits ending unread)
        (connection lib config bits a unread ending) ∧
      RefusesFirst (requestsOn bits ending unread)
        (connection lib config bits b unread ending) := by
  obtain ⟨halike, ha, hb⟩ := connectionLoop_alike lib htoken _ hnone
    (s := ⟨⟨a, []⟩, [], []⟩) (t := ⟨⟨b, []⟩, [], []⟩) rfl rfl
  have hkept : ∀ request rest, (connection lib config bits b unread ending).2 ≠
      .handedOver request rest := by
    intro request rest h
    exact halike.kept request rest (halike.ending.trans h)
  refine ⟨halike.written, ⟨ha, halike.kept⟩, ⟨hb, hkept⟩, ?_, ?_⟩
  · intro pre r post hrequests hpre hr
    obtain ⟨hclosed, earlier, rest, hexchanges, hmap, hwritten⟩ :=
      connectionLoop_refuses lib htoken _ hnone (s := ⟨⟨a, []⟩, [], []⟩) hrequests hpre hr
    exact ⟨hclosed, earlier, _, hexchanges, hmap, rfl, rfl, hwritten⟩
  · intro pre r post hrequests hpre hr
    obtain ⟨hclosed, earlier, rest, hexchanges, hmap, hwritten⟩ :=
      connectionLoop_refuses lib htoken _ hnone (s := ⟨⟨b, []⟩, [], []⟩) hrequests hpre hr
    exact ⟨hclosed, earlier, _, hexchanges, hmap, rfl, rfl, hwritten⟩

end

/-- A library that writes errors as JSON does, and nothing else. -/
def errorsOnly : Library Nat where
  toVec
    | .error error message => asBytes ("\x7b\"error\":\"" ++ error ++ "\",\"message\":\"" ++
        message ++ "\"\x7d")
    | _ => []
  commandRequest _ := .error ""
  monitorRequest _ := .error ""
  dialRequest _ := .error ""
  elevatorRequest _ := .error ""
  parseQ _ := none
  zero := 0
  one := 1
  openapiYaml := []
  padHtml := asBytes "<!doctype html>"
  swaggerHtml := []

/-- An Agent whose replies tell its name, and that supports nothing. -/
structure NamedAgent where
  name : String

instance : AgentPort NamedAgent where
  reply
    | .agentId, a => (a.name, a)
    | .state, a => (asBytes a.name, a)
    | .mediaInfo, a => (asBytes a.name, a)
    | .cameras, a => (asBytes a.name, a)
    | .snapshot, a => (none, a)
    | .clockUs, a => ((0 : Nat), a)
    | .command _ commandId, a => (⟨commandId, false, some .unsupported, false⟩, a)
    | .callElevator .., a => (⟨"", false, some .unsupported, false⟩, a)
    | .startMonitor _, a => (.error .unsupported, a)
    | .stopMonitor, a => (.error .unsupported, a)
    | .dial _, a => (.error .unsupported, a)
    | .hangupCall, a => (.error .unsupported, a)

/-- The page, and then the state with a token that is not the server's. -/
theorem nothing_with_wrong_token :
    let config : ServerConfig := ⟨some "secret", false, true, [], "", [], 0⟩
    let stream := asBytes
      "GET /pad HTTP/1.1\r\n\r\nGET /v1/state?token=x HTTP/1.1\r\nAuthorization: Bearer y\r\n\r\n"
    config.token = some "secret" ∧
      (∀ r ∈ requestsOn 64 .closed stream, ¬ Presents r "secret") ∧
      (connection errorsOnly config 64 (NamedAgent.mk "hall") stream .closed).1.written =
        (connection errorsOnly config 64 (NamedAgent.mk "attic") stream .closed).1.written := by
  intro config stream
  have hnone : ∀ r ∈ requestsOn 64 .closed stream, ¬ Presents r "secret" := by decide +kernel
  exact ⟨rfl, hnone, (nothing_without_token errorsOnly config rfl stream hnone
    (NamedAgent.mk "hall") (NamedAgent.mk "attic")).1⟩

end Michoi
