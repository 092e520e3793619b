import PingPong.Exchange.Report
import PingPong.Exchange.Proofs.DeliveryProofs

/-!
# Proofs: what Ping reports of Pong

The record tells apart the code 429 only, and none but the throttle answers with it: what is not throttled
is recorded as Pong's answer (`record_of_not_throttles`).
-/

namespace PingPong.Exchange

open Feign Ping Pong Trace

variable {u : UrlCodec} {lib : Library} {name : String} {url : PingClient.ServiceUrl} {env : PongEnv}
  {request : HttpRequest} {m : Option String}

/-! ## The record of Ping -/

/-- What `send` returns is what its line says. -/
theorem send_exit (client : OpenFeignClientProxy) (lib : Library) (g : TraceIdUtil) (e : SendEnv)
    (t : TraceThread) :
    (PingService.send client lib g e t).1.exit =
      (PingService.recorded client lib g e t).elim .threw PingService.Record.exit := by
  unfold PingService.send PingService.recorded
  cases e.locked with
  | false => rfl
  | true =>
    cases hmsg : e.message with
    | none => rfl
    | some msg =>
      simp only [if_true]
      cases hinvoked : (client.invoke lib g PingClient.send [msg] e.execute t).1 with
      | onProxy => rfl
      | null => rfl
      | failed failure sent => rfl
      | response sent response =>
        simp only [PingService.reportInvoked, PingService.report, PingService.record]
        cases response.httpCode with
        | none => rfl
        | some code =>
          by_cases hcode : HttpStatus.rateLimited = code
          · simp only [hcode, if_true]; rfl
          · simp only [hcode, if_false]; rfl

/-- The line of an admitted call is about Pong's answer to its request. -/
theorem recorded_admitted (client : OpenFeignClientProxy) (g : TraceIdUtil) (t : TraceThread) :
    PingService.recorded client lib g (admitted env u m) t =
      PingService.record (env.answer u (clientRequest client lib m (t.ensureTraceId g).traceId)) :=
  rfl

/-! ## What Pong does -/

theorem filter_of_throttles (h : env.Throttles) :
    (env.throttling.filter env.now).1 = .status HttpStatus.rateLimited := by
  have hbusy : ¬ env.throttling.rateLimiter.nextFreeTicket ≤ env.now := not_le.mpr h
  simp only [ThrottlingInterceptor.filter, RateLimiter.tryAcquire, hbusy, if_false, Bool.false_eq_true]

theorem filter_of_not_throttles (h : ¬ env.Throttles) :
    (env.throttling.filter env.now).1 = .chain := by
  have hfree : env.throttling.rateLimiter.nextFreeTicket ≤ env.now := not_lt.mp h
  simp only [ThrottlingInterceptor.filter, RateLimiter.tryAcquire, hfree, if_true]

theorem outcome_of_throttles (h : env.Throttles) :
    env.outcome u request = .throttled HttpStatus.rateLimited := by
  simp only [PongEnv.outcome, filter_of_throttles h]

theorem outcome_of_unmatched (h : ¬ env.Throttles) (hroute : respondArgument u request = none) :
    env.outcome u request = .unmatched := by
  simp only [PongEnv.outcome, filter_of_not_throttles h, hroute]

theorem outcome_of_fails (h : ¬ env.Throttles) {msg : String}
    (hroute : respondArgument u request = some msg) (hfails : env.Fails) :
    env.outcome u request = .failed := by
  obtain ⟨hbridge, hbroker⟩ := hfails
  simp only [PongEnv.outcome, filter_of_not_throttles h, hroute, hbridge, hbroker]
  rfl

theorem outcome_of_responds (h : ¬ env.Throttles) {msg : String}
    (hroute : respondArgument u request = some msg) (hfails : ¬ env.Fails) :
    env.outcome u request = .responded MappedConstant.responseMsg := by
  simp only [PongEnv.outcome, filter_of_not_throttles h, hroute]
  cases hbridge : env.streamBridge with
  | false => rfl
  | true =>
    have hbroker : env.brokerFails = false := by
      cases hbroker : env.brokerFails with
      | false => rfl
      | true => exact absurd ⟨hbridge, hbroker⟩ hfails
    simp only [hbroker]
    rfl

/-! ## Agreement -/

theorem record_of_throttles (h : env.Throttles) :
    PingService.record (env.answer u request) =
      some (.pongThrottled (some "") HttpStatus.rateLimited) := by
  simp only [PongEnv.answer, outcome_of_throttles h, PingService.record, if_true]

/-- All codes but 429 are recorded as Pong's answer. -/
theorem record_of_code {code : Int} (body : String)
    (hcode : code = 404 ∨ code = 405 ∨ code = 500 ∨ code = 200) :
    PingService.record ⟨some code, some body⟩ = some (.pongRespond (some body) code) := by
  have hne : ¬ HttpStatus.rateLimited = code := by
    unfold HttpStatus.rateLimited
    omega
  simp only [PingService.record, hne, if_false]

theorem record_of_not_throttles (h : ¬ env.Throttles) :
    ∃ body code, PingService.record (env.answer u request) = some (.pongRespond (some body) code) ∧
      ∀ returned, env.outcome u request = .responded returned → body = returned := by
  unfold PongEnv.answer
  cases hroute : respondArgument u request with
  | none =>
    rw [outcome_of_unmatched h hroute]
    have hcode := env.unmatched_code request
    exact ⟨_, _, record_of_code _ (by omega), fun _ hresponded => by cases hresponded⟩
  | some msg =>
    by_cases hfails : env.Fails
    · rw [outcome_of_fails h hroute hfails]
      exact ⟨_, _, record_of_code _ (by omega), fun _ hresponded => by cases hresponded⟩
    · rw [outcome_of_responds h hroute hfails]
      refine ⟨_, _, record_of_code _ (by omega), ?_⟩
      intro returned hresponded
      exact Outcome.responded.inj hresponded

theorem respondArgument_clientRequest (m traceId : Option String) :
    respondArgument u (clientRequest (PingClient.proxy name url) lib m traceId) =
      PongController.matchSend u (u.requestPath (messageUrl url m)) := by
  have hprefix : urlPrefix url ++ (m.getD "\x7bmsg\x7d").toList = (messageUrl url m).toList := by
    unfold urlPrefix messageUrl
    simp only [String.toList_append]
  have htext : (clientRequest (PingClient.proxy name url) lib m traceId).url = messageUrl url m := by
    rw [← String.toList_inj, ← hprefix]
    cases m with
    | some msg => exact clientRequest_url msg traceId
    | none =>
      rw [(clientRequest_eq none traceId).2]
      show ("http://" ++ url.host ++ "/pong" ++ "/" ++ "send/{msg}").toList = _
      have hpath : "/pong".toList ++ ("/".toList ++ "send/{msg}".toList) =
          "/pong/send/".toList ++ "\x7bmsg\x7d".toList := by decide
      simp only [String.toList_append, List.append_assoc]
      rw [hpath]
      unfold urlPrefix
      simp only [List.append_assoc, Option.getD_none]
  unfold respondArgument
  rw [if_pos (clientRequest_eq m traceId).1, htext]

/-- A request that is not throttled gets an answer of `respond` if and only if it has a route and its
handler does not fail. -/
theorem outcome_responded_iff (h : ¬ env.Throttles)
    (hargument : respondArgument u request = PongController.matchSend u (u.requestPath (messageUrl url m))) :
    (∃ returned, env.outcome u request = .responded returned) ↔ Routed u url m ∧ ¬ env.Fails := by
  constructor
  · rintro ⟨returned, houtcome⟩
    cases hroute : PongController.matchSend u (u.requestPath (messageUrl url m)) with
    | none =>
      rw [outcome_of_unmatched h (hargument.trans hroute)] at houtcome
      cases houtcome
    | some msg =>
      refine ⟨by rw [Routed, hroute]; rfl, ?_⟩
      intro hfails
      rw [outcome_of_fails h (hargument.trans hroute) hfails] at houtcome
      cases houtcome
  · rintro ⟨hrouted, hfails⟩
    obtain ⟨msg, hroute⟩ := Option.isSome_iff_exists.mp hrouted
    exact ⟨_, outcome_of_responds h (hargument.trans hroute) hfails⟩

/-- Ping's report agrees with what Pong did if and only if the request is throttled, or it has a route and
its handler does not fail. -/
theorem reportAgrees_iff (u : UrlCodec) (lib : Library) (name : String) (url : PingClient.ServiceUrl)
    (env : PongEnv) (m : Option String) :
    ReportAgrees u lib name url env m ↔ env.Throttles ∨ Routed u url m ∧ ¬ env.Fails := by
  constructor
  · intro h
    by_cases hthrottles : env.Throttles
    · exact Or.inl hthrottles
    · obtain ⟨request, hsent, hrespond, -⟩ := h { hostname := "", nextInt := fun k => k } ⟨.clear, 0⟩
      rw [(send_of_message rfl rfl).1] at hsent
      obtain rfl := Option.some.inj hsent
      obtain ⟨body, code, hrecord, -⟩ := record_of_not_throttles (u := u) hthrottles
      obtain ⟨returned, houtcome, -⟩ := hrespond (some body) code
        ((recorded_admitted _ _ _).trans hrecord)
      exact Or.inr ((outcome_responded_iff hthrottles (respondArgument_clientRequest m _)).mp
        ⟨returned, houtcome⟩)
  · intro h g t
    refine ⟨_, (send_of_message rfl rfl).1, ?_, ?_⟩
    · intro body code hrecorded
      have hexit := send_exit (PingClient.proxy name url) lib g (admitted env u m) t
      rw [hrecorded] at hexit
      rw [recorded_admitted] at hrecorded
      by_cases hthrottles : env.Throttles
      · rw [record_of_throttles hthrottles] at hrecorded
        cases hrecorded
      · obtain ⟨returned, houtcome⟩ := (outcome_responded_iff hthrottles
          (respondArgument_clientRequest m _)).mpr (h.resolve_left hthrottles)
        obtain ⟨body', code', hrecord, hbody⟩ := record_of_not_throttles (u := u) hthrottles
        rw [hrecord] at hrecorded
        cases hrecorded
        rw [hbody _ houtcome] at hexit ⊢
        exact ⟨returned, houtcome, rfl, hexit⟩
    · intro body code hrecorded
      rw [recorded_admitted] at hrecorded
      by_cases hthrottles : env.Throttles
      · rw [record_of_throttles hthrottles] at hrecorded
        cases hrecorded
        exact outcome_of_throttles hthrottles
      · obtain ⟨body', code', hrecord, -⟩ := record_of_not_throttles (u := u) hthrottles
        rw [hrecord] at hrecorded
        cases hrecorded

/-- Pong with a free throttle and a working broker. -/
def idlePong : PongEnv where
  throttling := .init 1
  now := 0
  streamBridge := true
  brokerFails := false
  thread := ⟨.clear, 0⟩
  unmatched _ := (404, "Not Found")
  unmatched_code _ := Or.inl rfl
  errorBody _ := "Internal Server Error"

/-- A message with a slash has no route, and Pong's 404 is recorded as its answer. -/
theorem not_reportAgrees_slash :
    ¬ ReportAgrees asciiCodec inOrder "be-ping-service" localhost idlePong (some "a/b") := by
  intro h
  have hthrottles : ¬ idlePong.Throttles := by
    unfold PongEnv.Throttles
    decide
  obtain ⟨request, hsent, hrespond, -⟩ := h { hostname := "", nextInt := fun k => k } ⟨.clear, 0⟩
  rw [(send_of_message rfl rfl).1] at hsent
  obtain rfl := Option.some.inj hsent
  obtain ⟨body, code, hrecord, -⟩ := record_of_not_throttles (u := asciiCodec) hthrottles
  obtain ⟨returned, houtcome, -⟩ := hrespond (some body) code ((recorded_admitted _ _ _).trans hrecord)
  have hroute : PongController.matchSend asciiCodec
      (asciiCodec.requestPath (messageUrl localhost (some "a/b"))) = none := by decide
  rw [outcome_of_unmatched hthrottles ((respondArgument_clientRequest (some "a/b") _).trans hroute)]
    at houtcome
  cases houtcome

end PingPong.Exchange
