import PingPong.Exchange.Delivery

/-!
# What Ping reports of Pong

The line that `PingService.send` logs about an admitted call, next to what Pong did with the request.
-/

namespace PingPong.Ping

open Feign Trace

/-- The lines that `send` logs: "Pong throttled '{body}',http code {code}", "Pong Respond '{body}',http
code {code}", and "Request not send as being 'rate limited'". -/
inductive PingService.Record
  | pongThrottled (body : Option String) (code : Int)
  | pongRespond (body : Option String) (code : Int)
  | notSent
  deriving DecidableEq, Repr

/-- The line about the response, and none if its code is null. -/
def PingService.record (response : FeignResponse) : Option Record :=
  match response.httpCode with
  | none => none
  | some code =>
    if HttpStatus.rateLimited = code then some (.pongThrottled response.body code)
    else some (.pongRespond response.body code)

/-- The line that a call of `send` logs, which it does unless it throws. -/
def PingService.recorded (client : OpenFeignClientProxy) (lib : Library) (g : TraceIdUtil) (env : SendEnv)
    (t : TraceThread) : Option Record :=
  if env.locked then
    match env.message with
    | none => none
    | some msg =>
      match (client.invoke lib g PingClient.send [msg] env.execute t).1 with
      | .response _ response => record response
      | _ => none
  else some .notSent

/-- What `send` returns with the line. -/
def PingService.Record.exit : Record → Exit
  | pongThrottled _ _ => .returned HttpStatus.rateLimitedMsg
  | pongRespond body _ => .returned body
  | notSent => .returned HttpStatus.pingLimitedMsg

end PingPong.Ping

namespace PingPong.Exchange

open Feign Ping Pong Trace

/-- What becomes of a request in Pong: rejected by `ThrottlingInterceptor`, not matched by a route, or
given to `PongService.respond`, which throws or returns. -/
inductive Outcome
  | throttled (code : Int)
  | unmatched
  | failed
  | responded (returned : String)
  deriving DecidableEq, Repr

/-- What a request meets in Pong: the throttle at its arrival, whether there is a `StreamBridge` and
whether it throws, the thread behind the trace filters, and the answers of the server where no handler
has given one. -/
structure PongEnv where
  throttling : ThrottlingInterceptor
  now : ℚ
  streamBridge : Bool
  brokerFails : Bool
  thread : TraceThread
  unmatched : HttpRequest → Int × String
  unmatched_code : ∀ request, (unmatched request).1 = 404 ∨ (unmatched request).1 = 405
  errorBody : HttpRequest → String

namespace PongEnv

variable (env : PongEnv) (u : UrlCodec)

def outcome (request : HttpRequest) : Outcome :=
  match (env.throttling.filter env.now).1 with
  | .status code => .throttled code
  | .chain =>
    match respondArgument u request with
    | none => .unmatched
    | some msg =>
      match (PongService.respond env.streamBridge (some msg) env.thread).1 with
      | (returned, none) => .responded returned
      | (returned, some _) => if env.brokerFails then .failed else .responded returned

/-- The response to the request. The throttle leaves the body empty. -/
def answer (request : HttpRequest) : FeignResponse :=
  match env.outcome u request with
  | .throttled code => ⟨some code, some ""⟩
  | .unmatched => ⟨some (env.unmatched request).1, some (env.unmatched request).2⟩
  | .failed => ⟨some 500, some (env.errorBody request)⟩
  | .responded returned => ⟨some 200, some returned⟩

end PongEnv

/-- What an admitted `send` of the message `m` meets. -/
def admitted (env : PongEnv) (u : UrlCodec) (m : Option String) : SendEnv where
  locked := true
  message := some m
  execute request := some (env.answer u request)

/-- While Pong answers, an admitted `send` of the message `m` records 'Pong Respond' only if `respond` was
executed for its request and what `send` returns is what `respond` returned, and 'Pong throttled' only if
the request was throttled. -/
def ReportAgrees (u : UrlCodec) (lib : Library) (name : String) (url : PingClient.ServiceUrl)
    (env : PongEnv) (m : Option String) : Prop :=
  ∀ (g : TraceIdUtil) (t : TraceThread),
    let client := PingClient.proxy name url
    let sent := (PingService.send client lib g (admitted env u m) t).1
    let recorded := PingService.recorded client lib g (admitted env u m) t
    ∃ request, sent.request = some request ∧
      (∀ body code, recorded = some (.pongRespond body code) →
        ∃ returned, env.outcome u request = .responded returned ∧ body = some returned ∧
          sent.exit = .returned (some returned)) ∧
      (∀ body code, recorded = some (.pongThrottled body code) →
        env.outcome u request = .throttled code)

/-- The text of the URL for the message; without one the placeholder stays. -/
def messageUrl (url : PingClient.ServiceUrl) (m : Option String) : String :=
  "http://" ++ url.host ++ "/pong/send/" ++ m.getD "\x7bmsg\x7d"

/-- The path of the URL has the form of the route `pong/send/{msg}`. -/
def Routed (u : UrlCodec) (url : PingClient.ServiceUrl) (m : Option String) : Prop :=
  (PongController.matchSend u (u.requestPath (messageUrl url m))).isSome

/-- The throttle has given its next permit away. -/
def PongEnv.Throttles (env : PongEnv) : Prop := env.now < env.throttling.rateLimiter.nextFreeTicket

/-- The exchange cannot be published. -/
def PongEnv.Fails (env : PongEnv) : Prop := env.streamBridge = true ∧ env.brokerFails = true

end PingPong.Exchange
