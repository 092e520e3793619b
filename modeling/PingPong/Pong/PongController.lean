import PingPong.Feign.HttpUtil
import PingPong.Other.Broker
import PingPong.Pong.ThrottlingInterceptor
import PingPong.Trace.MqInterceptor

/-!
# Requests of Pong

A request passes the two trace filters, which are both of order 1 and may run in either order, and then
the throttle. The controller answers it with `PongService.respond`, which publishes the exchange under
the trace id of the thread.
-/

namespace PingPong.Pong

open Feign Trace

/-! ## Filters -/

/-- `WebFluxTraceFilter.filter`: the first `traceId` header goes into the MDC, or else a generated
id. -/
def WebFluxTraceFilter.filter {α : Type} (g : TraceIdUtil) (traceIds : Option (List String))
    (chain : TraceThread → α) (t : TraceThread) : α :=
  let traceId := traceIds.bind List.head?
  let (traceId, t) :=
    if isBlank traceId then t.getGenerateTraceId g else (traceId.getD "", t)
  chain (t.putTraceId traceId)

/-- The order in which Spring runs the two filters of order 1. -/
inductive FilterOrder
  | webTraceFirst
  | webFluxFirst
  deriving DecidableEq, Repr

/-- Both trace filters. -/
def FilterOrder.filter {α : Type} (order : FilterOrder) (g : TraceIdUtil)
    (traceIds : Option (List String)) (chain : TraceThread → α) : TraceThread → α :=
  match order with
  | webTraceFirst => WebTraceFilter.filter g (WebFluxTraceFilter.filter g traceIds chain)
  | webFluxFirst => WebFluxTraceFilter.filter g traceIds (WebTraceFilter.filter g chain)

/-! ## The service -/

/-- A message handed to the broker. -/
structure Published where
  topic : String
  message : Message MqMessageDTO

/-- What `PongService.message` publishes, as it leaves the channel's interceptor. -/
def PongService.message (req : Option String) (resp : String) (t : TraceThread) :
    Published × TraceThread :=
  let (message, t) := MqInterceptor.preSend
    { payload := { id := t.traceId, ping := req, pong := some resp }
      headers := fun key => if key = "contentType" then some "application/json" else none } t
  ({ topic := MappedConstant.mqTopic, message }, t)

/-- The answer and the message published, which needs a `StreamBridge`. -/
def PongService.respond (streamBridge : Bool) (msg : Option String) (t : TraceThread) :
    (String × Option Published) × TraceThread :=
  let response := MappedConstant.responseMsg
  if streamBridge then
    let (sent, t) := message msg response t
    ((response, some sent), t)
  else ((response, none), t)

/-! ## The controller -/

/-- The route `pong/send/{msg}` of `PongController.send`: three segments, the last of them not empty. -/
def PongController.matchSend (u : UrlCodec) (path : String) : Option String :=
  match UrlCodec.segments path.toList with
  | [pong, send, msg] =>
    if u.pathDecode pong = "pong" ∧ u.pathDecode send = "send" ∧ msg ≠ "" then
      some (u.pathDecode msg)
    else none
  | _ => none

/-- The route `pong/service` of `PongController.service`. -/
def PongController.matchService (u : UrlCodec) (path : String) : Bool :=
  match UrlCodec.segments path.toList with
  | [pong, service] => u.pathDecode pong == "pong" && u.pathDecode service == "service"
  | _ => false

/-- The first value of a parameter in a query `name=value&...`, whose names and values are decoded. A
parameter without an annotation is bound to it, and to null if there is none. -/
def queryParam (decode : String → String) (name : String) (query : List Char) : Option String :=
  ((query.splitOn '&').filter (· ≠ [])).findSome? fun pair =>
    if decode (.ofList (pair.takeWhile (· ≠ '='))) = name then
      some (decode (.ofList ((pair.dropWhile (· ≠ '=')).drop 1)))
    else none

/-- A request to one of the two endpoints of `PongController`: the values of its `traceId` header, the
`msg` bound to the parameter of the endpoint, its arrival time, and the throttle as it finds it, which
the requests of all threads share. -/
structure PongRequest where
  traceIds : Option (List String)
  msg : Option String
  now : ℚ
  throttling : ThrottlingInterceptor

namespace PongRequest

/-- The first value of the `traceId` header. -/
def traceId (request : PongRequest) : Option String := request.traceIds.bind List.head?

/-- The throttle hands the request to the chain. -/
def Admitted (request : PongRequest) : Prop :=
  (request.throttling.filter request.now).1 = .chain

end PongRequest

inductive PongAnswer
  | status (code : Int)
  | answered (body : String) (sent : Option Published)

/-- A request from the filters to its answer. -/
def PongController.handle (g : TraceIdUtil) (order : FilterOrder) (streamBridge : Bool)
    (request : PongRequest) : TraceThread → PongAnswer × TraceThread :=
  order.filter g request.traceIds fun t =>
    match (request.throttling.filter request.now).1 with
    | .status code => (.status code, t)
    | .chain =>
      let ((body, sent), t) := PongService.respond streamBridge request.msg t
      (.answered body sent, t)

/-- The thread after it has handled the requests one after another. -/
def PongController.after (g : TraceIdUtil) (order : FilterOrder) (streamBridge : Bool)
    (requests : List PongRequest) (t : TraceThread) : TraceThread :=
  requests.foldl (fun t request => (handle g order streamBridge request t).2) t

/-! ## Trace ids -/

/-- The id a request runs under: the one in the MDC behind the filters. -/
def PongController.requestId (g : TraceIdUtil) (order : FilterOrder) (request : PongRequest) :
    TraceThread → Option String :=
  order.filter g request.traceIds TraceThread.traceId

/-- The ids generated up to the draw `n` differ from each other and from the headers. -/
structure Fresh (g : TraceIdUtil) (n : ℕ) (requests : List PongRequest) : Prop where
  distinct : ∀ i j, i < j → j < n → g.generateTraceId i ≠ g.generateTraceId j
  unknown : ∀ k < n, ∀ request ∈ requests, request.traceId ≠ some (g.generateTraceId k)

/-- The message has the trace id `id`, and reaches a listener whose row for it has the id too. -/
structure Carries (id : String) (sent : Published) : Prop where
  payload : sent.message.payload.id = some id
  header : sent.message.headers MappedConstant.traceId = some id
  listened : sent.topic = Other.ReceiveService.topic
  row : (Other.ReceiveService.onMessage sent.message.payload).traceId = some id

/-- What a request admitted after the requests `earlier` publishes: a message that carries the request's
own header, or else an id generated for this request, which no earlier request ran under. -/
def TraceSurvives (g : TraceIdUtil) (order : FilterOrder) (t : TraceThread)
    (earlier : List PongRequest) (request : PongRequest) : Prop :=
  let before := PongController.after g order true earlier t
  let result := PongController.handle g order true request before
  ∃ body msg, result.1 = .answered body (some msg) ∧
    (∀ h, request.traceId = some h → isBlank (some h) = false → Carries h msg) ∧
    (isBlank request.traceId = true → ∃ k, before.drawn ≤ k ∧ k < result.2.drawn ∧
      Carries (g.generateTraceId k) msg ∧
      (Fresh g result.2.drawn (earlier ++ [request]) → ∀ l r l', earlier = l ++ r :: l' →
        PongController.requestId g order r (PongController.after g order true l t) ≠
          some (g.generateTraceId k)))

end PingPong.Pong
