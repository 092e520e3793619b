import PingPong.Ping.MessageStore
import PingPong.Ping.PingService
import PingPong.Trace.TaskRunnable

/-!
# Requests and ticks of Ping

`PingController` lets a client or the clock start `PingService.send`. Here one such call runs on its
thread from beginning to end: the request it sends to Pong, and what it leaves in the thread's MDC.
What the slots, the collection and the network answer is the environment of the call.
-/

namespace PingPong.Ping

open Feign Trace

/-! ## The client interface -/

namespace PingClient

/-- `@GetMapping("send/{msg}") FeignResponse send(String msg)`. -/
def send : Method where
  ofObject := false
  requestMapping := none
  getMapping := some ["send/{msg}"]
  postMapping := none
  putMapping := none
  deleteMapping := none
  parameters := ["msg"]

/-- `@PostMapping("service") FeignResponse service(String msg)`. -/
def service : Method where
  ofObject := false
  requestMapping := none
  getMapping := none
  postMapping := some ["service"]
  putMapping := none
  deleteMapping := none
  parameters := ["msg"]

/-- The URL `client.serviceUrl`: a scheme and a host (with a port), without a path. -/
structure ServiceUrl where
  host : String
  plain : ∀ c ∈ host.toList, c ∉ ['/', '?', '#', '\x7b']

/-- The proxy behind `@OpenFeignClient(url = "${client.serviceUrl}", path = "pong")`. -/
def proxy (name : String) (url : ServiceUrl) : OpenFeignClientProxy :=
  (OpenFeignClientFactoryBean.getObject
    { name, url := "http://" ++ url.host, path := getPath "pong" }).1

end PingClient

/-! ## One call of `send` -/

/-- What a call of `send` meets: whether `lock()` returns a lock, the message `getSendMessage()` returns
(`none` when it throws), and how the HTTP request is answered (`none` when it fails). -/
structure SendEnv where
  locked : Bool
  message : Option (Option String)
  execute : HttpRequest → Option FeignResponse

/-- The outcome of a call of `send`, and the request it has sent to Pong. -/
structure Sent where
  exit : Exit
  request : Option HttpRequest

/-- What `send` makes of the call of its client. A null response is dereferenced. -/
def PingService.reportInvoked : OpenFeignClientProxy.Invoked → Exit
  | .response _ response => report response
  | _ => .threw

def PingService.send (client : OpenFeignClientProxy) (lib : Library) (g : TraceIdUtil) (env : SendEnv)
    (t : TraceThread) : Sent × TraceThread :=
  if env.locked then
    match env.message with
    | none => (⟨.threw, none⟩, t)
    | some msg =>
      let (invoked, t) := client.invoke lib g PingClient.send [msg] env.execute t
      (⟨reportInvoked invoked, invoked.sent⟩, t)
  else (⟨.returned HttpStatus.pingLimitedMsg, none⟩, t)

/-! ## Requests -/

/-- A request to `GET /ping/send`: the values of its `traceId` header, and what `send` meets. -/
structure PingRequest where
  traceIds : Option (List String)
  env : SendEnv

/-- The first value of the `traceId` header. -/
def PingRequest.traceId (request : PingRequest) : Option String := request.traceIds.bind List.head?

/-- The request of a client, from the filter to the answer. The filter does not read the headers. -/
def PingController.send (client : OpenFeignClientProxy) (lib : Library) (g : TraceIdUtil)
    (request : PingRequest) (t : TraceThread) : Sent × TraceThread :=
  WebTraceFilter.filter g (fun t => PingService.send client lib g request.env t) t

/-- The thread after it has handled the requests one after another. -/
def PingController.after (client : OpenFeignClientProxy) (lib : Library) (g : TraceIdUtil)
    (requests : List PingRequest) (t : TraceThread) : TraceThread :=
  requests.foldl (fun t request => (PingController.send client lib g request t).2) t

/-- The call gets a slot and a message, so its request leaves for Pong. -/
def PingRequest.GoesOut (request : PingRequest) : Prop :=
  request.env.locked = true ∧ request.env.message ≠ none

/-- The request that Pong gets for `request`, which follows the requests `earlier` on the thread: its
trace id is the inbound header, or else generated for this request, and none that was generated for an
earlier one. -/
structure TraceIsolated (client : OpenFeignClientProxy) (lib : Library) (g : TraceIdUtil)
    (t : TraceThread) (earlier : List PingRequest) (request : PingRequest) (sent : HttpRequest) :
    Prop where
  header : ∀ h, request.traceId = some h → isBlank (some h) = false → sent.traceId = some h
  generated : isBlank request.traceId = true → ∃ k,
    (PingController.after client lib g earlier t).drawn ≤ k ∧
    k < (PingController.after client lib g (earlier ++ [request]) t).drawn ∧
    sent.traceId = some (g.generateTraceId k)
  separate : ∀ k, t.drawn ≤ k → k < (PingController.after client lib g earlier t).drawn →
    sent.traceId ≠ some (g.generateTraceId k)

/-- All requests that leave for Pong are isolated. -/
def RequestsIsolated (client : OpenFeignClientProxy) (lib : Library) (g : TraceIdUtil) (t : TraceThread)
    (requests : List PingRequest) : Prop :=
  ∀ l request l' sent, requests = l ++ request :: l' →
    (PingController.send client lib g request (PingController.after client lib g l t)).1.request =
      some sent →
    TraceIsolated client lib g t l request sent

/-- The requests for which reading no header makes no difference. On a thread with a trace id, every
request that goes out has this id as its header; on a thread without one, only the first request goes
out, and it has no header. -/
def HeadersAgree (t : TraceThread) (requests : List PingRequest) : Prop :=
  if isBlank t.traceId then
    ∀ l request l', requests = l ++ request :: l' → request.GoesOut →
      l = [] ∧ isBlank request.traceId = true
  else ∀ request ∈ requests, request.GoesOut → request.traceId = t.traceId

/-! ## Ticks -/

/-- `PingController.scheduled`: every second `send` runs as a task. -/
def PingController.scheduled (client : OpenFeignClientProxy) (lib : Library) (g : TraceIdUtil)
    (env : SendEnv) (t : TraceThread) : TaskExit × TraceThread :=
  match PingService.send client lib g env t with
  | (⟨.threw, _⟩, t) => (.threw, t)
  | (⟨.returned _, _⟩, t) => (.returned, t)

end PingPong.Ping
