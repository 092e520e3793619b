import PingPong.Exchange.Report
import PingPong.StepMachine.Run

/-!
# Requests on their way

What becomes of the requests of all Ping processes once they have left. Pong serves them with several
threads, which share the throttle: a thread takes a request off the wire, runs the trace filters and the
throttle, and in a later step calls the controller. A request is known by its number, the position at which
it left. `C` is the type of the calls of Ping, `D` that of the threads of Pong.

The wire may hold a request back for ever, and Pong may handle a request whose call has given up.
-/

namespace PingPong.Exchange

open Feign Ping Pong Trace

/-! ## Pong -/

/-- A Pong server: its configuration, the trace ids of its threads, and the answers that come from the
framework. -/
structure PongServer (D : Type) where
  rateLimite : ℕ
  order : FilterOrder
  ids : D → TraceIdUtil
  codec : UrlCodec
  streamBridge : Bool
  unmatched : HttpRequest → Int × String
  unmatched_code : ∀ request, (unmatched request).1 = 404 ∨ (unmatched request).1 = 405
  errorBody : HttpRequest → String

/-- The response to a request. -/
def PongServer.answer {D : Type} (v : PongServer D) (request : HttpRequest) : Outcome → FeignResponse
  | .throttled code => ⟨some code, some ""⟩
  | .unmatched => ⟨some (v.unmatched request).1, some (v.unmatched request).2⟩
  | .failed => ⟨some 500, some (v.errorBody request)⟩
  | .responded returned => ⟨some 200, some returned⟩

/-! ## The state -/

/-- A request that has left, the call that has sent it and the message of the call. -/
structure Departed (C : Type) where
  caller : C
  message : Option String
  request : HttpRequest

/-- A request that has reached Pong, and what the throttle has done with it. -/
structure Arrival where
  number : ℕ
  time : ℚ
  fate : Filtered
  deriving DecidableEq, Repr

def Arrival.admitted (a : Arrival) : Bool := a.fate = .chain

/-- A request that has been answered, and the message that Pong has published for it. -/
structure Handled where
  number : ℕ
  outcome : Outcome
  published : Option MqMessageDTO
  deriving DecidableEq, Repr

/-- The request has got behind the throttle. -/
def Handled.admitted (h : Handled) : Bool :=
  match h.outcome with
  | .throttled _ => false
  | _ => true

/-- All requests that have left, the numbers of those that have not reached Pong, the throttle and the
requests it has seen, the threads of Pong and the requests they are at, and the requests that have been
answered. -/
structure Transit (C D : Type) where
  sent : List (Departed C)
  wire : List ℕ
  clock : ℚ
  throttling : ThrottlingInterceptor
  arrivals : List Arrival
  pongThread : D → TraceThread
  handling : List (D × ℕ)
  handled : List Handled

variable {C D : Type} [DecidableEq D]

namespace Transit

def start (v : PongServer D) (pongThread : D → TraceThread) : Transit C D where
  sent := []
  wire := []
  clock := 0
  throttling := .init v.rateLimite
  arrivals := []
  pongThread
  handling := []
  handled := []

/-- The messages that Pong has published, in their order. -/
def published (s : Transit C D) : List MqMessageDTO := s.handled.filterMap Handled.published

def setThread (s : Transit C D) (d : D) (t : TraceThread) : Transit C D :=
  { s with pongThread := Function.update s.pongThread d t }

/-- The next request leaves. -/
def depart (s : Transit C D) (c : C) (message : Option String) (request : HttpRequest) : Transit C D :=
  { s with
    sent := s.sent ++ [⟨c, message, request⟩]
    wire := s.wire ++ [s.sent.length] }

/-- The thread `d` takes the request `i` off the wire: the trace filters, and then the throttle. -/
def arrive (s : Transit C D) (v : PongServer D) (request : HttpRequest) (d : D) (i : ℕ) (now : ℚ) :
    Transit C D :=
  let t := v.order.filter (v.ids d) (request.traceId.map fun id => [id]) (fun t => t) (s.pongThread d)
  let (fate, throttling) := s.throttling.filter now
  let s : Transit C D :=
    { s.setThread d t with
      wire := s.wire.erase i
      clock := now
      throttling
      arrivals := s.arrivals ++ [⟨i, now, fate⟩] }
  match fate with
  | .chain => { s with handling := (d, i) :: s.handling }
  | .status code => { s with handled := s.handled ++ [⟨i, .throttled code, none⟩] }

/-- The thread `d` is done with the request `i`. -/
def close (s : Transit C D) (d : D) (i : ℕ) (outcome : Outcome) (published : Option MqMessageDTO) :
    Transit C D :=
  { s with
    handling := s.handling.erase (d, i)
    handled := s.handled ++ [⟨i, outcome, published⟩] }

/-- The thread `d` calls the controller; `works` says whether the broker takes a message. -/
def respond (s : Transit C D) (v : PongServer D) (request : HttpRequest) (d : D) (i : ℕ) (works : Bool) :
    Transit C D :=
  match respondArgument v.codec request with
  | none => s.close d i .unmatched none
  | some msg =>
    match PongService.respond v.streamBridge (some msg) (s.pongThread d) with
    | ((returned, none), t) => (s.setThread d t).close d i (.responded returned) none
    | ((returned, some sent), t) =>
      if works then (s.setThread d t).close d i (.responded returned) (some sent.message.payload)
      else (s.setThread d t).close d i .failed none

end Transit

/-! ## The machine -/

inductive TransitAction (C D : Type)
  | depart (c : C) (message : Option String) (request : HttpRequest)
  | arrive (d : D) (i : ℕ) (now : ℚ)
  | respond (d : D) (works : Bool)

def transitMachine (C : Type) (v : PongServer D) : StepMachine (Transit C D) (TransitAction C D) where
  step s a :=
    match a with
    | .depart c message request => some (s.depart c message request)
    | .arrive d i now =>
      if i ∈ s.wire ∧ d ∉ s.handling.map Prod.fst ∧ s.clock ≤ now then
        s.sent[i]?.map fun departed => s.arrive v departed.request d i now
      else none
    | .respond d works =>
      (s.handling.lookup d).bind fun i =>
        s.sent[i]?.map fun departed => s.respond v departed.request d i works

/-! ## What a request leads to -/

/-- The numbers that have been drawn for requests without a trace id, with the threads that have drawn them, are
different, and they have all been drawn since `before`. -/
structure DrawnFor (before now : D → TraceThread) (drawn : ℕ → Option (D × ℕ)) : Prop where
  distinct : ∀ i j draw, drawn i = some draw → drawn j = some draw → i = j
  since : ∀ i d k, drawn i = some (d, k) → (before d).drawn ≤ k ∧ k < (now d).drawn

/-- The id under which a request runs is its own, or else the one made of what has been drawn for it. -/
def PongServer.RunsUnder (v : PongServer D) (drawn : Option (D × ℕ)) (request : HttpRequest) (id : Option String) :
    Prop :=
  (isBlank request.traceId = false → id = request.traceId) ∧
    (isBlank request.traceId = true → ∃ d k, drawn = some (d, k) ∧ id = some ((v.ids d).generateTraceId k))

/-- The answer to a request fits it. A message is published if and only if `respond` has returned and there
is a `StreamBridge`, with the text from the path of the request and the id under which the request runs. -/
def Handled.Fits (v : PongServer D) (drawn : Option (D × ℕ)) (request : HttpRequest) (h : Handled) : Prop :=
  match h.outcome with
  | .throttled code => code = HttpStatus.rateLimited ∧ h.published = none
  | .unmatched => respondArgument v.codec request = none ∧ h.published = none
  | .failed => v.streamBridge = true ∧ (respondArgument v.codec request).isSome = true ∧ h.published = none
  | .responded returned => returned = MappedConstant.responseMsg ∧
      ∃ msg, respondArgument v.codec request = some msg ∧
        if v.streamBridge then
          ∃ id, h.published = some ⟨id, some msg, some MappedConstant.responseMsg⟩ ∧ v.RunsUnder drawn request id
        else h.published = none

/-- Every request that has left is in one place: on the wire, with one thread of Pong, or answered once. The
throttle has seen the requests in the order of their times, those that it has admitted are with a thread or
have got the answer of the controller, and every answer fits its request. At the start the threads of Pong were
`pongThread`. -/
structure TransitAccounts (v : PongServer D) (pongThread : D → TraceThread) (s : Transit C D) : Prop where
  places : (s.wire ++ s.handling.map Prod.snd ++ s.handled.map Handled.number).Perm
    (List.range s.sent.length)
  admissions : ((s.arrivals.filter Arrival.admitted).map Arrival.number).Perm
    (s.handling.map Prod.snd ++ (s.handled.filter Handled.admitted).map Handled.number)
  rejections : ((s.arrivals.filter (!·.admitted)).map Arrival.number).Perm
    ((s.handled.filter (!·.admitted)).map Handled.number)
  served : s.arrivals.map (fun a => (a.time, a.fate)) =
    (ThrottlingInterceptor.init v.rateLimite).serve (s.arrivals.map Arrival.time)
  sorted : (s.arrivals.map Arrival.time).Pairwise (· ≤ ·) ∧ ∀ t ∈ s.arrivals.map Arrival.time, 0 ≤ t
  fits : ∃ drawn, DrawnFor pongThread s.pongThread drawn ∧
    ∀ h ∈ s.handled, ∃ departed, s.sent[h.number]? = some departed ∧
      h.Fits v (drawn h.number) departed.request

end PingPong.Exchange
