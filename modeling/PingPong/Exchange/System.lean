import PingPong.Exchange.Transit
import PingPong.Other.Broker

/-!
# The system

All Ping processes with the collection they share, the requests on their way, Pong, the broker and the
receiver. Each of them is the machine of its own module; a label here is a step of one machine, or of two
that pass something on: a message from the collection to a call, a request to the wire, a published message
to the broker, an answer to the call that waits for it.

A thread `c : P × T` of a process makes one call at a time. A call of `send` is begun by a client or by the
clock, and keeps a record of what it has met.
-/

namespace PingPong.Exchange

open Feign Ping Pong Trace Other

/-! ## Calls -/

/-- What begins a call of `send`: a request to `GET /ping/send`, or a tick of the scheduler. -/
inductive Origin
  | request
  | tick
  deriving DecidableEq, Repr

namespace Origin

/-- The thread when `send` begins: behind `WebTraceFilter`, or behind the start of `TaskRunnable`. -/
def enter (origin : Origin) (g : TraceIdUtil) (t : TraceThread) : TraceThread :=
  match origin with
  | request => WebTraceFilter.filter g (fun t => t) t
  | tick => if isEmpty t.traceId then t.putGenerated g else t

/-- The thread behind `send`. A `TaskRunnable` clears the MDC unless its task throws. -/
def leave (origin : Origin) (exit : Exit) (t : TraceThread) : TraceThread :=
  match origin, exit with
  | tick, .returned _ => t.clear
  | _, _ => t

end Origin

/-- A call: its origin, the thread and the number of posted messages before it, whether it has got a lock, the
message it has got, the number of the request it has sent, and the response it has got. -/
structure Call where
  origin : Origin
  before : TraceThread
  posted : ℕ
  locked : Bool
  message : Option (Option String)
  number : Option ℕ
  response : Option FeignResponse

/-- A call that has begun. -/
def Call.begin (origin : Origin) (before : TraceThread) (posted : ℕ) : Call where
  origin
  before
  posted
  locked := false
  message := none
  number := none
  response := none

/-- What the call has met, as the environment of a `send` that runs alone. -/
def Call.env (call : Call) : SendEnv where
  locked := call.locked
  message := call.message
  execute _ := call.response

/-- A call that has ended, and the number of messages posted by then. -/
structure Ended (P T : Type) where
  caller : P × T
  call : Call
  exit : Exit
  posted : ℕ

/-! ## The state -/

/-- What is configured and what the libraries answer. `ids` are the trace ids of the threads of Ping. -/
structure Services (P T D : Type) where
  lockFile : String
  num : ℕ
  name : String
  url : PingClient.ServiceUrl
  lib : Library
  ids : P × T → TraceIdUtil
  pong : PongServer D

namespace Services

variable {P T D : Type}

def channels (v : Services P T D) : List String := FileLimitedLock.init v.lockFile v.num

def client (v : Services P T D) : OpenFeignClientProxy := PingClient.proxy v.name v.url

end Services

/-- The states of the machines, the threads of Ping and the calls they are at, the calls that have ended, and
the messages that clients have posted. -/
structure World (P T D : Type) where
  ping : Ping.State P T String
  store : StoreState P T
  thread : P × T → TraceThread
  calls : P × T → Option Call
  transit : Transit (P × T) D
  broker : Broker
  ended : List (Ended P T)
  posted : List (Option String)

/-- The steps. The ones of `init` are those of `MongoDBConfiguration`, `message` is a request to
`POST /ping/message`, and in `lookupFails` and `answerFails` a database or the network fails. -/
inductive WorldAction (P T D : Type)
  | exists (p : P)
  | insertInit (p : P)
  | message (c : P × T) (msg : Option String)
  | call (c : P × T) (origin : Origin)
  | tryLock (c : P × T)
  | findOne (c : P × T)
  | insert (c : P × T)
  | lookupFails (c : P × T)
  | depart (c : P × T)
  | arrive (d : D) (i : ℕ) (now : ℚ)
  | respond (d : D) (works : Bool)
  | answer (c : P × T)
  | answerFails (c : P × T)
  | unlock (c : P × T)
  | finish (c : P × T)
  | destroy (p : P)
  | deliver (i : ℕ) (works : Bool)

variable {P T D : Type} [DecidableEq P] [DecidableEq T] [DecidableEq D]

namespace World

def start (v : Services P T D) (messages : Messages) (rows : List PongMessage) (thread : P × T → TraceThread)
    (pongThread : D → TraceThread) : World P T D where
  ping := .start v.channels
  store := .start messages
  thread
  calls := fun _ => none
  transit := .start v.pong pongThread
  broker := .start rows
  ended := []
  posted := []

def setThread (w : World P T D) (c : P × T) (t : TraceThread) : World P T D :=
  { w with thread := Function.update w.thread c t }

def setCall (w : World P T D) (c : P × T) (call : Option Call) : World P T D :=
  { w with calls := Function.update w.calls c call }

/-- A step of a Ping process. -/
def stepPing (w : World P T D) (v : Services P T D) (a : Action P T) : Option (World P T D) :=
  ((sendMachine P T v.channels).step w.ping a).map fun ping => { w with ping }

/-- A step on the collection. -/
def stepStore (w : World P T D) (a : StoreAction P T) : Option (World P T D) :=
  ((servingMachine P T).step w.store a).map fun store => { w with store }

/-- A step of Pong. What it publishes goes to the broker. -/
def stepPong (w : World P T D) (v : Services P T D) (a : TransitAction (P × T) D) :
    Option (World P T D) := do
  let transit ← (transitMachine (P × T) v.pong).step w.transit a
  match transit.published.drop w.transit.published.length with
  | [] => return { w with transit }
  | msg :: _ => return { w with transit, broker := ← Broker.machine.step w.broker (.publish msg) }

/-- The call `c` goes on when `getSendMessage` has returned or thrown. -/
def lookedUp (w : World P T D) (v : Services P T D) (c : P × T) (call : Call) : Option (World P T D) :=
  match w.store.phase (.thread c.1 c.2) with
  | .got msg => (w.setCall c (some { call with message := some msg })).stepPing v (.lookup c (some msg))
  | .failed => w.stepPing v (.lookup c none)
  | _ => some w

end World

/-- All interleavings of all parties. -/
def worldMachine (v : Services P T D) : StepMachine (World P T D) (WorldAction P T D) where
  step w a :=
    match a with
    | .exists p => w.stepStore (.exists p)
    | .insertInit p => w.stepStore (.insert (.init p))
    | .message c msg =>
      if (w.calls c).isNone then
        { w with posted := w.posted ++ [msg] }.stepStore (.updateFirst c.1 c.2 msg)
      else none
    | .call c origin =>
      if (w.calls c).isNone ∧ w.store.phase (.init c.1) = .initialized then
        ((w.setThread c (origin.enter (v.ids c) (w.thread c))).setCall c
          (some (.begin origin (w.thread c) w.posted.length))).stepPing v (.call c)
      else none
    | .tryLock c => do
      let call ← w.calls c
      let w ← w.stepPing v (.tryLock c)
      return w.setCall c (some { call with locked := (w.ping.phase c).slot.isSome })
    | .findOne c => do
      let call ← w.calls c
      match w.ping.phase c with
      | .locked _ => (← w.stepStore (.findOne c.1 c.2)).lookedUp v c call
      | _ => none
    | .insert c => do
      let call ← w.calls c
      (← w.stepStore (.insert (.thread c.1 c.2))).lookedUp v c call
    | .lookupFails c =>
      if w.store.phase (.thread c.1 c.2) ≠ .inserting then w.stepPing v (.lookup c none) else none
    | .depart c => do
      let call ← w.calls c
      match w.ping.phase c with
      | .sending _ msg =>
        let (invoked, t) := v.client.invoke v.lib (v.ids c) PingClient.send [msg] (fun _ => none) (w.thread c)
        let request ← invoked.sent
        let call := { call with number := some w.transit.sent.length }
        let w ← w.stepPing v (.depart c)
        ((w.setThread c t).setCall c (some call)).stepPong v (.depart c msg request)
      | _ => none
    | .arrive d i now => w.stepPong v (.arrive d i now)
    | .respond d works => w.stepPong v (.respond d works)
    | .answer c => do
      let call ← w.calls c
      let i ← call.number
      let departed ← w.transit.sent[i]?
      let handled ← w.transit.handled.find? (·.number = i)
      let response := v.pong.answer departed.request handled.outcome
      (w.setCall c (some { call with response := some response })).stepPing v (.answer c (some response))
    | .answerFails c => w.stepPing v (.answer c none)
    | .unlock c => w.stepPing v (.unlock c)
    | .finish c => do
      let call ← w.calls c
      let exit ← (w.ping.phase c).result
      let w := (w.setThread c (call.origin.leave exit (w.thread c))).setCall c none
      return { w with ended := w.ended ++ [⟨c, call, exit, w.posted.length⟩] }
    | .destroy p => w.stepPing v (.destroy p)
    | .deliver i works =>
      (Broker.machine.step w.broker (.deliver i works)).map fun broker => { w with broker }

end PingPong.Exchange
