import PingPong.Exchange.System
import PingPong.Ping.Proofs.RequestTraceProofs

/-!
# Calls among other calls

What the calls of `send` have to do with the functions of `PingController` that run alone: whatever the other
parties do in between, a call does what its function does when it meets what the call has met.
-/

namespace PingPong.Exchange

open Feign Ping Pong Trace Other

variable {P T D : Type}

/-- The message of the document once these have been posted. -/
def currentMessage (messages : Messages) (posted : List (Option String)) : Option String :=
  posted.getLast?.getD (messages.message.getD Messages.created).message

/-- The request for the message from the thread `t` of the call `c`. -/
def Services.request (v : Services P T D) (c : P × T) (msg : Option String) (t : TraceThread) : HttpRequest :=
  clientRequest v.client v.lib msg (t.ensureTraceId (v.ids c)).traceId

/-- The request that the call has sent. -/
def World.requestOf (w : World P T D) (call : Call) : Option HttpRequest :=
  call.number.bind fun i => w.transit.sent[i]?.map Departed.request

/-- The function of the call, from the filter or the task to its end, alone on the thread `t`. -/
def Ended.alone (v : Services P T D) (e : Ended P T) (t : TraceThread) : Sent × TraceThread :=
  let g := v.ids e.caller
  match e.call.origin with
  | .request => PingController.send v.client v.lib g { traceIds := none, env := e.call.env } t
  | .tick =>
    let task := tick v.client v.lib g e.call.env
    ((PingService.send v.client v.lib g e.call.env (task.start g t)).1, (task.run g t).2)

/-- These calls, run alone and one after another from the thread `t` to the thread `u`, end as they have ended
and send the requests that they have sent. -/
def RunAlone (v : Services P T D) (w : World P T D) : List (Ended P T) → TraceThread → TraceThread → Prop
  | [], t, u => u = t
  | e :: ended, t, u =>
    (e.alone v t).1 = ⟨e.exit, w.requestOf e.call⟩ ∧ RunAlone v w ended (e.alone v t).2 u

/-- What the call `c` has met comes from the other parties. Its message was the current one after some of the
posts, neither before the call nor after the first `posted` of them; its request is its own, and its response
is what Pong has made of this request. -/
structure Call.Met (v : Services P T D) (messages : Messages) (w : World P T D) (c : P × T) (posted : ℕ)
    (call : Call) : Prop where
  began : call.posted ≤ posted
  message : ∀ msg, call.message = some msg → ∃ k, call.posted ≤ k ∧ k ≤ posted ∧
    msg = currentMessage messages (w.posted.take k)
  request : ∀ i, call.number = some i → ∃ departed, w.transit.sent[i]? = some departed ∧
    departed.caller = c ∧ call.message = some departed.message ∧
    departed.request = v.request c departed.message (call.origin.enter (v.ids c) call.before)
  response : ∀ response, call.response = some response → ∃ i departed handled, call.number = some i ∧
    w.transit.sent[i]? = some departed ∧ handled ∈ w.transit.handled ∧ handled.number = i ∧
    response = v.pong.answer departed.request handled.outcome

/-- The thread between two calls, or before the one that runs. -/
def World.resting (w : World P T D) (c : P × T) : TraceThread :=
  match w.calls c with
  | none => w.thread c
  | some call => call.before

end PingPong.Exchange
