import PingPong.Exchange.Calls

/-!
# From end to end

What the rows of the receiver and the answers to the calls have to do with the messages that have been posted.
-/

namespace PingPong.Exchange

open Feign Ping Pong Trace Other

/-- The exchanges that Pong has published. -/
def Transit.exchanges {C D : Type} (s : Transit C D) : List Handled :=
  s.handled.filter fun h => h.published.isSome

/-- What `send` makes of the outcome of its request. -/
def PongServer.report {D : Type} (v : PongServer D) (request : HttpRequest) : Outcome → Exit
  | .throttled _ => .returned HttpStatus.rateLimitedMsg
  | .unmatched => .returned (v.unmatched request).2
  | .failed => .returned (v.errorBody request)
  | .responded returned => .returned returned

variable {P T D : Type}

/-- The row is that of an exchange: it has the trace id of its request, the message that Pong has read from
it, which is the message that the call has got if that is a plain path segment, and the answer of Pong. The
call has got its message from the collection. -/
def RowOf (v : Services P T D) (messages : Messages) (w : World P T D) (row : PongMessage) (h : Handled) :
    Prop :=
  ∃ departed k, w.transit.sent[h.number]? = some departed ∧ k ≤ w.posted.length ∧
    departed.message = currentMessage messages (w.posted.take k) ∧
    row.traceId = departed.request.traceId ∧ isBlank row.traceId = false ∧
    row.pingMessage = respondArgument v.pong.codec departed.request ∧
    (PathSafe v.pong.codec departed.message → row.pingMessage = departed.message) ∧
    row.pongMessage = some MappedConstant.responseMsg

/-- No published exchange is lost or counted twice: it has one of the rows that have been added, or the save of
its message has failed, or its message waits at the broker. -/
def ExchangesKept (v : Services P T D) (messages : Messages) (rows : List PongMessage) (w : World P T D) :
    Prop :=
  ∃ (saved lost waiting : List Handled) (added : List PongMessage),
    (saved ++ lost ++ waiting).Perm w.transit.exchanges ∧
    (w.transit.exchanges.map Handled.number).Nodup ∧
    w.broker.rows = rows ++ added ∧ List.Forall₂ (RowOf v messages w) added saved ∧
    List.Forall₂ (fun msg h => h.published = some msg) w.broker.failed lost ∧
    List.Forall₂ (fun msg h => h.published = some msg) w.broker.waiting waiting

/-- A call that has sent no request is refused or throws, and the other calls throw or end with what has
become of their request. -/
def Ended.Reported (v : Services P T D) (w : World P T D) (e : Ended P T) : Prop :=
  match e.call.number with
  | none => e.exit = if e.call.locked then .threw else .returned HttpStatus.pingLimitedMsg
  | some i => ∃ departed, w.transit.sent[i]? = some departed ∧ departed.caller = e.caller ∧
      (e.exit = .threw ∨ ∃ h ∈ w.transit.handled, h.number = i ∧
        e.exit = v.pong.report departed.request h.outcome)

end PingPong.Exchange
