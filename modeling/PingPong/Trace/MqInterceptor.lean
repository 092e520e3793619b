import PingPong.Trace.TraceThread

/-!
# Trace ids of messages

`MqInterceptor` gives a message that leaves without a trace id the one of the sending thread.
-/

namespace PingPong.Trace

/-- A message of a channel. -/
structure Message (α : Type) where
  payload : α
  headers : String → Option String

/-- The message's own trace id goes into the MDC; a message without one gets that of the MDC. -/
def MqInterceptor.preSend {α : Type} (msg : Message α) (t : TraceThread) : Message α × TraceThread :=
  match msg.headers MappedConstant.traceId with
  | some traceId =>
    if isBlank (some traceId) then stamp msg t else (msg, t.putTraceId traceId)
  | none => stamp msg t
where
  /-- The case of a blank header. -/
  stamp (msg : Message α) (t : TraceThread) : Message α × TraceThread :=
    match t.traceId with
    | some traceId =>
      if !isBlank (some traceId) then
        ({ msg with headers := Function.update msg.headers MappedConstant.traceId (some traceId) }, t)
      else (msg, t)
    | none => (msg, t)

def MqInterceptor.postReceive {α : Type} (msg : Message α) (t : TraceThread) : Message α × TraceThread :=
  match msg.headers MappedConstant.traceId with
  | some traceId => if !isBlank (some traceId) then (msg, t.putTraceId traceId) else (msg, t)
  | none => (msg, t)

def MqInterceptor.afterReceiveCompletion {α : Type} (_msg : Message α) (t : TraceThread) : TraceThread :=
  t.clear

/-! ## Messages of one thread -/

/-- What happens on a thread that sends messages: its own work puts a trace id into the MDC or takes it
out (`none`), and it sends a message through an intercepted channel. -/
inductive ChannelOp (α : Type)
  | work (traceId : Option String)
  | send (msg : Message α)

namespace ChannelOp

variable {α : Type}

def run (t : TraceThread) : ChannelOp α → TraceThread
  | work traceId => { t with mdc := Function.update t.mdc MappedConstant.traceId traceId }
  | send msg => (MqInterceptor.preSend msg t).2

/-- The thread after the operations. -/
def after (ops : List (ChannelOp α)) (t : TraceThread) : TraceThread := ops.foldl run t

/-- The trace id that the thread's own work has put last; it starts with `traceId`. -/
def own (traceId : Option String) (ops : List (ChannelOp α)) : Option String :=
  ops.foldl (fun id op =>
    match op with
    | work traceId => traceId
    | send _ => id) traceId

/-- The header of the last message with a trace id, if the thread's own work has put none since. -/
def borrowed (ops : List (ChannelOp α)) : Option String :=
  ops.foldl (fun id op =>
    match op with
    | work _ => none
    | send msg =>
      if isBlank (msg.headers MappedConstant.traceId) then id else msg.headers MappedConstant.traceId) none

end ChannelOp

/-- The message as the thread's own trace id stamps it; a blank one leaves it as it is. -/
def Message.stamped {α : Type} (msg : Message α) (traceId : Option String) : Message α :=
  if isBlank traceId then msg
  else { msg with headers := Function.update msg.headers MappedConstant.traceId traceId }

/-- Every message without a trace id is stamped by the thread's own trace id. -/
def StampsOwn {α : Type} (t : TraceThread) (ops : List (ChannelOp α)) : Prop :=
  ∀ l msg l', ops = l ++ .send msg :: l' → isBlank (msg.headers MappedConstant.traceId) = true →
    (MqInterceptor.preSend msg (ChannelOp.after l t)).1 =
      msg.stamped (ChannelOp.own t.traceId l)

/-- No message without a trace id comes after a message with one that is not the thread's own, unless the
thread has put its own trace id in between. -/
def NothingBorrowed {α : Type} (t : TraceThread) (ops : List (ChannelOp α)) : Prop :=
  ∀ l msg l', ops = l ++ .send msg :: l' → isBlank (msg.headers MappedConstant.traceId) = true →
    ∀ id, ChannelOp.borrowed l = some id → ChannelOp.own t.traceId l = some id

end PingPong.Trace
