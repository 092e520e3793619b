import PingPong.Common.Constant
import PingPong.StepMachine.Run

/-!
# The broker and the receiver

Pong publishes every exchange as a `MqMessageDTO`, which waits at the broker. A delivery calls
`ReceiveService.onMessage`, which saves a row; the broker takes a call that returns for an acknowledgement, and
delivers the message again if it threw. The order of the deliveries and the failures of the database are in the
labels.
-/

namespace PingPong

structure MqMessageDTO where
  id : Option String
  ping : Option String
  pong : Option String
  deriving DecidableEq, Repr

namespace Other

/-! ## The receiver -/

/-- The entity `PongMessage`. Its own id is generated by the database. -/
structure PongMessage where
  traceId : Option String
  pingMessage : Option String
  pongMessage : Option String
  deriving DecidableEq, Repr

/-- `@RocketMQMessageListener(topic = MQ_TOPIC)`. -/
def ReceiveService.topic : String := MappedConstant.mqTopic

/-- The row that `ReceiveService.onMessage` saves. -/
def ReceiveService.onMessage (msg : MqMessageDTO) : PongMessage where
  traceId := msg.id
  pongMessage := msg.pong
  pingMessage := msg.ping

inductive ListenerExit
  | returned
  | threw
  deriving DecidableEq, Repr

/-- `messageRepository.save`, which throws when the database fails. -/
def PongMessageRepository.save (rows : List PongMessage) (row : PongMessage) (works : Bool) :
    Option (List PongMessage) :=
  if works then some (rows ++ [row]) else none

/-- A call of `onMessage`. An exception of `save` is caught and logged. -/
def ReceiveService.listen (rows : List PongMessage) (msg : MqMessageDTO) (works : Bool) :
    ListenerExit × List PongMessage :=
  match PongMessageRepository.save rows (onMessage msg) works with
  | some rows => (.returned, rows)
  | none => (.returned, rows)

/-! ## The broker -/

/-- The messages that wait, the acknowledged ones (each with whether the save of the call worked), and the
table of the receiver. -/
structure Broker where
  waiting : List MqMessageDTO
  acknowledged : List (MqMessageDTO × Bool)
  rows : List PongMessage

namespace Broker

inductive Event
  | publish (msg : MqMessageDTO)
  | deliver (i : ℕ) (works : Bool)
  deriving DecidableEq, Repr

def Event.published : Event → Option MqMessageDTO
  | publish msg => some msg
  | deliver _ _ => none

def Event.isDeliver : Event → Bool
  | publish _ => false
  | deliver _ _ => true

def start (rows : List PongMessage) : Broker where
  waiting := []
  acknowledged := []
  rows := rows

/-- Any of the waiting messages can be delivered next. -/
def machine : StepMachine Broker Event where
  step s a :=
    match a with
    | .publish msg => some { s with waiting := s.waiting ++ [msg] }
    | .deliver i works =>
      match s.waiting[i]? with
      | none => none
      | some msg =>
        match ReceiveService.listen s.rows msg works with
        | (.threw, rows) => some { s with rows }
        | (.returned, rows) =>
          some
            { waiting := s.waiting.eraseIdx i
              acknowledged := s.acknowledged ++ [(msg, works)]
              rows }

/-- The acknowledged messages whose save has failed. -/
def failed (s : Broker) : List MqMessageDTO := (s.acknowledged.filter (!·.2)).map Prod.fst

/-- Every acknowledged message has its row. -/
def NoneLost (s : Broker) : Prop :=
  ∀ d ∈ s.acknowledged, ReceiveService.onMessage d.1 ∈ s.rows

end Broker

end Other

end PingPong
