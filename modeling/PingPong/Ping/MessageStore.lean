import PingPong.Common.Constant
import PingPong.Keyed.Collection
import PingPong.StepMachine.Run

/-!
# The message document

All Ping processes share one MongoDB collection. `MongoDBConfiguration.init` and
`PingService.getSendMessage` create the document `ping` when they do not find it, and
`PingService.setSendMessage` updates it. Each operation on the collection is atomic, a check and the
insert after it are not: other calls may run between them.
-/

namespace PingPong.Ping

/-! ## The collection -/

/-- The entity `PingMessage`. Its message is null when a client posted no `msg`. -/
structure PingMessage where
  id : String
  message : Option String
  deriving DecidableEq, Repr

/-- The MongoDB collection of messages: `_id` is unique. -/
abbrev Messages := Keyed PingMessage.id

namespace Messages

def empty : Messages where
  docs := []
  nodup := List.nodup_nil

/-- `Query(Criteria.where("id").is(MSG_ID))` has a result. -/
def present (c : Messages) : Bool := c.contains MappedConstant.msgId

/-- The result of `Query(Criteria.where("id").is(MSG_ID))`. -/
def message (c : Messages) : Option PingMessage := c.find MappedConstant.msgId

/-- The document that is inserted when there is none. -/
def created : PingMessage where
  id := MappedConstant.msgId
  message := some MappedConstant.requestMsg

/-- `Update().set("id", MSG_ID).set("message", msg)` on the first document found. -/
def update (c : Messages) (msg : Option String) : Messages :=
  c.updateFirst MappedConstant.msgId
    (fun d => { d with id := MappedConstant.msgId, message := msg }) fun _ _ => rfl

end Messages

/-! ## The calls -/

/-- The `init` of a process, or the calls a thread of a process makes one after another. -/
inductive Caller (P T : Type)
  | init (p : P)
  | thread (p : P) (t : T)
  deriving DecidableEq

/-- Where a caller is: before its next call, between the check and the insert of one, or after it has
returned or thrown. -/
inductive CallPhase
  | idle
  | inserting
  | initialized
  | got (message : Option String)
  | set (answer : String)
  | failed
  deriving DecidableEq, Repr

def MongoDBConfiguration.afterExists (found : Bool) : CallPhase :=
  if !found then .inserting else .initialized

def PingService.afterFindOne : Option PingMessage → CallPhase
  | none => .inserting
  | some message => .got message.message

def Caller.afterInsert {P T : Type} : Caller P T → CallPhase
  | .init _ => .initialized
  | .thread _ _ => .got Messages.created.message

/-- A call of `getSendMessage` that no other call interrupts: the message it returns (`none` when it
throws) and the collection after it. Without a `mongoTemplate` the message is fixed. -/
def PingService.getSendMessage (mongoTemplate : Option Messages) :
    Option (Option String) × Option Messages :=
  match mongoTemplate with
  | none => (some (some MappedConstant.requestMsg), none)
  | some c =>
    match c.message with
    | some message => (some message.message, some c)
    | none =>
      match c.insert Messages.created with
      | none => (none, some c)
      | some c' => (some Messages.created.message, some c')

def PingService.setSendMessage (mongoTemplate : Option Messages) (msg : Option String) :
    String × Option Messages :=
  (HttpStatus.successMessage, mongoTemplate.map fun c => c.update msg)

/-! ## All processes -/

structure StoreState (P T : Type) where
  store : Messages
  phase : Caller P T → CallPhase

/-- An atomic operation on the collection, and who does it. -/
inductive StoreAction (P T : Type)
  | exists (p : P)
  | findOne (p : P) (t : T)
  | insert (k : Caller P T)
  | updateFirst (p : P) (t : T) (msg : Option String)

def StoreAction.isCheck {P T : Type} : StoreAction P T → Bool
  | .exists _ | .findOne _ _ => true
  | _ => false

variable {P T : Type} [DecidableEq P] [DecidableEq T]

namespace StoreState

def start (c : Messages) : StoreState P T where
  store := c
  phase := fun _ => .idle

def setPhase (s : StoreState P T) (k : Caller P T) (ph : CallPhase) : StoreState P T :=
  { s with phase := Function.update s.phase k ph }

/-- No call is between its check and its insert. -/
def Quiescent (s : StoreState P T) : Prop := ∀ k, s.phase k ≠ .inserting

end StoreState

/-- All interleavings of the calls. `init` runs once in a process. -/
def storeMachine (P T : Type) [DecidableEq P] [DecidableEq T] :
    StepMachine (StoreState P T) (StoreAction P T) where
  step s
    | .exists p =>
      if s.phase (.init p) = .idle then
        some (s.setPhase (.init p) (MongoDBConfiguration.afterExists s.store.present))
      else none
    | .findOne p t =>
      if s.phase (.thread p t) ≠ .inserting then
        some (s.setPhase (.thread p t) (PingService.afterFindOne s.store.message))
      else none
    | .insert k =>
      if s.phase k = .inserting then
        match s.store.insert Messages.created with
        | none => some (s.setPhase k .failed)
        | some c => some { (s.setPhase k k.afterInsert) with store := c }
      else none
    | .updateFirst p t msg =>
      if s.phase (.thread p t) ≠ .inserting then
        some { (s.setPhase (.thread p t) (.set HttpStatus.successMessage)) with
          store := s.store.update msg }
      else none

/-- A process serves its clients after its `init` has completed. -/
def servedBy (s : StoreState P T) : StoreAction P T → Bool
  | .findOne p _ | .updateFirst p _ _ => s.phase (.init p) = .initialized
  | _ => true

/-- The interleavings in which every process serves only after its `init`. -/
def servingMachine (P T : Type) [DecidableEq P] [DecidableEq T] :
    StepMachine (StoreState P T) (StoreAction P T) :=
  (storeMachine P T).restrict servedBy

/-! ## Starting up -/

/-- After a run to `s`: no call has thrown, and if there was an `init` or a `getSendMessage` at all,
exactly one document has the id `ping`. -/
structure StartsSafely (c : Messages) (acts : List (StoreAction P T)) (s : StoreState P T) : Prop where
  normal : ∀ l u, l <+: acts → (storeMachine P T).run (.start c) l = some u →
    ∀ k, u.phase k ≠ .failed
  one : (∃ a ∈ acts, a.isCheck) → s.store.docs.countP (fun d => d.id = MappedConstant.msgId) = 1

/-- A check is made while the document is absent and another call is between its check and its
insert. -/
def Overlap (c : Messages) (acts : List (StoreAction P T)) : Prop :=
  ∃ l a l' s, acts = l ++ a :: l' ∧ (storeMachine P T).run (.start c) l = some s ∧
    a.isCheck ∧ s.store.present = false ∧ ∃ k, s.phase k = .inserting

/-! ## Updating -/

/-- The message a client should get: the last one that was set, or else the one the document was
created with. -/
def lastMessage (c : Messages) (acts : List (StoreAction P T)) : Option String :=
  acts.foldl (fun msg a => match a with | .updateFirst _ _ msg' => msg' | _ => msg)
    (c.message.getD Messages.created).message

/-- What a step `a` after the steps `acts` does to the message: a `getSendMessage` returns the last
message at once, no `getSendMessage` inserts, and a `setSendMessage` that answers SUCCESS has changed
the document. -/
def KeepsUpdates (c : Messages) (acts : List (StoreAction P T)) (s s' : StoreState P T) :
    StoreAction P T → Prop
  | .findOne p t => s'.phase (.thread p t) = .got (lastMessage c acts)
  | .insert k => ∃ p, k = .init p
  | .updateFirst p t msg => s.store.present ∧ s'.phase (.thread p t) = .set HttpStatus.successMessage ∧
      s'.store.message = some { id := MappedConstant.msgId, message := msg }
  | .exists _ => True

end PingPong.Ping
