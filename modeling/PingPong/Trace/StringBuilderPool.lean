import PingPong.ObjectPool.Pool
import PingPong.StepMachine.Run
import PingPong.Trace.TraceThread

/-!
# Trace ids from pooled builders

`TraceIdUtil.generateTraceId` builds an id in a `StrBuilder` that it borrows from `StringBuilderPool`. The
machine of all threads of a JVM: a label is one step of one thread, and `B` is the type of references to
builders. `borrowObject` may throw in any state, at the latest when the pool has been exhausted for five
seconds; then `getObject` makes a builder of its own, which the pool refuses when it is returned.
-/

namespace PingPong.Trace.StringBuilderPool

variable {T B : Type} [DecidableEq T] [DecidableEq B]

/-! ## The pool -/

def maxTotal : ℕ := 256

def maxIdle : ℕ := 128

/-- The text of every builder, and `none` before it is made. -/
abbrev Builders (B : Type) := B → Option String

def new (builders : Builders B) (sb : B) : Builders B := Function.update builders sb (some "")

def append (builders : Builders B) (sb : B) (text : String) : Builders B :=
  Function.update builders sb ((builders sb).map fun before => before ++ text)

def clear (builders : Builders B) (sb : B) : Builders B := Function.update builders sb (some "")

/-- Where `getObject` has the builder from: it waits in the pool, the pool makes it, or `borrowObject`
throws. -/
inductive Source
  | idle
  | created
  | fallback
  deriving DecidableEq, Repr

/-- `getObject()`. A builder that is made is a new reference. -/
def getObject (source : Source) (sb : B) (pools : ObjectPool B) (builders : Builders B) :
    Option (ObjectPool B × Builders B) :=
  match source with
  | .idle => (pools.take sb).map fun pools => (pools, builders)
  | .created =>
    if builders sb = none then (pools.make maxTotal sb).map fun pools => (pools, new builders sb)
    else none
  | .fallback => if builders sb = none then some (pools, new builders sb) else none

/-- `pools.returnObject(sb)`, whose exception is ignored. -/
def returnObject (pools : ObjectPool B) (sb : B) : ObjectPool B := (pools.giveBack maxIdle sb).getD pools

/-! ## The machine -/

/-- The control points of a thread in `generateTraceId`, the last one between `sb.clear()` and
`pools.returnObject(sb)`. -/
inductive Phase (B : Type)
  | outside
  | borrowed (sb : B)
  | appendedHostname (sb : B)
  | appendedDash (sb : B)
  | appendedInt (sb : B)
  | read (sb : B) (traceId : String)
  | cleared (sb : B) (traceId : String)
  deriving DecidableEq, Repr

/-- The builder that a call has borrowed. -/
def Phase.builder {B : Type} : Phase B → Option B
  | outside => none
  | borrowed sb => some sb
  | appendedHostname sb => some sb
  | appendedDash sb => some sb
  | appendedInt sb => some sb
  | read sb _ => some sb
  | cleared sb _ => some sb

inductive Action (T B : Type)
  | getObject (t : T) (source : Source) (sb : B)
  | appendHostname (t : T)
  | appendDash (t : T)
  | appendInt (t : T) (nextInt : Int)
  | toString (t : T)
  | clear (t : T)
  | returnObject (t : T)

structure State (T B : Type) where
  pools : ObjectPool B
  builders : Builders B
  phase : T → Phase B

namespace State

def start : State T B where
  pools := .empty
  builders _ := none
  phase _ := .outside

def setPhase (s : State T B) (t : T) (phase : Phase B) : State T B :=
  { s with phase := Function.update s.phase t phase }

def setBuilders (s : State T B) (builders : Builders B) : State T B := { s with builders }

def setPools (s : State T B) (pools : ObjectPool B) : State T B := { s with pools }

/-- The id that the call of a thread returns with its next step. -/
def returning (s : State T B) (t : T) : Option String :=
  match s.phase t with
  | .cleared _ traceId => some traceId
  | _ => none

end State

def machine (hostname : String) : StepMachine (State T B) (Action T B) where
  step s a :=
    match a with
    | .getObject t source sb =>
      match s.phase t with
      | .outside => (getObject source sb s.pools s.builders).map fun got =>
          ((s.setPools got.1).setBuilders got.2).setPhase t (.borrowed sb)
      | _ => none
    | .appendHostname t =>
      match s.phase t with
      | .borrowed sb =>
        some ((s.setBuilders (append s.builders sb hostname)).setPhase t (.appendedHostname sb))
      | _ => none
    | .appendDash t =>
      match s.phase t with
      | .appendedHostname sb =>
        some ((s.setBuilders (append s.builders sb "-")).setPhase t (.appendedDash sb))
      | _ => none
    | .appendInt t nextInt =>
      match s.phase t with
      | .appendedDash sb =>
        some ((s.setBuilders (append s.builders sb (ToString.toString nextInt))).setPhase t (.appendedInt sb))
      | _ => none
    | .toString t =>
      match s.phase t with
      | .appendedInt sb => (s.builders sb).map fun traceId => s.setPhase t (.read sb traceId)
      | _ => none
    | .clear t =>
      match s.phase t with
      | .read sb traceId => some ((s.setBuilders (clear s.builders sb)).setPhase t (.cleared sb traceId))
      | _ => none
    | .returnObject t =>
      match s.phase t with
      | .cleared sb _ => some ((s.setPools (returnObject s.pools sb)).setPhase t .outside)
      | _ => none

/-! ## The int of a call -/

/-- What a step does to the int that the running call of `t` has drawn. -/
def Action.draw (t : T) (drawn : Option Int) : Action T B → Option Int
  | getObject t' _ _ => if t' = t then none else drawn
  | appendInt t' nextInt => if t' = t then some nextInt else drawn
  | _ => drawn

/-- The int that the running call of `t` has drawn, if it has drawn one. -/
def drawn (t : T) (acts : List (Action T B)) : Option Int := acts.foldl (Action.draw t) none

/-- No call has the text of another: after the steps `acts`, a call that is about to return has the host
name and the int drawn in this call, the builders that wait are empty, and each borrowed builder belongs to
one running call. -/
structure NeverMixes (hostname : String) (acts : List (Action T B)) (s : State T B) : Prop where
  returned : ∀ t traceId, s.returning t = some traceId →
    ∃ nextInt, drawn t acts = some nextInt ∧ traceId = hostname ++ "-" ++ ToString.toString nextInt
  idle_empty : ∀ sb ∈ s.pools.idle, s.builders sb = some ""
  borrowed_once : ∀ sb ∈ s.pools.lent, ∃! t, (s.phase t).builder = some sb
  exclusive : ∀ t t' sb, (s.phase t).builder = some sb → (s.phase t').builder = some sb → t = t'

end PingPong.Trace.StringBuilderPool
