import PingPong.Feign.OpenFeignClientProxy
import PingPong.Ping.FileLimitedLock
import PingPong.StepMachine.Run

/-!
# `PingService.send` on shared slot files

The machine of all Ping processes: every process `p : P` has threads `t : T` that call
`PingService.send()`, and the state is the lock table of the slot files together with the control
point of each thread. A label is one atomic step of one thread, with the answer of the environment
where the step has one (the message lookup and the HTTP call may each throw), or one round of
`destroy` in a process.

The scan of `FileLimitedLock.lock` is not atomic: `scanning f fs` is the point before the `tryLock`
on `f`, with the channels `fs` still to come.
-/

namespace PingPong.Ping

open Feign (FeignResponse)

inductive Exit where
  | returned (body : Option String)
  | threw
deriving DecidableEq, Repr

/-- The control points of a thread in `PingService.send`: in the scan of `lock()`, refused by it,
before the message lookup, before and after the request leaves, and in the `finally` block. -/
inductive Phase (S : Type) where
  | idle
  | scanning (f : S) (fs : List S)
  | refused
  | locked (f : S)
  | sending (f : S) (msg : Option String)
  | awaiting (f : S) (msg : Option String)
  | unlocking (f : S) (exit : Exit)
  | ended (exit : Exit)
deriving DecidableEq, Repr

namespace Phase

variable {S : Type}

/-- The slot a call holds between its granted `tryLock` and its `unlock`. -/
def slot : Phase S → Option S
  | locked f => some f
  | sending f _ => some f
  | awaiting f _ => some f
  | unlocking f _ => some f
  | _ => none

def result : Phase S → Option Exit
  | refused => some (.returned HttpStatus.pingLimitedMsg)
  | ended e => some e
  | _ => none

/-- The loop of `lock()` over the remaining channels. -/
def scan : List S → Phase S
  | [] => refused
  | f :: fs => scanning f fs

def canCall : Phase S → Bool
  | idle => true
  | refused => true
  | ended _ => true
  | _ => false

end Phase

/-- What `send` makes of the response: a null status fails to unbox, 429 is reported as throttled,
and every other status as Pong's answer. -/
def PingService.report (response : FeignResponse) : Exit :=
  match response.httpCode with
  | none => .threw
  | some code =>
    if HttpStatus.rateLimited = code then .returned HttpStatus.rateLimitedMsg
    else .returned response.body

/-- The state of all Ping processes. -/
structure State (P T S : Type) where
  files : SlotFiles P S
  phase : P × T → Phase S

/-- The atomic steps. `getSendMessage()` and `pingClient.send(msg)` answer or throw (`none`), and
`destroy()` closes the next stream of a process. -/
inductive Action (P T : Type) where
  | call (c : P × T)
  | tryLock (c : P × T)
  | lookup (c : P × T) (msg : Option (Option String))
  | depart (c : P × T)
  | answer (c : P × T) (response : Option FeignResponse)
  | unlock (c : P × T)
  | destroy (p : P)
deriving DecidableEq

namespace Action

variable {P T : Type}

def isDepart : Action P T → Bool
  | depart _ => true
  | _ => false

def isDestroy : Action P T → Bool
  | destroy _ => true
  | _ => false

/-- The thread that takes the step. -/
def actor : Action P T → Option (P × T)
  | call c => some c
  | tryLock c => some c
  | lookup c _ => some c
  | depart c => some c
  | answer c _ => some c
  | unlock c => some c
  | destroy _ => none

end Action

variable {P T S : Type} [DecidableEq P] [DecidableEq T] [DecidableEq S]

namespace State

def setPhase (s : State P T S) (c : P × T) (ph : Phase S) : State P T S :=
  { s with phase := Function.update s.phase c ph }

def setFiles (s : State P T S) (L : SlotFiles P S) : State P T S := { s with files := L }

/-- All processes have run `init`, and no call has been made. -/
def start (channels : List S) : State P T S where
  files := { holder := fun _ => none, streams := fun _ => channels }
  phase := fun _ => .idle

end State

open FileLimitedLock in
/-- The machine of all processes that opened `channels`. -/
def sendMachine (P T : Type) [DecidableEq P] [DecidableEq T] (channels : List S) :
    StepMachine (State P T S) (Action P T) where
  step s a :=
    match a with
    | .call c =>
      if (s.phase c).canCall then some (s.setPhase c (.scan channels)) else none
    | .tryLock c =>
      match s.phase c with
      | .scanning f fs =>
        match tryLock s.files c.1 f with
        | .granted => some ((s.setFiles (grant s.files c.1 f)).setPhase c (.locked f))
        | .null => some (s.setPhase c (.scan fs))
        | .exception => some (s.setPhase c (.scan fs))
      | _ => none
    | .lookup c msg =>
      match s.phase c with
      | .locked f =>
        match msg with
        | none => some (s.setPhase c (.unlocking f .threw))
        | some m => some (s.setPhase c (.sending f m))
      | _ => none
    | .depart c =>
      match s.phase c with
      | .sending f m => some (s.setPhase c (.awaiting f m))
      | _ => none
    | .answer c response =>
      match s.phase c with
      | .awaiting f _ =>
        match response with
        | none => some (s.setPhase c (.unlocking f .threw))
        | some r => some (s.setPhase c (.unlocking f (PingService.report r)))
      | _ => none
    | .unlock c =>
      match s.phase c with
      | .unlocking f e => some ((s.setFiles (unlock s.files c.1 f)).setPhase c (.ended e))
      | _ => none
    | .destroy p => some (s.setFiles (destroyNext s.files p))

/-- The runs in which no process is shut down. -/
def runningMachine (P T : Type) [DecidableEq P] [DecidableEq T] (channels : List S) :
    StepMachine (State P T S) (Action P T) :=
  (sendMachine P T channels).restrict fun _ a => !a.isDestroy

end PingPong.Ping
