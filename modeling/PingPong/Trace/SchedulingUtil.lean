import Mathlib.Data.Nat.Notation
import Mathlib.Logic.Function.Iterate

/-!
# Registration of scheduled tasks

`SchedulingUtil` collects cron and trigger tasks until Spring hands over a `ScheduledTaskRegistrar`. The
tasks wait in a `Scheduling` object, the registrar is a field of the same object, and `setTaskRegistrar`
drops the object behind it.

`R` is the type of registrars, `ρ` that of runnables and `θ` that of triggers.
-/

namespace PingPong.Trace

/-! ## Tasks and registrars -/

structure CronTask (ρ : Type) where
  runnable : ρ
  expression : String
  deriving DecidableEq, Repr

structure TriggerTask (ρ θ : Type) where
  runnable : ρ
  trigger : θ
  deriving DecidableEq, Repr

/-- What a registrar is given. -/
inductive ScheduledTask (ρ θ : Type)
  | cron (task : CronTask ρ)
  | trigger (task : TriggerTask ρ θ)
  deriving DecidableEq, Repr

def ScheduledTask.isCron {ρ θ : Type} : ScheduledTask ρ θ → Bool
  | .cron _ => true
  | .trigger _ => false

/-- The calls of `addCronTask` and `addTriggerTask` on each registrar, which append to it. -/
abbrev Registrars (R ρ θ : Type) := R → List (ScheduledTask ρ θ)

inductive CallExit
  | returned
  | threw
  deriving DecidableEq, Repr

variable {R ρ θ : Type} [DecidableEq R]

/-- A loop of `refresh`. A registrar that is null is dereferenced for the first task. -/
def addAll (taskRegistrar : Option R) :
    List (ScheduledTask ρ θ) → Registrars R ρ θ → CallExit × Registrars R ρ θ
  | [], w => (.returned, w)
  | task :: tasks, w =>
    match taskRegistrar with
    | none => (.threw, w)
    | some r => addAll taskRegistrar tasks (Function.update w r (w r ++ [task]))

/-! ## `SchedulingUtil.Scheduling` -/

structure Scheduling (R ρ θ : Type) where
  taskRegistrar : Option R
  cronTaskList : Option (List (CronTask ρ))
  triggerTaskList : Option (List (TriggerTask ρ θ))

namespace Scheduling

/-- `new Scheduling()`. -/
def new : Scheduling R ρ θ where
  taskRegistrar := none
  cronTaskList := none
  triggerTaskList := none

def getCronTaskList (s : Scheduling R ρ θ) : List (CronTask ρ) := s.cronTaskList.getD []

def getTriggerTaskList (s : Scheduling R ρ θ) : List (TriggerTask ρ θ) := s.triggerTaskList.getD []

def addCronTask (s : Scheduling R ρ θ) (task : CronTask ρ) : Scheduling R ρ θ :=
  { s with cronTaskList := some (s.getCronTaskList ++ [task]) }

def addTriggerTask (s : Scheduling R ρ θ) (task : TriggerTask ρ θ) : Scheduling R ρ θ :=
  { s with triggerTaskList := some (s.getTriggerTaskList ++ [task]) }

/-- `refresh`: the cron tasks are dropped when they have been handed over, the trigger tasks are kept. -/
def refresh (s : Scheduling R ρ θ) (w : Registrars R ρ θ) :
    CallExit × Scheduling R ρ θ × Registrars R ρ θ :=
  match addAll s.taskRegistrar (s.getCronTaskList.map .cron) w with
  | (.threw, w) => (.threw, s, w)
  | (.returned, w) =>
    let s := { s with cronTaskList := none }
    match addAll s.taskRegistrar (s.getTriggerTaskList.map .trigger) w with
    | (.threw, w) => (.threw, s, w)
    | (.returned, w) => (.returned, s, w)

/-- The tasks that wait, in the order in which they are handed over. -/
def pending (s : Scheduling R ρ θ) : List (ScheduledTask ρ θ) :=
  s.getCronTaskList.map .cron ++ s.getTriggerTaskList.map .trigger

/-- The object and the registrars after `n` calls of `refresh`. -/
def refreshes (n : ℕ) (s : Scheduling R ρ θ) (w : Registrars R ρ θ) :
    Scheduling R ρ θ × Registrars R ρ θ :=
  (fun sw => (sw.1.refresh sw.2).2)^[n] (s, w)

/-- `refresh` hands every task that waits to the registrar exactly once and leaves none behind, and any
number of calls does to the registrars what one does. -/
structure Drains (s : Scheduling R ρ θ) (r : R) (w : Registrars R ρ θ) : Prop where
  returned : (s.refresh w).1 = .returned
  handed : ∃ tasks, tasks.Perm s.pending ∧
    (s.refresh w).2.2 = Function.update w r (w r ++ tasks)
  drained : (s.refresh w).2.1.pending = []
  repeatable : ∀ n, 1 ≤ n → (s.refreshes n w).2 = (s.refreshes 1 w).2

end Scheduling

/-! ## `SchedulingUtil` -/

/-- The static field, and the registrars that calls may be made with. -/
structure SchedulingState (R ρ θ : Type) where
  scheduling : Option (Scheduling R ρ θ)
  registrars : Registrars R ρ θ

/-- The public methods. `addCronExpression` and `addTrigger` are the overloads that build the task. -/
inductive SchedulingCall (R ρ θ : Type)
  | addCronExpression (task : ρ) (expression : String)
  | addCronTask (task : CronTask ρ)
  | addTrigger (task : ρ) (trigger : θ)
  | addTriggerTask (task : TriggerTask ρ θ)
  | refresh
  | setTaskRegistrar (taskRegistrar : Option R)

namespace SchedulingUtil

/-- `new CronTask(task, expression)`, which throws unless the expression parses. -/
def newCronTask (parses : String → Bool) (task : ρ) (expression : String) : Option (CronTask ρ) :=
  if parses expression then some ⟨task, expression⟩ else none

def getScheduling (s : SchedulingState R ρ θ) : Scheduling R ρ θ := s.scheduling.getD .new

def put (s : SchedulingState R ρ θ) (scheduling : Scheduling R ρ θ) : SchedulingState R ρ θ :=
  { s with scheduling := some scheduling }

def refresh (s : SchedulingState R ρ θ) : CallExit × SchedulingState R ρ θ :=
  match (getScheduling s).refresh s.registrars with
  | (exit, scheduling, registrars) => (exit, ⟨some scheduling, registrars⟩)

def setTaskRegistrar (s : SchedulingState R ρ θ) (taskRegistrar : Option R) :
    CallExit × SchedulingState R ρ θ :=
  let s := put s { getScheduling s with taskRegistrar }
  match refresh s with
  | (.threw, s) => (.threw, s)
  | (.returned, s) => (.returned, { s with scheduling := none })

/-- One call. `getScheduling()` is evaluated before the arguments of the method called on it. -/
def call (parses : String → Bool) (s : SchedulingState R ρ θ) :
    SchedulingCall R ρ θ → CallExit × SchedulingState R ρ θ
  | .addCronExpression task expression =>
    match newCronTask parses task expression with
    | none => (.threw, put s (getScheduling s))
    | some task => (.returned, put s ((getScheduling s).addCronTask task))
  | .addCronTask task => (.returned, put s ((getScheduling s).addCronTask task))
  | .addTrigger task trigger => (.returned, put s ((getScheduling s).addTriggerTask ⟨task, trigger⟩))
  | .addTriggerTask task => (.returned, put s ((getScheduling s).addTriggerTask task))
  | .refresh => refresh s
  | .setTaskRegistrar taskRegistrar => setTaskRegistrar s taskRegistrar

/-- Class initialisation. -/
def start (registrars : Registrars R ρ θ) : SchedulingState R ρ θ := ⟨none, registrars⟩

/-- The state after the calls, one after another. -/
def after (parses : String → Bool) (calls : List (SchedulingCall R ρ θ)) (s : SchedulingState R ρ θ) :
    SchedulingState R ρ θ :=
  calls.foldl (fun s c => (call parses s c).2) s

/-! ## Accounting -/

/-- The task that a call adds. -/
def added (parses : String → Bool) : SchedulingCall R ρ θ → Option (ScheduledTask ρ θ)
  | .addCronExpression task expression => (newCronTask parses task expression).map .cron
  | .addCronTask task => some (.cron task)
  | .addTrigger task trigger => some (.trigger ⟨task, trigger⟩)
  | .addTriggerTask task => some (.trigger task)
  | _ => none

def pendingCron (s : SchedulingState R ρ θ) : List (CronTask ρ) := (getScheduling s).getCronTaskList

def pendingTrigger (s : SchedulingState R ρ θ) : List (TriggerTask ρ θ) :=
  (getScheduling s).getTriggerTaskList

def pending (s : SchedulingState R ρ θ) : List (ScheduledTask ρ θ) := (getScheduling s).pending

/-- Every added task has been handed to one registrar or is pending, each kind in the order in which it
was added. `handed` lists the tasks handed over, each with its registrar. -/
structure Accounted (parses : String → Bool) (registrars : Registrars R ρ θ)
    (calls : List (SchedulingCall R ρ θ)) (handed : List (R × ScheduledTask ρ θ))
    (s : SchedulingState R ρ θ) : Prop where
  registrars : ∀ r, s.registrars r =
    registrars r ++ (handed.filter fun h => decide (h.1 = r)).map (·.2)
  cron : (calls.filterMap (added parses)).filter (·.isCron) =
    (handed.map (·.2)).filter (·.isCron) ++ (pendingCron s).map .cron
  trigger : (calls.filterMap (added parses)).filter (!·.isCron) =
    (handed.map (·.2)).filter (!·.isCron) ++ (pendingTrigger s).map .trigger

/-- After `calls`, the call that sets `taskRegistrar`, and the calls `late`, `refresh()` returns and hands
the tasks that `late` has added to this registrar. -/
def RegistersLate (parses : String → Bool) (registrars : Registrars R ρ θ)
    (calls late : List (SchedulingCall R ρ θ)) (taskRegistrar : R) : Prop :=
  let s := after parses (calls ++ .setTaskRegistrar (some taskRegistrar) :: late) (start registrars)
  (refresh s).1 = .returned ∧ ∃ tasks, tasks.Perm (late.filterMap (added parses)) ∧
    (refresh s).2.registrars taskRegistrar = s.registrars taskRegistrar ++ tasks

end SchedulingUtil

end PingPong.Trace
