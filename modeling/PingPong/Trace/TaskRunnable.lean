import PingPong.Trace.TraceThread

/-!
# Trace ids of tasks

`TaskSchedulerThreadPool` wraps every task into a `TaskRunnable`, which gives it a trace id on its
thread and clears the MDC behind it. A pool thread runs many of them, one after another, and survives
the ones that throw.
-/

namespace PingPong.Trace

inductive TaskExit
  | returned
  | threw
  deriving DecidableEq, Repr

/-- What a task does to the thread it runs on. It may write the MDC and draw ids. -/
structure Task where
  run : TraceThread → TaskExit × TraceThread
  drawn_le : ∀ t, t.drawn ≤ (run t).2.drawn

/-- A wrapped task, and the trace id it was constructed with. -/
structure TaskRunnable where
  task : Task
  traceId : Option String

namespace TaskRunnable

/-- The thread when the task starts. -/
def start (self : TaskRunnable) (g : TraceIdUtil) (t : TraceThread) : TraceThread :=
  if isEmpty t.traceId then
    if !isEmpty self.traceId then t.putTraceId (self.traceId.getD "") else t.putGenerated g
  else t

/-- `MDC.clear()` comes after the task, and a task that throws skips it. -/
def run (self : TaskRunnable) (g : TraceIdUtil) (t : TraceThread) : TaskExit × TraceThread :=
  match self.task.run (self.start g t) with
  | (.returned, t) => (.returned, t.clear)
  | (.threw, t) => (.threw, t)

/-- The pool thread after it has run the tasks one after another. -/
def after (g : TraceIdUtil) (tasks : List TaskRunnable) (t : TraceThread) : TraceThread :=
  tasks.foldl (fun t self => (self.run g t).2) t

end TaskRunnable

/-! ## Isolation -/

/-- A run that starts on the thread `t` has its own trace id, the one it was constructed with or else one
drawn for this run, and leaves the MDC empty. -/
structure RunsIsolated (g : TraceIdUtil) (r : TaskRunnable) (t : TraceThread) : Prop where
  constructed : ∀ id, r.traceId = some id → id ≠ "" → (r.start g t).traceId = some id
  generated : isEmpty r.traceId = true → ∃ k, t.drawn ≤ k ∧ k < (r.start g t).drawn ∧
    (r.start g t).traceId = some (g.generateTraceId k)
  cleared : (r.run g t).2.mdc = .clear

/-- All runs of a pool thread are isolated. -/
def TasksIsolated (g : TraceIdUtil) (tasks : List TaskRunnable) (t : TraceThread) : Prop :=
  ∀ l self l', tasks = l ++ self :: l' → RunsIsolated g self (TaskRunnable.after g l t)

/-- Every task that throws, started with an MDC that has only its own trace id, has emptied the MDC
itself. -/
def CleanUpOnThrow (g : TraceIdUtil) : List TaskRunnable → TraceThread → Prop
  | [], _ => True
  | self :: tasks, t =>
    let result := self.task.run (self.start g t)
    (result.1 = .threw → result.2.mdc = .clear) ∧ CleanUpOnThrow g tasks result.2.clear

end PingPong.Trace
