import PingPong.DoubleChecked.Cell
import PingPong.Trace.SchedulingUtil

/-!
# Threads that register tasks

`SchedulingUtil.getScheduling` when several threads call the public methods. The static field is a cell with
double-checked locking, whose lock is that of the class, and `setTaskRegistrar` sets it to null without the
lock. Each method gets the object once, and `setTaskRegistrar` gets it twice. What the methods do with the
object is in `SchedulingUtil`; here they return from it or throw.

`T` is the type of threads and `O` that of references to `Scheduling` objects.
-/

namespace PingPong.Trace

open DoubleChecked

def SchedulingCall.setsRegistrar {R ρ θ : Type} : SchedulingCall R ρ θ → Bool
  | .setTaskRegistrar _ => true
  | _ => false

/-- A method that a thread is in, and what its calls of `getScheduling()` have returned. -/
structure RunningCall (O R ρ θ : Type) where
  call : SchedulingCall R ρ θ
  gets : List (Get O)

/-- A method that has ended. -/
structure EndedCall (O R ρ θ : Type) extends RunningCall O R ρ θ where
  exit : CallExit

/-- The method has set the field to null. -/
def EndedCall.drops {O R ρ θ : Type} (e : EndedCall O R ρ θ) : Bool :=
  e.call.setsRegistrar && decide (e.exit = .returned)

structure SchedulingThreads (T O R ρ θ : Type) where
  cell : Cell T O
  running : T → Option (RunningCall O R ρ θ)
  ended : List (EndedCall O R ρ θ)

/-- The steps. Those from `read` to `reread` are the ones of `getScheduling()`, and after `use` a method has
done its work with the object, or thrown. -/
inductive ThreadAction (T O R ρ θ : Type)
  | call (t : T) (call : SchedulingCall R ρ θ)
  | read (t : T)
  | enter (t : T)
  | check (t : T)
  | create (t : T) (o : O)
  | leave (t : T)
  | reread (t : T)
  | use (t : T) (works : Bool)
  | setNull (t : T)

namespace SchedulingThreads

variable {T O R ρ θ : Type} [DecidableEq T] [DecidableEq O]

def start : SchedulingThreads T O R ρ θ where
  cell := .start
  running := fun _ => none
  ended := []

def stepCell (s : SchedulingThreads T O R ρ θ) (a : CellAction T O) : Option (SchedulingThreads T O R ρ θ) :=
  ((cellMachine T O).step s.cell a).map fun cell => { s with cell }

def setRunning (s : SchedulingThreads T O R ρ θ) (t : T) (running : Option (RunningCall O R ρ θ)) :
    SchedulingThreads T O R ρ θ :=
  { s with running := Function.update s.running t running }

def finish (s : SchedulingThreads T O R ρ θ) (t : T) (running : RunningCall O R ρ θ) (exit : CallExit) :
    SchedulingThreads T O R ρ θ :=
  { s.setRunning t none with ended := s.ended ++ [⟨running, exit⟩] }

/-- The method goes on with what `getScheduling()` has returned. Null is dereferenced. `setTaskRegistrar` sets
the registrar of the first object and calls `refresh` on the second one. -/
def use (s : SchedulingThreads T O R ρ θ) (t : T) (running : RunningCall O R ρ θ) (get : Get O) (works : Bool) :
    Option (SchedulingThreads T O R ρ θ) :=
  let gone := { running with gets := running.gets ++ [get] }
  if get.object.isNone then some (s.finish t gone .threw)
  else if running.call.setsRegistrar then
    if running.gets.isEmpty then (s.stepCell (.call t)).map fun s => s.setRunning t (some gone)
    else if works then some (s.setRunning t (some gone))
    else some (s.finish t gone .threw)
  else some (s.finish t gone (if works then .returned else .threw))

end SchedulingThreads

/-- All interleavings of the threads. -/
def schedulingMachine (T O R ρ θ : Type) [DecidableEq T] [DecidableEq O] :
    StepMachine (SchedulingThreads T O R ρ θ) (ThreadAction T O R ρ θ) where
  step s a :=
    match a with
    | .call t call =>
      if (s.running t).isNone then (s.stepCell (.call t)).map fun s => s.setRunning t (some ⟨call, []⟩) else none
    | .read t => s.stepCell (.read t)
    | .enter t => s.stepCell (.enter t)
    | .check t => s.stepCell (.check t)
    | .create t o => s.stepCell (.create t o)
    | .leave t => s.stepCell (.leave t)
    | .reread t => s.stepCell (.reread t)
    | .use t works => do
      let running ← s.running t
      match s.cell.phase t with
      | .returned get => (← s.stepCell (.take t)).use t running get works
      | _ => none
    | .setNull t => do
      let running ← s.running t
      if running.call.setsRegistrar ∧ running.gets.length = 2 then
        return (← s.stepCell .reset).finish t running .returned
      else none

/-! ## Sharing -/

/-- An object is made only while the field is null, and at most one has been made more than the field has been
set to null. Between two times that it is set to null all methods get the same object, and a method throws when
it gets null, which it does only if the field has been set to null while it was in `getScheduling()`. -/
structure SchedulingShared {T O R ρ θ : Type} [DecidableEq T] [DecidableEq O] (s : SchedulingThreads T O R ρ θ) :
    Prop where
  creates : ∀ t o s', (schedulingMachine T O R ρ θ).step s (.create t o) = some s' → s.cell.value = none
  distinct : s.cell.made.Nodup
  made : s.cell.made.length ≤ s.ended.countP EndedCall.drops + 1
  same : ∀ e ∈ s.ended, ∀ e' ∈ s.ended, ∀ g ∈ e.gets, ∀ g' ∈ e'.gets, g.epoch = g'.epoch →
    ∀ o o', g.object = some o → g'.object = some o' → o = o'
  null : ∀ e ∈ s.ended, ∀ g ∈ e.gets, g.object = none → e.exit = .threw ∧ g.began < g.epoch

end PingPong.Trace
