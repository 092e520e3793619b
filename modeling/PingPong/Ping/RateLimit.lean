import PingPong.Ping.PingService
import Mathlib.Algebra.Order.Field.Rat

/-!
# Timed runs of the Ping processes

The machine of all processes with a clock, in seconds. The labels carry their time stamps, which
never decrease, and an HTTP call takes at least `d` seconds: its answer comes no earlier than `d`
after the request left. With `d = 0` these are all timed runs.
-/

namespace PingPong.Ping

variable {P T S : Type} [DecidableEq P] [DecidableEq T] [DecidableEq S]

/-- The state of all processes, the time of the last step, and the time at which the last request of
each thread left. -/
structure TimedState (P T S : Type) where
  state : State P T S
  clock : ℚ
  left : P × T → ℚ

namespace TimedState

def start (channels : List S) : TimedState P T S where
  state := .start channels
  clock := 0
  left := fun _ => 0

/-- The HTTP call that ends in this step has taken at least `d` seconds. -/
def callTook (ts : TimedState P T S) (d t : ℚ) : Action P T → Bool
  | .answer c _ => decide (ts.left c + d ≤ t)
  | _ => true

/-- The departure times after a step at time `t`. -/
def leftAfter (ts : TimedState P T S) (t : ℚ) : Action P T → P × T → ℚ
  | .depart c => Function.update ts.left c t
  | _ => ts.left

end TimedState

/-- The timed runs without shutdowns in which every HTTP call takes at least `d` seconds. -/
def timedMachine (P T : Type) [DecidableEq P] [DecidableEq T] (channels : List S) (d : ℚ) :
    StepMachine (TimedState P T S) (ℚ × Action P T) where
  step ts x :=
    if ts.clock ≤ x.1 ∧ ts.callTook d x.1 x.2 then
      ((runningMachine P T channels).step ts.state x.2).map fun s =>
        { state := s, clock := x.1, left := ts.leftAfter x.1 x.2 }
    else none

/-- The number of requests that leave at a time in `[lo, hi)`. -/
def departures (lo hi : ℚ) (acts : List (ℚ × Action P T)) : ℕ :=
  acts.countP fun x => x.2.isDepart && decide (lo ≤ x.1 ∧ x.1 < hi)

/-- Whatever the number of processes and threads, when every HTTP call takes at least `d` seconds at
most `num` requests leave within any second. -/
def RateLimited (lockFile : String) (num : ℕ) (d : ℚ) : Prop :=
  ∀ (P T : Type) [DecidableEq P] [DecidableEq T] (acts : List (ℚ × Action P T))
    (ts : TimedState P T String),
    (timedMachine P T (FileLimitedLock.init lockFile num) d).run
      (TimedState.start (FileLimitedLock.init lockFile num)) acts = some ts →
    ∀ lo : ℚ, departures lo (lo + 1) acts ≤ num

end PingPong.Ping
