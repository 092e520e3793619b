import PingPong.Ping.PingService

/-!
# Calls of `lock()` that return null

A refused call seen from outside: the segment of a run from its first to its last `tryLock`. The
scan is not atomic, so between two of its `tryLock`s the other threads may take and free slots; the
definitions below say what can be asked of the states in between.
-/

namespace PingPong.Ping

variable {P T S : Type} [DecidableEq P] [DecidableEq T] [DecidableEq S]

/-- All slots are locked at the same time. -/
def AllLocked (channels : List S) (s : State P T S) : Prop :=
  ∀ f ∈ channels, s.files.holder f ≠ none

instance (channels : List S) (s : State P T S) : Decidable (AllLocked channels s) :=
  inferInstanceAs (Decidable (∀ f ∈ channels, s.files.holder f ≠ none))

/-- From `s`, where `c` is about to make the first `tryLock` of a call of `lock()`, the steps `l`
lead to `s'`, where the last `tryLock` of that call has just failed and `lock()` returns null. -/
structure RefusedCall (channels : List S) (c : P × T) (s : State P T S) (l : List (Action P T))
    (s' : State P T S) : Prop where
  start : s.phase c = .scan channels
  first : l.head? = some (.tryLock c)
  last : l.getLast? = some (.tryLock c)
  run : (runningMachine P T channels).run s l = some s'
  same : Action.call c ∉ l
  null : s'.phase c = .refused

/-- `lock()` refuses like an atomic semaphore: in every run, at some instant of every refused call
all slots are locked. -/
def RefusesAtomically (P T : Type) [DecidableEq P] [DecidableEq T] (channels : List S) : Prop :=
  ∀ (acts : List (Action P T)) (s : State P T S) (c : P × T) (l : List (Action P T))
    (s' : State P T S),
    (runningMachine P T channels).run (State.start channels) acts = some s →
    RefusedCall channels c s l s' →
    ∃ pre, pre <+: l ∧ ∃ u, (runningMachine P T channels).run s pre = some u ∧ AllLocked channels u

/-- During the steps `l` from `s`, no slot is unlocked that the scan of `c` has already passed. -/
def KeepsPassed (channels : List S) (c : P × T) (s : State P T S) (l : List (Action P T)) : Prop :=
  ∀ (pre post : List (Action P T)) (u : State P T S) (c' : P × T) (g f : S) (passed fs : List S),
    l = pre ++ .unlock c' :: post → (runningMachine P T channels).run s pre = some u →
    (u.phase c').slot = some g → u.phase c = .scanning f fs → passed ++ f :: fs = channels →
    g ∉ passed

end PingPong.Ping
