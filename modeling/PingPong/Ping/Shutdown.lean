import PingPong.Ping.PingService
import Mathlib.Data.Finset.Card

/-!
# Shutdown while requests are in flight

`destroy` closes the streams of a process one after the other and does not wait for its sends. The runs
here are those of `sendMachine`, with rounds of `destroy` at any point.
-/

namespace PingPong.Ping

open FileLimitedLock

variable {P T S : Type} [DecidableEq P] [DecidableEq T] [DecidableEq S]

/-- No other process can lock the slot of a send in flight. -/
def SlotsKept (s : State P T S) : Prop :=
  ∀ c f q, (s.phase c).slot = some f → q ≠ c.1 → tryLock s.files q f ≠ .granted

/-- At most `n` sends are in flight. -/
def InFlightAtMost (n : ℕ) (s : State P T S) : Prop :=
  ∀ F : Finset (P × T), (∀ c ∈ F, (s.phase c).slot ≠ none) → F.card ≤ n

/-- In every state of the run, slots in use are kept and no more sends are in flight than there are
slots. -/
def ShutdownKeepsLimit (channels : List S) (acts : List (Action P T)) : Prop :=
  ∀ pre s, pre <+: acts → (sendMachine P T channels).run (State.start channels) pre = some s →
    SlotsKept s ∧ InFlightAtMost channels.length s

/-- The step is no round of `destroy` that closes the slot of a send of its process while another process
has the slot file open. -/
def ClosesNoSlot (s : State P T S) (a : Action P T) : Prop :=
  ∀ p f fs t, a = .destroy p → s.files.streams p = f :: fs → (s.phase (p, t)).slot = some f →
    ∀ q, q ≠ p → f ∉ s.files.streams q

/-- All steps of the run are such steps. -/
def OrderlyShutdown (channels : List S) (acts : List (Action P T)) : Prop :=
  ∀ pre a s, pre ++ [a] <+: acts →
    (sendMachine P T channels).run (State.start channels) pre = some s → ClosesNoSlot s a

end PingPong.Ping
