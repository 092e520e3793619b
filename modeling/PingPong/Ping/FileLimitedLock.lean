import PingPong.Common.Constant
import Mathlib.Logic.Function.Basic
import Mathlib.Data.List.Range

/-!
# The slot files of `FileLimitedLock`

Every Ping process opens the same `num` slot files `lockFile.0`, `lockFile.1`, ... and takes a lock
on one of them for the duration of a request. The lock itself is the operating system's (and, inside
one JVM, the lock table of `FileChannel`): a file is locked by at most one holder, `tryLock` answers
`null` when another process holds the file and throws when the own JVM does, and closing the stream
of a file releases the lock held through it.

`S` is the type of slot files (their paths), `P` the type of processes.
-/

namespace PingPong.Ping

/-- The answers of `FileChannel.tryLock`: null when another process holds the file, an exception when
the own JVM holds it or the channel is closed. -/
inductive TryLock where
  | granted
  | null
  | exception
deriving DecidableEq, Repr

/-- The process that holds the lock on each slot file, and the streams of each process that `destroy`
has not closed yet. -/
structure SlotFiles (P S : Type) where
  holder : S → Option P
  streams : P → List S

namespace FileLimitedLock

/-- The files `init` opens, in the order of `channelList`. -/
def init (lockFile : String) (num : ℕ) : List String :=
  (List.range num).map fun i => lockFile ++ "." ++ toString i

variable {P S : Type} [DecidableEq P] [DecidableEq S]

/-- `channel.tryLock()` on the file `f`, called by the process `p`. -/
def tryLock (L : SlotFiles P S) (p : P) (f : S) : TryLock :=
  if f ∈ L.streams p then
    match L.holder f with
    | none => .granted
    | some q => if q = p then .exception else .null
  else .exception

def grant (L : SlotFiles P S) (p : P) (f : S) : SlotFiles P S :=
  { L with holder := Function.update L.holder f (some p) }

/-- `unlock`: `lock.release()` frees the file; on a closed channel it throws, which `unlock` swallows. -/
def unlock (L : SlotFiles P S) (p : P) (f : S) : SlotFiles P S :=
  if f ∈ L.streams p then { L with holder := Function.update L.holder f none } else L

/-- One round of the loop of `destroy`: the next open stream of `p` is closed, which releases the
lock `p` holds through it. -/
def destroyNext (L : SlotFiles P S) (p : P) : SlotFiles P S :=
  match L.streams p with
  | [] => L
  | f :: fs =>
    { holder := if L.holder f = some p then Function.update L.holder f none else L.holder
      streams := Function.update L.streams p fs }

end FileLimitedLock

end PingPong.Ping
