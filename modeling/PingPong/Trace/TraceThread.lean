import PingPong.Common.Constant
import Mathlib.Data.Nat.Notation
import Mathlib.Logic.Function.Basic
import Mathlib.Order.Nat

/-!
# Trace ids of a thread

A trace id travels in the MDC of the thread that handles a request. Filters, the Feign client and the
message interceptor read it there, and write it only where they find it blank. `TraceThread` is what
they share: the MDC of one thread, and the number of integers the thread has drawn for generated ids.
-/

namespace PingPong.Trace

/-! ## Blank texts -/

/-- `Character.isWhitespace`: the Unicode separators that are not non-breaking, and the ASCII control
characters that separate. -/
def isWhitespace (c : Char) : Bool :=
  let n := c.toNat
  (0x09 ≤ n && n ≤ 0x0D) || (0x1C ≤ n && n ≤ 0x20) || n == 0x1680 ||
    (0x2000 ≤ n && n ≤ 0x200A && n != 0x2007) || n == 0x2028 || n == 0x2029 || n == 0x205F ||
    n == 0x3000

def isBlank : Option String → Bool
  | none => true
  | some s => s.toList.all isWhitespace

def isEmpty : Option String → Bool
  | none => true
  | some s => s.isEmpty

/-! ## The MDC -/

abbrev Mdc := String → Option String

namespace Mdc

def get (mdc : Mdc) (key : String) : Option String := mdc key

def put (mdc : Mdc) (key value : String) : Mdc := Function.update mdc key (some value)

def clear : Mdc := fun _ => none

end Mdc

/-! ## Generated ids -/

/-- The generator of a JVM: its host name, and the integers a thread draws one after another. -/
structure TraceIdUtil where
  hostname : String
  nextInt : ℕ → Int

/-- The id made of the thread's draw number `k`. -/
def TraceIdUtil.generateTraceId (g : TraceIdUtil) (k : ℕ) : String :=
  g.hostname ++ "-" ++ toString (g.nextInt k)

/-! ## Threads -/

structure TraceThread where
  mdc : Mdc
  drawn : ℕ

namespace TraceThread

def traceId (t : TraceThread) : Option String := t.mdc.get MappedConstant.traceId

def putTraceId (t : TraceThread) (id : String) : TraceThread :=
  { t with mdc := t.mdc.put MappedConstant.traceId id }

def clear (t : TraceThread) : TraceThread := { t with mdc := .clear }

/-- `TraceIdUtil.getGenerateTraceId()`. -/
def getGenerateTraceId (t : TraceThread) (g : TraceIdUtil) : String × TraceThread :=
  (g.generateTraceId t.drawn, { t with drawn := t.drawn + 1 })

def putGenerated (t : TraceThread) (g : TraceIdUtil) : TraceThread :=
  let (id, t) := t.getGenerateTraceId g
  t.putTraceId id

/-- A trace id is generated if the thread has none. -/
def ensureTraceId (t : TraceThread) (g : TraceIdUtil) : TraceThread :=
  if isBlank t.traceId then t.putGenerated g else t

end TraceThread

/-- `WebTraceFilter.filter`, which both services install. -/
def WebTraceFilter.filter {α : Type} (g : TraceIdUtil) (chain : TraceThread → α) (t : TraceThread) : α :=
  chain (t.ensureTraceId g)

/-! ## Lemmas -/

section

variable {g : TraceIdUtil} {t : TraceThread} {id : String}

@[simp] theorem traceId_putTraceId : (t.putTraceId id).traceId = some id := by
  show Function.update t.mdc MappedConstant.traceId (some id) MappedConstant.traceId = some id
  exact Function.update_self ..

@[simp] theorem traceId_putGenerated :
    (t.putGenerated g).traceId = some (g.generateTraceId t.drawn) := traceId_putTraceId

@[simp] theorem drawn_putGenerated : (t.putGenerated g).drawn = t.drawn + 1 := rfl

theorem exists_of_not_blank {id : Option String} (h : ¬ isBlank id = true) :
    ∃ x, id = some x ∧ isBlank (some x) = false := by
  cases id with
  | none => exact absurd rfl h
  | some x => exact ⟨x, rfl, by simpa using h⟩

/-- A thread that has the trace id already. -/
theorem putTraceId_self (h : t.traceId = some id) : t.putTraceId id = t := by
  have hget : t.mdc MappedConstant.traceId = some id := h
  unfold TraceThread.putTraceId Mdc.put
  rw [← hget, Function.update_eq_self]

theorem putTraceId_putTraceId : (t.putTraceId id).putTraceId id = t.putTraceId id :=
  putTraceId_self traceId_putTraceId

/-- The dash of a generated id is not blank. -/
@[simp] theorem isBlank_generateTraceId (g : TraceIdUtil) (k : ℕ) :
    isBlank (some (g.generateTraceId k)) = false := by
  have hdash : '-' ∈ (g.generateTraceId k).toList := by simp [TraceIdUtil.generateTraceId]
  have hall : ¬ (g.generateTraceId k).toList.all isWhitespace = true := fun h =>
    absurd (List.all_eq_true.mp h '-' hdash) (by decide)
  simpa [isBlank] using hall

theorem ensureTraceId_of_blank (h : isBlank t.traceId = true) :
    t.ensureTraceId g = t.putGenerated g := if_pos h

theorem ensureTraceId_of_not_blank (h : isBlank t.traceId = false) : t.ensureTraceId g = t :=
  if_neg (by rw [h]; exact Bool.false_ne_true)

theorem isBlank_ensureTraceId : isBlank (t.ensureTraceId g).traceId = false := by
  cases h : isBlank t.traceId with
  | true => rw [ensureTraceId_of_blank h, traceId_putGenerated, isBlank_generateTraceId]
  | false => rw [ensureTraceId_of_not_blank h, h]

theorem drawn_le_ensureTraceId : t.drawn ≤ (t.ensureTraceId g).drawn := by
  cases h : isBlank t.traceId with
  | true => rw [ensureTraceId_of_blank h, drawn_putGenerated]; omega
  | false => exact le_of_eq (by rw [ensureTraceId_of_not_blank h])

end

end PingPong.Trace
