import PingPong.Trace.MqInterceptor
import Mathlib.Data.List.Basic

/-!
# Intercepted channels

An interceptor gets a message and the state of the thread, and may change both. A chain hands the message from
one interceptor to the next. Copies of an interceptor that finds nothing left to do behind itself act as one of
them.

A channel hands a message that is sent or received through its list of interceptors. `MqInterceptor` is
added to a channel twice: it is a global channel interceptor, and the bean post-processor of
`MessagingConfiguration` puts it at the head of the list.
-/

namespace Interception

variable {μ σ : Type*}

/-- The message and the state behind a chain of interceptors. -/
def through : List (μ → σ → μ × σ) → μ → σ → μ × σ
  | [], m, s => (m, s)
  | f :: fs, m, s => through fs (f m s).1 (f m s).2

/-- Behind itself the interceptor changes nothing. -/
def Settled (f : μ → σ → μ × σ) : Prop := ∀ m s, f (f m s).1 (f m s).2 = f m s

variable {f : μ → σ → μ × σ}

/-- Further copies change nothing. -/
theorem Settled.through_replicate (hf : Settled f) (k : ℕ) (m : μ) (s : σ) :
    through (List.replicate k f) (f m s).1 (f m s).2 = f m s := by
  induction k with
  | zero => rfl
  | succ k ih =>
    rw [List.replicate_succ, through, hf m s]
    exact ih

/-- Copies of a settled interceptor act as one. -/
theorem Settled.through_copies (hf : Settled f) {k : ℕ} (hk : 1 ≤ k) (m : μ) (s : σ) :
    through (List.replicate k f) m s = f m s := by
  obtain ⟨n, rfl⟩ := Nat.exists_eq_add_of_le' hk
  exact hf.through_replicate n m s

end Interception

namespace PingPong.Trace

/-- The callbacks of Spring's `ChannelInterceptor` that `MqInterceptor` does something in. -/
structure ChannelInterceptor (α : Type) where
  preSend : Message α → TraceThread → Message α × TraceThread
  postReceive : Message α → TraceThread → Message α × TraceThread
  afterReceiveCompletion : Message α → TraceThread → TraceThread

def mqInterceptor {α : Type} : ChannelInterceptor α where
  preSend := MqInterceptor.preSend
  postReceive := MqInterceptor.postReceive
  afterReceiveCompletion := MqInterceptor.afterReceiveCompletion

/-- The bean post-processor of `MessagingConfiguration`: `addInterceptor(0, mqInterceptor)`. -/
def MessagingConfiguration.postProcessAfterInitialization {α : Type}
    (interceptors : List (ChannelInterceptor α)) : List (ChannelInterceptor α) :=
  mqInterceptor :: interceptors

/-! ## Sending and receiving -/

namespace MessageChannel

open Interception

variable {α : Type} (interceptors : List (ChannelInterceptor α))

/-- The message that is delivered to the channel. -/
def send (msg : Message α) (t : TraceThread) : Message α × TraceThread :=
  through (interceptors.map (·.preSend)) msg t

/-- The message that the receiver gets. The completion callbacks run in the opposite order. -/
def receive (msg : Message α) (t : TraceThread) : Message α × TraceThread :=
  let (msg, t) := through (interceptors.map (·.postReceive)) msg t
  through (interceptors.reverse.map fun interceptor msg t =>
    (msg, interceptor.afterReceiveCompletion msg t)) msg t

/-- What a thread does: any change of its MDC, or an operation of the channel. -/
inductive Event (α : Type)
  | work (change : Mdc → Mdc)
  | send (msg : Message α)
  | receive (msg : Message α)

/-- The message that goes through the channel, if any, and the thread behind the event. -/
def step (t : TraceThread) : Event α → Option (Message α) × TraceThread
  | .work change => (none, { t with mdc := change t.mdc })
  | .send msg => ((send interceptors msg t).1, (send interceptors msg t).2)
  | .receive msg => ((receive interceptors msg t).1, (receive interceptors msg t).2)

/-- The messages and the thread behind each of the events. -/
def run : List (Event α) → TraceThread → List (Option (Message α) × TraceThread)
  | [], _ => []
  | event :: events, t => step interceptors t event :: run events (step interceptors t event).2

end MessageChannel

end PingPong.Trace
