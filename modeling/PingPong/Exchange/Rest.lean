import PingPong.Exchange.EndToEnd
import Mathlib.Data.Finset.Card

/-!
# Coming to rest

What the system does when clients and the clock stop calling, and no process starts or shuts down any more.
-/

namespace PingPong.Exchange

open Ping Other

variable {P T D : Type}

/-- The step goes on with a call, a request or a message that is there already. -/
def WorldAction.goesOn : WorldAction P T D → Bool
  | .exists _ | .insertInit _ | .message _ _ | .call _ _ | .destroy _ => false
  | _ => true

/-- A database, the broker or the network fails in the step. -/
def WorldAction.fails : WorldAction P T D → Bool
  | .lookupFails _ | .answerFails _ => true
  | .respond _ works | .deliver _ works => !works
  | _ => false

/-- No call is running, no request waits for its answer, and no message waits for its delivery. -/
structure World.AtRest (w : World P T D) : Prop where
  calls : ∀ c, w.calls c = none
  wire : w.transit.wire = []
  handling : w.transit.handling = []
  waiting : w.broker.waiting = []

/-- The steps of a call: one for each slot and four others, its end, two of Pong with its request, and one of
the receiver with its message. -/
def Services.callBound (v : Services P T D) : ℕ := v.num + 8

variable [DecidableEq P] [DecidableEq T] [DecidableEq D]

/-- From the state `w` on, every run that only goes on with what is there has a bounded number of steps, in
whatever order they are taken and whatever fails, and until the system is at rest a step can be taken in which
nothing fails. -/
def ComesToRest (v : Services P T D) (w : World P T D) : Prop :=
  ∃ running : Finset (P × T), (∀ c, c ∈ running ↔ (w.calls c).isSome = true) ∧
    ∀ later w', (worldMachine v).run w later = some w' → (∀ a ∈ later, a.goesOn = true) →
      later.length ≤ running.card * v.callBound + 3 * w.transit.wire.length +
        2 * w.transit.handling.length + w.broker.waiting.length ∧
      (w'.AtRest ∨ ∃ a w'', a.goesOn = true ∧ a.fails = false ∧ (worldMachine v).step w' a = some w'')

/-- Nothing is left to do: every request has been answered once, and every published exchange has its row, but
for those of the messages `failed`. -/
structure World.Drained (v : Services P T D) (messages : Messages) (rows : List PongMessage)
    (failed : List MqMessageDTO) (w : World P T D) : Prop where
  atRest : w.AtRest
  answered : (w.transit.handled.map Handled.number).Perm (List.range w.transit.sent.length)
  saved : ∃ (saved lost : List Handled) (added : List PongMessage), (saved ++ lost).Perm w.transit.exchanges ∧
    w.broker.rows = rows ++ added ∧ List.Forall₂ (RowOf v messages w) added saved ∧
    List.Forall₂ (fun msg h => h.published = some msg) failed lost

end PingPong.Exchange
