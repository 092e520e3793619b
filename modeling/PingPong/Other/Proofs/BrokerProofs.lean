import PingPong.Other.Broker
import Mathlib.Data.List.Perm.Basic

/-!
# Proofs: acknowledged messages

`onMessage` never throws, so every delivery acknowledges its message, and the rows are those of the
messages whose save worked.
-/

namespace PingPong.Other

namespace Broker

variable {rows : List PongMessage} {events : List Event} {s s' : Broker} {e : Event} {msg : MqMessageDTO}

/-- The rows of the acknowledged messages whose save worked. -/
def saved (s : Broker) : List PongMessage :=
  (s.acknowledged.filter (·.2)).map fun d => ReceiveService.onMessage d.1

theorem listen_eq (rows : List PongMessage) (msg : MqMessageDTO) (works : Bool) :
    ReceiveService.listen rows msg works =
      (.returned, if works then rows ++ [ReceiveService.onMessage msg] else rows) := by
  cases works <;> rfl

/-- The two kinds of steps. A delivery takes the message off the broker whether its save works or not. -/
inductive BrokerStep (s : Broker) : Event → Broker → Prop where
  | published (msg : MqMessageDTO) :
      BrokerStep s (.publish msg) { s with waiting := s.waiting ++ [msg] }
  | delivered {i : ℕ} {works : Bool} {msg : MqMessageDTO} (h : s.waiting[i]? = some msg) :
      BrokerStep s (.deliver i works)
        { waiting := s.waiting.eraseIdx i
          acknowledged := s.acknowledged ++ [(msg, works)]
          rows := if works then s.rows ++ [ReceiveService.onMessage msg] else s.rows }

theorem brokerStep_of_step (h : machine.step s e = some s') : BrokerStep s e s' := by
  cases e with
  | publish msg =>
    cases h
    exact .published msg
  | deliver i works =>
    simp only [machine] at h
    split at h
    · cases h
    · rename_i msg hmsg
      rw [listen_eq] at h
      cases h
      exact .delivered hmsg

/-- What holds in every run: the table has the saved rows behind the old ones, every published message
waits or is acknowledged, and every delivery was the only one of its message. -/
structure Kept (rows : List PongMessage) (events : List Event) (s : Broker) : Prop where
  rows : s.rows = rows ++ s.saved
  messages : (events.filterMap Event.published).Perm (s.acknowledged.map (·.1) ++ s.waiting)
  deliveries : events.countP Event.isDeliver = s.acknowledged.length

theorem kept_step (h : Kept rows events s) (hstep : BrokerStep s e s') :
    Kept rows (events ++ [e]) s' := by
  cases hstep with
  | published msg =>
    refine ⟨h.rows, ?_, ?_⟩
    · rw [List.filterMap_append, ← List.append_assoc]
      exact h.messages.append_right _
    · rw [List.countP_append, h.deliveries]
      rfl
  | @delivered i works msg hmsg =>
    have hperm : s.waiting.Perm (msg :: s.waiting.eraseIdx i) := by
      obtain ⟨hi, hget⟩ := List.getElem?_eq_some_iff.mp hmsg
      rw [← hget]
      exact (List.getElem_cons_eraseIdx_perm hi).symm
    refine ⟨?_, ?_, ?_⟩
    · show (if works then s.rows ++ [ReceiveService.onMessage msg] else s.rows) = _
      unfold saved
      rw [List.filter_append, List.map_append, ← List.append_assoc]
      cases works with
      | true => rw [if_pos rfl, h.rows]; rfl
      | false =>
        rw [if_neg Bool.false_ne_true, h.rows]
        exact (List.append_nil _).symm
    · rw [List.filterMap_append, List.map_append, List.append_assoc]
      show (_ ++ []).Perm _
      rw [List.append_nil]
      exact h.messages.trans (hperm.append_left _)
    · rw [List.countP_append, h.deliveries, List.length_append]
      rfl

theorem kept_run (h : machine.run (start rows) events = some s) : Kept rows events s := by
  refine StepMachine.run_history ?_ ?_ h
  · exact ⟨(List.append_nil _).symm, List.Perm.refl _, rfl⟩
  · intro l u a u' _ hu hstep
    exact kept_step hu (brokerStep_of_step hstep)

/-! ## Acknowledged messages -/

/-- In every run, a message that is acknowledged by a call whose save worked has its row, and no other rows
are added; every delivery acknowledges its message, which is not delivered again. -/
theorem acknowledged_rows (rows : List PongMessage) (events : List Event) {s : Broker}
    (h : machine.run (start rows) events = some s) :
    (∀ d ∈ s.acknowledged, d.2 = true → ReceiveService.onMessage d.1 ∈ s.rows) ∧
    s.rows = rows ++ (s.acknowledged.filter (·.2)).map (fun d => ReceiveService.onMessage d.1) ∧
    (events.filterMap Event.published).Perm (s.acknowledged.map (·.1) ++ s.waiting) ∧
    events.countP Event.isDeliver = s.acknowledged.length := by
  have hk := kept_run h
  refine ⟨?_, hk.rows, hk.messages, hk.deliveries⟩
  intro d hd hworks
  rw [hk.rows]
  refine List.mem_append_right _ (List.mem_map.mpr ⟨d, ?_, rfl⟩)
  exact List.mem_filter.mpr ⟨hd, hworks⟩

/-- Two messages, of which the second is delivered first. -/
def outOfOrder : List Event :=
  [.publish ⟨some "a", some "Hello", some "World"⟩, .publish ⟨some "b", some "Hello", some "World"⟩,
    .deliver 1 true, .deliver 0 true]

theorem acknowledged_rows_outOfOrder : ∃ s, machine.run (start []) outOfOrder = some s ∧
    ∀ d ∈ s.acknowledged, d.2 = true → ReceiveService.onMessage d.1 ∈ s.rows :=
  ⟨_, rfl, (acknowledged_rows [] outOfOrder rfl).1⟩

/-- The database fails once. -/
def failedSave : List Event :=
  [.publish ⟨some "a", some "Hello", some "World"⟩, .deliver 0 false]

/-- A message whose save fails is acknowledged without a row. -/
theorem not_noneLost_failedSave :
    ¬ ∀ s, machine.run (start []) failedSave = some s → s.NoneLost := by
  intro h
  have hlost := h _ rfl (⟨some "a", some "Hello", some "World"⟩, false) List.mem_cons_self
  cases hlost

end Broker

end PingPong.Other
