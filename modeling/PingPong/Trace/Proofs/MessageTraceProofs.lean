import PingPong.Trace.MqInterceptor
import Mathlib.Data.List.Basic
import Mathlib.Data.List.Induction

/-!
# Proofs: trace ids of messages

The MDC has the header of the last message with a trace id, if the thread's own work has put none since
(`traceId_after`), and `preSend` stamps the next message without a trace id with what it finds there.
-/

namespace PingPong.Trace

open ChannelOp

variable {α : Type} {t : TraceThread} {ops : List (ChannelOp α)} {op : ChannelOp α} {msg : Message α}

/-! ## One message -/

theorem stamp_eq (msg : Message α) (t : TraceThread) :
    MqInterceptor.preSend.stamp msg t = (msg.stamped t.traceId, t) := by
  unfold MqInterceptor.preSend.stamp Message.stamped
  cases hid : t.traceId with
  | none => rfl
  | some id => cases hblank : isBlank (some id) <;> simp [hblank]

theorem preSend_of_blank (h : isBlank (msg.headers MappedConstant.traceId) = true) (t : TraceThread) :
    MqInterceptor.preSend msg t = (msg.stamped t.traceId, t) := by
  rw [← stamp_eq]
  unfold MqInterceptor.preSend
  cases hid : msg.headers MappedConstant.traceId with
  | none => rfl
  | some id =>
    rw [hid] at h
    simp only [h, if_true]

theorem preSend_of_not_blank {id : String} (hid : msg.headers MappedConstant.traceId = some id)
    (h : isBlank (some id) = false) (t : TraceThread) :
    MqInterceptor.preSend msg t = (msg, t.putTraceId id) := by
  unfold MqInterceptor.preSend
  rw [hid]
  simp only [h, Bool.false_eq_true, if_false]

/-! ## Sequences -/

theorem after_concat (ops : List (ChannelOp α)) (op : ChannelOp α) (t : TraceThread) :
    after (ops ++ [op]) t = run (after ops t) op :=
  List.foldl_concat ..

theorem own_concat (id : Option String) (ops : List (ChannelOp α)) (op : ChannelOp α) :
    own id (ops ++ [op]) = own (own id ops) [op] := by
  unfold own
  rw [List.foldl_append]

theorem borrowed_work (ops : List (ChannelOp α)) (id : Option String) :
    borrowed (ops ++ [.work id]) = none := by
  unfold borrowed
  rw [List.foldl_concat]

theorem borrowed_send (ops : List (ChannelOp α)) (msg : Message α) :
    borrowed (ops ++ [.send msg]) =
      if isBlank (msg.headers MappedConstant.traceId) then borrowed ops
      else msg.headers MappedConstant.traceId := by
  unfold borrowed
  rw [List.foldl_concat]

/-- What the thread has borrowed is not blank. -/
theorem isBlank_borrowed {id : String} (h : borrowed ops = some id) : isBlank (some id) = false := by
  induction ops using List.reverseRecOn with
  | nil => cases h
  | append_singleton ops op ih =>
    cases op with
    | work own =>
      rw [borrowed_work] at h
      cases h
    | send msg =>
      rw [borrowed_send] at h
      split at h
      · exact ih h
      · rename_i hblank
        rw [h] at hblank
        simpa using hblank

/-- The MDC has what the thread has borrowed, or else its own trace id. -/
theorem traceId_after (ops : List (ChannelOp α)) (t : TraceThread) :
    (after ops t).traceId = (borrowed ops).or (own t.traceId ops) := by
  induction ops using List.reverseRecOn with
  | nil => rfl
  | append_singleton ops op ih =>
    rw [after_concat]
    cases op with
    | work id =>
      rw [borrowed_work, own_concat]
      show Function.update (after ops t).mdc MappedConstant.traceId id MappedConstant.traceId = id
      exact Function.update_self ..
    | send msg =>
      rw [borrowed_send, own_concat]
      show (MqInterceptor.preSend msg (after ops t)).2.traceId = _
      by_cases hblank : isBlank (msg.headers MappedConstant.traceId) = true
      · rw [preSend_of_blank hblank, if_pos hblank]
        exact ih
      · obtain ⟨id, hid, hnot⟩ := exists_of_not_blank hblank
        rw [if_neg hblank, preSend_of_not_blank hid hnot, hid]
        exact traceId_putTraceId

/-! ## Isolation -/

/-- Two trace ids of which one is not blank stamp a message without one differently. -/
theorem stamped_eq_iff (hblank : isBlank (msg.headers MappedConstant.traceId) = true) {id : String}
    (hid : isBlank (some id) = false) {own : Option String} :
    msg.stamped (some id) = msg.stamped own ↔ own = some id := by
  constructor
  · intro h
    have hkey := congrArg (fun m : Message α => m.headers MappedConstant.traceId) h
    unfold Message.stamped at hkey
    rw [hid, if_neg Bool.false_ne_true] at hkey
    dsimp only at hkey
    rw [Function.update_self] at hkey
    by_cases hown : isBlank own = true
    · rw [if_pos hown] at hkey
      rw [← hkey, hid] at hblank
      cases hblank
    · rw [if_neg hown] at hkey
      dsimp only at hkey
      rw [Function.update_self] at hkey
      exact hkey.symm
  · rintro rfl
    rfl

/-- The messages without a trace id are stamped by the thread's own one if and only if each of them that
follows a message with a trace id, with no own one put in between, meets the same own trace id. -/
theorem stampsOwn_iff (t : TraceThread) (ops : List (ChannelOp α)) :
    StampsOwn t ops ↔ NothingBorrowed t ops := by
  have hsend : ∀ (l : List (ChannelOp α)) (msg : Message α),
      isBlank (msg.headers MappedConstant.traceId) = true →
      ((MqInterceptor.preSend msg (after l t)).1 = msg.stamped (own t.traceId l) ↔
        ∀ id, borrowed l = some id → own t.traceId l = some id) := by
    intro l msg hblank
    rw [preSend_of_blank hblank, traceId_after]
    cases hb : borrowed l with
    | none => simp
    | some id =>
      rw [Option.some_or, stamped_eq_iff hblank (isBlank_borrowed hb)]
      simp
  constructor
  · intro h l msg l' hops hblank
    exact (hsend l msg hblank).mp (h l msg l' hops hblank)
  · intro h l msg l' hops hblank
    exact (hsend l msg hblank).mpr (h l msg l' hops hblank)

/-- A message with a trace id, and one without. -/
def twoMessages : List (ChannelOp Unit) :=
  [.send ⟨(), fun key => if key = MappedConstant.traceId then some "a" else none⟩,
    .send ⟨(), fun _ => none⟩]

/-- The second message leaves under the trace id of the first. -/
theorem not_stampsOwn_twoMessages : ¬ StampsOwn ⟨.clear, 0⟩ twoMessages := by
  intro h
  have hsecond := h [.send ⟨(), fun key => if key = MappedConstant.traceId then some "a" else none⟩]
    ⟨(), fun _ => none⟩ [] rfl rfl
  have hkey := congrArg (fun m : Message Unit => m.headers MappedConstant.traceId) hsecond
  revert hkey
  decide

end PingPong.Trace
