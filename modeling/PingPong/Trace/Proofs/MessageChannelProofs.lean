import PingPong.Trace.MessageChannel
import PingPong.Trace.Proofs.MessageTraceProofs

/-!
# Proofs: copies of `MqInterceptor`

Behind `preSend` the header of the message and the MDC agree, or both are blank, so a second `preSend`
changes nothing; nor do a second `postReceive` and a second `MDC.clear()`.
-/

namespace PingPong.Trace

open Interception

variable {α : Type} {msg : Message α} {t : TraceThread}

/-! ## One callback twice -/

theorem preSend_settled : Settled (MqInterceptor.preSend (α := α)) := by
  intro msg t
  by_cases hblank : isBlank (msg.headers MappedConstant.traceId) = true
  · rw [preSend_of_blank hblank]
    by_cases hmdc : isBlank t.traceId = true
    · have hstamped : msg.stamped t.traceId = msg := if_pos hmdc
      rw [hstamped, preSend_of_blank hblank, hstamped]
    · obtain ⟨id, hid, hnot⟩ := exists_of_not_blank hmdc
      -- the second call finds the header that the first one has set
      have hheader : (msg.stamped t.traceId).headers MappedConstant.traceId = some id := by
        unfold Message.stamped
        rw [if_neg hmdc, hid]
        dsimp only
        rw [Function.update_self]
      rw [preSend_of_not_blank hheader hnot, putTraceId_self hid]
  · obtain ⟨id, hid, hnot⟩ := exists_of_not_blank hblank
    rw [preSend_of_not_blank hid hnot, preSend_of_not_blank hid hnot, putTraceId_putTraceId]

theorem postReceive_of_blank (h : isBlank (msg.headers MappedConstant.traceId) = true) (t : TraceThread) :
    MqInterceptor.postReceive msg t = (msg, t) := by
  unfold MqInterceptor.postReceive
  cases hid : msg.headers MappedConstant.traceId with
  | none => rfl
  | some id =>
    rw [hid] at h
    simp [h]

theorem postReceive_of_not_blank {id : String} (hid : msg.headers MappedConstant.traceId = some id)
    (h : isBlank (some id) = false) (t : TraceThread) :
    MqInterceptor.postReceive msg t = (msg, t.putTraceId id) := by
  unfold MqInterceptor.postReceive
  rw [hid]
  simp only [h, Bool.not_false, if_true]

theorem postReceive_settled : Settled (MqInterceptor.postReceive (α := α)) := by
  intro msg t
  by_cases hblank : isBlank (msg.headers MappedConstant.traceId) = true
  · rw [postReceive_of_blank hblank, postReceive_of_blank hblank]
  · obtain ⟨id, hid, hnot⟩ := exists_of_not_blank hblank
    rw [postReceive_of_not_blank hid hnot, postReceive_of_not_blank hid hnot, putTraceId_putTraceId]

theorem afterReceiveCompletion_settled :
    Settled fun (msg : Message α) t => (msg, MqInterceptor.afterReceiveCompletion msg t) :=
  fun _ _ => rfl

/-! ## Copies -/

namespace MessageChannel

variable {k : ℕ} {interceptors interceptors' : List (ChannelInterceptor α)}

theorem send_copies (hk : 1 ≤ k) (msg : Message α) (t : TraceThread) :
    send (List.replicate k mqInterceptor) msg t = MqInterceptor.preSend msg t := by
  unfold send
  rw [List.map_replicate]
  exact preSend_settled.through_copies hk msg t

theorem receive_copies (hk : 1 ≤ k) (msg : Message α) (t : TraceThread) :
    receive (List.replicate k mqInterceptor) msg t =
      ((MqInterceptor.postReceive msg t).1, (MqInterceptor.postReceive msg t).2.clear) := by
  have hreceived : through (List.replicate k MqInterceptor.postReceive) msg t =
      MqInterceptor.postReceive msg t :=
    postReceive_settled.through_copies hk msg t
  unfold receive
  rw [List.map_replicate, List.reverse_replicate, List.map_replicate]
  dsimp only [mqInterceptor]
  rw [hreceived]
  exact afterReceiveCompletion_settled.through_copies hk ..

/-- Any positive number of copies does what one does. -/
theorem step_copies (hk : 1 ≤ k) (t : TraceThread) (event : Event α) :
    step (List.replicate k mqInterceptor) t event = step [mqInterceptor] t event := by
  have hone : [mqInterceptor (α := α)] = List.replicate 1 mqInterceptor := rfl
  cases event with
  | work change => rfl
  | send msg =>
    unfold step
    dsimp only
    rw [send_copies hk, hone, send_copies (le_refl 1)]
  | receive msg =>
    unfold step
    dsimp only
    rw [receive_copies hk, hone, receive_copies (le_refl 1)]

/-- Channels that do the same in every event do the same in every sequence of events. -/
theorem run_congr (h : ∀ t event, step interceptors t event = step interceptors' t event)
    (events : List (Event α)) (t : TraceThread) :
    run interceptors events t = run interceptors' events t := by
  induction events generalizing t with
  | nil => rfl
  | cons event events ih =>
    unfold run
    rw [h t event, ih]

/-- The messages that go through a channel with `k` copies of `MqInterceptor`, and the MDC behind every
event, are those of a channel with one copy. -/
theorem copies_harmless (hk : 1 ≤ k) (events : List (Event α)) (t : TraceThread) :
    run (List.replicate k mqInterceptor) events t = run [mqInterceptor] events t :=
  run_congr (step_copies hk) events t

/-- A message without a trace id is sent by a thread that has one, and received again. -/
def sentAndReceived : List (Event Unit) :=
  [.work fun mdc => mdc.put MappedConstant.traceId "a", .send ⟨(), fun _ => none⟩,
    .receive ⟨(), fun _ => none⟩]

theorem copies_harmless_two :
    run (List.replicate 2 mqInterceptor) sentAndReceived ⟨.clear, 0⟩ =
      run [mqInterceptor] sentAndReceived ⟨.clear, 0⟩ :=
  copies_harmless (by decide) sentAndReceived ⟨.clear, 0⟩

/-- The global interceptor stays as it is when the bean post-processor adds the second copy. -/
theorem postProcessed_harmless (events : List (Event α)) (t : TraceThread) :
    run (MessagingConfiguration.postProcessAfterInitialization [mqInterceptor]) events t =
      run [mqInterceptor] events t :=
  run_congr (step_copies (k := 2) (by decide)) events t

end MessageChannel

end PingPong.Trace
