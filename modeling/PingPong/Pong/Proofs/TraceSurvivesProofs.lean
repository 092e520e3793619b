import PingPong.Pong.PongController

/-!
# Proofs: trace ids in Pong

Behind the two filters, in either order, the MDC holds the request's own id: its header, or an id drawn
while the filters ran (`thread_of_header`, `thread_of_blank`). Whatever an earlier request left in the MDC
is overwritten.
-/

namespace PingPong.Pong

open Trace

variable {g : TraceIdUtil} {order : FilterOrder} {streamBridge : Bool} {request : PongRequest}
  {requests : List PongRequest} {traceIds : Option (List String)} {t : TraceThread} {id h : String}

/-! ## The filters -/

/-- The thread behind `WebFluxTraceFilter`. -/
def webFluxThread (g : TraceIdUtil) (traceIds : Option (List String)) (t : TraceThread) : TraceThread :=
  WebFluxTraceFilter.filter g traceIds (fun t => t) t

theorem webFluxThread_of_header (hid : traceIds.bind List.head? = some h)
    (hblank : isBlank (some h) = false) : webFluxThread g traceIds t = t.putTraceId h := by
  simp [webFluxThread, WebFluxTraceFilter.filter, hid, hblank]

theorem webFluxThread_of_blank (hblank : isBlank (traceIds.bind List.head?) = true) :
    webFluxThread g traceIds t = t.putGenerated g := by
  simp only [webFluxThread, WebFluxTraceFilter.filter, hblank, if_true]
  rfl

/-- The thread behind both filters. -/
def FilterOrder.thread (order : FilterOrder) (g : TraceIdUtil) (traceIds : Option (List String))
    (t : TraceThread) : TraceThread :=
  match order with
  | webTraceFirst => webFluxThread g traceIds (t.ensureTraceId g)
  | webFluxFirst => (webFluxThread g traceIds t).ensureTraceId g

theorem filter_eq {α : Type} (chain : TraceThread → α) :
    order.filter g traceIds chain t = chain (order.thread g traceIds t) := by
  cases order <;> rfl

/-- A header that is not blank is the id of the request. -/
theorem thread_of_header (order : FilterOrder) (g : TraceIdUtil) (t : TraceThread)
    (hid : traceIds.bind List.head? = some h) (hblank : isBlank (some h) = false) :
    (order.thread g traceIds t).traceId = some h ∧ t.drawn ≤ (order.thread g traceIds t).drawn := by
  cases order with
  | webTraceFirst =>
    show (webFluxThread g traceIds (t.ensureTraceId g)).traceId = _ ∧ _ ≤ (webFluxThread ..).drawn
    rw [webFluxThread_of_header hid hblank]
    exact ⟨traceId_putTraceId, drawn_le_ensureTraceId⟩
  | webFluxFirst =>
    have hput : isBlank (t.putTraceId h).traceId = false := by rw [traceId_putTraceId, hblank]
    show ((webFluxThread g traceIds t).ensureTraceId g).traceId = _ ∧
      _ ≤ ((webFluxThread g traceIds t).ensureTraceId g).drawn
    rw [webFluxThread_of_header hid hblank, ensureTraceId_of_not_blank hput]
    exact ⟨traceId_putTraceId, le_rfl⟩

/-- Without one, an id drawn in the filters is. -/
theorem thread_of_blank (order : FilterOrder) (g : TraceIdUtil) (t : TraceThread)
    (hblank : isBlank (traceIds.bind List.head?) = true) :
    ∃ k, t.drawn ≤ k ∧ k < (order.thread g traceIds t).drawn ∧
      (order.thread g traceIds t).traceId = some (g.generateTraceId k) := by
  cases order with
  | webTraceFirst =>
    refine ⟨(t.ensureTraceId g).drawn, drawn_le_ensureTraceId, ?_⟩
    show _ < (webFluxThread g traceIds (t.ensureTraceId g)).drawn ∧
      (webFluxThread g traceIds (t.ensureTraceId g)).traceId = _
    rw [webFluxThread_of_blank hblank]
    exact ⟨Nat.lt_succ_self _, traceId_putGenerated⟩
  | webFluxFirst =>
    have hput : isBlank (t.putGenerated g).traceId = false := by
      rw [traceId_putGenerated, isBlank_generateTraceId]
    refine ⟨t.drawn, le_rfl, ?_⟩
    show _ < ((webFluxThread g traceIds t).ensureTraceId g).drawn ∧
      ((webFluxThread g traceIds t).ensureTraceId g).traceId = _
    rw [webFluxThread_of_blank hblank, ensureTraceId_of_not_blank hput]
    exact ⟨Nat.lt_succ_self _, traceId_putGenerated⟩

/-- The id of a request: its header, or one drawn behind `t`. -/
theorem traceId_thread (order : FilterOrder) (g : TraceIdUtil) (t : TraceThread)
    (traceIds : Option (List String)) :
    ∃ id, (order.thread g traceIds t).traceId = some id ∧ isBlank (some id) = false ∧
      (traceIds.bind List.head? = some id ∨
        ∃ k, t.drawn ≤ k ∧ k < (order.thread g traceIds t).drawn ∧ id = g.generateTraceId k) := by
  by_cases hblank : isBlank (traceIds.bind List.head?) = true
  · obtain ⟨k, hle, hlt, hid⟩ := thread_of_blank order g t hblank
    exact ⟨_, hid, isBlank_generateTraceId g k, Or.inr ⟨k, hle, hlt, rfl⟩⟩
  · obtain ⟨h, hid⟩ : ∃ h, traceIds.bind List.head? = some h := by
      cases hid : traceIds.bind List.head? with
      | none => rw [hid] at hblank; exact absurd rfl hblank
      | some h => exact ⟨h, rfl⟩
    have hnot : isBlank (some h) = false := by rw [← hid]; simpa using hblank
    exact ⟨h, (thread_of_header order g t hid hnot).1, hnot, Or.inl hid⟩

theorem drawn_le_thread (traceIds : Option (List String)) :
    t.drawn ≤ (order.thread g traceIds t).drawn := by
  by_cases hblank : isBlank (traceIds.bind List.head?) = true
  · obtain ⟨k, hle, hlt, -⟩ := thread_of_blank order g t hblank
    omega
  · cases hid : traceIds.bind List.head? with
    | none => rw [hid] at hblank; exact absurd rfl hblank
    | some h => exact (thread_of_header order g t hid (by rw [← hid]; simpa using hblank)).2

/-! ## The message -/

/-- A thread with a trace id publishes under it, and keeps it. -/
theorem message_carries (req : Option String) (resp : String) (hid : t.traceId = some id)
    (hblank : isBlank (some id) = false) :
    Carries id (PongService.message req resp t).1 ∧ (PongService.message req resp t).2 = t := by
  have hstamp : PongService.message req resp t =
      ({ topic := MappedConstant.mqTopic
         message := {
          payload := { id := t.traceId, ping := req, pong := some resp }
          headers := Function.update
            (fun key => if key = "contentType" then some "application/json" else none)
            MappedConstant.traceId (some id) } }, t) := by
    have hheader : (if MappedConstant.traceId = "contentType" then some "application/json" else none) =
        none := by decide
    simp only [PongService.message, MqInterceptor.preSend, hheader, MqInterceptor.preSend.stamp, hid,
      hblank, Bool.not_false, if_true]
  rw [hstamp]
  refine ⟨⟨hid, ?_, rfl, hid⟩, rfl⟩
  simp

/-! ## Requests -/

/-- Handling a request leaves the thread as the filters do. -/
theorem handle_thread (streamBridge : Bool) (request : PongRequest) :
    (PongController.handle g order streamBridge request t).2 = order.thread g request.traceIds t := by
  obtain ⟨id, hid, hblank, -⟩ := traceId_thread order g t request.traceIds
  rw [PongController.handle, filter_eq]
  cases (request.throttling.filter request.now).1 with
  | status code => rfl
  | chain =>
    cases streamBridge with
    | false => rfl
    | true => exact (message_carries request.msg MappedConstant.responseMsg hid hblank).2

theorem after_cons (request : PongRequest) (requests : List PongRequest) :
    PongController.after g order streamBridge (request :: requests) t =
      PongController.after g order streamBridge requests (order.thread g request.traceIds t) := by
  rw [← handle_thread streamBridge]
  rfl

theorem drawn_le_after (requests : List PongRequest) :
    t.drawn ≤ (PongController.after g order streamBridge requests t).drawn := by
  induction requests generalizing t with
  | nil => exact le_rfl
  | cons request requests ih =>
    rw [after_cons]
    exact (drawn_le_thread request.traceIds).trans ih

/-- An earlier request ran under a header, or under an id drawn before `after` of it. -/
theorem requestId_of_earlier (g : TraceIdUtil) (order : FilterOrder) (streamBridge : Bool)
    (t : TraceThread) (l l' : List PongRequest) (request : PongRequest) :
    ∃ id, PongController.requestId g order request (PongController.after g order streamBridge l t) =
      some id ∧ (request.traceId = some id ∨
        ∃ k, k < (PongController.after g order streamBridge (l ++ request :: l') t).drawn ∧
          id = g.generateTraceId k) := by
  set u := PongController.after g order streamBridge l t with hu
  obtain ⟨id, hid, -, hfrom⟩ := traceId_thread order g u request.traceIds
  refine ⟨id, by rw [PongController.requestId, filter_eq, hid], hfrom.imp_right ?_⟩
  rintro ⟨k, -, hlt, rfl⟩
  refine ⟨k, hlt.trans_le ?_, rfl⟩
  have hafter : PongController.after g order streamBridge (l ++ request :: l') t =
      PongController.after g order streamBridge l' (order.thread g request.traceIds u) := by
    rw [← after_cons, hu]
    exact List.foldl_append ..
  rw [hafter]
  exact drawn_le_after l'

/-- Every admitted request publishes under its own trace id, in every history of the thread. -/
theorem trace_survives (g : TraceIdUtil) (order : FilterOrder) (t : TraceThread)
    (earlier : List PongRequest) (request : PongRequest) (hadmitted : request.Admitted) :
    TraceSurvives g order t earlier request := by
  set before := PongController.after g order true earlier t with hbefore
  set thread := order.thread g request.traceIds before with hthread
  obtain ⟨id, hid, hblank, -⟩ := traceId_thread order g before request.traceIds
  have hcarries := message_carries request.msg MappedConstant.responseMsg hid hblank
  have hanswer : (PongController.handle g order true request before).1 =
      .answered MappedConstant.responseMsg
        (some (PongService.message request.msg MappedConstant.responseMsg thread).1) := by
    rw [PongController.handle, filter_eq, ← hthread, hadmitted]
    rfl
  refine ⟨_, _, hanswer, fun h hh hnot => ?_, fun hb => ?_⟩
  · have hown := (thread_of_header order g before hh hnot).1
    exact (Option.some.inj (hid.symm.trans hown)) ▸ hcarries.1
  · obtain ⟨k, hle, hlt, hgen⟩ := thread_of_blank order g before hb
    have hdrawn : (PongController.handle g order true request before).2 = thread :=
      handle_thread true request
    refine ⟨k, hle, hdrawn ▸ hlt, (Option.some.inj (hid.symm.trans hgen)) ▸ hcarries.1, ?_⟩
    rintro hfresh l r l' rfl heq
    rw [hdrawn] at hfresh
    obtain ⟨id', hid', hfrom⟩ := requestId_of_earlier g order true t l l' r
    rw [heq] at hid'
    obtain rfl := Option.some.inj hid'
    rcases hfrom with hheader | ⟨j, hj, hsame⟩
    · exact hfresh.unknown k hlt r (by simp) hheader
    · exact hfresh.distinct j k (hj.trans_le hle) hlt hsame.symm

/-- A request without a header arrives behind one with a header, on a thread with a residual id. -/
theorem trace_survives_noHeader :
    TraceSurvives { hostname := "pong", nextInt := fun k => k } .webTraceFirst
      { mdc := Mdc.clear.put MappedConstant.traceId "residual", drawn := 0 }
      [{ traceIds := some ["ping-1"], msg := some "Hello", now := 0, throttling := .init 1 }]
      { traceIds := none, msg := some "Hello", now := 1, throttling := .init 1 } :=
  trace_survives _ _ _ _ _ (by unfold PongRequest.Admitted; decide +kernel)

end PingPong.Pong
