import PingPong.Feign.Proofs.InvokeProofs
import PingPong.Ping.PingController
import PingPong.Trace.Proofs.TaskProofs

/-!
# Proofs: trace ids of the requests of Ping

`WebTraceFilter` does not read the headers and keeps the id it finds, so every request that leaves on a
thread has the id the thread had before the first of them, or the one generated for the first
(`after_cons`, `controller_send_request`).
-/

namespace PingPong.Ping

open Feign Trace

variable {client : OpenFeignClientProxy} {lib : Library} {g : TraceIdUtil} {env : SendEnv}
  {request : PingRequest} {requests : List PingRequest} {t : TraceThread} {sent : HttpRequest}

/-! ## The client -/

/-- The request that `PingClient.send(msg)` sends. -/
def clientRequest (client : OpenFeignClientProxy) (lib : Library) (msg : Option String)
    (traceId : Option String) : HttpRequest :=
  client.httpRequest lib ⟨"send/{msg}", .get⟩ ["msg"] [msg] traceId

/-! ## One request -/

/-- With a slot and a message, `send` sends one request under the trace id of the thread. -/
theorem send_of_message {msg : Option String} (hlocked : env.locked = true)
    (hmsg : env.message = some msg) :
    (PingService.send client lib g env t).1.request =
      some (clientRequest client lib msg (t.ensureTraceId g).traceId) ∧
    (PingService.send client lib g env t).2 = t.ensureTraceId g := by
  obtain ⟨hsent, hthread⟩ : (client.invoke lib g PingClient.send [msg] env.execute t).1.sent =
      some (clientRequest client lib msg (t.ensureTraceId g).traceId) ∧
      (client.invoke lib g PingClient.send [msg] env.execute t).2 = t.ensureTraceId g :=
    invoke_of_mapped rfl rfl [msg] env.execute
  simp only [PingService.send, hlocked, hmsg, if_true]
  exact ⟨hsent, hthread⟩

theorem send_of_not_goesOut (h : ¬ (env.locked = true ∧ env.message ≠ none)) :
    (PingService.send client lib g env t).1.request = none ∧
    (PingService.send client lib g env t).2 = t := by
  unfold PingService.send
  by_cases hlocked : env.locked = true
  · have hmsg : env.message = none := by
      by_contra hmsg
      exact h ⟨hlocked, hmsg⟩
    rw [if_pos hlocked, hmsg]
    exact ⟨rfl, rfl⟩
  · rw [if_neg hlocked]
    exact ⟨rfl, rfl⟩

theorem ensureTraceId_ensureTraceId : (t.ensureTraceId g).ensureTraceId g = t.ensureTraceId g :=
  ensureTraceId_of_not_blank isBlank_ensureTraceId

/-- Every request leaves the thread with a trace id, its own if it had one. -/
theorem controller_send_thread (request : PingRequest) :
    (PingController.send client lib g request t).2 = t.ensureTraceId g := by
  show (PingService.send client lib g request.env (t.ensureTraceId g)).2 = _
  by_cases hout : request.env.locked = true ∧ request.env.message ≠ none
  · obtain ⟨msg, hmsg⟩ := Option.ne_none_iff_exists'.mp hout.2
    rw [(send_of_message hout.1 hmsg).2, ensureTraceId_ensureTraceId]
  · rw [(send_of_not_goesOut hout).2]

/-- A request goes out exactly when its call gets a slot and a message, and under the id of the thread. -/
theorem controller_send_request (request : PingRequest) :
    (PingController.send client lib g request t).1.request = some sent →
      request.GoesOut ∧ sent.traceId = (t.ensureTraceId g).traceId := by
  intro hsent
  have hsend : (PingService.send client lib g request.env (t.ensureTraceId g)).1.request = some sent :=
    hsent
  by_cases hout : request.GoesOut
  · obtain ⟨msg, hmsg⟩ := Option.ne_none_iff_exists'.mp hout.2
    rw [(send_of_message hout.1 hmsg).1] at hsend
    obtain rfl := Option.some.inj hsend
    exact ⟨hout, by rw [clientRequest, httpRequest_traceId, ensureTraceId_ensureTraceId]⟩
  · rw [(send_of_not_goesOut hout).1] at hsend
    cases hsend

theorem exists_sent_of_goesOut (client : OpenFeignClientProxy) (lib : Library) (g : TraceIdUtil)
    (t : TraceThread) (hout : request.GoesOut) :
    ∃ sent, (PingController.send client lib g request t).1.request = some sent := by
  obtain ⟨msg, hmsg⟩ := Option.ne_none_iff_exists'.mp hout.2
  exact ⟨_, (send_of_message hout.1 hmsg).1⟩

/-- The thread has a trace id behind the first request, and keeps it. -/
theorem after_cons (request : PingRequest) (requests : List PingRequest) :
    PingController.after client lib g (request :: requests) t = t.ensureTraceId g := by
  induction requests generalizing t request with
  | nil => exact controller_send_thread request
  | cons next requests ih =>
    show PingController.after client lib g (next :: requests)
      (PingController.send client lib g request t).2 = _
    rw [controller_send_thread, ih, ensureTraceId_ensureTraceId]

theorem after_append_singleton (l : List PingRequest) (request : PingRequest) :
    PingController.after client lib g (l ++ [request]) t = t.ensureTraceId g := by
  cases l with
  | nil => exact after_cons request []
  | cons first l => exact after_cons first (l ++ [request])

theorem ensureTraceId_after (l : List PingRequest) :
    (PingController.after client lib g l t).ensureTraceId g = t.ensureTraceId g := by
  cases l with
  | nil => rfl
  | cons first l => rw [after_cons, ensureTraceId_ensureTraceId]

/-! ## Isolation -/

/-- What isolation asks of the requests, in terms of the thread before the first of them. -/
theorem requestsIsolated_iff_forall : RequestsIsolated client lib g t requests ↔
    ∀ l request l', requests = l ++ request :: l' → request.GoesOut →
      (∀ h, request.traceId = some h → isBlank (some h) = false →
        (t.ensureTraceId g).traceId = some h) ∧
      (isBlank request.traceId = true → ∃ k,
        (PingController.after client lib g l t).drawn ≤ k ∧ k < (t.ensureTraceId g).drawn ∧
        (t.ensureTraceId g).traceId = some (g.generateTraceId k)) ∧
      ∀ k, t.drawn ≤ k → k < (PingController.after client lib g l t).drawn →
        (t.ensureTraceId g).traceId ≠ some (g.generateTraceId k) := by
  constructor
  · intro h l request l' heq hout
    obtain ⟨sent, hsent⟩ := exists_sent_of_goesOut client lib g
      (PingController.after client lib g l t) hout
    have hid := (controller_send_request request hsent).2
    rw [ensureTraceId_after] at hid
    obtain ⟨hheader, hgen, hsep⟩ := h l request l' sent heq hsent
    rw [after_append_singleton, hid] at hgen
    rw [hid] at hheader hsep
    exact ⟨hheader, hgen, hsep⟩
  · intro h l request l' sent heq hsent
    obtain ⟨hout, hid⟩ := controller_send_request request hsent
    rw [ensureTraceId_after] at hid
    obtain ⟨hheader, hgen, hsep⟩ := h l request l' heq hout
    refine ⟨?_, ?_, ?_⟩
    · rw [hid]; exact hheader
    · rw [after_append_singleton, hid]; exact hgen
    · rw [hid]; exact hsep

/-- On a thread without a trace id, the first request generates the one of all. -/
theorem requestsIsolated_iff_of_blank (hblank : isBlank t.traceId = true)
    (hunknown : ∀ k, ∀ request ∈ requests, request.traceId ≠ some (g.generateTraceId k)) :
    RequestsIsolated client lib g t requests ↔
      ∀ l request l', requests = l ++ request :: l' → request.GoesOut →
        l = [] ∧ isBlank request.traceId = true := by
  rw [requestsIsolated_iff_forall, ensureTraceId_of_blank hblank, traceId_putGenerated,
    drawn_putGenerated]
  refine forall_congr' fun l => forall_congr' fun request => forall_congr' fun l' =>
    forall_congr' fun heq => forall_congr' fun hout => ?_
  constructor
  · rintro ⟨hheader, -, hsep⟩
    constructor
    · cases l with
      | nil => rfl
      | cons first l =>
        have hdrawn : (PingController.after client lib g (first :: l) t).drawn = t.drawn + 1 := by
          rw [after_cons, ensureTraceId_of_blank hblank, drawn_putGenerated]
        exact absurd rfl (hsep t.drawn le_rfl (by omega))
    · by_contra hnot
      obtain ⟨h, hh, hhnot⟩ := exists_of_not_blank hnot
      have hmem : request ∈ requests := by rw [heq]; simp
      exact hunknown t.drawn request hmem (hh.trans (hheader h hh hhnot).symm)
  · rintro ⟨rfl, hb⟩
    refine ⟨fun h hh hnot => ?_, fun _ => ⟨t.drawn, le_rfl, by omega, rfl⟩, fun k hle hlt => ?_⟩
    · rw [hh, hnot] at hb
      cases hb
    · have hdrawn : (PingController.after client lib g [] t).drawn = t.drawn := rfl
      omega

/-- On a thread with a trace id, all requests go out under it. -/
theorem requestsIsolated_iff_of_id (hid : isBlank t.traceId = false) :
    RequestsIsolated client lib g t requests ↔
      ∀ request ∈ requests, request.GoesOut → request.traceId = t.traceId := by
  have hafter : ∀ l, PingController.after client lib g l t = t := by
    intro l
    cases l with
    | nil => rfl
    | cons first l => rw [after_cons, ensureTraceId_of_not_blank hid]
  rw [requestsIsolated_iff_forall, ensureTraceId_of_not_blank hid]
  constructor
  · intro h request hmem hout
    obtain ⟨l, l', heq⟩ := List.append_of_mem hmem
    obtain ⟨hheader, hgen, -⟩ := h l request l' heq hout
    have hnot : ¬ isBlank request.traceId = true := by
      intro hb
      obtain ⟨k, hle, hlt, -⟩ := hgen hb
      rw [hafter] at hle
      omega
    obtain ⟨x, hx, hxnot⟩ := exists_of_not_blank hnot
    exact hx.trans (hheader x hx hxnot).symm
  · intro h l request l' heq hout
    have hsame := h request (by rw [heq]; simp) hout
    refine ⟨fun h' hh _ => hsame.symm.trans hh, fun hb => ?_, fun k hle hlt => ?_⟩
    · rw [hsame, hid] at hb
      cases hb
    · rw [hafter] at hlt
      omega

/-- The requests of a thread are isolated exactly when the headers agree with what the filter does. -/
theorem requestsIsolated_iff (client : OpenFeignClientProxy) (lib : Library) (g : TraceIdUtil)
    (t : TraceThread) (requests : List PingRequest)
    (hunknown : ∀ k, ∀ request ∈ requests, request.traceId ≠ some (g.generateTraceId k)) :
    RequestsIsolated client lib g t requests ↔ HeadersAgree t requests := by
  unfold HeadersAgree
  split
  · rename_i hblank
    exact requestsIsolated_iff_of_blank hblank hunknown
  · rename_i hnot
    exact requestsIsolated_iff_of_id (by simpa using hnot)

/-- A map that iterates in the order of insertion. -/
def inOrder : Library where
  iterate entries := entries
  iterate_perm _ := List.Perm.refl _
  toJsonStr _ := "[]"

/-- A call that sends its message and gets no answer. -/
def unanswered : SendEnv where
  locked := true
  message := some (some "Hello")
  execute _ := none

/-- Two requests of one client, on a thread that has its trace id. -/
def sameClient : List PingRequest := [⟨some ["client-7"], unanswered⟩, ⟨some ["client-7"], unanswered⟩]

theorem requestsIsolated_iff_sameClient :
    RequestsIsolated ⟨"pong", "http://localhost:8001/pong"⟩ inOrder { hostname := "ping", nextInt := fun k => k }
      ⟨Mdc.clear.put MappedConstant.traceId "client-7", 0⟩ sameClient ↔
    HeadersAgree ⟨Mdc.clear.put MappedConstant.traceId "client-7", 0⟩ sameClient := by
  refine requestsIsolated_iff _ _ _ _ _ fun k request hmem hid => ?_
  obtain rfl : request = ⟨some ["client-7"], unanswered⟩ := by simpa [sameClient] using hmem
  have hfirst := congrArg (fun s => s.toList.head?) (Option.some.inj hid)
  simp [TraceIdUtil.generateTraceId] at hfirst

/-- The header of a request is ignored. -/
theorem not_requestsIsolated_ownHeader :
    ¬ RequestsIsolated ⟨"pong", "http://localhost:8001/pong"⟩ inOrder
      { hostname := "ping", nextInt := fun k => k } ⟨.clear, 0⟩ [⟨some ["client-7"], unanswered⟩] := by
  intro h
  have hid := (h [] _ [] _ rfl rfl).header "client-7" rfl (by decide)
  revert hid
  decide

/-! ## Ticks -/

theorem scheduled_thread (env : SendEnv) :
    (PingController.scheduled client lib g env t).2 = (PingService.send client lib g env t).2 := by
  unfold PingController.scheduled
  rcases PingService.send client lib g env t with ⟨⟨exit | _, request⟩, u⟩ <;> rfl

/-- A tick leaves the trace id of its thread in the MDC, however it ends. -/
theorem scheduled_thread_of_id (env : SendEnv) (hid : isBlank t.traceId = false) :
    (PingController.scheduled client lib g env t).2 = t := by
  rw [scheduled_thread]
  by_cases hout : env.locked = true ∧ env.message ≠ none
  · obtain ⟨msg, hmsg⟩ := Option.ne_none_iff_exists'.mp hout.2
    rw [(send_of_message hout.1 hmsg).2, ensureTraceId_of_not_blank hid]
  · exact (send_of_not_goesOut hout).2

/-- A tick as a task of the scheduler. -/
def tick (client : OpenFeignClientProxy) (lib : Library) (g : TraceIdUtil) (env : SendEnv) :
    TaskRunnable where
  traceId := none
  task := {
    run := PingController.scheduled client lib g env
    drawn_le := fun t => by
      rw [scheduled_thread]
      by_cases hout : env.locked = true ∧ env.message ≠ none
      · obtain ⟨msg, hmsg⟩ := Option.ne_none_iff_exists'.mp hout.2
        rw [(send_of_message hout.1 hmsg).2]
        exact drawn_le_ensureTraceId
      · rw [(send_of_not_goesOut hout).2] }

/-- Every tick returns when it runs under a generated id of its own. -/
def TicksReturn (client : OpenFeignClientProxy) (lib : Library) (g : TraceIdUtil) :
    List SendEnv → TraceThread → Prop
  | [], _ => True
  | env :: envs, t =>
    (PingController.scheduled client lib g env (t.putGenerated g)).1 = .returned ∧
      TicksReturn client lib g envs (t.putGenerated g).clear

/-- No tick empties the MDC, so one that throws passes its id on to the next. -/
theorem ticksIsolated_iff (envs : List SendEnv) (ht : t.mdc = .clear) :
    TasksIsolated g (envs.map (tick client lib g)) t ↔ TicksReturn client lib g envs t := by
  induction envs generalizing t with
  | nil => exact ⟨fun _ => trivial, fun _ l _ _ heq => absurd heq (by simp)⟩
  | cons env envs ih =>
    have hstart : (tick client lib g env).start g t = t.putGenerated g := start_of_clear ht
    have hthread : (PingController.scheduled client lib g env (t.putGenerated g)).2 =
        t.putGenerated g := by
      refine scheduled_thread_of_id env ?_
      rw [traceId_putGenerated, isBlank_generateTraceId]
    have hmdc : (t.putGenerated g).mdc ≠ .clear := by
      intro hclear
      have hnone : (t.putGenerated g).traceId = none := by rw [TraceThread.traceId, hclear]; rfl
      rw [traceId_putGenerated] at hnone
      cases hnone
    have hcleared : ((tick client lib g env).run g t).2.mdc = .clear ↔
        (PingController.scheduled client lib g env (t.putGenerated g)).1 = .returned := by
      rw [run_mdc_eq_clear_iff, hstart]
      show ((PingController.scheduled client lib g env (t.putGenerated g)).1 = .threw →
        (PingController.scheduled client lib g env (t.putGenerated g)).2.mdc = .clear) ↔ _
      rw [hthread]
      cases (PingController.scheduled client lib g env (t.putGenerated g)).1 with
      | returned => simp
      | threw => simp [hmdc]
    rw [List.map_cons, tasksIsolated_cons, runsIsolated_iff ht, hcleared]
    refine and_congr_right fun hreturned => ?_
    rw [run_eq_of_cleared (hcleared.mpr hreturned), hstart]
    show TasksIsolated g _ (PingController.scheduled client lib g env (t.putGenerated g)).2.clear ↔ _
    rw [hthread]
    exact ih rfl

end PingPong.Ping
