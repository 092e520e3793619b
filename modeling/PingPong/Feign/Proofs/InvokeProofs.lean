import PingPong.Feign.Expansion

/-!
# Proofs: the request of a call

A call of a mapped method sends one request, `httpRequest`. Its method is GET or POST, the placeholders of
its URL are replaced in a GET request only, and it has the trace id of the thread.
-/

namespace PingPong.Feign

open Trace

variable {self : OpenFeignClientProxy} {lib : Library} {g : TraceIdUtil} {t : TraceThread}

/-! ## The request -/

/-- The form of a request changes neither its URL nor its method nor its trace id. -/
theorem addForm_keeps (built : HttpRequest) (entries : List (String × Option String)) :
    (built.addForm entries).url = built.url ∧ (built.addForm entries).method = built.method ∧
      (built.addForm entries).traceId = built.traceId := by
  unfold HttpRequest.addForm
  induction entries generalizing built with
  | nil => exact ⟨rfl, rfl, rfl⟩
  | cons entry entries ih =>
    rw [List.foldl_cons]
    rcases entry with ⟨name, _ | value⟩
    · exact ih built
    · exact ih { built with body := none, form := built.form ++ [(name, value)] }

theorem httpRequest_method (self : OpenFeignClientProxy) (lib : Library) (request : Request)
    (parameters : List String) (args : List (Option String)) (traceId : Option String) :
    (self.httpRequest lib request parameters args traceId).method =
      if request.method = .get then .get else .post := by
  unfold OpenFeignClientProxy.httpRequest
  rw [(addForm_keeps _ _).2.1]
  split
  · rfl
  · rfl

/-- The placeholders of a path are replaced in a GET request only. -/
theorem httpRequest_url (self : OpenFeignClientProxy) (lib : Library) (request : Request)
    (parameters : List String) (args : List (Option String)) (traceId : Option String) :
    (self.httpRequest lib request parameters args traceId).url =
      if request.method = .get then
        handledUrl request.path (OpenFeignClientProxy.joinPath self.url request.path)
          (lib.iterate (parameters.zip args))
      else OpenFeignClientProxy.joinPath self.url request.path := by
  unfold OpenFeignClientProxy.httpRequest
  rw [(addForm_keeps _ _).1]
  split
  · rfl
  · rfl

theorem httpRequest_traceId (self : OpenFeignClientProxy) (lib : Library) (request : Request)
    (parameters : List String) (args : List (Option String)) (traceId : Option String) :
    (self.httpRequest lib request parameters args traceId).traceId = traceId := by
  unfold OpenFeignClientProxy.httpRequest
  rw [(addForm_keeps _ _).2.2]
  split
  · rfl
  · rfl

/-! ## Calls -/

/-- A mapped method sends one request, and the thread has a trace id behind it. -/
theorem invoke_of_mapped {method : Method} {mapped : Request} (hobject : method.ofObject = false)
    (hmapped : getRequest method = .ok (some mapped)) (args : List (Option String))
    (execute : HttpRequest → Option FeignResponse) :
    (self.invoke lib g method args execute t).1.sent =
      some (self.httpRequest lib mapped method.parameters args (t.ensureTraceId g).traceId) ∧
    (self.invoke lib g method args execute t).2 = t.ensureTraceId g := by
  unfold OpenFeignClientProxy.invoke
  rw [hobject, if_neg Bool.false_ne_true, hmapped]
  dsimp only
  cases execute (self.httpRequest lib mapped method.parameters args (t.ensureTraceId g).traceId) with
  | none => exact ⟨rfl, rfl⟩
  | some res => exact ⟨rfl, rfl⟩

/-- A call that fails in `getRequest` sends nothing. -/
theorem invoke_of_error {method : Method} {failure : Failure} (hobject : method.ofObject = false)
    (hfailed : getRequest method = .error failure) (args : List (Option String))
    (execute : HttpRequest → Option FeignResponse) :
    (self.invoke lib g method args execute t).1.sent = none := by
  unfold OpenFeignClientProxy.invoke
  rw [hobject, if_neg Bool.false_ne_true, hfailed]
  rfl

end PingPong.Feign
