import PingPong.Feign.MappingAnnotation
import PingPong.Feign.Proofs.ExpansionProofs

/-!
# Proofs: mapping annotations

`getRequest` takes the first element of `value` and the first of the verbs it reads (`getRequest_method`).
It reads POST for `@PutMapping` and `@DeleteMapping`, and `invoke` makes a POST request of everything that
is not GET.
-/

namespace PingPong.Feign

open Trace

namespace MappingAnnotation

variable {a : MappingAnnotation} {self : OpenFeignClientProxy} {lib : Library} {g : TraceIdUtil}
  {parameters : List String} {args : List (Option String)} {execute : HttpRequest → Option FeignResponse}
  {t : TraceThread} {path : String} {paths : List String} {verb : RequestMethod}
  {verbs : List RequestMethod}

/-! ## The request of a method -/

/-- The verbs that `getRequest` reads. -/
def read (a : MappingAnnotation) : List RequestMethod :=
  match a.kind with
  | .requestMapping method => method
  | .getMapping => [.get]
  | _ => [.post]

theorem getRequest_method (a : MappingAnnotation) (parameters : List String) :
    getRequest (a.method parameters) = do
      let path ← first a.value
      let verb ← first a.read
      return some ⟨path, verb⟩ := by
  rcases a with ⟨kind, pathAttribute, paths⟩
  cases kind <;> rfl

/-! ## Calls of a mapped method -/

/-- A first path and a first verb give the request. -/
theorem sent_of_first (hvalue : a.value = path :: paths) (hread : a.read = verb :: verbs) :
    (self.invoke lib g (a.method parameters) args execute t).1.sent =
      some (self.httpRequest lib ⟨path, verb⟩ parameters args (t.ensureTraceId g).traceId) := by
  have hrequest : getRequest (a.method parameters) = .ok (some ⟨path, verb⟩) := by
    rw [getRequest_method, hvalue, hread]
    rfl
  exact (invoke_of_mapped rfl hrequest args execute).1

/-- An empty array fails before anything is sent. -/
theorem sent_of_empty (h : a.value = [] ∨ a.read = []) :
    (self.invoke lib g (a.method parameters) args execute t).1.sent = none := by
  have hrequest : getRequest (a.method parameters) = .error .arrayIndexOutOfBounds := by
    rw [getRequest_method]
    rcases h with h | h
    · rw [h]
      rfl
    · rw [h]
      cases a.value <;> rfl
  exact invoke_of_error rfl hrequest args execute

theorem paths_of_value (hvalue : a.value = path :: paths) :
    a.pathAttribute = .value ∧ a.paths = path :: paths := by
  unfold value at hvalue
  split at hvalue
  · rename_i h
    exact ⟨h, hvalue⟩
  · cases hvalue

/-- The request goes to the first path of `value`, which is the first declared one. -/
theorem url_eq_target (hpaths : a.paths = path :: paths) (traceId : Option String) :
    (self.httpRequest lib ⟨path, verb⟩ parameters args traceId).url =
      a.target self lib (self.httpRequest lib ⟨path, verb⟩ parameters args traceId).method parameters
        args := by
  rw [httpRequest_url, httpRequest_method]
  unfold target
  rw [hpaths]
  by_cases hget : verb = .get
  · simp [hget]
  · simp [hget]

/-- A verb that is sent as it is declared. -/
theorem verb_sent_iff (hread : a.read = verb :: verbs) :
    (∀ wanted, a.declared = some wanted → (if verb = .get then RequestMethod.get else .post) = wanted) ↔
      a.declared = some .get ∨ a.declared = some .post := by
  rcases a with ⟨kind, pathAttribute, paths⟩
  cases kind with
  | requestMapping method =>
    obtain rfl : method = verb :: verbs := hread
    cases verb <;> simp [declared]
  | _ =>
    obtain ⟨rfl, -⟩ := List.cons.inj hread
    simp [declared]

theorem read_ne_nil (h : a.declared = some .get ∨ a.declared = some .post) : a.read ≠ [] := by
  rcases a with ⟨kind, pathAttribute, paths⟩
  cases kind with
  | requestMapping method =>
    rintro rfl
    rcases h with h | h
    · cases h
    · cases h
  | _ => exact List.cons_ne_nil _ _

/-- A mapping annotation is honoured if and only if `value` gives at least one path and the first verb is
GET or POST. -/
theorem honoured_iff (self : OpenFeignClientProxy) (lib : Library) (g : TraceIdUtil)
    (a : MappingAnnotation) (parameters : List String) (args : List (Option String))
    (execute : HttpRequest → Option FeignResponse) (t : TraceThread) :
    a.Honoured self lib g parameters args execute t ↔ a.Supported := by
  constructor
  · rintro ⟨request, hsent, hverb, -⟩
    cases hvalue : a.value with
    | nil =>
      rw [sent_of_empty (Or.inl hvalue)] at hsent
      cases hsent
    | cons path paths =>
      cases hread : a.read with
      | nil =>
        rw [sent_of_empty (Or.inr hread)] at hsent
        cases hsent
      | cons verb verbs =>
        rw [sent_of_first hvalue hread] at hsent
        obtain rfl := Option.some.inj hsent
        obtain ⟨hattribute, hpaths⟩ := paths_of_value hvalue
        rw [httpRequest_method] at hverb
        exact ⟨hattribute, by rw [hpaths]; exact List.cons_ne_nil _ _, (verb_sent_iff hread).mp hverb⟩
  · rintro ⟨hattribute, hpaths, hverb⟩
    obtain ⟨path, paths, hpaths⟩ := List.exists_cons_of_ne_nil hpaths
    obtain ⟨verb, verbs, hread⟩ := List.exists_cons_of_ne_nil (read_ne_nil hverb)
    have hvalue : a.value = path :: paths := by
      unfold value
      rw [hattribute]
      exact hpaths
    refine ⟨_, sent_of_first hvalue hread, ?_, url_eq_target hpaths _⟩
    rw [httpRequest_method]
    exact (verb_sent_iff hread).mpr hverb

/-- A method that is mapped to PUT. -/
def putItem : MappingAnnotation := ⟨.putMapping, .value, ["item"]⟩

/-- It sends a POST request. -/
theorem not_honoured_putItem :
    ¬ putItem.Honoured ⟨"items", "http://localhost:8001"⟩ (ordered [] [] (.refl _)) ⟨"host", fun _ => 0⟩
      [] [] (fun _ => some ⟨some 200, some ""⟩) ⟨.clear, 0⟩ := by
  rintro ⟨request, hsent, hverb, -⟩
  have hput : request.method = .put := hverb .put rfl
  have hvalue : putItem.value = "item" :: [] := rfl
  have hread : putItem.read = .post :: [] := rfl
  rw [sent_of_first hvalue hread] at hsent
  obtain rfl := Option.some.inj hsent
  rw [httpRequest_method] at hput
  cases hput

end MappingAnnotation

end PingPong.Feign
