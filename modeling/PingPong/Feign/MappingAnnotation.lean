import PingPong.Feign.Expansion

/-!
# Mapping annotations

An interface method is mapped by one of five annotations. `value` and `path` are aliases for the list of
its paths, and `@RequestMapping` has a list of methods. `Method.getAnnotation` returns the attributes as
they are written: the aliases are not merged.
-/

namespace PingPong.Feign

/-- The attribute that gives the paths. -/
inductive PathAttribute
  | value
  | path
  deriving DecidableEq, Repr

inductive MappingKind
  | requestMapping (method : List RequestMethod)
  | getMapping
  | postMapping
  | putMapping
  | deleteMapping
  deriving DecidableEq, Repr

/-- A mapping annotation as it is written at a method. -/
structure MappingAnnotation where
  kind : MappingKind
  pathAttribute : PathAttribute
  paths : List String
  deriving DecidableEq, Repr

namespace MappingAnnotation

variable (a : MappingAnnotation)

/-! ## What reflection shows -/

/-- `value()`. -/
def value : List String :=
  match a.pathAttribute with
  | .value => a.paths
  | .path => []

/-- The method of a client interface that has this annotation only. -/
def method (parameters : List String) : Method where
  ofObject := false
  requestMapping :=
    match a.kind with
    | .requestMapping method => some ⟨a.value, method⟩
    | _ => none
  getMapping := if a.kind = .getMapping then some a.value else none
  postMapping := if a.kind = .postMapping then some a.value else none
  putMapping := if a.kind = .putMapping then some a.value else none
  deleteMapping := if a.kind = .deleteMapping then some a.value else none
  parameters := parameters

/-! ## What the annotation declares -/

/-- The first verb; `none` if any verb will do. -/
def declared : Option RequestMethod :=
  match a.kind with
  | .requestMapping method => method.head?
  | .getMapping => some .get
  | .postMapping => some .post
  | .putMapping => some .put
  | .deleteMapping => some .delete

/-- The URL of the first path, and the base URL if there is none. In a GET request the placeholders of the
path are replaced by the arguments. -/
def target (self : OpenFeignClientProxy) (lib : Library) (verb : RequestMethod)
    (parameters : List String) (args : List (Option String)) : String :=
  match a.paths.head? with
  | none => self.url
  | some path =>
    let template := OpenFeignClientProxy.joinPath self.url path
    if verb = .get then handledUrl path template (lib.iterate (parameters.zip args)) else template

/-- A call of the method sends one request, with the declared verb and to the first declared path. -/
def Honoured (self : OpenFeignClientProxy) (lib : Library) (g : Trace.TraceIdUtil)
    (parameters : List String) (args : List (Option String))
    (execute : HttpRequest → Option FeignResponse) (t : Trace.TraceThread) : Prop :=
  ∃ request, (self.invoke lib g (a.method parameters) args execute t).1.sent = some request ∧
    (∀ verb, a.declared = some verb → request.method = verb) ∧
    request.url = a.target self lib request.method parameters args

/-- `value` gives at least one path, and the first verb is GET or POST. -/
def Supported : Prop :=
  a.pathAttribute = .value ∧ a.paths ≠ [] ∧ (a.declared = some .get ∨ a.declared = some .post)

end MappingAnnotation

end PingPong.Feign
