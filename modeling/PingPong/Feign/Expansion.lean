import PingPong.Feign.OpenFeignClientProxy
import PingPong.TextTools.Placeholder

/-!
# The placeholders of a URL

`OpenFeignClientProxy.invoke` replaces the placeholders of a GET request one after the other. The abstract
counterpart replaces all of them at once.
-/

namespace PingPong.Feign

open TextTools

def braces : Brackets Char := ⟨'\x7b', '\x7d', by decide⟩

/-- The arguments of a call, none of them null, by the parameters of the method: their names are distinct
and have no braces. -/
structure Arguments where
  entries : List (String × String)
  nodup : (entries.map Prod.fst).Nodup
  plain : ∀ entry ∈ entries, braces.Plain entry.1.toList

namespace Arguments

variable (a : Arguments)

/-- The parameters of the method. -/
def parameters : List String := a.entries.map Prod.fst

/-- The arguments as `invoke` gets them. -/
def args : List (Option String) := a.entries.map fun entry => some entry.2

/-- The argument of a parameter. -/
def value (name : List Char) : List Char :=
  match a.entries.find? fun entry => entry.1.toList = name with
  | some entry => entry.2.toList
  | none => []

/-- The template with the placeholders of the parameters `handled` replaced at once, each by the text of
its own argument. -/
def expand (handled : List String) (template : String) : String :=
  .ofList (braces.text a.value (handled.map String.toList)
    (braces.pieces (a.parameters.map String.toList) template.toList))

end Arguments

/-- The text of the URL after `invoke` has handled some entries of the map. -/
def handledUrl (path template : String) (entries : List (String × Option String)) : String :=
  if path.toList.contains '\x7b' then StrUtil.format template entries else template

/-- In whatever order the map iterates over its entries, the text of the URL is the template with exactly
the placeholders of the entries handled so far replaced at once: no text of an argument is expanded again,
and the URL of the request has all placeholders replaced. -/
def ExpandsAtOnce (self : OpenFeignClientProxy) (path : String) (a : Arguments) : Prop :=
  ∀ (lib : Library) (traceId : Option String),
    let template := OpenFeignClientProxy.joinPath self.url path
    let paramMap := lib.iterate (a.parameters.zip a.args)
    (self.httpRequest lib ⟨path, .get⟩ a.parameters a.args traceId).url =
        a.expand a.parameters template ∧
      ∀ k, handledUrl path template (paramMap.take k) =
        a.expand ((paramMap.take k).map Prod.fst) template

/-- The argument is the placeholder of its own parameter. -/
def StandsForItself (entry : String × String) : Prop :=
  entry.2.toList = braces.placeholder entry.1.toList

/-- If the path of the method has a brace: no placeholder comes up in the template when the arguments of
the other parameters take their places. If it has none: the template has no placeholder. A placeholder
does no harm when its argument stands for itself. -/
def Undisturbed (self : OpenFeignClientProxy) (path : String) (a : Arguments) : Prop :=
  let template := OpenFeignClientProxy.joinPath self.url path
  if path.toList.contains '\x7b' then
    ∀ entry ∈ a.entries, StandsForItself entry ∨
      occurrences (braces.placeholder entry.1.toList)
          (a.expand (a.parameters.filter fun name => name ≠ entry.1) template).toList ≤
        occurrences (braces.placeholder entry.1.toList) template.toList
  else
    ∀ entry ∈ a.entries, StandsForItself entry ∨
      occurrences (braces.placeholder entry.1.toList) template.toList = 0

end PingPong.Feign
