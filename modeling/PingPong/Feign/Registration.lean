import PingPong.Feign.OpenFeignClientsRegister
import PingPong.Keyed.LinkedSet
import Mathlib.Data.Finset.Dedup
import Mathlib.Data.Finset.Lattice.Lemmas
import Mathlib.Data.Finset.Sort
import Mathlib.Data.String.Basic

/-!
# The registration of all clients

`OpenFeignClientsRegister.registerBeanDefinitions` scans the packages of `@EnableOpenFeignClients` for
interfaces with `@OpenFeignClient` and hands one bean definition for each of them to the registry. The packages
are in a `HashSet`, the classes in a `LinkedHashSet`, in which two definitions of one class are equal.
-/

namespace PingPong.Feign

open Trace

/-! ## What is scanned -/

/-- `@EnableOpenFeignClients` on the class `className`. The classes of `basePackageClasses` are given by their
names. -/
structure EnableOpenFeignClients where
  className : String
  value : List String := []
  basePackages : List String := []
  basePackageClasses : List String := []

/-- All attributes of `@OpenFeignClient` that are read. `value` is an alias for `name`. -/
structure ClientAttributes extends OpenFeignClient where
  name : String := ""
  fallback : String := "void"
  primary : Bool := true

/-- What the scanner reads of a class; `openFeignClient` are the attributes of its annotation. -/
structure AnnotationMetadata where
  className : String
  isInterface : Bool
  isIndependent : Bool
  isAnnotation : Bool
  openFeignClient : Option ClientAttributes

/-- The scanner and the JDK. `classes` are the classes below a package, which a class path determines by their
names, `iterate` is the order in which a `HashSet` is iterated over, and `uriHost` is the host of a
`java.net.URI`, `none` where the constructor throws or there is none. -/
structure Scanner where
  classes : String → List AnnotationMetadata
  classes_unique : ∀ p p' c c', c ∈ classes p → c' ∈ classes p' → c.className = c'.className → c = c'
  iterate : Finset String → List String
  iterate_nodup : ∀ packages, (iterate packages).Nodup
  mem_iterate : ∀ packages p, p ∈ iterate packages ↔ p ∈ packages
  uriHost : String → Option String

/-- The scanner of a class path whose classes have different names. It iterates over the packages in the order of
their names. -/
def Scanner.ofClassPath (classPath : List AnnotationMetadata)
    (hnames : (classPath.map AnnotationMetadata.className).Nodup) (uriHost : String → Option String) : Scanner where
  classes basePackage :=
    classPath.filter fun c => basePackage = "" || startsWith c.className (basePackage ++ ".")
  classes_unique _ _ _ _ hc hc' hname :=
    List.inj_on_of_nodup_map hnames (List.mem_filter.mp hc).1 (List.mem_filter.mp hc').1 hname
  iterate packages := packages.sort (· ≤ ·)
  iterate_nodup packages := packages.sort_nodup _
  mem_iterate packages _ := packages.mem_sort _
  uriHost

/-- `StringUtils.hasText`. -/
def hasText (text : String) : Bool := !isBlank (some text)

/-- `ClassUtils.getPackageName`: the name before the last dot. -/
def getPackageName (className : String) : String :=
  .ofList (className.toList.rdropWhile (· ≠ '.')).dropLast

def getBasePackages (metadata : EnableOpenFeignClients) : Finset String :=
  let basePackages := (metadata.value.filter hasText).toFinset ∪
    (metadata.basePackages.filter hasText).toFinset ∪ (metadata.basePackageClasses.map getPackageName).toFinset
  if basePackages = ∅ then {getPackageName metadata.className} else basePackages

namespace Scanner

variable (scanner : Scanner)

/-- The classes that the include filter and `isCandidateComponent` accept. -/
def findCandidateComponents (basePackage : String) : List AnnotationMetadata :=
  (scanner.classes basePackage).filter fun c =>
    c.openFeignClient.isSome && (c.isIndependent && !c.isAnnotation)

/-- `candidateComponents` when all packages have been scanned. -/
def candidateComponents (metadata : EnableOpenFeignClients) : LinkedSet AnnotationMetadata.className :=
  (scanner.iterate (getBasePackages metadata)).foldl
    (fun candidates basePackage => candidates.addAll (scanner.findCandidateComponents basePackage)) .empty

/-- `getName(String)`: it throws unless the name is that of a host (`none`). -/
def legalName (name : String) : Option String :=
  if !hasText name then some ""
  else if (scanner.uriHost (withScheme name)).isSome then some name
  else none

end Scanner

/-! ## What is registered -/

/-- A bean definition of `OpenFeignClientFactoryBean` with its property values, and its names. -/
structure BeanDefinitionHolder where
  beanName : String
  bean : OpenFeignClientFactoryBean
  contextId : String
  type : String
  fallback : String
  autowireMode : ℕ
  primary : Bool
  aliases : List String

namespace OpenFeignClientsRegister

variable (register : OpenFeignClientsRegister) (scanner : Scanner)

/-- `@OpenFeignClient` has no `serviceId`. -/
def getName (attributes : ClientAttributes) : Option String :=
  scanner.legalName (register.resolve attributes.name)

/-- `@OpenFeignClient` has no `contextId`. -/
def getContextId (attributes : ClientAttributes) : Option String := register.getName scanner attributes

def eagerlyRegisterFeignClientBeanDefinition (className : String) (attributes : ClientAttributes) :
    Option BeanDefinitionHolder := do
  let name ← register.getName scanner attributes
  let bean ← register.registerClient name attributes.toOpenFeignClient
  let contextId ← register.getContextId scanner attributes
  return {
    beanName := className
    bean
    contextId
    type := className
    fallback := attributes.fallback
    autowireMode := 2
    primary := attributes.primary
    aliases := [contextId ++ "FeignClient"] }

/-- The loop body: an annotated class that is no interface makes it throw (`none`). -/
def registerCandidate (c : AnnotationMetadata) : Option BeanDefinitionHolder := do
  let attributes ← c.openFeignClient
  if c.isInterface then register.eagerlyRegisterFeignClientBeanDefinition scanner c.className attributes else none

/-- The loop over the candidates. `registered` has been handed to the registry. -/
def registerAll : List AnnotationMetadata → List BeanDefinitionHolder → Option (List BeanDefinitionHolder)
  | [], registered => some registered
  | c :: candidates, registered => do
    let holder ← register.registerCandidate scanner c
    registerAll candidates (registered ++ [holder])

def registerBeanDefinitions (metadata : EnableOpenFeignClients) : Option (List BeanDefinitionHolder) :=
  register.registerAll scanner (scanner.candidateComponents metadata).elems []

end OpenFeignClientsRegister

/-! ## Exactness -/

/-- A client interface, or a class that claims to be one, in a package that is scanned. -/
def Scanner.IsClient (scanner : Scanner) (metadata : EnableOpenFeignClients) (c : AnnotationMetadata) : Prop :=
  ∃ p ∈ getBasePackages metadata, c ∈ scanner.classes p ∧ c.openFeignClient.isSome = true ∧
    c.isIndependent = true ∧ c.isAnnotation = false

/-- The attributes are those of a client: it has no name or that of a host, and `getUrl` accepts its URL. -/
def OpenFeignClientsRegister.Accepts (register : OpenFeignClientsRegister) (scanner : Scanner)
    (attributes : ClientAttributes) : Prop :=
  (register.getName scanner attributes).isSome = true ∧ (register.getUrl attributes.toOpenFeignClient).isSome = true

/-- Registration returns unless a client is no interface or its attributes are not accepted. Then there is one
definition for each client, under the name of its class and of this type. -/
structure RegistersClients (register : OpenFeignClientsRegister) (scanner : Scanner)
    (metadata : EnableOpenFeignClients) : Prop where
  returns : (register.registerBeanDefinitions scanner metadata).isSome = true ↔
    ∀ c, scanner.IsClient metadata c → c.isInterface = true ∧
      ∀ attributes, c.openFeignClient = some attributes → register.Accepts scanner attributes
  names : ∀ holders, register.registerBeanDefinitions scanner metadata = some holders →
    (holders.map BeanDefinitionHolder.beanName).Nodup
  clients : ∀ holders, register.registerBeanDefinitions scanner metadata = some holders →
    ∀ holder, holder ∈ holders ↔ ∃ c attributes, scanner.IsClient metadata c ∧ c.openFeignClient = some attributes ∧
      register.eagerlyRegisterFeignClientBeanDefinition scanner c.className attributes = some holder

end PingPong.Feign
