import PingPong.Feign.OpenFeignClientProxy
import PingPong.TextTools.Strip

/-!
# The registration of Feign clients

`OpenFeignClientsRegister` reads the URL and the path of a client interface off its annotation and checks
the URL. `OpenFeignClientFactoryBean` puts a scheme before a URL without one, and joins the two;
`OpenFeignClientProxy` adds the path of a method.
-/

namespace PingPong.Feign

open Trace TextTools

/-! ## Texts -/

def contains (text part : String) : Bool := text.toList.tails.any part.toList.isPrefixOf

/-! ## The register -/

/-- The parts of a `java.net.URL` that say which server it is of. -/
structure URL where
  protocol : String
  host : String
  deriving DecidableEq, Repr

/-- The attributes of `@OpenFeignClient` that make the URL. -/
structure OpenFeignClient where
  url : String := ""
  path : String := ""

/-- `getUrl` parses the URL: it is not blank and no expression `#{...}`. -/
def validates (url : String) : Bool :=
  !isBlank (some url) && (!startsWith url "#\x7b" || !contains url "\x7d")

/-- `environment` replaces the placeholders of a text by properties, and `newURL` is the constructor of
`java.net.URL`, which throws on a malformed text (`none`). -/
structure OpenFeignClientsRegister where
  environment : String → String
  newURL : String → Option URL

namespace OpenFeignClientsRegister

variable (register : OpenFeignClientsRegister)

/-- `resolve` without a bean factory. -/
def resolve (value : String) : String :=
  if !isBlank (some value) then register.environment value else value

/-- `getUrl(String)`: it throws on a malformed URL (`none`). -/
def checkUrl (url : String) : Option String :=
  if validates url then
    let url := if !contains url "://" then "http://" ++ url else url
    match register.newURL url with
    | none => none
    | some _ => some url
  else some url

def getUrl (attributes : OpenFeignClient) : Option String :=
  register.checkUrl (register.resolve attributes.url)

def getPath (attributes : OpenFeignClient) : String :=
  Feign.getPath (register.resolve attributes.path)

/-- The bean definition of the client; its registration throws with `getUrl`. -/
def registerClient (name : String) (attributes : OpenFeignClient) : Option OpenFeignClientFactoryBean :=
  (register.getUrl attributes).map fun url => { name, url, path := register.getPath attributes }

end OpenFeignClientsRegister

/-! ## The assembled URL -/

/-- The URL of the requests of a method with the path `methodPath`. -/
def OpenFeignClientsRegister.methodUrl (register : OpenFeignClientsRegister) (name : String)
    (attributes : OpenFeignClient) (methodPath : String) : Option String :=
  (register.registerClient name attributes).map fun bean =>
    OpenFeignClientProxy.joinPath bean.getObject.1.url methodPath

/-- The base URL without its trailing slashes, the class path without the slashes at its ends and the
method path without its leading slashes, with one slash between any two of them. -/
def oneSlashEach (base classPath methodPath : List Char) : List Char :=
  let inner := strip '/' classPath
  rstrip '/' base ++ (if inner = [] then [] else '/' :: inner) ++ '/' :: lstrip '/' methodPath

/-- The assembled URL has one slash at each joint. -/
def OneSlash (register : OpenFeignClientsRegister) (name : String) (attributes : OpenFeignClient)
    (methodPath : String) : Prop :=
  ∀ url, register.methodUrl name attributes methodPath = some url →
    url.toList = oneSlashEach (register.resolve attributes.url).toList
      (trim (register.resolve attributes.path).toList) methodPath.toList

/-- At most one slash on the two sides of each joint. Registration adds the leading slash of a class path
and takes one trailing slash away. -/
def SlashesFit (base classPath methodPath : List Char) : Prop :=
  if strip '/' classPath = [] then
    trailing '/' base + (trailing '/' classPath - 1) + leading '/' methodPath ≤ 1
  else
    trailing '/' base = 0 ∧ leading '/' classPath ≤ 1 ∧
      (trailing '/' classPath - 1) + leading '/' methodPath ≤ 1

/-! ## The base URL -/

/-- `getUrl` has validated the URL of the attributes, and `getObject` leaves it as it is: the base URL has
the protocol and the host of the validated URL, and the host is not empty. -/
def BaseAgrees (register : OpenFeignClientsRegister) (name : String) (attributes : OpenFeignClient) :
    Prop :=
  ∃ bean validated based, register.registerClient name attributes = some bean ∧
    validates (register.resolve attributes.url) = true ∧ register.newURL bean.url = some validated ∧
    register.newURL bean.baseUrl = some based ∧ based.protocol = validated.protocol ∧
    based.host = validated.host ∧ based.host ≠ "" ∧ bean.baseUrl = bean.url

/-- The URL is validated, it has no `://` or one of the two schemes in lower case, and there is a host. -/
def KeepsBase (newURL : String → Option URL) (url : String) : Prop :=
  validates url = true ∧
    (contains url "://" = true → startsWith url "http://" = true ∨ startsWith url "https://" = true) ∧
    ∀ u, newURL (if contains url "://" then url else "http://" ++ url) = some u → u.host ≠ ""

end PingPong.Feign
