import PingPong.TextTools.Replace
import PingPong.Trace.TraceThread
import Mathlib.Logic.Function.Iterate

/-!
# The Feign client

`OpenFeignClientFactoryBean` joins the URL and the class path of a client interface, and
`OpenFeignClientProxy.invoke` turns a call of an interface method into an HTTP request: the method
path is appended to the URL, in a GET request the placeholders of the text are replaced by the
arguments, and the trace id of the thread goes into a header.
-/

namespace PingPong.Feign

open Trace

/-! ## Texts -/

def startsWith (text start : String) : Bool := start.toList.isPrefixOf text.toList

def startsWithSlash (s : String) : Bool := s.toList.head? == some '/'

def endsWithSlash (s : String) : Bool := s.toList.getLast? == some '/'

/-- `String.trim`. -/
def trim (text : List Char) : List Char :=
  let isTrimmed := fun c : Char => decide (c.toNat ≤ 0x20)
  (text.dropWhile isTrimmed).rdropWhile isTrimmed

/-- A text without one of the two schemes gets the first one. -/
def withScheme (text : String) : String :=
  if !startsWith text "http://" && !startsWith text "https://" then "http://" ++ text else text

/-- `StrUtil.replace`. -/
def StrUtil.replace (text searchStr replacement : String) : String :=
  .ofList (TextTools.replaceAll searchStr.toList replacement.toList text.toList)

/-- `StrUtil.format(template, map)`: the entries are replaced one after the other, in the order in which
the map iterates over them, and null values are skipped. -/
def StrUtil.format (template : String) (entries : List (String × Option String)) : String :=
  entries.foldl (fun text entry =>
    match entry.2 with
    | none => text
    | some value => replace text ("\x7b" ++ entry.1 ++ "\x7d") value) template

/-! ## Interface methods -/

/-- Spring's `RequestMethod`. -/
inductive RequestMethod
  | get | head | post | put | patch | delete | options | trace
  deriving DecidableEq, Repr

/-- `@RequestMapping`: its paths and methods. -/
structure RequestMapping where
  value : List String
  method : List RequestMethod

/-- What `invoke` reads of a `java.lang.reflect.Method`: whether `Object` declares it, its mapping
annotations (the `value` of the short ones), and the names of its parameters. -/
structure Method where
  ofObject : Bool
  requestMapping : Option RequestMapping
  getMapping : Option (List String)
  postMapping : Option (List String)
  putMapping : Option (List String)
  deleteMapping : Option (List String)
  parameters : List String

structure Request where
  path : String
  method : RequestMethod
  deriving DecidableEq, Repr

/-- What `invoke` may throw. -/
inductive Failure
  | arrayIndexOutOfBounds
  | httpException
  deriving DecidableEq, Repr

/-- `array[0]`. -/
def first {α : Type} (array : List α) : Except Failure α :=
  match array with
  | [] => .error .arrayIndexOutOfBounds
  | x :: _ => .ok x

/-- `getRequest`: null for a method without a mapping annotation. -/
def getRequest (method : Method) : Except Failure (Option Request) :=
  match method.requestMapping with
  | some annotation => do
    let path ← first annotation.value
    let verb ← first annotation.method
    return some ⟨path, verb⟩
  | none =>
    match method.getMapping with
    | some value => do return some ⟨← first value, .get⟩
    | none =>
      match method.postMapping with
      | some value => do return some ⟨← first value, .post⟩
      | none =>
        match method.putMapping with
        | some value => do return some ⟨← first value, .post⟩
        | none =>
          match method.deleteMapping with
          | some value => do return some ⟨← first value, .post⟩
          | none => return none

/-! ## Requests -/

/-- An HTTP request as `invoke` builds it. `url` is the text given to `HttpUtil`. -/
structure HttpRequest where
  method : RequestMethod
  url : String
  body : Option String
  traceId : Option String
  form : List (String × String)
  deriving DecidableEq, Repr

/-- `HttpRequest.form(map)` adds the entries that have a value, and drops the body when there is one. -/
def HttpRequest.addForm (request : HttpRequest) (entries : List (String × Option String)) :
    HttpRequest :=
  entries.foldl (fun request entry =>
    match entry.2 with
    | none => request
    | some value => { request with body := none, form := request.form ++ [(entry.1, value)] }) request

/-- The status, unboxed by the caller, and the body of an HTTP response. -/
structure FeignResponse where
  httpCode : Option Int
  body : Option String
  deriving DecidableEq, Repr

/-- The library functions `invoke` calls: the order in which a `HashMap` iterates over its entries, and
`JSONUtil.toJsonStr` of the parameters of a method. -/
structure Library where
  iterate : List (String × Option String) → List (String × Option String)
  iterate_perm : ∀ entries, (iterate entries).Perm entries
  toJsonStr : List String → String

/-! ## The proxy -/

structure OpenFeignClientProxy where
  name : String
  url : String
  deriving DecidableEq, Repr

namespace OpenFeignClientProxy

/-- The URL with the path of the method. -/
def joinPath (baseUrl path : String) : String :=
  if !isBlank (some path) then
    if !endsWithSlash baseUrl && !startsWithSlash path then baseUrl ++ "/" ++ path
    else baseUrl ++ path
  else baseUrl

/-- The request that `invoke` executes for a mapped method. -/
def httpRequest (self : OpenFeignClientProxy) (lib : Library) (request : Request)
    (parameters : List String) (args : List (Option String)) (traceId : Option String) :
    HttpRequest :=
  let paramMap := lib.iterate (parameters.zip args)
  let baseUrl := joinPath self.url request.path
  let built : HttpRequest :=
    if request.method = .get then
      let url := if request.path.toList.contains '\x7b' then StrUtil.format baseUrl paramMap else baseUrl
      { method := .get, url, body := none, traceId, form := [] }
    else
      { method := .post, url := baseUrl, body := some (lib.toJsonStr parameters), traceId,
        form := [] }
  built.addForm paramMap

/-- How a call of `invoke` ends, and the request it has sent. A method of `Object` is called on the proxy
itself, and a method without a mapping gives null. -/
inductive Invoked
  | onProxy
  | null
  | failed (failure : Failure) (sent : Option HttpRequest)
  | response (sent : HttpRequest) (response : FeignResponse)
  deriving DecidableEq, Repr

/-- The request that has left for the server. -/
def Invoked.sent : Invoked → Option HttpRequest
  | .failed _ sent => sent
  | .response sent _ => some sent
  | _ => none

/-- `execute` answers the request with the status and the body of the response, or throws (`none`). -/
def invoke (self : OpenFeignClientProxy) (lib : Library) (g : TraceIdUtil) (method : Method)
    (args : List (Option String)) (execute : HttpRequest → Option FeignResponse) (t : TraceThread) :
    Invoked × TraceThread :=
  if method.ofObject then (.onProxy, t)
  else
    match getRequest method with
    | .error failure => (.failed failure none, t)
    | .ok none => (.null, t)
    | .ok (some request) =>
      let t := t.ensureTraceId g
      let httpRequest := self.httpRequest lib request method.parameters args t.traceId
      match execute httpRequest with
      | none => (.failed .httpException (some httpRequest), t)
      | some res => (.response httpRequest res, t)

end OpenFeignClientProxy

/-! ## The factory -/

/-- `OpenFeignClientsRegister.getPath`: the class path gets a leading slash and loses a trailing one. -/
def getPath (path : String) : String :=
  if !isBlank (some path) then
    let path := String.ofList (trim path.toList)
    let path := if !startsWithSlash path then "/" ++ path else path
    if endsWithSlash path then .ofList path.toList.dropLast else path
  else path

structure OpenFeignClientFactoryBean where
  name : String
  url : String
  path : String

/-- The URL of the bean in `getObject` before the path is appended. -/
def OpenFeignClientFactoryBean.baseUrl (bean : OpenFeignClientFactoryBean) : String := withScheme bean.url

/-- `getObject` keeps the URL it has computed in the bean. -/
def OpenFeignClientFactoryBean.getObject (bean : OpenFeignClientFactoryBean) :
    OpenFeignClientProxy × OpenFeignClientFactoryBean :=
  let url := bean.baseUrl
  let url :=
    if !isBlank (some bean.path) then
      if !endsWithSlash url && !startsWithSlash bean.path then url ++ "/" ++ bean.path
      else url ++ bean.path
    else url
  ({ name := bean.name, url }, { bean with url })

/-- The bean after `n` calls of `getObject`. -/
def OpenFeignClientFactoryBean.after (n : ℕ) (bean : OpenFeignClientFactoryBean) :
    OpenFeignClientFactoryBean :=
  (fun bean => bean.getObject.2)^[n] bean

/-- Every further call gives a proxy with the base URL of the first one. -/
def OpenFeignClientFactoryBean.Repeatable (bean : OpenFeignClientFactoryBean) : Prop :=
  ∀ n, (bean.after n).getObject.1.url = bean.getObject.1.url

end PingPong.Feign
