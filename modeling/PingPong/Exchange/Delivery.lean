import PingPong.Feign.HttpUtil
import PingPong.Ping.PingController
import PingPong.Pong.PongController

/-!
# From the stored message to Pong

The way of a message from the collection through Ping's client to the controller of Pong. `PingClient.send` is a
GET request with the message in the path, and `PingClient.service` a POST request with the message in its form.
-/

namespace PingPong.Exchange

open Feign Ping Pong Trace

/-! ## The path -/

/-- The argument with which Pong calls `respond` for an admitted request of `PingClient.send`. -/
def respondArgument (u : UrlCodec) (request : HttpRequest) : Option String :=
  if request.method = .get then PongController.matchSend u (u.requestPath request.url) else none

/-- While the collection holds the message `m`, a `send` that gets a slot makes Pong call `respond` with
`m`, whatever thread it runs on. -/
def DeliversExactly (u : UrlCodec) (lib : Library) (name : String) (url : PingClient.ServiceUrl)
    (c : Messages) (m : Option String) : Prop :=
  ∀ (g : TraceIdUtil) (t : TraceThread) (execute : HttpRequest → Option FeignResponse),
    ∃ request msg,
      (PingService.send (PingClient.proxy name url) lib g
        ⟨true, (PingService.getSendMessage (some c)).1, execute⟩ t).1.request = some request ∧
      respondArgument u request = some msg ∧ m = some msg

/-- The messages that are a path segment of a URL as they are: not null, not empty, without delimiters
and percent escapes, not trimmed and not a directory. -/
def PathSafe (u : UrlCodec) : Option String → Prop
  | none => False
  | some msg =>
    msg ≠ "" ∧ (∀ c ∈ msg.toList, c ≠ '/' ∧ c ≠ '?' ∧ c ≠ '#') ∧ hasEscape msg.toList = false ∧
      (∀ c, msg.toList.getLast? = some c → u.blank c = false) ∧ u.dot msg = false

/-! ## The form -/

/-- The argument with which Pong calls `respond` for a request of `PingClient.service`, if it calls it. -/
def serviceArgument (u : UrlCodec) (decode : String → String) (request : HttpRequest) :
    Option (Option String) :=
  if request.method = .post ∧ PongController.matchService u (u.requestPath request.url) then
    some (queryParam decode "msg" (u.query request.url.toList))
  else none

/-- Both methods of the client make Pong call `respond` with the message `m`. -/
def PathsAgree (u : UrlCodec) (decode : String → String) (lib : Library) (name : String)
    (url : PingClient.ServiceUrl) (m : String) : Prop :=
  ∀ (g : TraceIdUtil) (t : TraceThread) (execute : HttpRequest → Option FeignResponse),
    let client := PingClient.proxy name url
    ∃ sent posted, (client.invoke lib g PingClient.send [some m] execute t).1.sent = some sent ∧
      (client.invoke lib g PingClient.service [some m] execute t).1.sent = some posted ∧
      respondArgument u sent = some m ∧ serviceArgument u decode posted = some (some m)

end PingPong.Exchange
