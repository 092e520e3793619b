/-!
# Constants shared by the services

`HttpStatus` and `MappedConstant` of the `common` module: the codes and texts the modelled functions
read.
-/

namespace PingPong

/-! ## `HttpStatus` -/

namespace HttpStatus

def rateLimited : Int := 429

def successMessage : String := "SUCCESS"

/-- What Ping answers when Pong throttled the request. -/
def rateLimitedMsg : String := "pong rate limited"

/-- What Ping answers when no slot was free. -/
def pingLimitedMsg : String := "ping rate limited"

end HttpStatus

/-! ## `MappedConstant` -/

namespace MappedConstant

/-- The MDC key and the header of the trace id. -/
def traceId : String := "traceId"

def requestMsg : String := "Hello"

def responseMsg : String := "World"

/-- The id of the message document. -/
def msgId : String := "ping"

def mqTopic : String := "be_test"

end MappedConstant

end PingPong
