import PingPong.TextTools.Replace

/-!
# URLs between Ping and Pong

`HttpUtil.createGet` reads a text as a URL: the blank ends are trimmed, the fragment is cut off at the
first `#` and the query at the first `?`, and the path behind the host is split at `/` into segments,
which are percent-decoded and encoded again for the request. Pong splits the path of the request and
percent-decodes the segments. What the libraries do with one segment is a parameter, `UrlCodec`.
-/

namespace PingPong.Feign

/-! ## Percent escapes -/

def isHexDigit (c : Char) : Bool :=
  c.isDigit || (decide ('a' ≤ c) && decide (c ≤ 'f')) || (decide ('A' ≤ c) && decide (c ≤ 'F'))

/-- The text begins with two hexadecimal digits. -/
def startsHex : List Char → Bool
  | a :: b :: _ => isHexDigit a && isHexDigit b
  | _ => false

/-- The text has a percent sign before two hexadecimal digits. -/
def hasEscape : List Char → Bool
  | [] => false
  | c :: cs => (c == '%' && startsHex cs) || hasEscape cs

/-! ## The libraries -/

/-- What the URL libraries do with a text and its path segments, as they document it. Decoding replaces
every escape by a byte and leaves all else; what is encoded for a request is decoded to the same text by
the server and has no slash of its own; a segment `.` or `..` is resolved. -/
structure UrlCodec where
  /-- The characters trimmed at both ends of a URL. -/
  blank : Char → Bool
  /-- The segments that stand for a directory. -/
  dot : String → Bool
  /-- The segments of a path after its dot segments are resolved. -/
  resolve : List String → List String
  /-- `URLDecoder.decodeForPath`. -/
  decode : String → String
  /-- `RFC3986.SEGMENT.encode`. -/
  encode : String → String
  /-- The server's decoding of a segment. -/
  pathDecode : String → String
  blank_alphanum : ∀ c, blank c = true → c.isAlphanum = false ∧ c ≠ '/'
  dot_alphanum : ∀ s, dot s = true → ∀ c ∈ s.toList, c.isAlphanum = false
  resolve_plain : ∀ segments, (∀ s ∈ segments, dot s = false) → resolve segments = segments
  resolve_last : ∀ segments s x, (resolve (segments ++ [s])).getLast? = some x → x = s ∨ x = ""
  resolve_dot : ∀ segments s, segments ≠ [] → (∀ s ∈ segments, dot s = false) → dot s = true →
    (resolve (segments ++ [s])).getLast? = some ""
  decode_plain : ∀ s, hasEscape s.toList = false → decode s = s
  decode_escape : ∀ s, hasEscape s.toList = true → (decode s).length < s.length
  pathDecode_encode : ∀ s, pathDecode (encode s) = s
  slash_encode : ∀ s, '/' ∉ (encode s).toList
  encode_empty : ∀ s, encode s = "" ↔ s = ""

namespace UrlCodec

variable (u : UrlCodec)

/-- The URL without blank ends, fragment and query. -/
def cut (text : List Char) : List Char :=
  (((text.dropWhile u.blank).rdropWhile u.blank).takeWhile (· ≠ '#')).takeWhile (· ≠ '?')

/-- The path of a URL `scheme://host/...`. -/
def rawPath (text : List Char) : List Char :=
  (((u.cut text).dropWhile (· ≠ ':')).drop 3).dropWhile (· ≠ '/')

/-- The query of a URL: what follows the first `?`, up to the fragment. -/
def query (text : List Char) : List Char :=
  ((((text.dropWhile u.blank).rdropWhile u.blank).takeWhile (· ≠ '#')).dropWhile (· ≠ '?')).drop 1

/-- The segments of a path that begins with a slash. -/
def segments (path : List Char) : List String := ((path.splitOn '/').tail).map String.ofList

/-- The path of the GET request that `HttpUtil.createGet(url)` makes. -/
def requestPath (url : String) : String :=
  let segments := u.resolve (segments (u.rawPath url.toList))
  .ofList ('/' :: ['/'].intercalate (segments.map fun s => (u.encode (u.decode s)).toList))

end UrlCodec

end PingPong.Feign
