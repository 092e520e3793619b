import PingPong.Exchange.Proofs.DeliveryProofs

/-!
# Proofs: the two ways to Pong

The message of a POST request is in its form only: its URL has no query (`query_serviceUrl`), from which
Pong binds the parameter.
-/

namespace PingPong.Exchange

open Feign Ping Pong Trace TextTools

variable {u : UrlCodec} {lib : Library} {name : String} {url : PingClient.ServiceUrl}
  {decode : String → String}

/-! ## The URL of `service` -/

/-- The URL of the requests of `service`. -/
def serviceUrl (url : PingClient.ServiceUrl) : List Char :=
  "http://".toList ++ url.host.toList ++ "/pong/service".toList

/-- The request that `PingClient.service` sends. -/
def postRequest (client : OpenFeignClientProxy) (lib : Library) (msg traceId : Option String) :
    HttpRequest :=
  client.httpRequest lib ⟨"service", .post⟩ ["msg"] [msg] traceId

theorem invoke_service (client : OpenFeignClientProxy) (lib : Library) (g : TraceIdUtil)
    (msg : Option String) (execute : HttpRequest → Option FeignResponse) (t : TraceThread) :
    (client.invoke lib g PingClient.service [msg] execute t).1.sent =
      some (postRequest client lib msg (t.ensureTraceId g).traceId) :=
  (invoke_of_mapped rfl rfl [msg] execute).1

theorem postRequest_eq (msg traceId : Option String) :
    (postRequest (PingClient.proxy name url) lib msg traceId).method = .post ∧
    (postRequest (PingClient.proxy name url) lib msg traceId).url.toList = serviceUrl url := by
  have hjoin : OpenFeignClientProxy.joinPath (PingClient.proxy name url).url "service" =
      "http://" ++ url.host ++ "/pong" ++ "/" ++ "service" :=
    joinPath_proxy_url (by decide) (by decide)
  have hpath : "/pong".toList ++ ("/".toList ++ "service".toList) = "/pong/service".toList := by decide
  unfold postRequest
  rw [httpRequest_method, httpRequest_url]
  refine ⟨rfl, ?_⟩
  simp only [hjoin, reduceCtorEq, if_false, String.toList_append, List.append_assoc]
  rw [hpath]
  unfold serviceUrl
  simp only [List.append_assoc]

theorem notMem_serviceUrl {d : Char} (hd : d ∈ ['?', '#', '\x7b']) : d ∉ serviceUrl url := by
  have hprefix : d ∉ urlPrefix url := notMem_urlPrefix hd
  have hend : d ∉ "/pong/service".toList := by
    have hcases : d = '?' ∨ d = '#' ∨ d = '\x7b' := by simpa using hd
    rcases hcases with rfl | rfl | rfl
    · decide
    · decide
    · decide
  intro h
  rcases List.mem_append.mp h with h | h
  · exact hprefix (List.mem_append_left _ h)
  · exact hend h

/-- Nothing of the URL is cut off. -/
theorem trim_serviceUrl :
    (((serviceUrl url).dropWhile u.blank).rdropWhile u.blank).takeWhile (· ≠ '#') = serviceUrl url := by
  have hstart : (serviceUrl url).dropWhile u.blank = serviceUrl url := by
    unfold serviceUrl
    exact List.dropWhile_cons_of_neg (by rw [blank_eq_false_of_alphanum (by decide)]; nofun)
  have hend : (serviceUrl url).rdropWhile u.blank = serviceUrl url := by
    have hlast : serviceUrl url =
        ("http://".toList ++ url.host.toList ++ "/pong/servic".toList) ++ ['e'] := by
      unfold serviceUrl
      rw [List.append_assoc _ _ ['e']]
      congr 1
    rw [hlast]
    exact List.rdropWhile_concat_neg _ _ _ (by rw [blank_eq_false_of_alphanum (by decide)]; nofun)
  rw [hstart, hend]
  exact List.takeWhile_eq_self_iff.mpr (forall_ne_of_notMem (notMem_serviceUrl (by simp)))

theorem query_serviceUrl : u.query (serviceUrl url) = [] := by
  have hall : (serviceUrl url).dropWhile (· ≠ '?') = [] :=
    List.dropWhile_eq_nil_iff.mpr (forall_ne_of_notMem (notMem_serviceUrl (by simp)))
  rw [UrlCodec.query, trim_serviceUrl, hall]
  rfl

theorem rawPath_serviceUrl : u.rawPath (serviceUrl url) = "/pong/service".toList := by
  have hcut : u.cut (serviceUrl url) = serviceUrl url := by
    rw [UrlCodec.cut, trim_serviceUrl]
    exact List.takeWhile_eq_self_iff.mpr (forall_ne_of_notMem (notMem_serviceUrl (by simp)))
  have hsplit : serviceUrl url =
      ['h', 't', 't', 'p', ':', '/', '/'] ++ (url.host.toList ++ "/pong/service".toList) := by
    unfold serviceUrl
    rw [List.append_assoc]
    congr 1
  rw [UrlCodec.rawPath, hcut, hsplit]
  show List.dropWhile _ (url.host.toList ++ "/pong/service".toList) = _
  rw [List.dropWhile_append_of_pos (forall_ne_of_notMem (slash_notMem_host url))]
  exact List.dropWhile_cons_of_neg (by decide)

/-! ## The argument -/

theorem matchService_serviceUrl {text : String} (htext : text.toList = serviceUrl url) :
    PongController.matchService u (u.requestPath text) = true := by
  have hsegments : UrlCodec.segments (u.rawPath text.toList) = ["pong", "service"] := by
    rw [htext, rawPath_serviceUrl]
    decide
  have hdot : ∀ s ∈ ["pong", "service"], u.dot s = false := by
    intro s hs
    have hcases : s = "pong" ∨ s = "service" := by simpa using hs
    rcases hcases with rfl | rfl
    · exact dot_eq_false (c := 'p') (by decide) (by decide)
    · exact dot_eq_false (c := 's') (by decide) (by decide)
  have hresolve : u.resolve (UrlCodec.segments (u.rawPath text.toList)) = ["pong", "service"] := by
    rw [hsegments]
    exact u.resolve_plain _ hdot
  have hpath := @segments_requestPath u text (by rw [hresolve]; simp)
  rw [PongController.matchService, hpath, hresolve]
  simp only [List.map_cons, List.map_nil, u.pathDecode_encode, decode_of_letters.1,
    u.decode_plain "service" (by decide)]
  decide

theorem queryParam_nil (parameter : String) : queryParam decode parameter [] = none := by
  rfl

/-- Pong calls `respond` with null, whatever the argument of `service` is. -/
theorem serviceArgument_postRequest (msg traceId : Option String) :
    serviceArgument u decode (postRequest (PingClient.proxy name url) lib msg traceId) = some none := by
  unfold serviceArgument
  rw [if_pos ⟨(postRequest_eq msg traceId).1, matchService_serviceUrl (postRequest_eq msg traceId).2⟩,
    (postRequest_eq msg traceId).2, query_serviceUrl, queryParam_nil]

/-- The two methods never agree: the message of `service` does not arrive. -/
theorem not_pathsAgree (u : UrlCodec) (decode : String → String) (lib : Library) (name : String)
    (url : PingClient.ServiceUrl) (m : String) : ¬ PathsAgree u decode lib name url m := by
  intro h
  obtain ⟨sent, posted, -, hposted, -, hargument⟩ :=
    h { hostname := "", nextInt := fun k => k } ⟨.clear, 0⟩ fun _ => none
  rw [invoke_service] at hposted
  obtain rfl := Option.some.inj hposted
  rw [serviceArgument_postRequest] at hargument
  cases hargument

/-- A message without reserved characters, which arrives by `send` only. -/
theorem not_pathsAgree_hello : PathSafe asciiCodec (some "Hello") ∧
    ¬ PathsAgree asciiCodec id inOrder "be-ping-service" localhost "Hello" := by
  constructor
  · refine ⟨by decide, ?_, by decide, ?_, by decide⟩
    · have hplain : ("Hello".toList.all fun c => !(List.contains ['/', '?', '#'] c)) = true := by decide
      intro c hc
      simpa using List.all_eq_true.mp hplain c hc
    · intro c hc
      have hlast : c = 'o' := (Option.some.inj hc).symm
      rw [hlast]
      decide
  · intro h
    obtain ⟨sent, posted, -, hposted, -, hargument⟩ :=
      h { hostname := "", nextInt := fun k => k } ⟨.clear, 0⟩ fun _ => none
    rw [invoke_service] at hposted
    obtain rfl := Option.some.inj hposted
    rw [serviceArgument_postRequest] at hargument
    cases hargument

end PingPong.Exchange
