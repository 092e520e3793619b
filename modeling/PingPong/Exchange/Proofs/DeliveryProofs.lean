import PingPong.Exchange.Delivery
import PingPong.Feign.Proofs.RegisterProofs
import PingPong.Ping.Proofs.RequestTraceProofs
import PingPong.Ping.Proofs.StoreStepProofs

/-!
# Proofs: from the stored message to Pong

The client puts the raw message into the text of the URL (`clientRequest_url`). What arrives is the last
segment of the path, decoded: it is never longer than the message, and as long only if nothing was cut
off, split or decoded.
-/

namespace PingPong.Exchange

open Feign Ping Pong Trace TextTools

variable {u : UrlCodec} {lib : Library} {name : String} {url : PingClient.ServiceUrl} {c : Messages}
  {msg : String}

/-! ## The text of the URL -/

theorem endsWithSlash_append (s w : String) (hw : w.toList ≠ []) :
    endsWithSlash (s ++ w) = endsWithSlash w := by
  rw [endsWithSlash, String.toList_append, List.getLast?_append_of_ne_nil _ hw]
  rfl

theorem proxy_url : (PingClient.proxy name url).url = "http://" ++ url.host ++ "/pong" := by
  have hpath : getPath "pong" = "/pong" := by decide
  have hblank : isBlank (some "/pong") = false := by decide
  have hslash : startsWithSlash "/pong" = true := by decide
  rw [PingClient.proxy, getObject_url, baseUrl_of_scheme _ (.inl (startsWith_append _ _))]
  simp only [OpenFeignClientProxy.joinPath, hpath, hblank, hslash, Bool.not_true, Bool.and_false,
    Bool.not_false, Bool.false_eq_true, if_false, if_true]

/-- The URL of the proxy and the path of the method. -/
theorem joinPath_proxy_url {path : String} (hblank : isBlank (some path) = false)
    (hstart : startsWithSlash path = false) :
    OpenFeignClientProxy.joinPath (PingClient.proxy name url).url path =
      "http://" ++ url.host ++ "/pong" ++ "/" ++ path := by
  have hend : endsWithSlash ("http://" ++ url.host ++ "/pong") = false := by
    rw [endsWithSlash_append _ _ (by decide)]
    decide
  simp only [OpenFeignClientProxy.joinPath, proxy_url, hblank, hstart, hend, Bool.not_false,
    Bool.and_self, if_true]

theorem iterate_singleton (lib : Library) (entry : String × Option String) :
    lib.iterate [entry] = [entry] :=
  List.perm_singleton.mp (lib.iterate_perm [entry])

theorem clientRequest_eq (msg traceId : Option String) :
    (clientRequest (PingClient.proxy name url) lib msg traceId).method = .get ∧
    (clientRequest (PingClient.proxy name url) lib msg traceId).url =
      StrUtil.format ("http://" ++ url.host ++ "/pong" ++ "/" ++ "send/{msg}") [("msg", msg)] := by
  have hbrace : "send/{msg}".toList.contains '\x7b' = true := by decide
  have hjoin : OpenFeignClientProxy.joinPath (PingClient.proxy name url).url "send/{msg}" =
      "http://" ++ url.host ++ "/pong" ++ "/" ++ "send/{msg}" :=
    joinPath_proxy_url (by decide) (by decide)
  unfold clientRequest
  rw [httpRequest_method, httpRequest_url, if_pos rfl, if_pos rfl]
  unfold handledUrl
  simp only [hbrace, hjoin, if_true, List.zip_cons_cons, List.zip_nil_right, iterate_singleton]
  exact ⟨trivial, trivial⟩

/-- The part of the URL before the message. -/
def urlPrefix (url : PingClient.ServiceUrl) : List Char :=
  "http://".toList ++ url.host.toList ++ "/pong/send/".toList

theorem notMem_urlPrefix {d : Char} (hd : d ∈ ['?', '#', '\x7b']) : d ∉ urlPrefix url := by
  have hhost : d ∉ url.host.toList := fun h => url.plain d h (List.mem_cons_of_mem _ hd)
  have hliterals : d ∉ "http://".toList ∧ d ∉ "/pong/send/".toList := by
    have hcases : d = '?' ∨ d = '#' ∨ d = '\x7b' := by simpa using hd
    rcases hcases with rfl | rfl | rfl
    · exact ⟨by decide, by decide⟩
    · exact ⟨by decide, by decide⟩
    · exact ⟨by decide, by decide⟩
  intro h
  rcases List.mem_append.mp h with h | h
  · rcases List.mem_append.mp h with h | h
    · exact hliterals.1 h
    · exact hhost h
  · exact hliterals.2 h

/-- The message takes the place of the placeholder as it is. -/
theorem clientRequest_url (msg : String) (traceId : Option String) :
    (clientRequest (PingClient.proxy name url) lib (some msg) traceId).url.toList =
      urlPrefix url ++ msg.toList := by
  have htext : ("http://" ++ url.host ++ "/pong" ++ "/" ++ "send/{msg}").toList =
      urlPrefix url ++ ('\x7b' :: "msg\x7d".toList ++ []) := by
    have hpath : "/pong".toList ++ ("/".toList ++ "send/{msg}".toList) =
        "/pong/send/".toList ++ '\x7b' :: "msg\x7d".toList := by decide
    simp only [String.toList_append, List.append_assoc, List.append_nil]
    rw [hpath]
    unfold urlPrefix
    simp only [List.append_assoc]
  have hpattern : ("\x7b" ++ "msg" ++ "\x7d").toList = '\x7b' :: "msg\x7d".toList := by decide
  rw [(clientRequest_eq (some msg) traceId).2]
  show (StrUtil.replace _ _ msg).toList = _
  rw [StrUtil.replace, String.toList_ofList, htext, hpattern,
    replaceAll_append (notMem_urlPrefix (by simp)), replaceAll_pattern, replaceAll_nil, List.append_nil]

/-! ## The path of the request -/

/-- What of a message survives the cuts of the URL. -/
def kept (u : UrlCodec) (msg : List Char) : List Char :=
  ((msg.rdropWhile u.blank).takeWhile (· ≠ '#')).takeWhile (· ≠ '?')

theorem blank_eq_false_of_alphanum {c : Char} (h : c.isAlphanum = true) : u.blank c = false := by
  cases hb : u.blank c with
  | false => rfl
  | true => exact absurd h (by rw [(u.blank_alphanum c hb).1]; exact Bool.false_ne_true)

theorem blank_slash : u.blank '/' = false := by
  cases hb : u.blank '/' with
  | false => rfl
  | true => exact absurd rfl (u.blank_alphanum '/' hb).2

theorem urlPrefix_eq : urlPrefix url =
    ['h', 't', 't', 'p', ':', '/', '/'] ++ (url.host.toList ++ "/pong/send/".toList) := by
  unfold urlPrefix
  rw [List.append_assoc]
  congr 1

/-- The cuts of the URL take away from the message only. -/
theorem cut_url (msg : List Char) : u.cut (urlPrefix url ++ msg) = urlPrefix url ++ kept u msg := by
  have hstart : (urlPrefix url ++ msg).dropWhile u.blank = urlPrefix url ++ msg := by
    rw [urlPrefix_eq]
    exact List.dropWhile_cons_of_neg (by rw [blank_eq_false_of_alphanum (by decide)]; nofun)
  have hend : (urlPrefix url ++ msg).rdropWhile u.blank = urlPrefix url ++ msg.rdropWhile u.blank := by
    have hlast : urlPrefix url =
        ("http://".toList ++ url.host.toList ++ "/pong/send".toList) ++ ['/'] := by
      unfold urlPrefix
      rw [List.append_assoc _ _ ['/']]
      congr 1
    rw [hlast]
    exact rdropWhile_append blank_slash
  have hplain : ∀ d ∈ ['?', '#', '\x7b'], ∀ c ∈ urlPrefix url, decide (c ≠ d) = true := fun d hd =>
    forall_ne_of_notMem (notMem_urlPrefix hd)
  rw [UrlCodec.cut, hstart, hend, List.takeWhile_append_of_pos (hplain '#' (by simp)),
    List.takeWhile_append_of_pos (hplain '?' (by simp))]
  rfl

theorem slash_notMem_host (url : PingClient.ServiceUrl) : '/' ∉ url.host.toList := fun h =>
  url.plain _ h List.mem_cons_self

theorem rawPath_url (msg : List Char) :
    u.rawPath (urlPrefix url ++ msg) = "/pong/send/".toList ++ kept u msg := by
  rw [UrlCodec.rawPath, cut_url, urlPrefix_eq, List.append_assoc]
  show List.dropWhile _ ((url.host.toList ++ "/pong/send/".toList) ++ kept u msg) = _
  rw [List.append_assoc, List.dropWhile_append_of_pos (forall_ne_of_notMem (slash_notMem_host url))]
  exact List.dropWhile_cons_of_neg (by decide)

theorem segments_path (text : List Char) :
    UrlCodec.segments ("/pong/send/".toList ++ text) =
      "pong" :: "send" :: (text.splitOn '/').map String.ofList := by
  have hpath : "/pong/send/".toList ++ text =
      [] ++ '/' :: ("pong".toList ++ '/' :: ("send".toList ++ '/' :: text)) := by
    have hlit : "/pong/send/".toList = '/' :: ("pong".toList ++ '/' :: ("send".toList ++ ['/'])) := by
      decide
    rw [hlit]
    simp
  have hpong : '/' ∉ "pong".toList := by decide
  have hsend : '/' ∉ "send".toList := by decide
  rw [UrlCodec.segments, hpath, List.splitOn_append_cons_self_of_not_mem List.not_mem_nil,
    List.splitOn_append_cons_self_of_not_mem hpong, List.splitOn_append_cons_self_of_not_mem hsend]
  simp only [List.tail_cons, List.map_cons, String.ofList_toList]

/-! ## The route -/

/-- The path of the request has the segments of the URL, encoded again. -/
theorem segments_requestPath {text : String}
    (hne : u.resolve (UrlCodec.segments (u.rawPath text.toList)) ≠ []) :
    UrlCodec.segments (u.requestPath text).toList =
      (u.resolve (UrlCodec.segments (u.rawPath text.toList))).map fun s => u.encode (u.decode s) := by
  set resolved := u.resolve (UrlCodec.segments (u.rawPath text.toList)) with hresolved
  have hsplit : (['/'].intercalate (resolved.map fun s => (u.encode (u.decode s)).toList)).splitOn '/' =
      resolved.map fun s => (u.encode (u.decode s)).toList := by
    refine List.splitOn_intercalate '/' (fun l hl => ?_) (by simpa using hne)
    obtain ⟨s, -, rfl⟩ := List.mem_map.mp hl
    exact u.slash_encode _
  rw [UrlCodec.requestPath, String.toList_ofList, UrlCodec.segments, ← List.nil_append ('/' :: _),
    List.splitOn_append_cons_self_of_not_mem List.not_mem_nil, hsplit]
  simp

/-- Pong sees the decoded segments of the URL. -/
theorem matchSend_requestPath {text arg : String} :
    PongController.matchSend u (u.requestPath text) = some arg ↔
      ∃ pong send x, u.resolve (UrlCodec.segments (u.rawPath text.toList)) = [pong, send, x] ∧
        u.decode pong = "pong" ∧ u.decode send = "send" ∧ u.decode x ≠ "" ∧ u.decode x = arg := by
  have hpath := @segments_requestPath u text
  set resolved := u.resolve (UrlCodec.segments (u.rawPath text.toList)) with hresolved
  by_cases hne : resolved = []
  · have hroot : UrlCodec.segments (u.requestPath text).toList = [""] := by
      rw [UrlCodec.requestPath, ← hresolved, hne, String.toList_ofList]
      rfl
    rw [PongController.matchSend, hroot, hne]
    exact ⟨nofun, fun ⟨_, _, _, h, _⟩ => nomatch h⟩
  · rw [PongController.matchSend, hpath hne]
    rcases resolved with _ | ⟨pong, _ | ⟨send, _ | ⟨x, _ | ⟨y, rest⟩⟩⟩⟩
    · exact absurd rfl hne
    · exact ⟨nofun, fun ⟨_, _, _, h, _⟩ => nomatch h⟩
    · exact ⟨nofun, fun ⟨_, _, _, h, _⟩ => nomatch h⟩
    · simp only [List.map_cons, List.map_nil, u.pathDecode_encode, ne_eq, u.encode_empty,
        Option.ite_none_right_eq_some, Option.some.injEq]
      constructor
      · rintro ⟨⟨hpong, hsend, hx⟩, harg⟩
        exact ⟨pong, send, x, rfl, hpong, hsend, hx, harg⟩
      · rintro ⟨_, _, _, heq, hpong, hsend, hx, harg⟩
        cases heq
        exact ⟨⟨hpong, hsend, hx⟩, harg⟩
    · exact ⟨nofun, fun ⟨_, _, _, h, _⟩ => nomatch h⟩

/-! ## Delivery -/

theorem kept_prefix (msg : List Char) :
    kept u msg <+: (msg.rdropWhile u.blank).takeWhile (· ≠ '#') ∧
    (msg.rdropWhile u.blank).takeWhile (· ≠ '#') <+: msg.rdropWhile u.blank ∧
    msg.rdropWhile u.blank <+: msg :=
  ⟨List.takeWhile_prefix _, List.takeWhile_prefix _, List.rdropWhile_prefix _ _⟩

theorem length_kept_le (msg : List Char) : (kept u msg).length ≤ msg.length := by
  obtain ⟨hquery, hfragment, hblank⟩ := kept_prefix (u := u) msg
  exact hquery.length_le.trans (hfragment.length_le.trans hblank.length_le)

/-- All of a message is kept when it has no blank end, no fragment and no query. -/
theorem kept_eq_iff {msg : List Char} : kept u msg = msg ↔
    (∀ c ∈ msg, c ≠ '?' ∧ c ≠ '#') ∧ ∀ c, msg.getLast? = some c → u.blank c = false := by
  constructor
  · intro h
    obtain ⟨hquery, hfragment, hblank⟩ := kept_prefix (u := u) msg
    have hlen : (kept u msg).length = msg.length := by rw [h]
    have h1 := hquery.length_le
    have h2 := hfragment.length_le
    have h3 := hblank.length_le
    have htrim : msg.rdropWhile u.blank = msg := hblank.eq_of_length_le (by omega)
    have hcut : (msg.rdropWhile u.blank).takeWhile (· ≠ '#') = msg.rdropWhile u.blank :=
      hfragment.eq_of_length_le (by omega)
    have hall : kept u msg = (msg.rdropWhile u.blank).takeWhile (· ≠ '#') :=
      hquery.eq_of_length_le (by omega)
    rw [htrim] at hcut
    refine ⟨fun c hc => ⟨?_, ?_⟩, fun c hc => ?_⟩
    · rw [kept, htrim, hcut] at hall
      simpa using List.takeWhile_eq_self_iff.mp hall c hc
    · simpa using List.takeWhile_eq_self_iff.mp hcut c hc
    · have hne : msg ≠ [] := by rintro rfl; cases hc
      have hlast := List.rdropWhile_eq_self_iff.mp htrim hne
      rw [List.getLast?_eq_some_getLast hne] at hc
      rw [Option.some.inj hc] at hlast
      simpa using hlast
  · rintro ⟨hplain, hend⟩
    have htrim : msg.rdropWhile u.blank = msg := by
      refine List.rdropWhile_eq_self_iff.mpr fun hne => ?_
      rw [hend _ (List.getLast?_eq_some_getLast hne)]
      exact Bool.false_ne_true
    have hcut : msg.takeWhile (· ≠ '#') = msg :=
      List.takeWhile_eq_self_iff.mpr fun c hc => by simpa using (hplain c hc).2
    have hall : msg.takeWhile (· ≠ '?') = msg :=
      List.takeWhile_eq_self_iff.mpr fun c hc => by simpa using (hplain c hc).1
    rw [kept, htrim, hcut, hall]

/-- No segment is longer decoded. -/
theorem length_decode_le (s : String) : (u.decode s).length ≤ s.length := by
  cases h : hasEscape s.toList with
  | true => exact (u.decode_escape s h).le
  | false => rw [u.decode_plain s h]

/-- A segment with a letter is no dot segment. -/
theorem dot_eq_false {s : String} {c : Char} (hc : c ∈ s.toList) (hletter : c.isAlphanum = true) :
    u.dot s = false := by
  cases hd : u.dot s with
  | false => rfl
  | true =>
    rw [u.dot_alphanum s hd c hc] at hletter
    cases hletter

theorem dot_pong_send : ∀ s ∈ ["pong", "send"], u.dot s = false := by
  intro s hs
  have hcases : s = "pong" ∨ s = "send" := by simpa using hs
  rcases hcases with rfl | rfl
  · exact dot_eq_false (c := 'p') (by decide) (by decide)
  · exact dot_eq_false (c := 's') (by decide) (by decide)

theorem decode_of_letters : u.decode "pong" = "pong" ∧ u.decode "send" = "send" ∧ u.decode "" = "" :=
  ⟨u.decode_plain _ (by decide), u.decode_plain _ (by decide), u.decode_plain _ (by decide)⟩

theorem delivered_of_pathSafe (h : PathSafe u (some msg)) {text : String}
    (htext : text.toList = urlPrefix url ++ msg.toList) :
    PongController.matchSend u (u.requestPath text) = some msg := by
  obtain ⟨hne, hplain, hescape, hend, hdot⟩ := h
  have hkept : kept u msg.toList = msg.toList :=
    kept_eq_iff.mpr ⟨fun c hc => (hplain c hc).2, hend⟩
  have hslash : '/' ∉ msg.toList := fun hc => (hplain '/' hc).1 rfl
  have hdecode := u.decode_plain msg hescape
  refine matchSend_requestPath.mpr ⟨"pong", "send", msg, ?_, decode_of_letters.1,
    decode_of_letters.2.1, by rw [hdecode]; exact hne, hdecode⟩
  rw [htext, rawPath_url, hkept, segments_path, List.splitOn_eq_singleton hslash, List.map_singleton,
    String.ofList_toList]
  refine u.resolve_plain _ fun s hs => ?_
  rcases List.mem_append.mp (show s ∈ ["pong", "send"] ++ [msg] from hs) with hs | hs
  · exact dot_pong_send s hs
  · rw [List.mem_singleton.mp hs, hdot]

/-- What arrives is one of the segments that the message was split into. -/
theorem arrives_mem {text : List Char} {pong send x : String}
    (h : u.resolve ("pong" :: "send" :: (text.splitOn '/').map String.ofList) = [pong, send, x])
    (hne : u.decode x ≠ "") : ∃ piece ∈ text.splitOn '/', x = String.ofList piece := by
  obtain ⟨init, last, hpieces⟩ : ∃ init last, text.splitOn '/' = init ++ [last] :=
    ⟨_, _, (List.dropLast_append_getLast (List.splitOn_ne_nil _ _)).symm⟩
  have hlast := u.resolve_last ("pong" :: "send" :: init.map String.ofList) (String.ofList last) x
  rw [hpieces, List.map_append, List.map_singleton] at h
  rcases hlast (by rw [List.cons_append, List.cons_append, h]; rfl) with hsame | hempty
  · exact ⟨last, by rw [hpieces]; simp, hsame⟩
  · rw [hempty, decode_of_letters.2.2] at hne
    exact absurd rfl hne

/-- A segment from which the whole message is decoded is the message: nothing was cut off, split or
decoded. -/
theorem untouched_of_decode {piece : List Char} (hmem : piece ∈ (kept u msg.toList).splitOn '/')
    (h : u.decode (String.ofList piece) = msg) :
    kept u msg.toList = msg.toList ∧ '/' ∉ msg.toList ∧ hasEscape msg.toList = false := by
  obtain ⟨hpiece, hsplit⟩ := length_of_mem_splitOn hmem
  have hkept := length_kept_le (u := u) msg.toList
  have hdecoded := length_decode_le (u := u) (String.ofList piece)
  have hplen : (String.ofList piece).length = piece.length := by
    rw [← String.length_toList, String.toList_ofList]
  have hmsglen : msg.toList.length = msg.length := String.length_toList
  rw [h] at hdecoded
  have hall : kept u msg.toList = msg.toList := by
    obtain ⟨hquery, hfragment, hblank⟩ := kept_prefix (u := u) msg.toList
    exact (hquery.trans (hfragment.trans hblank)).eq_of_length_le (by omega)
  have hescape : hasEscape piece = false := by
    cases he : hasEscape piece with
    | false => rfl
    | true =>
      have hshort := u.decode_escape (String.ofList piece) (by rw [String.toList_ofList, he])
      rw [h] at hshort
      omega
  have hpmsg : String.ofList piece = msg := by
    rw [← h, u.decode_plain _ (by rw [String.toList_ofList, hescape])]
  refine ⟨hall, fun hc => ?_, ?_⟩
  · have hshort := hsplit (by rw [hall]; exact hc)
    omega
  · rw [← hpmsg, String.toList_ofList, hescape]

theorem pathSafe_of_delivered {text : String} (htext : text.toList = urlPrefix url ++ msg.toList)
    (h : PongController.matchSend u (u.requestPath text) = some msg) : PathSafe u (some msg) := by
  obtain ⟨pong, send, x, hresolve, -, -, hxne, hx⟩ := matchSend_requestPath.mp h
  rw [htext, rawPath_url, segments_path] at hresolve
  obtain ⟨piece, hmem, rfl⟩ := arrives_mem hresolve hxne
  obtain ⟨hall, hslash, hescape⟩ := untouched_of_decode hmem hx
  -- a dot segment would leave nothing to arrive
  have hdot : u.dot msg = false := by
    cases hd : u.dot msg with
    | false => rfl
    | true =>
      have hres := u.resolve_dot ["pong", "send"] msg (by simp) dot_pong_send hd
      rw [hall, List.splitOn_eq_singleton hslash, List.map_singleton, String.ofList_toList] at hresolve
      rw [List.cons_append, List.cons_append, List.nil_append, hresolve] at hres
      have hempty : String.ofList piece = "" := Option.some.inj hres
      rw [hempty, decode_of_letters.2.2] at hxne
      exact absurd rfl hxne
  obtain ⟨hplain, hend⟩ := kept_eq_iff.mp hall
  refine ⟨?_, fun c hc => ⟨?_, hplain c hc⟩, hescape, hend, hdot⟩
  · rw [← hx]; exact hxne
  · rintro rfl; exact hslash hc

/-- While the collection holds a message, Pong gets exactly this message if and only if it is a path
segment as it is. -/
theorem deliversExactly_iff (u : UrlCodec) (lib : Library) (name : String) (url : PingClient.ServiceUrl)
    (c : Messages) (d : PingMessage) (hc : c.message = some d) :
    DeliversExactly u lib name url c d.message ↔ PathSafe u d.message := by
  have hget : (PingService.getSendMessage (some c)).1 = some d.message := by
    simp only [PingService.getSendMessage, hc]
  have hrequest : ∀ (g : TraceIdUtil) (t : TraceThread) (execute : HttpRequest → Option FeignResponse),
      (PingService.send (PingClient.proxy name url) lib g
        ⟨true, (PingService.getSendMessage (some c)).1, execute⟩ t).1.request =
      some (clientRequest (PingClient.proxy name url) lib d.message (t.ensureTraceId g).traceId) :=
    fun g t execute => (send_of_message rfl hget).1
  have hargument : ∀ (m traceId : Option String),
      respondArgument u (clientRequest (PingClient.proxy name url) lib m traceId) =
        PongController.matchSend u
          (u.requestPath (clientRequest (PingClient.proxy name url) lib m traceId).url) :=
    fun m traceId => if_pos (clientRequest_eq m traceId).1
  constructor
  · intro h
    obtain ⟨request, msg, hsent, harg, hm⟩ := h { hostname := "", nextInt := fun k => k } ⟨.clear, 0⟩
      fun _ => none
    rw [hrequest] at hsent
    obtain rfl := Option.some.inj hsent
    rw [hargument, hm] at harg
    rw [hm]
    exact pathSafe_of_delivered (clientRequest_url msg _) harg
  · intro h g t execute
    obtain ⟨msg, hm⟩ : ∃ msg, d.message = some msg := by
      cases hm : d.message with
      | none => rw [hm] at h; exact absurd h not_false
      | some msg => exact ⟨msg, rfl⟩
    rw [hm] at h
    refine ⟨_, msg, hrequest g t execute, ?_, hm⟩
    rw [hargument, hm]
    exact delivered_of_pathSafe h (clientRequest_url msg _)

/-! ## A codec of ASCII texts -/

def hexValue (c : Char) : ℕ :=
  if c.isDigit then c.toNat - 0x30 else if 'a' ≤ c then c.toNat - 0x57 else c.toNat - 0x37

/-- The character that two hexadecimal digits stand for. -/
def hexChar : List Char → Char
  | a :: b :: _ => .ofNat (16 * hexValue a + hexValue b)
  | _ => '%'

/-- Decodes the escapes behind the next `skip` characters. -/
def unescape : ℕ → List Char → List Char
  | _, [] => []
  | skip + 1, _ :: cs => unescape skip cs
  | 0, c :: cs =>
    if c == '%' && startsHex cs then hexChar cs :: unescape 2 cs else c :: unescape 0 cs

theorem unescape_plain {cs : List Char} (h : hasEscape cs = false) : unescape 0 cs = cs := by
  induction cs with
  | nil => rfl
  | cons c cs ih =>
    obtain ⟨hfirst, hrest⟩ := Bool.or_eq_false_iff.mp h
    rw [unescape, hfirst, if_neg Bool.false_ne_true, ih hrest]

theorem length_unescape_le (skip : ℕ) (cs : List Char) :
    (unescape skip cs).length ≤ cs.length - skip := by
  induction cs generalizing skip with
  | nil => exact Nat.zero_le _
  | cons c cs ih =>
    rw [List.length_cons]
    cases skip with
    | succ skip =>
      have hrest := ih skip
      show (unescape skip cs).length ≤ _
      omega
    | zero =>
      have hskip := ih 2
      have hrest := ih 0
      rw [unescape]
      split <;> rw [List.length_cons] <;> omega

theorem length_unescape_lt {cs : List Char} (h : hasEscape cs = true) :
    (unescape 0 cs).length < cs.length := by
  induction cs with
  | nil => cases h
  | cons c cs ih =>
    rw [unescape, List.length_cons]
    split
    · rename_i hfirst
      have htwo : 2 ≤ cs.length := by
        rcases cs with _ | ⟨a, _ | ⟨b, rest⟩⟩
        · simp [startsHex] at hfirst
        · simp [startsHex] at hfirst
        · simp
      have hskip := length_unescape_le 2 cs
      rw [List.length_cons]
      omega
    · rename_i hfirst
      have hrest := ih ((Bool.or_eq_true_iff.mp h).resolve_left hfirst)
      rw [List.length_cons]
      omega

/-- Escapes the percent sign and the slash. -/
def escape (c : Char) : List Char :=
  if c = '%' then ['%', '2', '5'] else if c = '/' then ['%', '2', 'F'] else [c]

theorem unescape_escape (cs : List Char) : unescape 0 (cs.flatMap escape) = cs := by
  induction cs with
  | nil => rfl
  | cons c cs ih =>
    rw [List.flatMap_cons, escape]
    split
    · rename_i hc
      show '%' :: unescape 0 (cs.flatMap escape) = _
      rw [ih, hc]
    · split
      · rename_i hc
        show '/' :: unescape 0 (cs.flatMap escape) = _
        rw [ih, hc]
      · rename_i hpercent _
        have hfirst : (c == '%' && startsHex (cs.flatMap escape)) = false := by simp [hpercent]
        rw [List.singleton_append, unescape, hfirst, if_neg Bool.false_ne_true, ih]

theorem slash_notMem_escape (cs : List Char) : '/' ∉ cs.flatMap escape := by
  intro h
  obtain ⟨c, -, hc⟩ := List.mem_flatMap.mp h
  unfold escape at hc
  split at hc
  · revert hc; decide
  · split at hc
    · revert hc; decide
    · rename_i hne
      exact hne (List.mem_singleton.mp hc).symm

theorem flatMap_escape_eq_nil {cs : List Char} : cs.flatMap escape = [] ↔ cs = [] := by
  refine ⟨fun h => ?_, fun h => by rw [h]; rfl⟩
  rw [← unescape_escape cs, h]
  rfl

def isDot (s : String) : Bool := s == "." || s == ".."

/-- Takes a dot segment off the end of a path. -/
def resolveLast (segments : List String) : List String :=
  match segments.getLast? with
  | none => []
  | some s => if isDot s then segments.dropLast ++ [""] else segments

theorem resolveLast_concat (segments : List String) (s : String) :
    resolveLast (segments ++ [s]) = if isDot s then segments ++ [""] else segments ++ [s] := by
  simp [resolveLast]

/-- URLs in which only ASCII characters are escaped. -/
def asciiCodec : UrlCodec where
  blank c := c == ' '
  dot := isDot
  resolve := resolveLast
  decode s := .ofList (unescape 0 s.toList)
  encode s := .ofList (s.toList.flatMap escape)
  pathDecode s := .ofList (unescape 0 s.toList)
  blank_alphanum c h := by
    rw [eq_of_beq h]
    exact ⟨by decide, by decide⟩
  dot_alphanum s h c hc := by
    have hdot : c = '.' := by
      rcases Bool.or_eq_true_iff.mp h with h | h
      · rw [eq_of_beq h] at hc
        simpa using hc
      · rw [eq_of_beq h] at hc
        simpa using hc
    rw [hdot]
    decide
  resolve_plain segments h := by
    rcases List.eq_nil_or_concat segments with rfl | ⟨init, s, rfl⟩
    · rfl
    · rw [List.concat_eq_append] at h ⊢
      rw [resolveLast_concat, h s (by simp)]
      rfl
  resolve_last segments s x h := by
    rw [resolveLast_concat] at h
    split at h
    · exact Or.inr (by simpa using h.symm)
    · exact Or.inl (by simpa using h.symm)
  resolve_dot segments s _ _ hdot := by
    rw [resolveLast_concat, hdot]
    simp
  decode_plain s h := by rw [unescape_plain h, String.ofList_toList]
  decode_escape s h := by
    rw [← String.length_toList, String.toList_ofList, ← String.length_toList]
    exact length_unescape_lt h
  pathDecode_encode s := by rw [String.toList_ofList, unescape_escape, String.ofList_toList]
  slash_encode s := by rw [String.toList_ofList]; exact slash_notMem_escape _
  encode_empty s := by
    rw [← String.toList_inj, String.toList_ofList, ← String.toList_inj]
    exact flatMap_escape_eq_nil

def localhost : PingClient.ServiceUrl where
  host := "localhost:8001"
  plain c hc := by
    have hall : ("localhost:8001".toList.all fun c => !(List.contains ['/', '?', '#', '\x7b'] c)) = true := by
      decide
    simpa using List.all_eq_true.mp hall c hc

/-- The collection that holds one message. -/
def holding (msg : String) : Messages where
  docs := [⟨MappedConstant.msgId, some msg⟩]
  nodup := List.nodup_singleton _

theorem deliversExactly_iff_hello :
    DeliversExactly asciiCodec inOrder "be-ping-service" localhost (holding "Hello") (some "Hello") ↔
      PathSafe asciiCodec (some "Hello") :=
  deliversExactly_iff asciiCodec inOrder "be-ping-service" localhost (holding "Hello")
    ⟨MappedConstant.msgId, some "Hello"⟩ rfl

/-- A message with a slash takes two segments, and no route matches. -/
theorem not_deliversExactly_slash :
    ¬ DeliversExactly asciiCodec inOrder "be-ping-service" localhost (holding "a/b") (some "a/b") := by
  intro h
  obtain ⟨request, msg, hsent, harg, -⟩ := h { hostname := "", nextInt := fun k => k } ⟨.clear, 0⟩
    fun _ => none
  obtain rfl := Option.some.inj hsent
  have hpath : PongController.matchSend asciiCodec (asciiCodec.requestPath
      (StrUtil.format ("http://" ++ localhost.host ++ "/pong" ++ "/" ++ "send/{msg}")
        [("msg", some "a/b")])) = none := by decide
  change respondArgument asciiCodec
    (clientRequest (PingClient.proxy "be-ping-service" localhost) inOrder (some "a/b") _) = _ at harg
  rw [respondArgument, if_pos (clientRequest_eq _ _).1, (clientRequest_eq _ _).2, hpath] at harg
  cases harg

end PingPong.Exchange
