import PingPong.Feign.OpenFeignClientsRegister
import Mathlib.Data.List.Infix

/-!
# Proofs: the registration of Feign clients

The registration, the factory and the proxy join texts in one way, `TextTools.join`, which keeps all
slashes of both sides (`methodUrl_eq`).
-/

namespace PingPong.Feign

open Trace TextTools

variable {register : OpenFeignClientsRegister} {attributes : OpenFeignClient} {name url path : String}

/-! ## Texts -/

theorem startsWithSlash_eq (text : String) :
    startsWithSlash text = decide (leading '/' text.toList ≠ 0) := by
  unfold startsWithSlash
  rw [Bool.eq_iff_iff, decide_eq_true_eq, ne_eq, leading_eq_zero_iff, not_not, beq_iff_eq]

theorem endsWithSlash_eq (text : String) :
    endsWithSlash text = decide (trailing '/' text.toList ≠ 0) := by
  unfold endsWithSlash
  rw [Bool.eq_iff_iff, decide_eq_true_eq, ne_eq, trailing_eq_zero_iff, not_not, beq_iff_eq]

theorem joinPath_toList (hblank : isBlank (some path) = false) (baseUrl : String) :
    (OpenFeignClientProxy.joinPath baseUrl path).toList = join '/' baseUrl.toList path.toList := by
  unfold OpenFeignClientProxy.joinPath join
  rw [hblank, startsWithSlash_eq, endsWithSlash_eq]
  by_cases h : trailing '/' baseUrl.toList = 0 ∧ leading '/' path.toList = 0
  · simp [h]
  · simp [h]

theorem exists_of_startsWith {text start : String} (h : startsWith text start = true) :
    ∃ rest, text.toList = start.toList ++ rest := by
  obtain ⟨rest, hrest⟩ := List.isPrefixOf_iff_prefix.mp h
  exact ⟨rest, hrest.symm⟩

theorem contains_of_eq {text part : String} {before after : List Char}
    (h : text.toList = before ++ (part.toList ++ after)) : contains text part = true := by
  unfold contains
  refine List.any_eq_true.mpr ⟨part.toList ++ after, ?_, ?_⟩
  · rw [List.mem_tails, h]
    exact List.suffix_append _ _
  · exact List.isPrefixOf_iff_prefix.mpr (List.prefix_append _ _)

/-! ## The base URL -/

/-- The two schemes that the factory knows. -/
theorem contains_scheme (h : startsWith url "http://" = true ∨ startsWith url "https://" = true) :
    contains url "://" = true := by
  rcases h with h | h
  · obtain ⟨rest, hrest⟩ := exists_of_startsWith h
    refine @contains_of_eq _ _ "http".toList rest ?_
    rw [hrest, ← List.append_assoc]
    congr 1
  · obtain ⟨rest, hrest⟩ := exists_of_startsWith h
    refine @contains_of_eq _ _ "https".toList rest ?_
    rw [hrest, ← List.append_assoc]
    congr 1

theorem checkUrl_eq (hscheme : contains url "://" = true) {base : String}
    (h : register.checkUrl url = some base) : base = url := by
  unfold OpenFeignClientsRegister.checkUrl at h
  rw [hscheme] at h
  split at h
  · cases hparsed : register.newURL url <;> simp [hparsed] at h
    exact h.symm
  · exact (Option.some.inj h).symm

theorem getObject_url (bean : OpenFeignClientFactoryBean) :
    bean.getObject.1.url = OpenFeignClientProxy.joinPath bean.baseUrl bean.path := by
  rfl

theorem baseUrl_of_scheme (bean : OpenFeignClientFactoryBean)
    (h : startsWith bean.url "http://" = true ∨ startsWith bean.url "https://" = true) :
    bean.baseUrl = bean.url := by
  unfold OpenFeignClientFactoryBean.baseUrl withScheme
  rcases h with h | h
  · simp [h]
  · simp [h]

/-! ## The class path -/

theorem isBlank_of_slash {text : String} (h : '/' ∈ text.toList) : isBlank (some text) = false := by
  have hall : ¬ text.toList.all isWhitespace = true := by
    intro hall
    exact absurd (List.all_eq_true.mp hall '/' h) (by decide)
  simpa [isBlank] using hall

/-- The class path behind the first two steps of `getPath`. -/
def slashed (path : String) : String :=
  if !startsWithSlash (.ofList (trim path.toList)) then "/" ++ .ofList (trim path.toList)
  else .ofList (trim path.toList)

theorem slashed_toList (path : String) :
    (slashed path).toList =
      List.replicate (max 1 (leading '/' (trim path.toList))) '/' ++ lstrip '/' (trim path.toList) := by
  have hsplit := replicate_leading_append '/' (trim path.toList)
  unfold slashed
  rw [startsWithSlash_eq, String.toList_ofList]
  by_cases h : leading '/' (trim path.toList) = 0
  · rw [h] at hsplit ⊢
    simp at hsplit ⊢
    exact hsplit.symm
  · have hmax : max 1 (leading '/' (trim path.toList)) = leading '/' (trim path.toList) := by omega
    rw [hmax, hsplit]
    simp [h]

/-- `getPath` takes one trailing slash away. -/
theorem getPath_toList (hblank : isBlank (some path) = false) :
    (getPath path).toList = rstrip '/' (slashed path).toList ++
      List.replicate (trailing '/' (slashed path).toList - 1) '/' := by
  have hpath : getPath path =
      if endsWithSlash (slashed path) then String.ofList (slashed path).toList.dropLast
      else slashed path := by
    unfold slashed
    simp only [getPath, hblank, Bool.not_false, if_true]
  rw [hpath, endsWithSlash_eq, ← dropLast_eq]
  by_cases h : trailing '/' (slashed path).toList = 0
  · simp [h]
  · simp [h]

/-- A class path with inner text has at least one leading slash and one trailing slash less. -/
theorem getPath_of_inner (hblank : isBlank (some path) = false)
    (h : strip '/' (trim path.toList) ≠ []) :
    (getPath path).toList = List.replicate (max 1 (leading '/' (trim path.toList))) '/' ++
      (strip '/' (trim path.toList) ++ List.replicate (trailing '/' (trim path.toList) - 1) '/') := by
  have hrest : lstrip '/' (trim path.toList) =
      strip '/' (trim path.toList) ++ List.replicate (trailing '/' (trim path.toList)) '/' := by
    have hboth := replicate_strip_replicate h
    rw [← List.append_cancel_left_eq (List.replicate (leading '/' (trim path.toList)) '/'),
      replicate_leading_append, ← List.append_assoc, hboth]
  have hlast : (List.replicate (max 1 (leading '/' (trim path.toList))) '/' ++
      strip '/' (trim path.toList)).getLast? ≠ some '/' := by
    rw [List.getLast?_append_of_ne_nil _ h]
    exact getLast?_rstrip '/' _
  obtain ⟨htrailing, hrstrip⟩ := trailing_append_replicate (n := trailing '/' (trim path.toList)) hlast
  have hslashed : (slashed path).toList = (List.replicate (max 1 (leading '/' (trim path.toList))) '/' ++
      strip '/' (trim path.toList)) ++ List.replicate (trailing '/' (trim path.toList)) '/' := by
    rw [slashed_toList, hrest, List.append_assoc]
  rw [getPath_toList hblank, hslashed, htrailing, hrstrip, List.append_assoc]

/-- A class path without inner text has one slash less. -/
theorem getPath_of_slashes (hblank : isBlank (some path) = false)
    (h : strip '/' (trim path.toList) = []) :
    (getPath path).toList = List.replicate (trailing '/' (trim path.toList) - 1) '/' := by
  obtain ⟨-, hleading⟩ := replicate_of_strip_eq_nil h
  have hrest : lstrip '/' (trim path.toList) = [] := by
    have hsplit := replicate_leading_append '/' (trim path.toList)
    have hall := (replicate_of_strip_eq_nil h).1
    rw [hleading, ← hall] at hsplit
    simpa using hsplit
  have hcount : max 1 (trailing '/' (trim path.toList)) - 1 = trailing '/' (trim path.toList) - 1 := by
    omega
  rw [getPath_toList hblank, slashed_toList, hrest, List.append_nil, (trailing_replicate _).1,
    (trailing_replicate _).2, hleading, hcount, List.nil_append]

/-! ## The assembled URL -/

/-- The URL of the proxy and its trailing slashes, when the class path has inner text. -/
theorem proxyUrl_of_inner (hblank : isBlank (some path) = false)
    (h : strip '/' (trim path.toList) ≠ []) (base : String) :
    (OpenFeignClientProxy.joinPath base (getPath path)).toList = rstrip '/' base.toList ++
      List.replicate (trailing '/' base.toList + max 1 (leading '/' (trim path.toList))) '/' ++
      strip '/' (trim path.toList) ++ List.replicate (trailing '/' (trim path.toList) - 1) '/' := by
  have hpath := getPath_of_inner hblank h
  obtain ⟨hleading, hlstrip⟩ := leading_replicate_append (n := max 1 (leading '/' (trim path.toList)))
    (head?_strip_append h (List.replicate (trailing '/' (trim path.toList) - 1) '/'))
  have hnotblank : isBlank (some (getPath path)) = false := by
    refine isBlank_of_slash ?_
    rw [hpath]
    simp
  have hmax : max 1 (trailing '/' base.toList + max 1 (leading '/' (trim path.toList))) =
      trailing '/' base.toList + max 1 (leading '/' (trim path.toList)) := by omega
  rw [joinPath_toList hnotblank, join_eq, hpath, hleading, hlstrip, hmax]
  simp only [List.append_assoc]

/-- The slashes of the base URL and of a class path without inner text end the URL of the proxy. -/
theorem proxyUrl_of_slashes (hblank : isBlank (some path) = false)
    (h : strip '/' (trim path.toList) = []) (base : String) :
    (OpenFeignClientProxy.joinPath base (getPath path)).toList = rstrip '/' base.toList ++
      List.replicate (trailing '/' base.toList + (trailing '/' (trim path.toList) - 1)) '/' := by
  have hpath := getPath_of_slashes hblank h
  set count := trailing '/' (trim path.toList) - 1
  have hsplit := rstrip_append_replicate '/' base.toList
  by_cases hcount : count = 0
  · have hempty : getPath path = "" := by
      rw [← String.toList_inj, hpath, hcount]
      rfl
    rw [hempty, hcount, Nat.add_zero, hsplit]
    rfl
  · have hnotblank : isBlank (some (getPath path)) = false := by
      refine isBlank_of_slash ?_
      rw [hpath]
      exact List.mem_replicate.mpr ⟨hcount, rfl⟩
    rw [joinPath_toList hnotblank, join, hpath, leading_replicate, if_neg (by omega),
      List.replicate_add, ← List.append_assoc, hsplit]

/-- The URL of a method is what registration, factory and proxy have joined. -/
theorem methodUrl_eq {methodPath : String} (haccepts : (register.getUrl attributes).isSome)
    (hscheme : startsWith (register.resolve attributes.url) "http://" = true ∨
      startsWith (register.resolve attributes.url) "https://" = true) :
    register.methodUrl name attributes methodPath =
      some (OpenFeignClientProxy.joinPath
        (OpenFeignClientProxy.joinPath (register.resolve attributes.url)
          (Feign.getPath (register.resolve attributes.path))) methodPath) := by
  obtain ⟨base, hbase⟩ := Option.isSome_iff_exists.mp haccepts
  obtain rfl : base = register.resolve attributes.url := checkUrl_eq (contains_scheme hscheme) hbase
  unfold OpenFeignClientsRegister.methodUrl OpenFeignClientsRegister.registerClient
  rw [hbase, Option.map_some, Option.map_some, getObject_url,
    baseUrl_of_scheme ⟨name, register.resolve attributes.url, register.getPath attributes⟩ hscheme]
  unfold OpenFeignClientsRegister.getPath
  rfl

theorem oneSlashEach_of_slashes {classPath : List Char} (h : strip '/' classPath = [])
    (base methodPath : List Char) :
    oneSlashEach base classPath methodPath = rstrip '/' base ++ '/' :: lstrip '/' methodPath := by
  unfold oneSlashEach
  rw [h]
  simp

theorem oneSlashEach_of_inner {classPath : List Char} (h : strip '/' classPath ≠ [])
    (base methodPath : List Char) :
    oneSlashEach base classPath methodPath =
      rstrip '/' base ++ '/' :: strip '/' classPath ++ '/' :: lstrip '/' methodPath := by
  unfold oneSlashEach
  simp [h]

/-- A run of slashes is one slash if it has length one. -/
theorem one_joint_iff {front back : List Char} {n : ℕ} :
    front ++ List.replicate (max 1 n) '/' ++ back = front ++ '/' :: back ↔ n ≤ 1 := by
  constructor
  · intro h
    have hlen := congrArg List.length h
    simp only [List.length_append, List.length_replicate, List.length_cons] at hlen
    omega
  · intro h
    rw [max_eq_left h]
    simp

theorem two_joints_iff {front inner back : List Char} {n k : ℕ} (hn : 1 ≤ n) :
    front ++ List.replicate n '/' ++ inner ++ List.replicate (max 1 k) '/' ++ back =
      front ++ '/' :: inner ++ '/' :: back ↔ n = 1 ∧ k ≤ 1 := by
  constructor
  · intro h
    have hlen := congrArg List.length h
    simp only [List.length_append, List.length_replicate, List.length_cons] at hlen
    omega
  · rintro ⟨rfl, hk⟩
    rw [max_eq_left hk]
    simp

/-- The assembled URL has one slash between the base URL, the class path and the method path if and only if
the slashes on the two sides of each joint fit. -/
theorem oneSlash_iff (register : OpenFeignClientsRegister) (name : String) (attributes : OpenFeignClient)
    (methodPath : String) (haccepts : (register.getUrl attributes).isSome)
    (hscheme : startsWith (register.resolve attributes.url) "http://" = true ∨
      startsWith (register.resolve attributes.url) "https://" = true)
    (hclass : isBlank (some (register.resolve attributes.path)) = false)
    (hmethod : isBlank (some methodPath) = false) :
    OneSlash register name attributes methodPath ↔
      SlashesFit (register.resolve attributes.url).toList
        (trim (register.resolve attributes.path).toList) methodPath.toList := by
  have hurl : OneSlash register name attributes methodPath ↔
      join '/' (OpenFeignClientProxy.joinPath (register.resolve attributes.url)
        (Feign.getPath (register.resolve attributes.path))).toList methodPath.toList =
      oneSlashEach (register.resolve attributes.url).toList
        (trim (register.resolve attributes.path).toList) methodPath.toList := by
    unfold OneSlash
    rw [methodUrl_eq haccepts hscheme, ← joinPath_toList hmethod]
    simp
  rw [hurl, join_eq]
  set base := (register.resolve attributes.url).toList
  set classPath := trim (register.resolve attributes.path).toList with hclassPath
  unfold SlashesFit
  by_cases hinner : strip '/' classPath = []
  · obtain ⟨htrailing, hrstrip⟩ := trailing_append_replicate
      (n := trailing '/' base + (trailing '/' classPath - 1)) (getLast?_rstrip '/' base)
    rw [proxyUrl_of_slashes hclass hinner, ← hclassPath, htrailing, hrstrip,
      oneSlashEach_of_slashes hinner, if_pos hinner]
    exact one_joint_iff
  · have hlast : (rstrip '/' base ++
        List.replicate (trailing '/' base + max 1 (leading '/' classPath)) '/' ++
        strip '/' classPath).getLast? ≠ some '/' := by
      rw [List.getLast?_append_of_ne_nil _ hinner]
      exact getLast?_rstrip '/' _
    obtain ⟨htrailing, hrstrip⟩ := trailing_append_replicate (n := trailing '/' classPath - 1) hlast
    rw [proxyUrl_of_inner hclass hinner, ← hclassPath, htrailing, hrstrip,
      oneSlashEach_of_inner hinner, if_neg hinner]
    have hjoints := @two_joints_iff (rstrip '/' base) (strip '/' classPath) (lstrip '/' methodPath.toList)
      (trailing '/' base + max 1 (leading '/' classPath))
      (trailing '/' classPath - 1 + leading '/' methodPath.toList) (by omega)
    rw [hjoints]
    omega

/-- A server whose URLs have a host up to the next delimiter. -/
def simpleURL (text : String) : Option URL :=
  let text := trim text.toList
  let protocol := text.takeWhile (· ≠ ':')
  let rest := (text.drop protocol.length).drop 3
  if protocol = [] ∨ (text.drop protocol.length).take 3 ≠ "://".toList then none
  else some
    { protocol := .ofList (protocol.map Char.toLower)
      host := .ofList (rest.takeWhile fun c => !List.contains ['/', ':', '?', '#'] c) }

/-- A register without properties. -/
def plainRegister : OpenFeignClientsRegister where
  environment := id
  newURL := simpleURL

theorem oneSlash_iff_localhost :
    OneSlash plainRegister "be-ping-service" { url := "http://localhost:8001", path := "pong" }
        "send/{msg}" ↔
      SlashesFit "http://localhost:8001".toList (trim "pong".toList) "send/{msg}".toList :=
  oneSlash_iff plainRegister "be-ping-service" { url := "http://localhost:8001", path := "pong" }
    "send/{msg}" (by decide) (by decide) (by decide) (by decide)

/-- A trailing slash of the base URL meets the slash that registration puts before the class path. -/
theorem not_oneSlash_trailing :
    ¬ OneSlash plainRegister "be-ping-service" { url := "http://localhost:8001/", path := "pong" }
      "send/{msg}" := by
  intro h
  have hlist := h "http://localhost:8001//pong/send/{msg}" (by decide)
  revert hlist
  decide

/-! ## Registration and factory -/

/-- The text that `getUrl` parses is the one it returns. -/
theorem checkUrl_of_validates (hvalid : validates url = true) {base : String}
    (h : register.checkUrl url = some base) :
    base = (if contains url "://" then url else "http://" ++ url) ∧ (register.newURL base).isSome := by
  unfold OpenFeignClientsRegister.checkUrl at h
  rw [if_pos hvalid] at h
  cases hcontains : contains url "://" with
  | true =>
    cases hparsed : register.newURL url with
    | none => simp [hcontains, hparsed] at h
    | some u =>
      obtain rfl : url = base := by simpa [hcontains, hparsed] using h
      exact ⟨rfl, by rw [hparsed]; rfl⟩
  | false =>
    cases hparsed : register.newURL ("http://" ++ url) with
    | none => simp [hcontains, hparsed] at h
    | some u =>
      obtain rfl : "http://" ++ url = base := by simpa [hcontains, hparsed] using h
      exact ⟨rfl, by rw [hparsed]; rfl⟩

theorem startsWith_append (start rest : String) : startsWith (start ++ rest) start = true := by
  unfold startsWith
  rw [String.toList_append]
  exact List.isPrefixOf_iff_prefix.mpr (List.prefix_append _ _)

/-- The factory leaves the URLs with one of its schemes as they are, and no others. -/
theorem baseUrl_eq_iff (bean : OpenFeignClientFactoryBean) : bean.baseUrl = bean.url ↔
    startsWith bean.url "http://" = true ∨ startsWith bean.url "https://" = true := by
  constructor
  · intro h
    by_contra hscheme
    obtain ⟨hhttp, hhttps⟩ := not_or.mp hscheme
    have hprefixed : bean.baseUrl = "http://" ++ bean.url := by
      unfold OpenFeignClientFactoryBean.baseUrl withScheme
      simp [hhttp, hhttps]
    have hlen := congrArg String.length (hprefixed.symm.trans h)
    rw [String.length_append] at hlen
    have hscheme : "http://".length = 7 := by decide
    omega
  · exact baseUrl_of_scheme bean

/-- The base URL of the factory has a host and is what the registration has validated if and only if the
URL is not exempt from the validation, and its scheme is missing or one the factory knows. -/
theorem baseAgrees_iff (register : OpenFeignClientsRegister) (name : String) (attributes : OpenFeignClient)
    (h : (register.getUrl attributes).isSome) :
    BaseAgrees register name attributes ↔
      KeepsBase register.newURL (register.resolve attributes.url) := by
  obtain ⟨base, hbase⟩ := Option.isSome_iff_exists.mp h
  set bean : OpenFeignClientFactoryBean := ⟨name, base, register.getPath attributes⟩ with hbean
  have hregistered : register.registerClient name attributes = some bean := by
    unfold OpenFeignClientsRegister.registerClient
    rw [hbase, Option.map_some]
  constructor
  · rintro ⟨bean', validated, based, hbean', hvalid, -, hbased, -, -, hhost, hsame⟩
    obtain rfl : bean = bean' := Option.some.inj (hregistered.symm.trans hbean')
    obtain ⟨htext, -⟩ := checkUrl_of_validates hvalid hbase
    refine ⟨hvalid, ?_, ?_⟩
    · intro hcontains
      rw [if_pos hcontains] at htext
      rw [← htext]
      exact (baseUrl_eq_iff bean).mp hsame
    · intro u hu
      rw [← htext, show base = bean.url from rfl, ← hsame, hbased] at hu
      obtain rfl := Option.some.inj hu
      exact hhost
  · rintro ⟨hvalid, hscheme, hhost⟩
    obtain ⟨htext, hparsed⟩ := checkUrl_of_validates hvalid hbase
    obtain ⟨validated, hvalidated⟩ := Option.isSome_iff_exists.mp hparsed
    have hsame : bean.baseUrl = bean.url := by
      refine (baseUrl_eq_iff bean).mpr ?_
      show startsWith base "http://" = true ∨ startsWith base "https://" = true
      by_cases hcontains : contains (register.resolve attributes.url) "://" = true
      · rw [if_pos hcontains] at htext
        rw [htext]
        exact hscheme hcontains
      · rw [if_neg hcontains] at htext
        rw [htext]
        exact Or.inl (startsWith_append _ _)
    refine ⟨bean, validated, validated, hregistered, hvalid, hvalidated, ?_, rfl, rfl, ?_, hsame⟩
    · rw [hsame]
      exact hvalidated
    · rw [htext] at hvalidated
      exact hhost validated hvalidated

theorem baseAgrees_iff_localhost :
    BaseAgrees plainRegister "be-ping-service" { url := "http://localhost:8001" } ↔
      KeepsBase simpleURL "http://localhost:8001" :=
  baseAgrees_iff plainRegister "be-ping-service" { url := "http://localhost:8001" } (by decide)

/-- The factory puts a scheme before the upper-case scheme that the registration accepts, so the host is
the scheme. -/
theorem not_baseAgrees_upperCase :
    (plainRegister.getUrl { url := "HTTP://localhost:8001" }).isSome ∧
    ¬ BaseAgrees plainRegister "be-ping-service" { url := "HTTP://localhost:8001" } := by
  refine ⟨by decide, ?_⟩
  rintro ⟨bean, validated, based, hbean, -, hvalidated, hbased, -, hhost, -⟩
  obtain ⟨url, hurl, rfl⟩ := Option.map_eq_some_iff.mp hbean
  have hreturned : plainRegister.getUrl { url := "HTTP://localhost:8001" } =
      some "HTTP://localhost:8001" := by decide
  obtain rfl := Option.some.inj (hreturned.symm.trans hurl)
  have hlocalhost : plainRegister.newURL "HTTP://localhost:8001" = some ⟨"http", "localhost"⟩ := by decide
  have hscheme : plainRegister.newURL (OpenFeignClientFactoryBean.baseUrl ⟨"be-ping-service",
      "HTTP://localhost:8001", plainRegister.getPath { url := "HTTP://localhost:8001" }⟩) =
      some ⟨"http", "HTTP"⟩ := by decide
  obtain rfl := Option.some.inj (hlocalhost.symm.trans hvalidated)
  obtain rfl := Option.some.inj (hscheme.symm.trans hbased)
  revert hhost
  decide

end PingPong.Feign
