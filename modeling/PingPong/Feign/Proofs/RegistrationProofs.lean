import PingPong.Feign.Registration
import PingPong.Feign.Proofs.RegisterProofs

/-!
# Proofs: the registration of all clients

The candidates are the clients, each class once (`mem_candidates_iff`), and the loop hands over one definition
for each candidate (`registerAll_eq_some`). Neither depends on the order of the packages.
-/

namespace PingPong.Feign

open Trace

variable {register : OpenFeignClientsRegister} {scanner : Scanner} {metadata : EnableOpenFeignClients}
  {c : AnnotationMetadata} {candidates : List AnnotationMetadata} {attributes : ClientAttributes}
  {holder : BeanDefinitionHolder} {registered holders : List BeanDefinitionHolder}

/-! ## The candidates -/

theorem mem_findCandidateComponents_iff {basePackage : String} :
    c ∈ scanner.findCandidateComponents basePackage ↔ c ∈ scanner.classes basePackage ∧
      c.openFeignClient.isSome = true ∧ c.isIndependent = true ∧ c.isAnnotation = false := by
  rw [Scanner.findCandidateComponents, List.mem_filter, Bool.and_eq_true, Bool.and_eq_true, Bool.not_eq_true']

theorem mem_candidates_iff : c ∈ (scanner.candidateComponents metadata).elems ↔ scanner.IsClient metadata c := by
  -- the class path tells the classes apart by their names
  have hunique : ∀ y z : AnnotationMetadata, (∃ p, y ∈ scanner.classes p) → (∃ p, z ∈ scanner.classes p) →
      y.className = z.className → y = z := by
    rintro y z ⟨p, hy⟩ ⟨p', hz⟩ hname
    exact scanner.classes_unique p p' y z hy hz hname
  have hclasses : ∀ p ∈ scanner.iterate (getBasePackages metadata), ∀ y ∈ scanner.findCandidateComponents p,
      ∃ p, y ∈ scanner.classes p := fun p _ y hy => ⟨p, (mem_findCandidateComponents_iff.mp hy).1⟩
  rw [Scanner.candidateComponents,
    LinkedSet.mem_foldl_addAll_iff hunique (fun _ h => absurd h List.not_mem_nil) hclasses]
  constructor
  · rintro (hnone | ⟨p, hp, hc⟩)
    · exact absurd hnone List.not_mem_nil
    · exact ⟨p, (scanner.mem_iterate _ p).mp hp, mem_findCandidateComponents_iff.mp hc⟩
  · rintro ⟨p, hp, hc⟩
    exact .inr ⟨p, (scanner.mem_iterate _ p).mpr hp, mem_findCandidateComponents_iff.mpr hc⟩

/-! ## One definition -/

theorem eagerly_eq_some {className : String}
    (h : register.eagerlyRegisterFeignClientBeanDefinition scanner className attributes = some holder) :
    holder.beanName = className ∧ register.Accepts scanner attributes := by
  simp only [OpenFeignClientsRegister.eagerlyRegisterFeignClientBeanDefinition, Option.bind_eq_bind,
    Option.bind_eq_some_iff] at h
  obtain ⟨name, hname, bean, hbean, contextId, -, hholder⟩ := h
  obtain ⟨url, hurl, -⟩ := Option.map_eq_some_iff.mp hbean
  cases hholder
  exact ⟨rfl, by rw [hname]; rfl, by rw [hurl]; rfl⟩

theorem exists_eagerly (className : String) (h : register.Accepts scanner attributes) :
    ∃ holder, register.eagerlyRegisterFeignClientBeanDefinition scanner className attributes = some holder := by
  obtain ⟨name, hname⟩ := Option.isSome_iff_exists.mp h.1
  obtain ⟨url, hurl⟩ := Option.isSome_iff_exists.mp h.2
  simp only [OpenFeignClientsRegister.eagerlyRegisterFeignClientBeanDefinition,
    OpenFeignClientsRegister.getContextId, OpenFeignClientsRegister.registerClient, hname, hurl]
  exact ⟨_, rfl⟩

theorem registerCandidate_eq_some_iff : register.registerCandidate scanner c = some holder ↔
    c.isInterface = true ∧ ∃ attributes, c.openFeignClient = some attributes ∧
      register.eagerlyRegisterFeignClientBeanDefinition scanner c.className attributes = some holder := by
  rw [OpenFeignClientsRegister.registerCandidate, Option.bind_eq_bind, Option.bind_eq_some_iff]
  constructor
  · rintro ⟨attributes, hattributes, h⟩
    obtain ⟨hinterface, h⟩ := Option.ite_none_right_eq_some.mp h
    exact ⟨hinterface, attributes, hattributes, h⟩
  · rintro ⟨hinterface, attributes, hattributes, h⟩
    exact ⟨attributes, hattributes, by rw [if_pos hinterface, h]⟩

/-! ## The loop -/

theorem registerAll_eq_some (h : register.registerAll scanner candidates registered = some holders) :
    ∃ added, holders = registered ++ added ∧
      candidates.map (register.registerCandidate scanner) = added.map some := by
  induction candidates generalizing registered with
  | nil =>
    cases h
    exact ⟨[], (List.append_nil _).symm, rfl⟩
  | cons c candidates ih =>
    obtain ⟨holder, hholder, hrest⟩ := Option.bind_eq_some_iff.mp h
    obtain ⟨added, rfl, hadded⟩ := ih hrest
    refine ⟨holder :: added, List.append_assoc .., ?_⟩
    rw [List.map_cons, List.map_cons, hholder, hadded]

theorem exists_registerAll (h : ∀ c ∈ candidates, ∃ holder, register.registerCandidate scanner c = some holder) :
    ∃ holders, register.registerAll scanner candidates registered = some holders := by
  induction candidates generalizing registered with
  | nil => exact ⟨registered, rfl⟩
  | cons c candidates ih =>
    obtain ⟨holder, hholder⟩ := h c List.mem_cons_self
    obtain ⟨holders, hholders⟩ := ih fun c hc => h c (List.mem_cons_of_mem _ hc)
    exact ⟨holders, Option.bind_eq_some_iff.mpr ⟨holder, hholder, hholders⟩⟩

/-! ## Exactness -/

/-- What has been handed over when registration returns. -/
theorem map_registerCandidate (h : register.registerBeanDefinitions scanner metadata = some holders) :
    (scanner.candidateComponents metadata).elems.map (register.registerCandidate scanner) = holders.map some := by
  obtain ⟨added, rfl, hadded⟩ := registerAll_eq_some h
  exact hadded

theorem mem_holders_iff (h : register.registerBeanDefinitions scanner metadata = some holders) :
    holder ∈ holders ↔ ∃ c, scanner.IsClient metadata c ∧ register.registerCandidate scanner c = some holder := by
  have hsome : holder ∈ holders ↔ some holder ∈ holders.map some := by simp
  rw [hsome, ← map_registerCandidate h, List.mem_map]
  exact exists_congr fun c => and_congr_left fun _ => mem_candidates_iff

/-- The definition of a client, when registration returns. -/
theorem exists_holder (h : register.registerBeanDefinitions scanner metadata = some holders)
    (hc : scanner.IsClient metadata c) : ∃ holder, register.registerCandidate scanner c = some holder := by
  have hmem : register.registerCandidate scanner c ∈ holders.map some :=
    map_registerCandidate h ▸ List.mem_map_of_mem (mem_candidates_iff.mpr hc)
  obtain ⟨holder, -, hholder⟩ := List.mem_map.mp hmem
  exact ⟨holder, hholder.symm⟩

/-- The names of the definitions are those of the candidates. -/
theorem names_of_registered (h : register.registerBeanDefinitions scanner metadata = some holders) :
    holders.map BeanDefinitionHolder.beanName =
      (scanner.candidateComponents metadata).elems.map AnnotationMetadata.className := by
  have hnames := congrArg (List.map (Option.map BeanDefinitionHolder.beanName)) (map_registerCandidate h)
  rw [List.map_map, List.map_map] at hnames
  have hclass : ∀ c ∈ (scanner.candidateComponents metadata).elems,
      (register.registerCandidate scanner c).map BeanDefinitionHolder.beanName = some c.className := by
    intro c hc
    obtain ⟨holder, hholder⟩ := exists_holder h (mem_candidates_iff.mp hc)
    obtain ⟨-, attributes, -, heagerly⟩ := registerCandidate_eq_some_iff.mp hholder
    rw [hholder, Option.map_some, (eagerly_eq_some heagerly).1]
  refine List.map_injective_iff.mpr (Option.some_injective String) ?_
  rw [List.map_map, List.map_map]
  exact hnames.symm.trans (List.map_congr_left hclass)

/-- Whatever the order in which the packages are scanned, and however they overlap, each client is registered
exactly once, or registration throws. -/
theorem registers_clients (register : OpenFeignClientsRegister) (scanner : Scanner)
    (metadata : EnableOpenFeignClients) : RegistersClients register scanner metadata := by
  refine ⟨⟨fun h c hc => ?_, fun h => ?_⟩, fun holders h => ?_, fun holders h holder => ?_⟩
  · obtain ⟨holders, hholders⟩ := Option.isSome_iff_exists.mp h
    obtain ⟨holder, hholder⟩ := exists_holder hholders hc
    obtain ⟨hinterface, attributes, hattributes, heagerly⟩ := registerCandidate_eq_some_iff.mp hholder
    refine ⟨hinterface, fun attributes' hattributes' => ?_⟩
    obtain rfl := Option.some.inj (hattributes.symm.trans hattributes')
    exact (eagerly_eq_some heagerly).2
  · refine Option.isSome_iff_exists.mpr (exists_registerAll fun c hc => ?_)
    have hclient := mem_candidates_iff.mp hc
    obtain ⟨hinterface, haccepts⟩ := h c hclient
    obtain ⟨-, -, -, hannotated, -⟩ := hclient
    obtain ⟨attributes, hattributes⟩ := Option.isSome_iff_exists.mp hannotated
    obtain ⟨holder, hholder⟩ := exists_eagerly c.className (haccepts attributes hattributes)
    exact ⟨holder, registerCandidate_eq_some_iff.mpr ⟨hinterface, attributes, hattributes, hholder⟩⟩
  · rw [names_of_registered h]
    exact (scanner.candidateComponents metadata).nodup
  · rw [mem_holders_iff h]
    constructor
    · rintro ⟨c, hc, hholder⟩
      obtain ⟨-, attributes, hattributes, heagerly⟩ := registerCandidate_eq_some_iff.mp hholder
      exact ⟨c, attributes, hc, hattributes, heagerly⟩
    · rintro ⟨c, attributes, hc, hattributes, heagerly⟩
      obtain ⟨holder', hholder'⟩ := exists_holder h hc
      obtain ⟨hinterface, -⟩ := registerCandidate_eq_some_iff.mp hholder'
      exact ⟨c, hc, registerCandidate_eq_some_iff.mpr ⟨hinterface, attributes, hattributes, heagerly⟩⟩

/-- The host of a URI, by the same server's URLs. -/
def simpleHost (uri : String) : Option String := ((simpleURL uri).map URL.host).filter (· ≠ "")

def annotated (className : String) (openFeignClient : Option ClientAttributes) : AnnotationMetadata where
  className
  isInterface := openFeignClient.isSome
  isIndependent := true
  isAnnotation := false
  openFeignClient

/-- Two clients, one of them in the inner package, and a class that is no client. -/
def twoClients : Scanner :=
  .ofClassPath
    [annotated "org.example.Application" none,
      annotated "org.example.OrderClient" (some { name := "order", url := "localhost:8002" }),
      annotated "org.example.service.PingClient" (some { name := "pong", url := "localhost:8001", path := "pong" })]
    (by decide) simpleHost

/-- One of the packages contains the other one. -/
def nestedPackages : EnableOpenFeignClients where
  className := "org.example.Application"
  basePackages := ["org.example.service", "org.example"]

theorem iterate_nestedPackages :
    twoClients.iterate (getBasePackages nestedPackages) = ["org.example", "org.example.service"] := by
  have hpackages : getBasePackages nestedPackages = ["org.example", "org.example.service"].toFinset := by decide
  rw [hpackages]
  exact (List.toFinset_sort (· ≤ ·) (by decide)).mpr (by decide)

theorem registers_clients_nestedPackages :
    (plainRegister.registerBeanDefinitions twoClients nestedPackages).map (·.map BeanDefinitionHolder.beanName) =
        some ["org.example.OrderClient", "org.example.service.PingClient"] ∧
      RegistersClients plainRegister twoClients nestedPackages := by
  refine ⟨?_, registers_clients plainRegister twoClients nestedPackages⟩
  rw [OpenFeignClientsRegister.registerBeanDefinitions, Scanner.candidateComponents, iterate_nestedPackages]
  decide +kernel

end PingPong.Feign
