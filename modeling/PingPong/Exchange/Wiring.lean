import PingPong.Exchange.Proofs.CallProofs
import PingPong.Feign.Proofs.RegistrationProofs

/-!
# The client that is wired in

The calls of the system send their requests through the proxy of `PingClient`. This proxy is the one that the
start of Ping registers: whatever other clients there are, there is one bean of this interface, and its factory
makes this proxy (`registered_client`).
-/

namespace PingPong.Exchange

open Feign Ping

/-! ## What the start of Ping reads -/

/-- `@EnableOpenFeignClients` on the `Application` of Ping. -/
def enableOpenFeignClients : EnableOpenFeignClients where
  className := "org.example.Application"

/-- `@OpenFeignClient(name = "${spring.application.name}", url = "${client.serviceUrl}", path = "pong")`. -/
def openFeignClient : ClientAttributes where
  name := "$\x7bspring.application.name\x7d"
  url := "$\x7bclient.serviceUrl\x7d"
  path := "pong"

def pingClient : AnnotationMetadata where
  className := "org.example.service.PingClient"
  isInterface := true
  isIndependent := true
  isAnnotation := false
  openFeignClient := some openFeignClient

/-- The properties of the environment. A text without a placeholder is left as it is. -/
structure Properties (register : OpenFeignClientsRegister) (name : String) (url : PingClient.ServiceUrl) :
    Prop where
  applicationName : register.environment "$\x7bspring.application.name\x7d" = name
  hasText_name : hasText name = true
  serviceUrl : register.environment "$\x7bclient.serviceUrl\x7d" = "http://" ++ url.host
  plain : register.environment "pong" = "pong"

/-! ## What it registers -/

variable {P T D : Type} {register : OpenFeignClientsRegister} {scanner : Scanner} {name : String}
  {url : PingClient.ServiceUrl} {holder : BeanDefinitionHolder} {holders : List BeanDefinitionHolder}

theorem isClient_pingClient (hclass : pingClient ∈ scanner.classes "org.example") :
    scanner.IsClient enableOpenFeignClients pingClient := by
  have hpackages : getBasePackages enableOpenFeignClients = {"org.example"} := by decide
  refine ⟨"org.example", ?_, hclass, rfl, rfl, rfl⟩
  rw [hpackages]
  exact Finset.mem_singleton_self _

/-- The factory of the definition makes the proxy of the calls. -/
theorem proxy_of_eagerly {className : String} (hproperties : Properties register name url)
    (h : register.eagerlyRegisterFeignClientBeanDefinition scanner className openFeignClient = some holder) :
    holder.bean.getObject.1 = PingClient.proxy name url := by
  simp only [OpenFeignClientsRegister.eagerlyRegisterFeignClientBeanDefinition, Option.bind_eq_bind,
    Option.bind_eq_some_iff] at h
  obtain ⟨legal, hlegal, bean, hbean, contextId, -, hholder⟩ := h
  obtain ⟨base, hbase, rfl⟩ := Option.map_eq_some_iff.mp hbean
  have hname : legal = name := by
    have hresolved : register.resolve openFeignClient.name = name := by
      rw [OpenFeignClientsRegister.resolve, if_pos (by decide)]
      exact hproperties.applicationName
    rw [OpenFeignClientsRegister.getName, hresolved, Scanner.legalName, hproperties.hasText_name,
      if_neg (by decide)] at hlegal
    exact (Option.some.inj (Option.ite_none_right_eq_some.mp hlegal).2).symm
  have hurl : register.resolve openFeignClient.url = "http://" ++ url.host := by
    rw [OpenFeignClientsRegister.resolve, if_pos (by decide)]
    exact hproperties.serviceUrl
  have hpath : register.getPath openFeignClient.toOpenFeignClient = getPath "pong" := by
    rw [OpenFeignClientsRegister.getPath, OpenFeignClientsRegister.resolve, if_pos (by decide)]
    exact congrArg getPath hproperties.plain
  have hscheme : contains ("http://" ++ url.host) "://" = true := contains_scheme (.inl (startsWith_append _ _))
  rw [OpenFeignClientsRegister.getUrl, hurl] at hbase
  obtain rfl := checkUrl_eq hscheme hbase
  cases hholder
  rw [hpath, hname]
  rfl

/-- Whatever clients there are, the start of Ping registers one bean of `PingClient` or throws, and its factory
makes the proxy of the calls. -/
theorem registered_client (v : Services P T D) (hproperties : Properties register v.name v.url)
    (hclass : pingClient ∈ scanner.classes "org.example")
    (h : register.registerBeanDefinitions scanner enableOpenFeignClients = some holders) :
    ∃ holder ∈ holders, (∀ other ∈ holders, other.beanName = pingClient.className → other = holder) ∧
      holder.bean.getObject.1 = v.client := by
  obtain ⟨holder, hholder⟩ := exists_holder h (isClient_pingClient hclass)
  have hmem : holder ∈ holders := (mem_holders_iff h).mpr ⟨_, isClient_pingClient hclass, hholder⟩
  obtain ⟨-, attributes, hattributes, heagerly⟩ := registerCandidate_eq_some_iff.mp hholder
  obtain rfl := Option.some.inj hattributes
  refine ⟨holder, hmem, fun other hother hname => ?_, proxy_of_eagerly hproperties heagerly⟩
  have hnodup : (holders.map BeanDefinitionHolder.beanName).Nodup := by
    rw [names_of_registered h]
    exact (scanner.candidateComponents enableOpenFeignClients).nodup
  refine List.inj_on_of_nodup_map hnodup hother hmem ?_
  rw [hname, (eagerly_eq_some heagerly).1]

/-- The environment of a local Ping. -/
def localRegister : OpenFeignClientsRegister where
  environment text :=
    if text = "$\x7bspring.application.name\x7d" then "be-ping-service"
    else if text = "$\x7bclient.serviceUrl\x7d" then "http://localhost:8001"
    else text
  newURL := simpleURL

theorem properties_local : Properties localRegister "be-ping-service" localhost where
  applicationName := by decide
  hasText_name := by decide
  serviceUrl := by decide
  plain := by decide

def pingClasses : Scanner :=
  .ofClassPath [annotated "org.example.Application" none, pingClient] (by decide) simpleHost

/-- The bean that a local Ping has for the calls of `oneService`. -/
theorem registered_client_local : ∃ holders,
    localRegister.registerBeanDefinitions pingClasses enableOpenFeignClients = some holders ∧
    ∃ holder ∈ holders, (∀ other ∈ holders, other.beanName = pingClient.className → other = holder) ∧
      holder.bean.getObject.1 = oneService.client := by
  have hpackages : getBasePackages enableOpenFeignClients = {"org.example"} := by decide
  have hiterate : pingClasses.iterate (getBasePackages enableOpenFeignClients) = ["org.example"] := by
    rw [hpackages]
    exact Finset.sort_singleton ..
  have hreturns : (localRegister.registerBeanDefinitions pingClasses enableOpenFeignClients).isSome = true := by
    rw [OpenFeignClientsRegister.registerBeanDefinitions, Scanner.candidateComponents, hiterate]
    decide +kernel
  obtain ⟨holders, hholders⟩ := Option.isSome_iff_exists.mp hreturns
  have hclass : pingClient ∈ pingClasses.classes "org.example" :=
    List.mem_filter.mpr ⟨List.mem_cons_of_mem _ List.mem_cons_self, by decide⟩
  exact ⟨holders, hholders, registered_client oneService properties_local hclass hholders⟩

end PingPong.Exchange
