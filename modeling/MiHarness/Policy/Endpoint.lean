import Mathlib.Data.List.Dedup
import Mathlib.Data.List.Sort
import MiHarness.Policy.Engine

/-!
# Network targets

`endpoint` resolves the host of a URL and returns its addresses, if the policy of the moment lets a
call with this purpose go there.  There are two exceptions from the rule that every address is
globally routable: a configured model or MCP server on this machine, and the official endpoint of a
model that has been granted, behind a proxy that makes up addresses.

`endpoint_fetch` says that neither is open to `fetch`.  What `urllib` and `ipaddress` make of a text
is a parameter, and what the resolver answers is part of the moment.
-/

namespace MiHarness

open Library

/-- `urlsplit(url)`; a part that is `None` is empty. -/
structure UrlParts where
  scheme : String
  hostname : String
  /-- `none` when the port is no number in range. -/
  port : Option (Option Nat)
  username : String
  password : String
  path : String
  query : String
  fragment : String
deriving DecidableEq, Repr

structure IpAddress where
  isGlobal : Bool
  isLoopback : Bool
  /-- An IPv4 address in 198.18.0.0/15. -/
  fake : Bool
deriving DecidableEq, Repr

/-- What `urllib.parse` and `ipaddress` make of a text; `none` is a `ValueError`. -/
structure UrlLibrary where
  urlsplit : String → Option UrlParts
  urljoin : String → String → Option String
  ipAddress : String → Option IpAddress

inductive NetworkCode where
  | endpointDenied | networkDisabled | egressDenied | ssrfDenied | invalidRedirect | fetchType
  | redirectLimit
deriving DecidableEq, Repr

inductive NetworkFault where
  | network (code : NetworkCode) (message : String) (status : Nat)
  /-- What the policy engine raises. -/
  | harness (error : HarnessError)
  /-- An error of a library or of the network. -/
  | other
deriving DecidableEq

structure ModelSetupGrant where
  ownerId : OwnerId
  diagnosticId : String
  profileRef : String
  endpoint : String
deriving DecidableEq, Repr

/-- A record of `model_endpoint_grants`. -/
structure EndpointGrant where
  enabled : Bool
  ownerId : OwnerId
  profileRef : String
  endpoint : String
deriving DecidableEq, Repr

inductive AccessContext where
  | execution (who : Access)
  | diagnostic (who : Access) (diagnosticId : String)

def AccessContext.who : AccessContext → Access
  | .execution who => who
  | .diagnostic who _ => who

/-- What a check of a target reads: the policy records, the snapshot of the run, the grants and the
answers of the resolver. -/
structure NetworkMoment where
  layers : Layers
  snapshot : Snapshot
  grants : String → Option EndpointGrant
  /-- `socket.getaddrinfo`; `none` is an `OSError`. -/
  getaddrinfo : String → Nat → Option (List String)

/-- The official endpoints: the base URLs of the presets that take no other and use HTTPS. -/
def officialEndpoints : List String := [
  "https://api.openai.com/v1", "https://api.anthropic.com", "https://api.deepseek.com",
  "https://dashscope.aliyuncs.com/compatible-mode/v1", "https://api.lkeap.cloud.tencent.com/plan/v3",
  "https://api.siliconflow.cn/v1"]

/-- `url.rstrip("/")` -/
def rstripSlash (url : String) : String :=
  String.ofList (url.toList.reverse.dropWhile (· = '/')).reverse

def UrlParts.target (parts : UrlParts) : Option Nat → Nat
  | some (port + 1) => port + 1
  | _ => if parts.scheme = "https" then 443 else 80

/-- The check of the form of a target. -/
def UrlParts.WellFormed (parts : UrlParts) : Prop :=
  (parts.scheme = "http" ∨ parts.scheme = "https") ∧ parts.hostname ≠ "" ∧ parts.username = "" ∧
    parts.password = "" ∧ parts.fragment = ""

instance : DecidablePred UrlParts.WellFormed := fun _ => inferInstanceAs (Decidable (_ ∧ _))

/-- `sorted({...})` -/
def sortedSet (answers : List String) : List String := answers.dedup.insertionSort (· ≤ ·)

/-- The policy that a context is under. -/
def NetworkMoment.policy (m : NetworkMoment) : AccessContext → Except HarnessError Policy
  | .execution who => m.layers.effective who m.snapshot
  | .diagnostic who _ => m.layers.current who

/-- The model of a call has been granted its endpoint. -/
def NetworkMoment.modelGranted (m : NetworkMoment) (url : String) (ctx : AccessContext)
    (purpose : String) (configured : Bool) (modelProfileRef : Option String)
    (grant : Option ModelSetupGrant) : Bool :=
  match modelProfileRef with
  | none => false
  | some profileRef =>
      purpose = "model" && configured && profileRef ≠ "" &&
        ((match grant, ctx with
          | some grant, .diagnostic who diagnosticId =>
              grant.ownerId = who.ownerId && grant.diagnosticId = diagnosticId &&
                grant.profileRef = profileRef && grant.endpoint = url
          | _, _ => false) ||
        (m.grants profileRef).any fun saved =>
          saved.enabled && saved.ownerId = ctx.who.ownerId && saved.profileRef = profileRef &&
            saved.endpoint = url)

def egressDenied (message : String) : NetworkFault := .network .egressDenied message 403

/-- `PolicyEngine.endpoint`. -/
def NetworkMoment.endpoint (lib : UrlLibrary) (m : NetworkMoment) (url : String)
    (ctx : AccessContext) (purpose : String) (configured : Bool) (modelProfileRef : Option String)
    (grant : Option ModelSetupGrant) : Except NetworkFault (List String) := do
  let parts ← orThrow (lib.urlsplit url) .other
  require parts.WellFormed (.network .endpointDenied "网络目标格式不允许" 403)
  let policy ← (m.policy ctx).mapError .harness
  let granted := m.modelGranted url ctx purpose configured modelProfileRef grant
  require (policy.platformNetwork.getD true = true ∨ granted = true)
    (.network .networkDisabled "当前启动配置禁止网络访问（包括配置端点诊断）" 403)
  require (∀ hosts ∈ policy.platformAllowedHosts, parts.hostname ∈ hosts)
    (egressDenied "目标不在当前启动配置允许的主机中")
  let port ← orThrow parts.port .other
  let answers ← orThrow (m.getaddrinfo parts.hostname (parts.target port)) .other
  let addresses := sortedSet answers
  require (addresses ≠ []) (.network .endpointDenied "网络目标无法解析" 403)
  let ips ← orThrow (addresses.mapM lib.ipAddress) .other
  let isLocal := ips.all IpAddress.isLoopback
  let fakeIpModel := granted && parts.scheme = "https" &&
    officialEndpoints.contains (rstripSlash url) && ips.all fun ip => ip.isGlobal || ip.fake
  require (ips.all IpAddress.isGlobal = true ∨ fakeIpModel = true ∨
      (configured = true ∧ purpose ∈ ["model", "mcp"] ∧ isLocal = true))
    (.network .ssrfDenied "禁止访问私网、链路本地或元数据地址" 403)
  require (policy.egress = .localOnly → isLocal = true) (egressDenied "此工作区仅允许本地数据处理")
  require (policy.egress = .domainAllowlist → parts.hostname ∈ policy.domains)
    (egressDenied "域名不在授权列表中")
  return addresses

/-! ## Fetching -/

/-- What a policy says of a host and its addresses. -/
structure Policy.Admits (policy : Policy) (host : String) (ips : List IpAddress) : Prop where
  network : policy.platformNetwork ≠ some false
  hosts : ∀ hosts, policy.platformAllowedHosts = some hosts → host ∈ hosts
  localOnly : policy.egress = .localOnly → ∀ ip ∈ ips, ip.isLoopback = true
  allowlist : policy.egress = .domainAllowlist → host ∈ policy.domains

/-- The addresses of a target that `fetch` may go to. -/
structure NetworkMoment.Checked (lib : UrlLibrary) (m : NetworkMoment) (url : String)
    (ctx : AccessContext) (parts : UrlParts) (addresses : List String) : Prop where
  parsed : lib.urlsplit url = some parts
  form : parts.WellFormed
  resolved : ∃ port answers, parts.port = some port ∧
    m.getaddrinfo parts.hostname (parts.target port) = some answers ∧ addresses = sortedSet answers
  some_address : addresses ≠ []
  ips : ∃ ips policy, addresses.mapM lib.ipAddress = some ips ∧ (∀ ip ∈ ips, ip.isGlobal = true) ∧
    m.policy ctx = .ok policy ∧ policy.Admits parts.hostname ips

/-- No grant is read for another purpose than `model`. -/
theorem NetworkMoment.modelGranted_fetch (m : NetworkMoment) (url : String) (ctx : AccessContext)
    (configured : Bool) (modelProfileRef : Option String) (grant : Option ModelSetupGrant) :
    m.modelGranted url ctx "fetch" configured modelProfileRef grant = false := by
  unfold modelGranted
  cases modelProfileRef with
  | none => rfl
  | some profileRef => rfl

/-- For `fetch` every address is globally routable, whatever else is passed. -/
theorem NetworkMoment.endpoint_fetch {lib : UrlLibrary} {m : NetworkMoment} {url : String}
    {ctx : AccessContext} {configured : Bool} {modelProfileRef : Option String}
    {grant : Option ModelSetupGrant} {addresses : List String}
    (h : m.endpoint lib url ctx "fetch" configured modelProfileRef grant = .ok addresses) :
    ∃ parts, m.Checked lib url ctx parts addresses := by
  obtain ⟨parts, parsed, h⟩ := bind_eq_ok.mp h
  obtain ⟨_, form, h⟩ := bind_eq_ok.mp h
  obtain ⟨policy, under, h⟩ := bind_eq_ok.mp h
  obtain ⟨_, network, h⟩ := bind_eq_ok.mp h
  obtain ⟨_, hosts, h⟩ := bind_eq_ok.mp h
  obtain ⟨port, target, h⟩ := bind_eq_ok.mp h
  obtain ⟨answers, answered, h⟩ := bind_eq_ok.mp h
  obtain ⟨_, nonempty, h⟩ := bind_eq_ok.mp h
  obtain ⟨ips, read, h⟩ := bind_eq_ok.mp h
  obtain ⟨_, routable, h⟩ := bind_eq_ok.mp h
  obtain ⟨_, localOnly, h⟩ := bind_eq_ok.mp h
  obtain ⟨_, allowlist, h⟩ := bind_eq_ok.mp h
  cases pure_eq_ok.mp h
  have granted := m.modelGranted_fetch url ctx configured modelProfileRef grant
  have network := require_eq_ok.mp network
  have routable := require_eq_ok.mp routable
  have localOnly := require_eq_ok.mp localOnly
  rw [granted] at network routable
  refine ⟨parts, {
    parsed := orThrow_eq_ok.mp parsed
    form := require_eq_ok.mp form
    resolved := ⟨port, answers, orThrow_eq_ok.mp target, orThrow_eq_ok.mp answered, rfl⟩
    some_address := require_eq_ok.mp nonempty
    ips := ⟨ips, policy, orThrow_eq_ok.mp read, ?_, mapError_eq_ok.mp under, ?_⟩ }⟩
  · rcases routable with all | fake | exempt
    · exact List.all_eq_true.mp all
    · cases fake
    · exact absurd exempt.2.1 (by decide)
  · constructor
    · rintro disabled
      rw [disabled] at network
      rcases network with network | network
      · cases network
      · cases network
    · exact fun allowed found => require_eq_ok.mp hosts allowed found
    · exact fun only => List.all_eq_true.mp (localOnly only)
    · exact require_eq_ok.mp allowlist

end MiHarness
