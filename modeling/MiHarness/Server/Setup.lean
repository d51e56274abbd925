import MiHarness.Library.Effects
import MiHarness.Policy.Endpoint
import MiHarness.Server.Configs
import MiHarness.Server.Migrated

/-!
# Setting up a model

`ModelSetupService` takes a provider, an address and a key.  A request is prepared (`_prepare_impl`): it is
checked, and where it has no key it keeps the one that the model has, if the provider and the address are
the same.  What `save` publishes is written in one transaction, with the key in the vault of the system.

Keys are named by references that tell the model that they are for.  `Services.resolve_model_credential`
gives the key behind a reference to a model call, if some profile with this reference has the endpoint.
-/

namespace MiHarness

open Library

/-! ## Providers and requests -/

/-- A provider; what only the catalog or the discovery reads is left out. -/
structure Preset where
  id : String
  defaultBaseUrl : String
  requiresApiKey : Bool := true
  allowCustomBaseUrl : Bool := false
  adapter : ModelAdapter := .openai
  apiMode : String := "chat_completions"

/-- `PRESETS`. -/
def presets : List Preset := [
  { id := "openai", defaultBaseUrl := "https://api.openai.com/v1", apiMode := "responses" },
  { id := "anthropic", defaultBaseUrl := "https://api.anthropic.com", adapter := .anthropic,
    apiMode := "messages" },
  { id := "deepseek", defaultBaseUrl := "https://api.deepseek.com" },
  { id := "qwen", defaultBaseUrl := "https://dashscope.aliyuncs.com/compatible-mode/v1" },
  { id := "tencent", defaultBaseUrl := "https://api.lkeap.cloud.tencent.com/plan/v3" },
  { id := "siliconflow", defaultBaseUrl := "https://api.siliconflow.cn/v1" },
  { id := "ollama", defaultBaseUrl := "http://127.0.0.1:11434", requiresApiKey := false,
    adapter := .ollama, apiMode := "chat" },
  { id := "custom", defaultBaseUrl := "", requiresApiKey := false, allowCustomBaseUrl := true }]

/-- The body of a request. -/
structure SetupRequest where
  providerId : String
  apiKey : Option String := none
  profileId : Option String := none
  baseUrl : Option String := none
  modelId : Option String := none
  contextWindow : Nat := 300000
  activate : Bool := true
  expectedRevision : Option Nat := none
  /-- `probe_mode` is `connectivity`. -/
  connectivity : Bool := false
  refreshVerification : Bool := false
  verificationToken : Option String := none
  acceptUnverifiedCapabilities : List String := []

/-- The provider that a request names. -/
def SetupRequest.preset (body : SetupRequest) : Option Preset := presets.find? (·.id = body.providerId)

/-- The address that a request names, or the one of its provider. -/
def SetupRequest.address (body : SetupRequest) (preset : Preset) : String :=
  (body.baseUrl.filter (· ≠ "")).getD preset.defaultBaseUrl

inductive CapabilityState where
  | verified | unverified | unsupported
deriving DecidableEq, Repr

structure Capability where
  status : CapabilityState := .unverified
  evidenceRef : Option String := none
deriving DecidableEq, Repr

/-- A `ModelProfile`, with the fields that the setup of a model writes. -/
structure SetupProfile where
  profileId : String
  revision : Nat := 1
  providerId : String
  adapterId : ModelAdapter
  endpointRef : String
  credentialRef : Option String := none
  modelId : String
  apiMode : String
  capabilities : List (String × Capability) := []
  limits : ModelLimits := {}
  verificationRef : Option String := none
  others : Json := "\x7b\x7d"
deriving DecidableEq

def SetupProfile.ref (p : SetupProfile) : String := profileRef p.profileId p.revision

/-- What is stored of a report. -/
structure SetupReport where
  verificationRef : String
  checks : List (String × Bool)
  acceptedUnverifiedCapabilities : List String := []
deriving DecidableEq, Repr

/-- `checks.get(name)`. -/
def SetupReport.passes (report : SetupReport) (name : String) : Bool :=
  (report.checks.lookup name).getD false

inductive SetupCode where
  | modelBaseUrlInvalid | modelProfilePinned | modelProviderUnknown | modelNotFound | modelDemoReadonly
  | modelProviderEndpoint | modelProfileInvalid | revisionConflict | modelNameRequired | modelKeyInvalid
  | modelKeyRequired | modelConnectionFailed | modelCredentialStorageFailed | maintenance
  | credentialScope | credentialMissing | endpointMissing | unknownProfile | modelSetupRateLimit
  | modelVerificationExpired | modelFullVerificationRequired | modelVerifiedDraft | modelToolUnavailable
  | modelCapabilitiesIncomplete
deriving DecidableEq, Repr

inductive SetupFault where
  | setup (code : SetupCode) (message : String) (status : Nat)
  /-- What a check of the policy raises. -/
  | network (fault : NetworkFault)
  /-- What the registry or the store raises. -/
  | storage (fault : MigrationFault)
deriving DecidableEq

/-! ## The store -/

/-- The namespaces that the setup of a model writes. -/
structure SetupTables where
  configs : Versioned String SetupProfile := {}
  profiles : Versioned String SetupProfile := {}
  verifications : Versioned String SetupReport := {}
  grants : Versioned String ModelGrant := {}
  agents : Versioned String AgentConfig := {}

/-- The database, `ModelGateway.profiles` and the keys in the vault. -/
structure SetupStore where
  tables : SetupTables := {}
  registry : String → Option SetupProfile := fun _ => none
  vault : String → Option String := fun _ => none

/-- What the service has of Python and of its configuration. -/
structure SetupHost extends UrlLibrary where
  /-- `str.strip` and `str.lower`. -/
  strip : String → String
  lower : String → String
  /-- The namespace `endpoints`, which nothing writes to. -/
  endpoints : String → Option String
  /-- `settings.model_profile_ref` is set. -/
  pinned : Bool

/-- A text that is given is not empty. -/
def nonempty (text : Option String) : Option String := text.filter (· ≠ "")

/-- What is read of a map that has been updated. -/
theorem update_eq_some {κ α : Type} [DecidableEq κ] {f : κ → Option α} {k k' : κ} {v : Option α} {a : α}
    (h : Function.update f k v k' = some a) : (k' = k ∧ v = some a) ∨ (k' ≠ k ∧ f k' = some a) := by
  by_cases here : k' = k
  · subst here
    rw [Function.update_self] at h
    exact .inl ⟨rfl, h⟩
  · rw [Function.update_of_ne here] at h
    exact .inr ⟨here, h⟩

/-- A call that raises this, or nothing. -/
def raised (fault : Option SetupFault) : Except SetupFault Unit :=
  match fault with
  | some fault => .error fault
  | none => .ok ()

variable (host : SetupHost)

/-! ## Endpoints and keys -/

/-- `urlunsplit` of an address that has a scheme and an authority, and no query. -/
def urlunsplit (scheme authority path : String) : String :=
  scheme ++ "://" ++ authority ++ (if path = "" ∨ beginsWith "/" path = true then path else "/" ++ path)

def invalidBaseUrl : SetupFault :=
  .setup .modelBaseUrlInvalid "地址须为 HTTPS，或本机 HTTP；不能包含凭据、查询参数或片段" 422

/-- `normalize_base_url`. -/
def SetupHost.normalizeBaseUrl (value : String) : Except SetupFault String := do
  let value := host.strip value
  let parts ← orThrow (host.urlsplit value) invalidBaseUrl
  let port ← orThrow parts.port invalidBaseUrl
  let hostname := host.lower parts.hostname
  require (parts.scheme ∈ ["https", "http"] ∧ hostname ≠ "" ∧ parts.username = "" ∧
    parts.password = "" ∧ parts.query = "" ∧ parts.fragment = "" ∧
    value.toList.all (fun c => c ≠ '\\' ∧ c ≠ '%' ∧ ¬c.toNat < 33) = true ∧
    ∀ piece ∈ parts.path.toList.splitOn '/', piece ≠ ['.'] ∧ piece ≠ ['.', '.']) invalidBaseUrl
  let loopback := match host.ipAddress hostname with
    | some ip => ip.isLoopback
    | none => hostname = "localhost"
  require (parts.scheme = "http" → loopback = true) invalidBaseUrl
  let authority := if ':' ∈ hostname.toList then "[" ++ hostname ++ "]" else hostname
  let standard := if parts.scheme = "https" then 443 else 80
  let authority := match port with
    | some port => if port ≠ 0 ∧ port ≠ standard then authority ++ ":" ++ toString port else authority
    | none => authority
  return urlunsplit parts.scheme authority (rstripSlash parts.path)

/-- `Services.resolve_endpoint`. -/
def SetupHost.resolveEndpoint (ref : String) : Except SetupFault String :=
  if beginsWith "https://" ref = true ∨ beginsWith "http://" ref = true ∨ beginsWith "demo://" ref = true then
    .ok ref
  else orThrow (host.endpoints ref) (.setup .endpointMissing "模型端点未配置" 422)

/-- The reference that `CredentialVault.put` makes. -/
def credentialReference (target identity : String) : String := "credential:" ++ target ++ ":" ++ identity

/-- `CredentialVault.get`. -/
def SetupStore.key (s : SetupStore) (reference target : String) : Except SetupFault String := do
  require (beginsWith (credentialReference target "") reference = true)
    (.setup .credentialScope "凭据不能用于另一服务" 403)
  orThrow (s.vault reference) (.setup .credentialMissing "凭据已删除或不可用" 422)

/-- The target of the keys of a model. -/
def modelTarget (profileId : String) : String := "model-" ++ profileId

/-! ## Preparing a request -/

/-- `[A-Za-z0-9_.-]{1,160}`. -/
def validProfileId (id : String) : Bool :=
  1 ≤ id.length && id.length ≤ 160 && id.toList.all fun c => c.isAlphanum || ['_', '.', '-'].contains c

/-- A request that has passed. -/
structure Prepared where
  profile : SetupProfile
  secret : Option String
  /-- The reference of the key that the model keeps. -/
  credentialRef : Option String
  existing : Option SetupProfile

/-- A key that is typed in. -/
def checkKey (secret : Option String) : Except SetupFault Unit :=
  require (∀ key ∈ nonempty secret, ¬(key.length > 32768 ∨ key.toList.any (·.toNat < 32) = true))
    (.setup .modelKeyInvalid "API Key 格式无效" 422)

/-- The key that the model has, with its reference. -/
def SetupHost.keptKey (s : SetupStore) (preset : Preset) (endpoint identity : String)
    (existing : SetupProfile) (reference : String) : Except SetupFault String := do
  let previous ← host.resolveEndpoint existing.endpointRef
  let previous ← host.normalizeBaseUrl previous
  require (existing.providerId = preset.id ∧ previous = endpoint)
    (.setup .modelKeyRequired "切换提供方或地址时必须重新输入 API Key" 422)
  s.key reference (modelTarget identity)

/-- The key of a request, and its reference if it is the one that the model has. -/
def SetupHost.requestKey (s : SetupStore) (preset : Preset) (endpoint identity : String)
    (existing : Option SetupProfile) (typed : Option String) :
    Except SetupFault (Option String × Option String) :=
  if preset.id = "ollama" then .ok (none, none)
  else match nonempty typed, nonempty (existing.bind (·.credentialRef)), existing with
    | none, some reference, some existing => do
        let secret ← host.keptKey s preset endpoint identity existing reference
        return (some secret, some reference)
    | _, _, _ => .ok (typed, none)

def revisionConflict (message : String) : SetupFault := .setup .revisionConflict message 409

/-- `_prepare_impl`.  `fresh` is `new_id()`, and `authorized` is what `_authorize` raises. -/
def SetupHost.prepare (s : SetupStore) (needModel saving : Bool) (body : SetupRequest) (fresh : String)
    (authorized : Option SetupFault) : Except SetupFault Prepared := do
  require (¬(saving = true ∧ body.activate = true ∧ host.pinned = true))
    (.setup .modelProfilePinned "启动配置固定了默认模型；请先移除 model_profile_ref 固定项再保存" 409)
  let preset ← orThrow body.preset
    (.setup .modelProviderUnknown "请选择受支持的提供方" 422)
  let existing := (nonempty body.profileId).bind s.tables.configs.get
  require (nonempty body.profileId ≠ none → existing ≠ none)
    (.setup .modelNotFound "要修改的模型配置不存在" 404)
  require (∀ p ∈ existing, p.adapterId ≠ .demo)
    (.setup .modelDemoReadonly "本地演示配置不能替换为云端模型" 422)
  let endpoint ← host.normalizeBaseUrl (body.address preset)
  require (preset.allowCustomBaseUrl = true ∨ endpoint = preset.defaultBaseUrl)
    (.setup .modelProviderEndpoint "预置提供方使用固定官方地址；其他地址请选择自定义" 422)
  let identity := (nonempty body.profileId).getD ("model-" ++ fresh)
  require (validProfileId identity = true) (.setup .modelProfileInvalid "模型配置标识无效" 422)
  require (saving = true → ∀ p ∈ existing, body.expectedRevision = some p.revision)
    (revisionConflict "模型配置已更新，请刷新后重试")
  require (saving = true → existing = none → body.expectedRevision.getD 0 = 0)
    (revisionConflict "新模型配置没有现有版本")
  let model := host.strip (body.modelId.getD "")
  require (needModel = true → model ≠ "" ∧ model.length ≤ 200 ∧ model.toList.all (32 ≤ ·.toNat) = true)
    (.setup .modelNameRequired "请输入模型名称" 422)
  let typed := body.apiKey.map host.strip
  checkKey typed
  let (secret, credentialRef) ← host.requestKey s preset endpoint identity existing typed
  require (preset.requiresApiKey = true → nonempty secret ≠ none)
    (.setup .modelKeyRequired "请输入此提供方的 API Key" 422)
  let limits ← (configuredModelLimits body.contextWindow none).mapError .storage
  raised authorized
  return {
    profile := {
      profileId := identity
      revision := (existing.elim 0 SetupProfile.revision) + 1
      providerId := preset.id
      adapterId := preset.adapter
      apiMode := preset.apiMode
      endpointRef := endpoint
      credentialRef := (nonempty secret).map fun _ => "temporary:model-setup"
      modelId := if model = "" then "discovery-only" else model
      limits }
    secret, credentialRef, existing }

/-! ## What has been prepared -/

section Prepared

variable {host}

theorem urlunsplit_absolute (scheme authority path : String) :
    beginsWith (scheme ++ "://") (urlunsplit scheme authority path) = true := by
  rw [beginsWith, urlunsplit, List.isPrefixOf_iff_prefix, String.append_assoc,
    @String.toList_append (scheme ++ "://")]
  exact List.prefix_append ..

/-- What `resolve_endpoint` makes of an address that has been normalised. -/
theorem SetupHost.resolveEndpoint_normalized {value endpoint : String}
    (h : host.normalizeBaseUrl value = .ok endpoint) : host.resolveEndpoint endpoint = .ok endpoint := by
  obtain ⟨parts, -, h⟩ := bind_eq_ok.mp h
  obtain ⟨port, -, h⟩ := bind_eq_ok.mp h
  obtain ⟨_, form, h⟩ := bind_eq_ok.mp h
  obtain ⟨_, -, h⟩ := bind_eq_ok.mp h
  have made := pure_eq_ok.mp h
  have absolute := urlunsplit_absolute parts.scheme
  refine if_pos ?_
  rw [← made]
  rcases List.mem_cons.mp (require_eq_ok.mp form).1 with https | http
  · rw [https] at absolute ⊢
    exact .inl (absolute ..)
  · rw [List.mem_singleton.mp http] at absolute ⊢
    exact .inr (.inl (absolute ..))

/-- A request keeps the key that the model has. -/
structure Prepared.Keeps (host : SetupHost) (s : SetupStore) (body : SetupRequest) (q : Prepared)
    (reference : String) : Prop where
  untyped : nonempty (body.apiKey.map host.strip) = none
  stored : ∃ p endpoint, s.tables.configs.get q.profile.profileId = some p ∧
    nonempty body.profileId = some q.profile.profileId ∧
    p.credentialRef = some reference ∧ p.providerId = q.profile.providerId ∧
    host.resolveEndpoint p.endpointRef = .ok endpoint ∧
    host.normalizeBaseUrl endpoint = .ok q.profile.endpointRef
  key : ∃ secret, q.secret = some secret ∧
    s.key reference (modelTarget q.profile.profileId) = .ok secret

theorem SetupHost.keptKey_eq_ok {s : SetupStore} {preset : Preset} {endpoint identity reference secret : String}
    {existing : SetupProfile} (h : host.keptKey s preset endpoint identity existing reference = .ok secret) :
    existing.providerId = preset.id ∧ (∃ stored, host.resolveEndpoint existing.endpointRef = .ok stored ∧
      host.normalizeBaseUrl stored = .ok endpoint) ∧ s.key reference (modelTarget identity) = .ok secret := by
  obtain ⟨stored, resolved, h⟩ := bind_eq_ok.mp h
  obtain ⟨previous, normal, h⟩ := bind_eq_ok.mp h
  obtain ⟨_, same, h⟩ := bind_eq_ok.mp h
  obtain ⟨provider, same⟩ := require_eq_ok.mp same
  exact ⟨provider, ⟨stored, resolved, same ▸ normal⟩, h⟩

/-- A reference is kept by a request without a key, of a model that has one. -/
theorem SetupHost.requestKey_eq_ok {s : SetupStore} {preset : Preset} {endpoint identity reference : String}
    {existing : Option SetupProfile} {typed secret : Option String}
    (h : host.requestKey s preset endpoint identity existing typed = .ok (secret, some reference)) :
    nonempty typed = none ∧ ∃ p key, existing = some p ∧ p.credentialRef = some reference ∧
      secret = some key ∧ host.keptKey s preset endpoint identity p reference = .ok key := by
  unfold requestKey at h
  split at h
  case isTrue => cases h
  case isFalse =>
    split at h
    case h_1 untyped named =>
      obtain ⟨key, kept, h⟩ := bind_eq_ok.mp h
      cases h
      obtain ⟨given, -⟩ := Option.filter_eq_some_iff.mp named
      exact ⟨untyped, _, key, rfl, given, rfl, kept⟩
    case h_2 => cases h

theorem SetupHost.prepare_eq_ok {s : SetupStore} {needModel saving : Bool} {body : SetupRequest}
    {fresh : String} {authorized : Option SetupFault} {q : Prepared}
    (h : host.prepare s needModel saving body fresh authorized = .ok q) :
    validProfileId q.profile.profileId = true ∧
      (∃ preset, body.preset = some preset ∧
        host.normalizeBaseUrl (body.address preset) = .ok q.profile.endpointRef) ∧
      ∀ reference, q.credentialRef = some reference → q.Keeps host s body reference := by
  obtain ⟨_, -, h⟩ := bind_eq_ok.mp h
  obtain ⟨preset, named', h⟩ := bind_eq_ok.mp h
  obtain ⟨_, -, h⟩ := bind_eq_ok.mp h
  obtain ⟨_, -, h⟩ := bind_eq_ok.mp h
  obtain ⟨endpoint, normal, h⟩ := bind_eq_ok.mp h
  obtain ⟨_, -, h⟩ := bind_eq_ok.mp h
  obtain ⟨_, valid, h⟩ := bind_eq_ok.mp h
  obtain ⟨_, -, h⟩ := bind_eq_ok.mp h
  obtain ⟨_, -, h⟩ := bind_eq_ok.mp h
  obtain ⟨_, -, h⟩ := bind_eq_ok.mp h
  obtain ⟨_, -, h⟩ := bind_eq_ok.mp h
  obtain ⟨⟨secret, credentialRef⟩, key, h⟩ := bind_eq_ok.mp h
  obtain ⟨_, -, h⟩ := bind_eq_ok.mp h
  obtain ⟨limits, -, h⟩ := bind_eq_ok.mp h
  obtain ⟨_, -, h⟩ := bind_eq_ok.mp h
  cases h
  refine ⟨require_eq_ok.mp valid, ⟨preset, orThrow_eq_ok.mp named', normal⟩, fun reference kept => ?_⟩
  cases kept
  obtain ⟨untyped, p, key, existing, named, same, kept⟩ := requestKey_eq_ok key
  obtain ⟨provider, ⟨stored, resolved, normal'⟩, read⟩ := keptKey_eq_ok kept
  obtain ⟨id, given, row⟩ := Option.bind_eq_some_iff.mp existing
  have identity : (nonempty body.profileId).getD ("model-" ++ fresh) = id := by
    rw [given]
    rfl
  refine ⟨untyped, ⟨p, stored, ?_, ?_, named, provider, resolved, normal'⟩, key, same, read⟩
  · rw [← row]
    exact congrArg s.tables.configs.get identity
  · exact given.trans (congrArg some identity.symm)

end Prepared

/-! ## Publishing -/

/-- What the transaction of a save is given. -/
structure PublishJob where
  owner : String
  report : SetupReport
  activate : Bool
  now : String
  /-- `secrets.token_hex(16)`. -/
  drawn : String
  maintenance : Bool := false
  /-- The vault of the system raises. -/
  vaultFails : Bool := false
  deleteFails : Bool := false

/-- The capabilities that are published when their checks have passed. -/
def publishedCapabilities : List String := ["text", "tool_calling", "streaming", "vision"]

/-- The profile that is published. -/
def Prepared.verified (q : Prepared) (reference : Option String) (report : SetupReport) : SetupProfile :=
  { q.profile with
    credentialRef := reference
    verificationRef := some report.verificationRef
    capabilities := (publishedCapabilities.filter report.passes).map fun name =>
      (name, { status := .verified, evidenceRef := some report.verificationRef }) }

/-- The grant of the endpoint, to the owner. -/
def endpointGrant (job : PublishJob) (p : SetupProfile) : ModelGrant where
  profileRef := p.ref
  source := "paired_model_setup"
  createdAt := job.now
  others := canonicalJson (.object [("owner_id", .string job.owner), ("endpoint", .string p.endpointRef),
    ("enabled", .bool true)])

def setupStored {α : Type} (x : Except HarnessError α) : Except SetupFault α :=
  x.mapError fun e => .storage (.harness e)

/-- The writes of the transaction. -/
def SetupTables.publish (t : SetupTables) (q : Prepared) (p : SetupProfile) (job : PublishJob) :
    Except SetupFault SetupTables := do
  require (job.maintenance = false) (.setup .maintenance "维护期间暂停模型配置" 503)
  let expected := q.existing.map SetupProfile.revision
  require ((t.configs.get p.profileId).map SetupProfile.revision = expected)
    (revisionConflict "模型配置已更新，请刷新后重试")
  let configs ← setupStored (t.configs.compareAndSet p.profileId expected p)
  let profiles ← setupStored (t.profiles.compareAndSet p.ref none p)
  let verifications ← setupStored (t.verifications.put job.report.verificationRef job.report)
  let grants ← setupStored (t.grants.put p.ref (endpointGrant job p))
  let agents ← (activateModel job.activate t.agents p.ref).mapError .storage
  return { configs, profiles, verifications, grants, agents }

/-- `CredentialVault.put`, for a save that has a key of its own. -/
def Prepared.newKey (q : Prepared) (job : PublishJob) : Option (String × String) :=
  match nonempty q.secret, q.credentialRef with
  | some secret, none => some (credentialReference (modelTarget q.profile.profileId) job.drawn, secret)
  | _, _ => none

/-- What `save` does when the checks have passed: a key that it has put into the vault is taken out again
when the transaction raises. -/
def SetupStore.publish (s : SetupStore) (q : Prepared) (job : PublishJob) :
    EStateM.Result SetupFault SetupStore SetupProfile :=
  let created := q.newKey job
  if created ≠ none ∧ job.vaultFails = true then
    .error (.setup .modelCredentialStorageFailed "无法将 API Key 写入系统凭据库" 503) s
  else
    let vault := match created with
      | some (reference, secret) => Function.update s.vault reference (some secret)
      | none => s.vault
    let p := q.verified (q.credentialRef.or (created.map Prod.fst)) job.report
    match s.tables.publish q p job with
    | .ok tables => .ok p { tables, vault, registry := Function.update s.registry p.ref (some p) }
    | .error e => .error e { s with vault := if job.deleteFails = true then vault else s.vault }

theorem setupStored_eq_ok {α : Type} {x : Except HarnessError α} {a : α} (h : setupStored x = .ok a) : x = .ok a :=
  mapError_eq_ok.mp h

/-- What the transaction has written of the profile. -/
theorem SetupTables.publish_eq_ok {t t' : SetupTables} {q : Prepared} {p : SetupProfile} {job : PublishJob}
    (h : t.publish q p job = .ok t') :
    (∃ n, t.configs.Wrote p.profileId n p t'.configs) ∧ ∃ n, t.profiles.Wrote p.ref n p t'.profiles := by
  obtain ⟨_, -, h⟩ := bind_eq_ok.mp h
  obtain ⟨_, -, h⟩ := bind_eq_ok.mp h
  obtain ⟨configs, config, h⟩ := bind_eq_ok.mp h
  obtain ⟨profiles, profile, h⟩ := bind_eq_ok.mp h
  obtain ⟨verifications, -, h⟩ := bind_eq_ok.mp h
  obtain ⟨grants, -, h⟩ := bind_eq_ok.mp h
  obtain ⟨agents, -, h⟩ := bind_eq_ok.mp h
  cases h
  exact ⟨⟨_, Versioned.wrote_of_compareAndSet (setupStored_eq_ok config)⟩,
    ⟨_, Versioned.wrote_of_compareAndSet (setupStored_eq_ok profile)⟩⟩

/-! ## Saving a configuration -/

/-- `ModelGateway.register`. -/
def SetupStore.register (s : SetupStore) (p : SetupProfile) : Except SetupFault SetupStore := do
  require (∀ previous ∈ s.registry p.ref, previous = p)
    (.storage (.value "Editing a model profile requires a new revision"))
  require (∀ existing ∈ s.tables.profiles.get p.ref, existing = p)
    (.storage (.value "Profile revision already exists"))
  let profiles ← setupStored (s.tables.profiles.put p.ref p)
  return {
    s with
    tables := { s.tables with profiles }
    registry := Function.update s.registry p.ref (some p) }

theorem SetupStore.register_eq_ok {s s' : SetupStore} {p : SetupProfile} (h : s.register p = .ok s') :
    ∃ n profiles, s.tables.profiles.Wrote p.ref n p profiles ∧
      s' = { s with
        tables := { s.tables with profiles }
        registry := Function.update s.registry p.ref (some p) } := by
  obtain ⟨_, -, h⟩ := bind_eq_ok.mp h
  obtain ⟨_, -, h⟩ := bind_eq_ok.mp h
  obtain ⟨profiles, put, h⟩ := bind_eq_ok.mp h
  cases h
  exact ⟨_, profiles, Versioned.wrote_of_put (setupStored_eq_ok put), rfl⟩

/-- The profile that `save_config` makes of a body. -/
def SetupProfile.configured (p : SetupProfile) (id : String) (expected : Option Nat) : SetupProfile :=
  { p with profileId := id, revision := expected.getD 0 + 1 }

/-- `save_config` of a model.  What it has written to the database is rolled back when it raises, and what
it has put into the registry is not. -/
def SetupStore.saveConfig (s : SetupStore) (id : String) (expected : Option Nat) (p : SetupProfile) :
    EStateM.Result SetupFault SetupStore Unit :=
  if p.credentialRef.all (beginsWith "credential:") = false then
    .error (.storage (.value "凭据字段必须使用 credential: 引用")) s
  else match s.register (p.configured id expected) with
    | .error e => .error e s
    | .ok registered =>
        match setupStored (registered.tables.configs.compareAndSet id expected (p.configured id expected)) with
        | .ok configs => .ok () { registered with tables := { registered.tables with configs } }
        | .error e => .error e { registered with tables := s.tables }

/-! ## Calling a model -/

/-- The profiles of a list that have the reference and the endpoint. -/
def SetupHost.boundTo (reference endpoint : String) :
    List SetupProfile → Except SetupFault (List SetupProfile)
  | [] => .ok []
  | p :: ps =>
      if p.credentialRef = some reference then do
        let resolved ← host.resolveEndpoint p.endpointRef
        let rest ← boundTo reference endpoint ps
        return if resolved = endpoint then p :: rest else rest
      else boundTo reference endpoint ps

/-- `Services.resolve_model_credential`. -/
def SetupHost.resolveModelCredential (s : SetupStore) (reference endpoint : String) :
    Except SetupFault String := do
  match ← host.boundTo reference endpoint s.tables.profiles.list with
  | p :: _ => s.key reference (modelTarget p.profileId)
  | [] => throw (.setup .credentialScope "凭据未绑定此模型目标" 403)

/-- `ModelGateway.get_profile`. -/
def SetupStore.profile (s : SetupStore) (ref : String) : Option SetupProfile :=
  let ref := if ref = "demo" then "demo@1" else ref
  (s.tables.profiles.get ref).or (s.registry ref)

/-- What a model call sends, and where. -/
structure ModelSend where
  profile : SetupProfile
  endpoint : String
  key : Option (String × String)

/-- `ModelGateway.resolve`.  `denied` is what `policy_check` raises. -/
def SetupHost.resolveModel (s : SetupStore) (ref : String) (denied : Option SetupFault) :
    Except SetupFault ModelSend := do
  let profile ← orThrow (s.profile ref)
    (.setup .unknownProfile "Model profile revision is not configured" 409)
  raised denied
  let endpoint ← host.resolveEndpoint profile.endpointRef
  match nonempty profile.credentialRef with
  | none => return { profile, endpoint, key := none }
  | some reference =>
      let secret ← host.resolveModelCredential s reference endpoint
      return { profile, endpoint, key := some (reference, secret) }

namespace Sample

def openaiUrl : UrlParts where
  scheme := "https"
  hostname := "api.openai.com"
  port := some none
  username := ""
  password := ""
  path := "/v1"
  query := ""
  fragment := ""

def setupHost : SetupHost where
  urlsplit url := if url = "https://api.openai.com/v1" then some openaiUrl else none
  urljoin _ _ := none
  ipAddress _ := none
  strip := id
  lower := id
  endpoints _ := none
  pinned := false

end Sample

end MiHarness
