import MiHarness.Library.Effects
import MiHarness.Library.System
import MiHarness.Mcp.ConfigFile
import MiHarness.Policy.Endpoint
import MiHarness.Storage.Records

/-!
# Authorizing a server in the browser

`OAuthAuthorizationService.authorize` finds the authorization server of an MCP server, makes a state and a
verifier for PKCE, and gives a URL to the browser; `callback` takes the code that comes back and redeems it
at the token endpoint.  The verifier is in the vault, and the record of the authorization, under the hash of
its state, says who began it and how far it is.

Both are cut where they await, at each request and at each answer of the host, and the process can stop
there; other authorizations, callbacks and changes of the servers come between.  What servers answer is not
restricted.  What the worker does with tokens is left out.
-/

namespace MiHarness

open Library

/-! ## Errors -/

inductive OAuthCode where
  | endpoint | http | metadataLimit | transport | resourceMismatch | issuerMissing | issuerMismatch
  | pkceRequired | metadataInvalid | clientRegistration | clientAuthUnsupported | state | denied
  | configChanged | mcpNotFound | credentialScope | credentialMissing
deriving DecidableEq, Repr

inductive OAuthFault where
  | oauth (code : OAuthCode) (message : String) (status : Nat)
  /-- What the store raises. -/
  | harness (error : HarnessError)
  /-- What the policy raises. -/
  | network (fault : NetworkFault)
  /-- An error of a library, of the vault of the system or of the network. -/
  | outside
deriving DecidableEq

/-! ## Documents -/

/-- What `callback` needs of an authorization, and nobody else may read. -/
structure OAuthFlow where
  state : String
  verifier : String
  issuer : String
  tokenEndpoint : String
  issuerResponseRequired : Bool
  clientId : Option String
  redirectUri : String
  resource : String
deriving DecidableEq, Repr

/-- `OAuthClientInformationFull`. -/
structure OAuthClientInfo where
  clientId : Option String
  issuer : Option String := none
  tokenEndpointAuthMethod : Option String := none
deriving DecidableEq, Repr

/-- The metadata of a protected resource.  An authorization server that is no text is `none`. -/
structure ResourceMetadata where
  resource : Option String
  authorizationServers : List (Option String)

/-- The metadata of an authorization server. -/
structure ServerMetadata where
  issuer : Option String
  codeChallengeMethodsSupported : List String
  authorizationEndpoint : Option String
  tokenEndpoint : Option String
  registrationEndpoint : Option String
  issuerParameterSupported : Bool

inductive OAuthStatus where
  | pending | denied | exchanging | authorized | failedRequiresReauthorization
deriving DecidableEq, Repr

/-- The target that a credential of the vault is bound to. -/
inductive VaultTarget where
  | flow (authorizationId : String)
  /-- `mcp-oauth-` and the hash of the owner and the server. -/
  | oauth (scope : Hash)
deriving DecidableEq, Repr

/-- A reference names its target and an identity that was drawn, which has no colon. -/
structure VaultReference where
  target : VaultTarget
  identity : String
deriving DecidableEq, Repr

inductive VaultValue where
  | flow (flow : OAuthFlow)
  | tokens (token : Json)
  | client (info : OAuthClientInfo)
deriving DecidableEq, Repr

/-- A record of `oauth_authorizations`. -/
structure OAuthAuthorization where
  authorizationId : String
  ownerId : OwnerId
  serverId : String
  configRevision : Nat
  vaultRef : Option VaultReference
  status : OAuthStatus
  expiresAt : Time
  revision : Nat
deriving DecidableEq, Repr

/-- A record of `oauth_credential_refs`. -/
structure CredentialRef where
  credentialRef : VaultReference
  ownerId : OwnerId
  serverId : String
  revision : Nat
deriving DecidableEq, Repr

structure OAuthTables where
  authorizations : Records Hash OAuthAuthorization := Table.empty
  credentials : Records String CredentialRef := Table.empty
  vault : Table VaultReference VaultValue := Table.empty

abbrev OAuthM := EStateM OAuthFault OAuthTables

/-- What `authorize` reads of the profile of a server. -/
structure OAuthProfile where
  transport : McpTransport
  endpoint : String
  configRevision : Nat
deriving DecidableEq, Repr

/-! ## The host -/

structure HttpReply where
  status : Nat
  /-- `len(response.content)`. -/
  size : Nat
  body : Json

/-- `urllib`, hashes, the models that read a body, and the settings. -/
structure OAuthHost where
  lib : UrlLibrary
  /-- `_origin`. -/
  origin : String → String
  urlencode : List (String × String) → String
  sha256 : String → Hash
  /-- The SHA-256 in URL-safe base64 without padding. -/
  challenge : String → String
  /-- `content_hash` of the owner and the server. -/
  scope : OwnerId → String → Hash
  readResource : Json → Option ResourceMetadata
  readServer : Json → Option ServerMetadata
  readClient : Json → Option OAuthClientInfo
  readToken : Json → Option Json
  callbackUrl : String
  ttl : Nat := 600000

inductive VaultPlace where
  | flowPut | flowGet | flowDelete | credentialPut | credentialGet | credentialDelete
deriving DecidableEq, Repr

/-- What a piece finds outside: the network and the policy, the context for the server, and what the vault of
the system raises. -/
structure OAuthMoment where
  network : NetworkMoment
  access : Except OAuthFault AccessContext
  vault : VaultPlace → Option OAuthFault := fun _ => none

/-- What a piece draws. -/
structure OAuthDraws where
  authorizationId : String
  state : String
  verifier : String
  /-- The identities of a flow and of a credential that are put into the vault. -/
  flowIdentity : String
  credentialIdentity : String

def loopbackHosts : List String := ["127.0.0.1", "localhost", "::1"]

/-- The form of the URLs that are asked. -/
def UrlParts.Secure (parts : UrlParts) : Prop :=
  (parts.scheme = "https" ∨ parts.scheme = "http" ∧ parts.hostname ∈ loopbackHosts) ∧
    parts.username = "" ∧ parts.password = "" ∧ parts.fragment = ""

variable (host : OAuthHost)

/-- `authorize_url`: the policy lets a configured MCP server go there. -/
def OAuthHost.authorizeUrl (m : OAuthMoment) (ctx : AccessContext) (url : String) :
    Except OAuthFault Unit := do
  let _ ← (m.network.endpoint host.lib url ctx "mcp" true none none).mapError .network
  return ()

/-- `_request` up to the request. -/
def OAuthHost.permitUrl (m : OAuthMoment) (ctx : AccessContext) (url : String) : Except OAuthFault Unit := do
  let parts ← orThrow (host.lib.urlsplit url) .outside
  require (parts.scheme = "https" ∨ parts.scheme = "http" ∧ parts.hostname ∈ loopbackHosts)
    (.oauth .endpoint "OAuth 端点必须使用 HTTPS 或经批准的 loopback" 403)
  require (parts.username = "" ∧ parts.password = "" ∧ parts.fragment = "")
    (.oauth .endpoint "OAuth 端点格式不安全" 403)
  host.authorizeUrl m ctx url

/-- `_request` with the response. -/
def HttpReply.accept (expected : List Nat) (reply : HttpReply) : Except OAuthFault Unit := do
  require (reply.status ∈ expected) (.oauth .http "OAuth 服务请求失败" 502)
  require (reply.size ≤ 1000000) (.oauth .metadataLimit "OAuth 响应超过限制" 502)

/-! ## The vault -/

/-- `CredentialVault.put`. -/
def vaultPut (m : OAuthMoment) (place : VaultPlace) (reference : VaultReference) (value : VaultValue) :
    OAuthM Unit := do
  raise (m.vault place)
  modify fun t => { t with vault := t.vault.put reference value }

/-- `CredentialVault.get`. -/
def vaultGet (m : OAuthMoment) (place : VaultPlace) (reference : VaultReference) (target : VaultTarget) :
    OAuthM VaultValue := do
  ensure (reference.target = target) (.oauth .credentialScope "凭据不能用于另一服务" 403)
  raise (m.vault place)
  let t ← get
  raising (orThrow (t.vault.get? reference) (.oauth .credentialMissing "凭据已删除或不可用" 422))

/-- `CredentialVault.delete`, with the places of its reading and of its deletion. -/
def vaultDelete (m : OAuthMoment) (reads deletes : VaultPlace) (reference : VaultReference)
    (target : VaultTarget) : OAuthM Unit := do
  let _ ← vaultGet m reads reference target
  raise (m.vault deletes)
  modify fun t => { t with vault := t.vault.erase reference }

/-- `ScopedVault.set`. -/
def OAuthHost.setCredential (m : OAuthMoment) (owner : OwnerId) (server key identity : String)
    (value : VaultValue) : OAuthM Unit := do
  let scope := host.scope owner server
  let old := (← get).credentials.get (scope ++ key)
  let reference : VaultReference := { target := .oauth scope, identity }
  vaultPut m .credentialPut reference value
  modify fun t => { t with credentials := t.credentials.write (scope ++ key) {
    credentialRef := reference, ownerId := owner, serverId := server
    revision := (old.elim 0 CredentialRef.revision) + 1 } }
  match old with
  | some old => vaultDelete m .credentialGet .credentialDelete old.credentialRef (.oauth scope)
  | none => pure ()

/-- `set_tokens`. -/
def OAuthHost.setTokens (m : OAuthMoment) (owner : OwnerId) (server identity : String) (token : Json) :
    OAuthM Unit :=
  host.setCredential m owner server ":tokens" identity (.tokens token)

/-- `set_client_info`. -/
def OAuthHost.setClientInfo (m : OAuthMoment) (owner : OwnerId) (server identity : String)
    (info : OAuthClientInfo) : OAuthM Unit :=
  host.setCredential m owner server ":client" identity (.client info)

/-- `get_client_info`. -/
def OAuthHost.getClientInfo (m : OAuthMoment) (owner : OwnerId) (server : String) :
    OAuthM (Option OAuthClientInfo) := do
  let scope := host.scope owner server
  match (← get).credentials.get (scope ++ ":client") with
  | none => return none
  | some entry =>
      match ← vaultGet m .credentialGet entry.credentialRef (.oauth scope) with
      | .client info => return some info
      | _ => throw .outside

/-! ## `authorize` -/

/-- The answer that `authorize` awaits. -/
inductive AuthorizePhase where
  /-- The metadata of the resource, under its path. -/
  | resource (path : String)
  /-- The same, under the root. -/
  | root
  | server (resource issuer : String)
  | registration (resource issuer tokenEndpoint authorizationEndpoint : String) (issuerRequired : Bool)

structure AuthorizeCall where
  ownerId : OwnerId
  serverId : String
  profile : OAuthProfile
  ctx : AccessContext
  phase : AuthorizePhase

/-- An authorization that has begun: the key of its record, the record as it was first written, the flow,
and what the URL for the browser asks. -/
structure BegunAuthorization where
  key : Hash
  record : OAuthAuthorization
  flow : OAuthFlow
  query : List (String × String)
  authorizationUrl : String

/-- The first piece of `authorize`. -/
def OAuthHost.authorize (profile : Option OAuthProfile) (owner : OwnerId) (server : String)
    (m : OAuthMoment) : Except OAuthFault AuthorizeCall := do
  let profile ← orThrow profile (.oauth .mcpNotFound "MCP 服务未配置" 404)
  require (profile.transport ≠ .stdio) (.oauth .transport "stdio 服务不使用浏览器 OAuth" 422)
  let ctx ← m.access
  let parts ← orThrow (host.lib.urlsplit profile.endpoint) .outside
  let path := rstripSlash parts.path
  host.permitUrl m ctx (host.origin profile.endpoint ++ "/.well-known/oauth-protected-resource" ++ path)
  return { ownerId := owner, serverId := server, profile, ctx, phase := .resource path }

/-- With the metadata of the resource, or without. -/
def OAuthHost.discovered (call : AuthorizeCall) (reply : HttpReply) (m : OAuthMoment) :
    Except OAuthFault AuthorizeCall := do
  let endpoint := call.profile.endpoint
  let (resource, issuer) ← if reply.status = 200 then do
      let metadata ← orThrow (host.readResource reply.body) .outside
      require (rstripSlash (metadata.resource.getD "") = rstripSlash endpoint)
        (.oauth .resourceMismatch "受保护资源元数据属于另一服务" 403)
      let issuer ← orThrow (metadata.authorizationServers.head?.join)
        (.oauth .issuerMissing "资源未声明授权服务器" 422)
      let resource ← orThrow metadata.resource .outside
      pure (resource, rstripSlash issuer)
    else pure (endpoint, host.origin endpoint)
  let parts ← orThrow (host.lib.urlsplit issuer) .outside
  host.permitUrl m call.ctx
    (host.origin issuer ++ "/.well-known/oauth-authorization-server" ++ rstripSlash parts.path)
  return { call with phase := .server resource issuer }

/-- The end of `authorize`. -/
def OAuthHost.beginFlow (call : AuthorizeCall) (resource issuer tokenEndpoint authorizationEndpoint : String)
    (issuerRequired : Bool) (client : OAuthClientInfo) (m : OAuthMoment) (draws : OAuthDraws) (now : Time) :
    OAuthM BegunAuthorization := do
  let flow : OAuthFlow := {
    state := draws.state, verifier := draws.verifier, issuer, tokenEndpoint
    issuerResponseRequired := issuerRequired, clientId := client.clientId
    redirectUri := host.callbackUrl, resource }
  let reference : VaultReference := { target := .flow draws.authorizationId, identity := draws.flowIdentity }
  vaultPut m .flowPut reference (.flow flow)
  let record : OAuthAuthorization := {
    authorizationId := draws.authorizationId, ownerId := call.ownerId, serverId := call.serverId
    configRevision := call.profile.configRevision, vaultRef := some reference, status := .pending
    expiresAt := now + host.ttl, revision := 1 }
  let key := host.sha256 draws.state
  let t ← get
  let authorizations ← raising ((t.authorizations.compareAndSet key (some 0) record).mapError .harness)
  modify fun t => { t with authorizations }
  let query := [("response_type", "code"), ("client_id", client.clientId.getD "None"),
    ("redirect_uri", host.callbackUrl), ("state", draws.state),
    ("code_challenge", host.challenge draws.verifier), ("code_challenge_method", "S256"),
    ("resource", resource)]
  let separator := if authorizationEndpoint.toList.contains '?' then "&" else "?"
  return {
    key, record, flow, query
    authorizationUrl := authorizationEndpoint ++ separator ++ host.urlencode query }

/-- What a piece of `authorize` leads to. -/
inductive AuthorizeProgress where
  | awaits (call : AuthorizeCall)
  | begun (authorization : BegunAuthorization)

/-- With the metadata of the authorization server. -/
def OAuthHost.chosen (call : AuthorizeCall) (resource issuer : String) (reply : HttpReply) (m : OAuthMoment)
    (draws : OAuthDraws) (now : Time) : OAuthM AuthorizeProgress := do
  raising (reply.accept [200])
  let metadata ← raising (orThrow (host.readServer reply.body) .outside)
  ensure (rstripSlash (metadata.issuer.getD "") = issuer)
    (.oauth .issuerMismatch "授权服务器 issuer 与发现结果不一致" 403)
  ensure ("S256" ∈ metadata.codeChallengeMethodsSupported)
    (.oauth .pkceRequired "授权服务器必须支持 S256 PKCE" 422)
  let missing : OAuthFault := .oauth .metadataInvalid "授权服务器缺少必要端点" 422
  let authorizationEndpoint ← raising (orThrow (metadata.authorizationEndpoint.filter (· ≠ "")) missing)
  let tokenEndpoint ← raising (orThrow (metadata.tokenEndpoint.filter (· ≠ "")) missing)
  raising (host.authorizeUrl m call.ctx authorizationEndpoint)
  raising (host.authorizeUrl m call.ctx tokenEndpoint)
  let existing ← host.getClientInfo m call.ownerId call.serverId
  let known := existing.filter fun info => info.issuer.any fun name => name ≠ "" && rstripSlash name = issuer
  match known with
  | some client =>
      return .begun (← host.beginFlow call resource issuer tokenEndpoint authorizationEndpoint
        metadata.issuerParameterSupported client m draws now)
  | none =>
      let registration ← raising (orThrow (metadata.registrationEndpoint.filter (· ≠ ""))
        (.oauth .clientRegistration "服务需预先配置客户端或开放动态注册" 422))
      raising (host.permitUrl m call.ctx registration)
      let phase := .registration resource issuer tokenEndpoint authorizationEndpoint
        metadata.issuerParameterSupported
      return .awaits { call with phase }

/-- The next piece of `authorize`, with the answer it awaits. -/
def OAuthHost.advance (call : AuthorizeCall) (reply : Except OAuthFault HttpReply) (m : OAuthMoment)
    (draws : OAuthDraws) (now : Time) : OAuthM AuthorizeProgress := do
  let reply ← raising reply
  match call.phase with
  | .resource path =>
      raising (reply.accept [200, 404])
      if reply.status = 404 ∧ path ≠ "" then do
        raising (host.permitUrl m call.ctx
          (host.origin call.profile.endpoint ++ "/.well-known/oauth-protected-resource"))
        return .awaits { call with phase := .root }
      else return .awaits (← raising (host.discovered call reply m))
  | .root =>
      raising (reply.accept [200, 404])
      return .awaits (← raising (host.discovered call reply m))
  | .server resource issuer => host.chosen call resource issuer reply m draws now
  | .registration resource issuer tokenEndpoint authorizationEndpoint issuerRequired =>
      raising (reply.accept [200, 201])
      let client ← raising (orThrow (host.readClient reply.body) .outside)
      ensure (client.tokenEndpointAuthMethod = none ∨ client.tokenEndpointAuthMethod = some "none")
        (.oauth .clientAuthUnsupported "本地浏览器客户端要求 public client + PKCE" 422)
      let client := { client with issuer := some issuer }
      host.setClientInfo m call.ownerId call.serverId draws.credentialIdentity client
      return .begun (← host.beginFlow call resource issuer tokenEndpoint authorizationEndpoint issuerRequired
        client m draws now)

/-! ## `callback` -/

/-- The parameters of the request of the browser. -/
structure CallbackParams where
  state : Option String := none
  iss : Option String := none
  code : Option String := none
  error : Option String := none
deriving DecidableEq, Repr

/-- What a callback awaits: the profile, the context, the resolver, or the answer of the token endpoint. -/
inductive CallbackPhase where
  | profile
  | access (claimed : OAuthAuthorization)
  | permit (claimed : OAuthAuthorization) (ctx : AccessContext)
  | token (claimed : OAuthAuthorization)

structure CallbackCall where
  state : String
  code : String
  key : Hash
  record : OAuthAuthorization
  flow : OAuthFlow
  /-- When the record was found, and the revision of the server that was found at the claim. -/
  since : Time
  serverRevision : Nat := 0
  phase : CallbackPhase

/-- A request to a token endpoint, with what the policy read before it. -/
structure TokenRequest where
  key : Hash
  ownerId : OwnerId
  serverId : String
  since : Time
  serverRevision : Nat
  network : NetworkMoment
  ctx : AccessContext
  endpoint : String
  state : String
  code : String
  redirectUri : String
  clientId : Option String
  verifier : String
  resource : String

/-- `compare_and_set` of a record with the next revision. -/
def advanceAuthorization (key : Hash) (record : OAuthAuthorization) (status : OAuthStatus)
    (vaultRef : Option VaultReference) : OAuthM OAuthAuthorization := do
  let value := { record with revision := record.revision + 1, status, vaultRef }
  let t ← get
  let authorizations ← raising
    ((t.authorizations.compareAndSet key (some record.revision) value).mapError .harness)
  modify fun t => { t with authorizations }
  return value

def invalidState (message : String) : OAuthFault := .oauth .state message 403

/-- The flow of a record. -/
def readFlow (m : OAuthMoment) (record : OAuthAuthorization) : OAuthM OAuthFlow := do
  let reference ← raising (orThrow record.vaultRef .outside)
  match ← vaultGet m .flowGet reference (.flow record.authorizationId) with
  | .flow flow => return flow
  | _ => throw .outside

/-- The first piece of `callback`. -/
def OAuthHost.callback (params : CallbackParams) (m : OAuthMoment) (now : Time) : OAuthM CallbackCall := do
  let invalid := invalidState "OAuth 回调 state 无效"
  let state ← raising (orThrow params.state invalid)
  ensure (state ≠ "" ∧ state.length ≤ 512) invalid
  let key := host.sha256 state
  let used := invalidState "OAuth 回调已使用、过期或不属于此实例"
  let record ← raising (orThrow ((← get).authorizations.get key) used)
  ensure (record.status = .pending ∧ now < record.expiresAt) used
  let flow ← readFlow m record
  ensure (flow.state = state) (invalidState "OAuth state 不匹配")
  ensure ((∀ issuer ∈ params.iss, rstripSlash issuer = flow.issuer) ∧
      (flow.issuerResponseRequired = true → ∃ issuer ∈ params.iss, issuer ≠ ""))
    (.oauth .issuerMismatch "OAuth 回调 issuer 不匹配" 403)
  match params.code.filter (· ≠ ""), params.error.filter (· ≠ "") with
  | some code, none => return { state, code, key, record, flow, since := now, phase := .profile }
  | _, _ =>
      let _ ← advanceAuthorization key record .denied record.vaultRef
      throw (.oauth .denied "授权未完成" 422)

/-- The profile is there: the record is claimed. -/
def CallbackCall.claim (x : CallbackCall) (profile : Option OAuthProfile) : OAuthM CallbackCall := do
  let profile ← raising (orThrow profile (.oauth .mcpNotFound "MCP 服务未配置" 404))
  ensure (profile.configRevision = x.record.configRevision)
    (.oauth .configChanged "授权期间服务配置已变化，请重新授权" 409)
  let claimed ← advanceAuthorization x.key x.record .exchanging x.record.vaultRef
  return { x with serverRevision := profile.configRevision, phase := .access claimed }

/-- What `callback` does with an exception of the exchange. -/
def failExchange (key : Hash) : OAuthM Unit := do
  match (← get).authorizations.get key with
  | some current =>
      if current.status = .exchanging then do
        let _ ← advanceAuthorization key current .failedRequiresReauthorization current.vaultRef
      else pure ()
  | none => pure ()

/-- The checks of the request to the token endpoint. -/
def CallbackCall.permit (x : CallbackCall) (m : OAuthMoment) (ctx : AccessContext) : OAuthM Unit :=
  tryCatch (raising (host.permitUrl m ctx x.flow.tokenEndpoint)) fun e => do
    failExchange x.key
    throw e

/-- The end of `callback`, with the answer of the token endpoint. -/
def CallbackCall.redeem (x : CallbackCall) (claimed : OAuthAuthorization) (reply : Except OAuthFault HttpReply)
    (m : OAuthMoment) (draws : OAuthDraws) : OAuthM Unit :=
  tryCatch (do
    let reply ← raising reply
    raising (reply.accept [200])
    let token ← raising (orThrow (host.readToken reply.body) .outside)
    host.setTokens m claimed.ownerId claimed.serverId draws.credentialIdentity token
    let _ ← advanceAuthorization x.key claimed .authorized none
    let reference ← raising (orThrow x.record.vaultRef .outside)
    vaultDelete m .flowGet .flowDelete reference (.flow x.record.authorizationId)) fun e => do
    failExchange x.key
    throw e

/-- The request that the checks let through. -/
def CallbackCall.request (x : CallbackCall) (m : OAuthMoment) (ctx : AccessContext) : TokenRequest where
  key := x.key
  ownerId := x.record.ownerId
  serverId := x.record.serverId
  since := x.since
  serverRevision := x.serverRevision
  network := m.network
  ctx := ctx
  endpoint := x.flow.tokenEndpoint
  state := x.state
  code := x.code
  redirectUri := x.flow.redirectUri
  clientId := x.flow.clientId
  verifier := x.flow.verifier
  resource := x.flow.resource

/-! ## Runs -/

inductive OAuthCall where
  | authorizing (call : AuthorizeCall)
  | returning (call : CallbackCall)

/-- The tables and the calls under way, with the authorizations that have begun and the requests that have
been made to token endpoints. -/
structure OAuthWorld where
  now : Time := 0
  profiles : String → Option OAuthProfile := fun _ => none
  tables : OAuthTables := {}
  calls : Nat → Option OAuthCall := fun _ => none
  begun : List BegunAuthorization := []
  sent : List TokenRequest := []

inductive OAuthAction where
  | tick (now : Time)
  /-- A change of the configuration of a server. -/
  | configure (server : String) (profile : Option OAuthProfile)
  | authorize (i : Nat) (owner : OwnerId) (server : String) (m : OAuthMoment)
  | callback (i : Nat) (params : CallbackParams) (m : OAuthMoment)
  /-- The next piece of a call; where it awaits no answer, the reply is not read. -/
  | proceed (i : Nat) (reply : Except OAuthFault HttpReply) (m : OAuthMoment) (draws : OAuthDraws)
  /-- A call is cancelled, or its process stops. -/
  | drop (i : Nat)

/-- A call goes on as another one, or ends. -/
def OAuthWorld.set (w : OAuthWorld) (i : Nat) (call : Option OAuthCall) (tables : OAuthTables) : OAuthWorld :=
  { w with tables, calls := Function.update w.calls i call }

/-- The next piece of a callback. -/
def OAuthWorld.goOn (w : OAuthWorld) (i : Nat) (x : CallbackCall) (reply : Except OAuthFault HttpReply)
    (m : OAuthMoment) (draws : OAuthDraws) : OAuthWorld :=
  match x.phase with
  | .profile =>
      match x.claim (w.profiles x.record.serverId) w.tables with
      | .ok x tables => w.set i (some (.returning x)) tables
      | .error _ tables => w.set i none tables
  | .access claimed =>
      match m.access with
      | .ok ctx => w.set i (some (.returning { x with phase := .permit claimed ctx })) w.tables
      | .error _ => w.set i none w.tables
  | .permit claimed ctx =>
      match x.permit host m ctx w.tables with
      | .ok _ tables => { w.set i (some (.returning { x with phase := .token claimed })) tables with
          sent := x.request m ctx :: w.sent }
      | .error _ tables => w.set i none tables
  | .token claimed =>
      match x.redeem host claimed reply m draws w.tables with
      | .ok _ tables => w.set i none tables
      | .error _ tables => w.set i none tables

def OAuthWorld.next (w : OAuthWorld) : OAuthAction → Option OAuthWorld
  | .tick now => some { w with now }
  | .configure server profile => some { w with profiles := Function.update w.profiles server profile }
  | .authorize i owner server m =>
      match w.calls i with
      | some _ => none
      | none =>
          match host.authorize (w.profiles server) owner server m with
          | .ok call => some (w.set i (some (.authorizing call)) w.tables)
          | .error _ => some w
  | .callback i params m =>
      match w.calls i with
      | some _ => none
      | none =>
          match host.callback params m w.now w.tables with
          | .ok x tables => some (w.set i (some (.returning x)) tables)
          | .error _ tables => some { w with tables }
  | .proceed i reply m draws =>
      match w.calls i with
      | none => none
      | some (.authorizing call) =>
          match host.advance call reply m draws w.now w.tables with
          | .ok (.awaits call) tables => some (w.set i (some (.authorizing call)) tables)
          | .ok (.begun b) tables => some { w.set i none tables with begun := b :: w.begun }
          | .error _ tables => some (w.set i none tables)
      | some (.returning x) => some (w.goOn host i x reply m draws)
  | .drop i => some (w.set i none w.tables)

/-- The reference of a flow is drawn so that the vault has nothing under it. -/
def OAuthWorld.Draws (w : OAuthWorld) : OAuthAction → Prop
  | .proceed _ _ _ draws =>
      w.tables.vault.get? { target := .flow draws.authorizationId, identity := draws.flowIdentity } = none
  | _ => True

instance (w : OAuthWorld) : DecidablePred w.Draws := fun
  | .proceed .. => inferInstanceAs (Decidable (_ = none))
  | .tick .. | .configure .. | .authorize .. | .callback .. | .drop .. => .isTrue trivial

def oauthSystem : System OAuthWorld OAuthAction :=
  (System.ofNext (fun w => w = {}) (OAuthWorld.next host)).restrict OAuthWorld.Draws

end MiHarness
