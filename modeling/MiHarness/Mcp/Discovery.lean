import Mathlib.Algebra.Order.Ring.Unbundled.Rat
import MiHarness.Library.Table
import MiHarness.Mcp.Outcome
import MiHarness.Mcp.Publication

/-!
# The catalog of a server

`McpGateway.discover` asks a server for its tools, page by page, until a page has no cursor for another.
What a server answers is a function of everything that it and the others have been asked and have answered
before, so it may change its mind at each request, repeat its cursors, or give the same tools again and
again.

What bounds the walk is the number of pages (`listPages`, which is recursive on it), and what bounds the
catalog is the number of tools.  A walk that stops for another reason than that there is no further page
is not complete.
-/

namespace MiHarness

open Library

abbrev Cursor := String

/-! ## Pages and tools -/

structure ToolDescriptor where
  name : String
  inputSchema : JsonData
  outputSchema : Option JsonData := none
  annotations : Option JsonData := none
  description : Option String := none

structure ToolPage where
  tools : List ToolDescriptor
  nextCursor : Option Cursor
  ttlMs : Option Int := none

structure CatalogTool where
  originalName : String
  safeAlias : String
  schemaHash : String
  inputSchema : JsonData
  outputSchema : Option JsonData
  annotations : JsonData
  description : String
  revision : String

structure CatalogSnapshot where
  serverId : String
  principalFingerprint : String
  configRevision : Nat
  protocolVersion : String
  expiresAt : Rat
  complete : Bool
  diagnostics : List String
  tools : List CatalogTool

/-- What `Draft202012Validator.check_schema` does: it returns, raises `SchemaError`, or raises otherwise. -/
inductive SchemaCheck where
  | valid
  | invalid
  | raised (e : PyError)

/-- The limits of the gateway, and what it takes from its libraries. -/
structure DiscoveryHost where
  maxPages : Nat := 100
  maxTools : Nat := 2000
  /-- The services have only the gateway with the limits above. -/
  tools_pos : 0 < maxTools := by decide
  checkSchema : JsonData → SchemaCheck
  /-- `content_hash({"input": …, "output": …})`. -/
  schemaHash : JsonData → Option JsonData → String
  /-- `hashlib.sha256(….encode()).hexdigest()`. -/
  sha256 : String → String

variable (host : DiscoveryHost)

def DiscoveryHost.checkTool (tool : ToolDescriptor) : SchemaCheck :=
  match host.checkSchema tool.inputSchema with
  | .valid => tool.outputSchema.elim .valid host.checkSchema
  | other => other

/-- `s[:n]`. -/
def clipText (s : String) (n : Nat) : String := String.ofList (s.toList.take n)

/-- `re.sub(r"[^a-zA-Z0-9_-]", "_", original)`. -/
def sanitized (original : String) : String :=
  original.map fun c => if c.isAlphanum || c = '_' || c = '-' then c else '_'

def DiscoveryHost.catalogTool (serverId : String) (configRevision : Nat) (tool : ToolDescriptor) :
    CatalogTool :=
  let digest := host.schemaHash tool.inputSchema tool.outputSchema
  let revision := toString configRevision ++ ":" ++ clipText digest 16
  let suffix := clipText (host.sha256 (serverId ++ "/" ++ tool.name ++ "/" ++ revision)) 14
  { originalName := tool.name
    safeAlias := "mcp_" ++ clipText (sanitized tool.name) 40 ++ "_" ++ suffix
    schemaHash := digest
    inputSchema := tool.inputSchema
    outputSchema := tool.outputSchema
    annotations := tool.annotations.getD (.object [])
    description := tool.description.getD ""
    revision }

/-- The type of the schemas of a `CatalogTool`; a schema may also be `true` or `false`. -/
def JsonData.isObject : JsonData → Bool
  | .object _ => true
  | _ => false

/-! ## The walk -/

/-- A request for a page, and what came of it. -/
abbrev PageExchange := Option Cursor × Except PyError ToolPage

/-- What the servers answer, given all exchanges before and the cursor. -/
abbrev McpServer := List PageExchange → Option Cursor → Except PyError ToolPage

/-- The state of `list_all`, with all exchanges of the gateway. -/
structure Listing where
  exchanges : List PageExchange
  tools : List CatalogTool := []
  aliases : List String := []
  seen : List Cursor := []
  diagnostics : List String := []
  ttl : Rat

abbrev ListingM := EStateM PyError Listing

def noteListing (diagnostic : String) : ListingM Unit :=
  modify fun l => { l with diagnostics := l.diagnostics ++ [diagnostic] }

/-- `client.list_tools(cursor=cursor)`. -/
def McpServer.listTools (server : McpServer) (cursor : Option Cursor) : ListingM ToolPage := do
  let answer := server (← get).exchanges cursor
  modify fun l => { l with exchanges := l.exchanges ++ [(cursor, answer)] }
  match answer with
  | .ok page => return page
  | .error e => throw e

/-- A turn for a tool; there is none after it where it does not return `true`. -/
def DiscoveryHost.takeTool (serverId : String) (configRevision : Nat) (tool : ToolDescriptor) :
    ListingM Bool := do
  match host.checkTool tool with
  | .raised e => throw e
  | .invalid =>
      noteListing ("invalid_schema:" ++ tool.name)
      return true
  | .valid =>
      let entry := host.catalogTool serverId configRevision tool
      if entry.safeAlias ∈ (← get).aliases then
        noteListing "duplicate_tool_alias"
        return false
      else
        modify fun l => { l with aliases := l.aliases ++ [entry.safeAlias] }
        ensure (tool.inputSchema.isObject = true ∧ tool.outputSchema.all JsonData.isObject = true)
          (.value "ValidationError")
        modify fun l => { l with tools := l.tools ++ [entry] }
        if host.maxTools ≤ (← get).tools.length then
          noteListing "catalog_tool_limit"
          return false
        else return true

def DiscoveryHost.takeTools (serverId : String) (configRevision : Nat) :
    List ToolDescriptor → ListingM Bool
  | [] => return true
  | tool :: tools => do
      if (← host.takeTool serverId configRevision tool) = true then
        takeTools serverId configRevision tools
      else return false

/-- The loop of `list_all`, for so many pages; it returns whether the catalog is complete. -/
def DiscoveryHost.listPages (serverId : String) (configRevision : Nat) (server : McpServer) :
    Nat → Option Cursor → ListingM Bool
  | 0, _ => do
      noteListing "catalog_page_limit"
      return false
  | n + 1, cursor => do
      let page ← server.listTools cursor
      modify fun l => { l with ttl := page.ttlMs.elim l.ttl fun hint => min l.ttl (max 0 (hint / 1000)) }
      if (← host.takeTools serverId configRevision page.tools) = true then
        match page.nextCursor with
        | none => return true
        | some next =>
            if next ∈ (← get).seen then
              noteListing "repeated_cursor"
              return false
            else
              modify fun l => { l with seen := l.seen ++ [next] }
              listPages serverId configRevision server n (some next)
      else return false

/-! ## Discovering -/

inductive CachePolicy where
  | use | refresh
deriving DecidableEq, Repr

/-- A call of `discover`, with what it finds around it. -/
structure DiscoverCall where
  /-- What `_profile` and `_identity` give, and `authorize` raises. -/
  profile : Except PyError McpRecord
  authorized : Option PyError
  identity : Except PyError String
  cachePolicy : CachePolicy := .use
  /-- What `_execute` raises before the server is asked, and when it has been. -/
  opened : Option PyError
  closed : Option PyError
  server : McpServer
  protocolVersion : String
  /-- `time.monotonic()` at the beginning and at the end, and the time of the day. -/
  began : Rat
  ended : Rat
  now : Rat

/-- The cache, with all exchanges that the gateway has had. -/
structure CatalogGateway where
  cache : Table String (Rat × CatalogSnapshot)
  exchanges : List PageExchange

abbrev CatalogM := EStateM PyError CatalogGateway

/-- A value that there is, or an exception. -/
def orFail {α : Type} : Except PyError α → CatalogM α
  | .ok a => return a
  | .error e => throw e

/-- `list_all`, from the start. -/
def DiscoveryHost.listAll (profile : McpRecord) (server : McpServer) : CatalogM (Bool × Listing) := fun g =>
  match host.listPages profile.profile.serverId profile.configRevision server host.maxPages none
      { exchanges := g.exchanges, ttl := profile.profile.catalogTtl } with
  | .ok complete l => .ok (complete, l) { g with exchanges := l.exchanges }
  | .error e l => .error e { g with exchanges := l.exchanges }

/-- The snapshot in the cache that has not expired. -/
def CatalogGateway.cached (g : CatalogGateway) (call : DiscoverCall) (identity : String) :
    Option CatalogSnapshot :=
  (g.cache.get? identity).bind fun (expires, snapshot) =>
    if call.cachePolicy = .use ∧ call.began < expires then some snapshot else none

/-- `McpGateway.discover`. -/
def DiscoveryHost.discover (call : DiscoverCall) : CatalogM CatalogSnapshot := do
  let profile ← orFail call.profile
  raise call.authorized
  let identity ← orFail call.identity
  match (← get).cached call identity with
  | some snapshot => return snapshot
  | none =>
      raise call.opened
      let (complete, l) ← host.listAll profile call.server
      let snapshot : CatalogSnapshot :=
        { serverId := profile.profile.serverId, principalFingerprint := identity
          configRevision := profile.configRevision, protocolVersion := call.protocolVersion
          expiresAt := call.now + l.ttl, complete, diagnostics := l.diagnostics, tools := l.tools }
      raise call.closed
      modify fun g => { g with cache := g.cache.put identity (call.ended + l.ttl, snapshot) }
      return snapshot

/-! ## What a walk has found -/

def DiscoveryHost.accepts (tool : ToolDescriptor) : Bool :=
  match host.checkTool tool with
  | .valid => true
  | _ => false

/-- The entries of the tools with valid schemas, in order. -/
def DiscoveryHost.validTools (serverId : String) (configRevision : Nat) (tools : List ToolDescriptor) :
    List CatalogTool :=
  (tools.filter host.accepts).map (host.catalogTool serverId configRevision)

/-- The exchanges are for these pages: each is asked for by the cursor of the page before, and there is
none after the last. -/
inductive Consumed : Option Cursor → List PageExchange → List ToolPage → Prop where
  | last {cursor page} : page.nextCursor = none → Consumed cursor [(cursor, .ok page)] [page]
  | more {cursor page next exchanges pages} : page.nextCursor = some next →
      Consumed (some next) exchanges pages →
      Consumed cursor ((cursor, .ok page) :: exchanges) (page :: pages)

/-- The catalog is within its limit, and no two of its tools have one alias. -/
structure DiscoveryHost.Fits (l : Listing) : Prop where
  aliases : l.aliases = l.tools.map CatalogTool.safeAlias
  nodup : l.aliases.Nodup
  size : l.tools.length ≤ host.maxTools

section Walk

variable {host} {serverId : String} {configRevision : Nat} {l t : Listing}

theorem DiscoveryHost.validTools_append (a b : List ToolDescriptor) :
    host.validTools serverId configRevision (a ++ b) =
      host.validTools serverId configRevision a ++ host.validTools serverId configRevision b := by
  rw [validTools, List.filter_append, List.map_append]
  rfl

theorem DiscoveryHost.Fits.same (fits : host.Fits l) (aliases : t.aliases = l.aliases)
    (tools : t.tools = l.tools) : host.Fits t := by
  refine ⟨?_, ?_, ?_⟩
  · rw [aliases, tools, fits.aliases]
  · rw [aliases]
    exact fits.nodup
  · rw [tools]
    exact fits.size

/-- What is so when the walk goes on after these tools. -/
structure DiscoveryHost.GoesOn (host : DiscoveryHost) (serverId : String) (configRevision : Nat)
    (tools : List ToolDescriptor) (l t : Listing) : Prop where
  room : t.tools.length < host.maxTools
  tools : t.tools = l.tools ++ host.validTools serverId configRevision tools

theorem DiscoveryHost.takeTool_wp (tool : ToolDescriptor) (fits : host.Fits l)
    (room : l.tools.length < host.maxTools) :
    wp (host.takeTool serverId configRevision tool)
      (fun more t => t.exchanges = l.exchanges ∧ host.Fits t ∧
        (more = true → host.GoesOn serverId configRevision [tool] l t))
      (fun _ t => t.exchanges = l.exchanges) l := by
  rw [takeTool]
  split
  case h_1 => exact rfl
  case h_2 invalid =>
    rw [wp_bind, noteListing, wp_modify]
    refine ⟨rfl, fits.same rfl rfl, fun _ => ⟨room, ?_⟩⟩
    have none : host.validTools serverId configRevision [tool] = [] := by
      simp [validTools, accepts, invalid]
    rw [none, List.append_nil]
  case h_3 valid =>
    rw [wp_bind, wp_get]
    split
    case isTrue =>
      rw [wp_bind, noteListing, wp_modify]
      exact ⟨rfl, fits.same rfl rfl, fun more => by cases more⟩
    case isFalse new =>
      rw [wp_bind, wp_modify]
      refine wp_ensure_bind (fun _ => rfl) fun _ => ?_
      rw [wp_bind, wp_modify, wp_bind, wp_get]
      have one : host.validTools serverId configRevision [tool] =
          [host.catalogTool serverId configRevision tool] := by
        simp [validTools, accepts, valid]
      have entered : host.Fits { l with
          aliases := l.aliases ++ [(host.catalogTool serverId configRevision tool).safeAlias]
          tools := l.tools ++ [host.catalogTool serverId configRevision tool] } := by
        refine ⟨?_, ?_, ?_⟩
        · rw [List.map_append, ← fits.aliases]
          rfl
        · exact List.nodup_append.mpr ⟨fits.nodup, List.nodup_singleton _, by
            intro a ha b hb same
            rw [List.mem_singleton.mp hb] at same
            exact new (same ▸ ha)⟩
        · rw [List.length_append]
          exact room
      split
      case isTrue =>
        rw [wp_bind, noteListing, wp_modify]
        exact ⟨rfl, entered.same rfl rfl, fun more => by cases more⟩
      case isFalse below =>
        exact ⟨rfl, entered, fun _ => ⟨Nat.lt_of_not_le below, by rw [one]⟩⟩

theorem DiscoveryHost.takeTools_wp (tools : List ToolDescriptor) (fits : host.Fits l)
    (room : l.tools.length < host.maxTools) :
    wp (host.takeTools serverId configRevision tools)
      (fun more t => t.exchanges = l.exchanges ∧ host.Fits t ∧
        (more = true → host.GoesOn serverId configRevision tools l t))
      (fun _ t => t.exchanges = l.exchanges) l := by
  induction tools generalizing l with
  | nil => exact ⟨rfl, fits, fun _ => ⟨room, (List.append_nil _).symm⟩⟩
  | cons tool tools ih =>
      rw [takeTools, wp_bind]
      refine (takeTool_wp tool fits room).mono ?_ fun _ _ same => same
      rintro more t ⟨same, fits, goes⟩
      split
      case isTrue went =>
        have first := goes went
        refine (ih fits first.room).mono ?_ fun _ _ later => later.trans same
        rintro more' u ⟨later, fits', goes'⟩
        refine ⟨later.trans same, fits', fun went' => ⟨(goes' went').room, ?_⟩⟩
        rw [(goes' went').tools, first.tools, List.append_assoc, ← validTools_append]
        rfl
      case isFalse => exact ⟨same, fits, fun more => by cases more⟩

theorem McpServer.listTools_wp (server : McpServer) (cursor : Option Cursor) (l : Listing) :
    wp (server.listTools cursor)
      (fun page t => t = { l with exchanges := l.exchanges ++ [(cursor, .ok page)] })
      (fun e t => t = { l with exchanges := l.exchanges ++ [(cursor, .error e)] }) l := by
  rw [listTools, wp_bind, wp_get, wp_bind, wp_modify]
  split
  case h_1 page answer =>
    rw [wp_pure, answer]
  case h_2 e answer =>
    rw [wp_throw, answer]

/-- Exchanges that have been added, at most `n`. -/
def Asked (n : Nat) (before after made : List PageExchange) : Prop :=
  after = before ++ made ∧ made.length ≤ n

theorem DiscoveryHost.listPages_wp (server : McpServer) (n : Nat) (cursor : Option Cursor)
    (fits : host.Fits l) (room : l.tools.length < host.maxTools) :
    wp (host.listPages serverId configRevision server n cursor)
      (fun complete t => ∃ made, Asked n l.exchanges t.exchanges made ∧ host.Fits t ∧
        (complete = true → ∃ pages, Consumed cursor made pages ∧
          t.tools = l.tools ++
            host.validTools serverId configRevision (pages.flatMap ToolPage.tools)))
      (fun _ t => ∃ made, Asked n l.exchanges t.exchanges made) l := by
  induction n generalizing l cursor with
  | zero =>
      rw [listPages, wp_bind, noteListing, wp_modify]
      exact ⟨[], ⟨(List.append_nil _).symm, Nat.le_refl 0⟩, fits.same rfl rfl, fun complete => by cases complete⟩
  | succ n ih =>
      rw [listPages, wp_bind]
      refine (server.listTools_wp cursor l).mono ?_ ?_
      · rintro page t rfl
        rw [wp_bind, wp_modify, wp_bind]
        refine wp.mono (takeTools_wp page.tools (fits.same rfl rfl) room) ?_ ?_
        · rintro more u ⟨same, fits, goes⟩
          have one : Asked (n + 1) l.exchanges u.exchanges [(cursor, .ok page)] :=
            ⟨same, Nat.succ_le_succ (Nat.zero_le n)⟩
          split
          case isTrue went =>
            have found := goes went
            split
            case h_1 last =>
              refine ⟨_, one, fits, fun _ => ⟨[page], .last last, ?_⟩⟩
              rw [found.tools, List.flatMap_singleton]
            case h_2 next more =>
              rw [wp_bind, wp_get]
              split
              case isTrue =>
                rw [wp_bind, noteListing, wp_modify]
                exact ⟨_, one, fits.same rfl rfl, fun complete => by cases complete⟩
              case isFalse =>
                rw [wp_bind, wp_modify]
                have asked : ∀ {after made}, Asked n u.exchanges after made →
                    Asked (n + 1) l.exchanges after ((cursor, .ok page) :: made) := by
                  rintro after made ⟨rfl, bound⟩
                  exact ⟨by rw [one.1, List.append_assoc]; rfl, Nat.succ_le_succ bound⟩
                refine wp.mono (ih (some next) (fits.same rfl rfl) found.room) ?_ ?_
                · rintro complete v ⟨made, later, fits', consumed⟩
                  refine ⟨_, asked later, fits', fun whole => ?_⟩
                  obtain ⟨pages, rest, tools⟩ := consumed whole
                  refine ⟨page :: pages, .more more rest, ?_⟩
                  rw [tools, List.flatMap_cons, validTools_append, ← List.append_assoc, ← found.tools]
                · rintro e v ⟨made, later⟩
                  exact ⟨_, asked later⟩
          case isFalse => exact ⟨_, one, fits, fun complete => by cases complete⟩
        · rintro e u same
          exact ⟨_, same, Nat.succ_le_succ (Nat.zero_le n)⟩
      · rintro e t rfl
        exact ⟨_, rfl, Nat.succ_le_succ (Nat.zero_le n)⟩

end Walk

/-! ## The gateway -/

/-- The catalog is within its limit and has no alias twice, and a complete one has exactly the valid tools
of the pages of these exchanges, up to one without a cursor. -/
structure DiscoveryHost.Catalogs (made : List PageExchange) (snapshot : CatalogSnapshot) : Prop where
  size : snapshot.tools.length ≤ host.maxTools
  aliases : (snapshot.tools.map CatalogTool.safeAlias).Nodup
  complete : snapshot.complete = true → ∃ pages, Consumed none made pages ∧
    snapshot.tools =
      host.validTools snapshot.serverId snapshot.configRevision (pages.flatMap ToolPage.tools)

/-- The catalog is of a discovery that has been made. -/
def DiscoveryHost.Discovered (exchanges : List PageExchange) (snapshot : CatalogSnapshot) : Prop :=
  ∃ before made after, exchanges = before ++ made ++ after ∧ made.length ≤ host.maxPages ∧
    host.Catalogs made snapshot

/-- The state after a call, which may have raised. -/
def DiscoveryHost.after (g : CatalogGateway) (call : DiscoverCall) : CatalogGateway :=
  match host.discover call g with
  | .ok _ g' => g'
  | .error _ g' => g'

/-- The gateway has its calls one after another. -/
def DiscoveryHost.gateway : System CatalogGateway DiscoverCall :=
  .ofNext (fun g => g.cache = .empty ∧ g.exchanges = []) fun g call => some (host.after g call)

/-- What is in the cache has been discovered. -/
def DiscoveryHost.CacheSound (g : CatalogGateway) : Prop :=
  ∀ identity entry, g.cache.get? identity = some entry → host.Discovered g.exchanges entry.2

section Discover

variable {host} {g : CatalogGateway}

theorem DiscoveryHost.Discovered.append {exchanges : List PageExchange} {snapshot : CatalogSnapshot}
    (discovered : host.Discovered exchanges snapshot) (made : List PageExchange) :
    host.Discovered (exchanges ++ made) snapshot := by
  obtain ⟨before, earlier, after, rfl, bound, catalogs⟩ := discovered
  exact ⟨before, earlier, after ++ made, List.append_assoc .., bound, catalogs⟩

theorem orFail_wp {α : Type} (x : Except PyError α) (g : CatalogGateway) :
    wp (orFail x) (fun _ t => t = g) (fun _ t => t = g) g := by
  cases x with
  | error e => exact rfl
  | ok a => exact rfl

theorem CatalogGateway.cached_eq_some {call : DiscoverCall} {identity : String}
    {snapshot : CatalogSnapshot} (h : g.cached call identity = some snapshot) :
    ∃ expires, g.cache.get? identity = some (expires, snapshot) := by
  obtain ⟨⟨expires, found⟩, row, valid⟩ := Option.bind_eq_some_iff.mp h
  dsimp only at valid
  split at valid
  · cases valid
    exact ⟨expires, row⟩
  · cases valid

theorem DiscoveryHost.listAll_wp (profile : McpRecord) (server : McpServer) (g : CatalogGateway) :
    wp (host.listAll profile server)
      (fun out t => t.cache = g.cache ∧ ∃ made, Asked host.maxPages g.exchanges t.exchanges made ∧
        host.Fits out.2 ∧ (out.1 = true → ∃ pages, Consumed none made pages ∧
          out.2.tools = host.validTools profile.profile.serverId profile.configRevision
            (pages.flatMap ToolPage.tools)))
      (fun _ t => t.cache = g.cache ∧ ∃ made, Asked host.maxPages g.exchanges t.exchanges made) g := by
  have start : host.Fits { exchanges := g.exchanges, ttl := profile.profile.catalogTtl } :=
    ⟨rfl, List.nodup_nil, Nat.zero_le _⟩
  have walked : wp (host.listPages profile.profile.serverId profile.configRevision server
      host.maxPages none) _ _ _ := listPages_wp server host.maxPages none start host.tools_pos
  unfold wp at walked ⊢
  unfold listAll
  split at walked
  case h_1 complete l result =>
    rw [result]
    obtain ⟨made, asked, fits, consumed⟩ := walked
    exact ⟨rfl, made, asked, fits, consumed⟩
  case h_2 e l result =>
    rw [result]
    exact ⟨rfl, walked⟩

/-- What a call does: it asks for no more pages than the limit, and returns a catalog of these, or the one
that was in the cache. -/
theorem DiscoveryHost.discover_wp (call : DiscoverCall) (sound : host.CacheSound g) :
    wp (host.discover call)
      (fun snapshot t => host.CacheSound t ∧ ∃ made, Asked host.maxPages g.exchanges t.exchanges made ∧
        (host.Catalogs made snapshot ∨ made = [] ∧ host.Discovered g.exchanges snapshot))
      (fun _ t => host.CacheSound t ∧ ∃ made, Asked host.maxPages g.exchanges t.exchanges made) g := by
  have none : Asked host.maxPages g.exchanges g.exchanges [] :=
    ⟨(List.append_nil _).symm, Nat.zero_le _⟩
  have stays : ∀ (e : PyError) t, t = g →
      host.CacheSound t ∧ ∃ made, Asked host.maxPages g.exchanges t.exchanges made := by
    rintro e t rfl
    exact ⟨sound, [], none⟩
  rw [discover, wp_bind]
  refine (orFail_wp call.profile g).mono ?_ stays
  rintro profile t rfl
  refine wp_raise_bind (fun _ _ => ⟨sound, [], none⟩) fun _ => ?_
  rw [wp_bind]
  refine (orFail_wp call.identity t).mono ?_ stays
  rintro identity u rfl
  rw [wp_bind, wp_get]
  split
  case h_1 snapshot found =>
    obtain ⟨expires, row⟩ := CatalogGateway.cached_eq_some found
    exact ⟨sound, [], none, .inr ⟨rfl, sound identity _ row⟩⟩
  case h_2 =>
    refine wp_raise_bind (fun _ _ => ⟨sound, [], none⟩) fun _ => ?_
    rw [wp_bind]
    have grown : ∀ {t : CatalogGateway} {made}, t.cache = u.cache →
        Asked host.maxPages u.exchanges t.exchanges made → host.CacheSound t := by
      rintro t made same ⟨asked, -⟩ other entry row
      rw [asked]
      exact (sound other entry (same ▸ row)).append made
    refine (listAll_wp profile call.server u).mono ?_ ?_
    · rintro ⟨complete, l⟩ v ⟨same, made, asked, fits, consumed⟩
      refine wp_raise_bind (fun _ _ => ⟨grown same asked, made, asked⟩) fun _ => ?_
      rw [wp_bind, wp_modify, wp_pure]
      have catalogs : host.Catalogs made
          { serverId := profile.profile.serverId, principalFingerprint := identity
            configRevision := profile.configRevision, protocolVersion := call.protocolVersion
            expiresAt := call.now + l.ttl, complete, diagnostics := l.diagnostics, tools := l.tools } :=
        ⟨fits.size, fits.aliases ▸ fits.nodup, consumed⟩
      refine ⟨fun other entry row => ?_, made, asked, .inl catalogs⟩
      rw [Table.get?_put] at row
      split at row
      case isTrue =>
        cases row
        exact ⟨u.exchanges, made, [], asked.1.trans (List.append_nil _).symm, asked.2, catalogs⟩
      case isFalse => exact grown same asked other entry row
    · rintro e v ⟨same, made, asked⟩
      exact ⟨grown same asked, made, asked⟩

theorem DiscoveryHost.cacheSound (reachable : host.gateway.Reachable g) : host.CacheSound g := by
  refine reachable.invariant (fun g start identity entry row => ?_) fun g call g' _ sound step => ?_
  · rw [start.1] at row
    cases row
  · cases step
    have done := discover_wp call sound
    unfold wp at done
    unfold after
    split at done
    case h_1 result =>
      rw [result]
      exact done.1
    case h_2 result =>
      rw [result]
      exact done.1

end Discover

/-- Whatever the servers answer, and whatever they have answered before: a call asks for at most `maxPages`
pages, also when it raises.  What it returns has at most `maxTools` tools and no alias twice, and is marked
complete only if the pages of one call, this one or the one that the cache is from, went on to one without a
cursor and the tools are the valid ones of all these pages, in order. -/
theorem mcp_discovery {host : DiscoveryHost} {g : CatalogGateway} (reachable : host.gateway.Reachable g)
    (call : DiscoverCall) :
    wp (host.discover call)
      (fun snapshot t => ∃ made, Asked host.maxPages g.exchanges t.exchanges made ∧
        (host.Catalogs made snapshot ∨ made = [] ∧ host.Discovered g.exchanges snapshot))
      (fun _ t => ∃ made, Asked host.maxPages g.exchanges t.exchanges made) g :=
  (DiscoveryHost.discover_wp call (DiscoveryHost.cacheSound reachable)).mono
    (fun _ _ found => found.2) fun _ _ raised => raised.2

namespace Sample

def discoveryHost : DiscoveryHost where
  checkSchema
    | .null => .invalid
    | _ => .valid
  schemaHash _ _ := "0123456789abcdef01234567"
  sha256 s := s

/-- Two pages, the second behind the empty cursor, with a tool whose schema is not valid. -/
def pagedServer : McpServer
  | _, none => .ok { tools := [⟨"one", .object [], none, none, none⟩, ⟨"bad", .null, none, none, none⟩]
                     nextCursor := some "" }
  | _, some _ => .ok { tools := [⟨"two", .object [], none, none, none⟩], nextCursor := none }

def fixtureRecord : McpRecord where
  profile := { serverId := "fixture", displayName := "Fixture", transport := .stdio }
  revision := some 1
  configRevision := 1

def discovering : DiscoverCall where
  profile := .ok fixtureRecord
  authorized := none
  identity := .ok "anonymous"
  opened := none
  closed := none
  server := pagedServer
  protocolVersion := "2026-07-28"
  began := 0
  ended := 0
  now := 0

def discovered : Option CatalogSnapshot :=
  match discoveryHost.discover discovering { cache := .empty, exchanges := [] } with
  | .ok snapshot _ => some snapshot
  | .error _ _ => none

theorem discovered_complete : discovered.any (fun snapshot =>
    snapshot.complete && snapshot.tools.map CatalogTool.originalName = ["one", "two"]) = true := by
  decide +kernel

end Sample

theorem mcp_discovery_pages : ∃ snapshot, Sample.discovered = some snapshot ∧
    snapshot.tools.map CatalogTool.originalName = ["one", "two"] ∧
    ∃ made, Sample.discoveryHost.Catalogs made snapshot := by
  obtain ⟨snapshot, found, both⟩ := (Option.any_eq_true ..).mp Sample.discovered_complete
  have start : Sample.discoveryHost.gateway.Reachable { cache := .empty, exchanges := [] } :=
    .init ⟨rfl, rfl⟩
  have result := mcp_discovery start Sample.discovering
  unfold wp at result
  refine ⟨snapshot, found, of_decide_eq_true (Bool.and_eq_true_iff.mp both).2, ?_⟩
  unfold Sample.discovered at found
  split at found
  · rename_i returned
    cases found
    rw [returned] at result
    obtain ⟨made, -, catalogs | ⟨-, -, earlier, -, -, -, catalogs⟩⟩ := result
    · exact ⟨made, catalogs⟩
    · exact ⟨earlier, catalogs⟩
  · cases found

end MiHarness
