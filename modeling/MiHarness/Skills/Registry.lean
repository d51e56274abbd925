import MiHarness.Library.Delimited
import MiHarness.Library.System
import MiHarness.Skills.Snapshots
import MiHarness.Storage.Records

/-!
# Skills and their activations

`SkillRegistry.refresh` scans the sources: it stores a snapshot of each bundle that it finds, and a record
of the skill and of this version of it.  `SkillActivator.activate` gives a run one version of a skill, and
`read_resource` reads from the snapshot of that version for as long as the activation lasts and the skill
may be used.

The calls take one lock, so one follows another.  What a source holds is an argument of a refresh, since
the files can be edited at any time, also while they are scanned.
-/

namespace MiHarness

open Library Library.Utf8

abbrev SkillId := Nat
abbrev ActivationRef := Nat

/-! ## The front matter of a skill -/

/-- A value of the front matter, as far as the parser tells its type.  A mapping comes with what the making
of a record with it raises: the keys of its metadata have to be texts. -/
inductive YamlValue where
  | null
  | string (s : String)
  | mapping (refused : Option SkillError)
  | other
deriving DecidableEq, Repr

abbrev SkillMetadata := List (String × YamlValue)

/-- What `yaml.safe_load` raises: an error of its own, perhaps with a line, or another exception. -/
inductive YamlError where
  | yaml (line : Option Nat)
  | raised (e : SkillError)
deriving DecidableEq, Repr

/-- The digest, `yaml.safe_load` (no value for what is not a mapping) and `mimetypes.guess_type`. -/
structure SkillHost extends SnapshotHost where
  yaml : List Char → Except YamlError (Option SkillMetadata)
  guessType : String → Option String

/-- `str.strip` takes it away. -/
def isBlank (c : Char) : Bool :=
  let n := c.toNat
  (0x09 ≤ n && n ≤ 0x0d) || (0x1c ≤ n && n ≤ 0x20) || n = 0x85 || n = 0xa0 || n = 0x1680 ||
    (0x2000 ≤ n && n ≤ 0x200a) || n = 0x2028 || n = 0x2029 || n = 0x202f || n = 0x205f || n = 0x3000

/-- `text.removeprefix("\ufeff")`. -/
def removeMark : List Char → List Char
  | [] => []
  | c :: rest => if c.toNat = 0xfeff then rest else c :: rest

/-- `text.replace("\r\n", "\n")`. -/
def replaceCrlf : List Char → List Char
  | '\r' :: '\n' :: rest => '\n' :: replaceCrlf rest
  | c :: rest => c :: replaceCrlf rest
  | [] => []

/-- What follows the line that closes the front matter. -/
def afterFence (text : List Char) : Option (List Char) :=
  if "\n---\n".toList.isPrefixOf text = true then some (text.drop 5) else none

/-- `re.fullmatch(r"[a-z0-9]+(?:-[a-z0-9]+)*", name)`, with at most 64 characters. -/
def validName (name : List Char) : Bool :=
  (name.splitOn '-').all (fun part => part ≠ [] &&
    part.all fun c => ('a' ≤ c && c ≤ 'z') || ('0' ≤ c && c ≤ '9')) && name.length ≤ 64

/-- What is wrong with the fields of the front matter. -/
def metadataDiagnostics (metadata : SkillMetadata) : List String :=
  (match metadata.lookup "name" with
    | some (.string name) => if validName name.toList = true then [] else
        ["SKILL.md: name must be 1-64 lowercase letters, numbers and single hyphens"]
    | _ => ["SKILL.md: name must be 1-64 lowercase letters, numbers and single hyphens"]) ++
  (match metadata.lookup "description" with
    | some (.string text) =>
        if text.toList.all isBlank = false ∧ text.toList.length ≤ 1024 then [] else
          ["SKILL.md: description must contain 1-1024 characters"]
    | _ => ["SKILL.md: description must contain 1-1024 characters"]) ++
  (match metadata.lookup "compatibility" with
    | none | some .null => []
    | some (.string text) => if text.toList.length ≤ 500 then [] else
        ["SKILL.md: compatibility must be a string of at most 500 characters"]
    | _ => ["SKILL.md: compatibility must be a string of at most 500 characters"]) ++
  (match metadata.lookup "metadata" with
    | none | some (.mapping _) => []
    | _ => ["SKILL.md: metadata must be an object"])

/-- `parse_skill`: the front matter, the body and what is wrong. -/
def SkillHost.parseSkill (host : SkillHost) (text : List Char) :
    Except SkillError (SkillMetadata × List Char × List String) :=
  let normalized := replaceCrlf (removeMark text)
  if "---\n".toList.isPrefixOf normalized = false then
    .ok ([], normalized, ["SKILL.md:1: missing YAML frontmatter"])
  else
    match search afterFence (normalized.drop 4) with
    | none => .ok ([], normalized, ["SKILL.md: missing closing frontmatter delimiter"])
    | some (front, body) =>
        match host.yaml front with
        | .error (.yaml line) =>
            .ok ([], body,
              ["SKILL.md:" ++ toString (line.elim 1 (· + 2)) ++ ": invalid safe YAML"])
        | .error (.raised e) => .error e
        | .ok none => .ok ([], body, ["SKILL.md: frontmatter must be an object"])
        | .ok (some metadata) => .ok (metadata, body, metadataDiagnostics metadata)

/-- The text of a field, if it is one. -/
def SkillMetadata.text (metadata : SkillMetadata) (field : String) : Option String :=
  match metadata.lookup field with
  | some (.string s) => some s
  | _ => none

/-- What the making of the record raises. -/
def SkillMetadata.refused (metadata : SkillMetadata) : Option SkillError :=
  match metadata.lookup "metadata" with
  | some (.mapping refused) => refused
  | _ => none

/-! ## Records -/

inductive SkillScope where
  | builtIn | user | project | remote
deriving DecidableEq, Repr

inductive TrustState where
  | trusted | unreviewed | blocked
deriving DecidableEq, Repr

/-- A skill, or a version of it; the digest is empty where there is no snapshot. -/
structure SkillRecord where
  skillId : SkillId
  sourceId : String
  revision : Nat := 1
  relativePath : String
  name : String
  description : String := ""
  rootUri : String
  contentHash : Hash := ""
  enabled : Bool := true
  scope : SkillScope
  trustState : TrustState := .unreviewed
  validationDiagnostics : List String := []
deriving DecidableEq, Repr

inductive ActivatedBy where
  | user | model
deriving DecidableEq, Repr

structure SkillActivation where
  ownerId : OwnerId
  workspaceId : WorkspaceId
  sessionId : SessionId
  runId : RunId
  agentId : String
  skillId : SkillId
  contentHash : Hash
  activatedBy : ActivatedBy
  reason : String
  loadedResourceRefs : List String := []
  activatedAt : Time
  deactivatedAt : Option Time := none
  deactivationReason : Option String := none
deriving DecidableEq, Repr

/-- The namespaces `skills`, `skill_versions` and `skill_activations`, and the snapshots. -/
structure SkillWorld where
  skills : Records SkillId SkillRecord
  versions : Table (SkillId × Hash) SkillRecord
  activations : Table ActivationRef SkillActivation
  snapshots : SnapshotStore

abbrev SkillM := EStateM SkillError SkillWorld

def onSnapshots {α : Type} (x : SnapshotM α) : SkillM α :=
  zoom SkillWorld.snapshots (fun snapshots w => { w with snapshots }) x

/-- The value, or the exception when there is none. -/
def orRaise {α : Type} (o : Option α) (e : SkillError) : SkillM α :=
  match o with
  | some a => return a
  | none => throw e

/-- `SkillRegistry.get`. -/
def getSkill (skillId : SkillId) : SkillM SkillRecord := do
  orRaise ((← get).skills.get skillId) { kind := .key, text := "'unknown skill'" }

/-- `repository.put("skills", …)`. -/
def putSkill (record : SkillRecord) : SkillM Unit :=
  modify fun w => { w with
    skills := w.skills.put record.skillId
      { revision := w.skills.revision record.skillId + 1, payload := record } }

/-- `repository.list("skills")`. -/
def SkillWorld.listSkills (w : SkillWorld) : List SkillRecord :=
  (w.skills.rows.insertionSort fun a b => a.1 ≤ b.1).map fun row => row.2.payload

/-! ## Refreshing -/

structure SkillCandidate where
  relativePath : String
  rootUri : String
deriving DecidableEq, Repr

/-- A source as a scan finds it. -/
structure SkillSource where
  scope : SkillScope
  trusted : Bool
  /-- What `discover` yields, and what it raises behind that. -/
  candidates : List SkillCandidate
  interrupted : Option SkillError
  /-- `snapshot`. -/
  bundle : SkillCandidate → Except SkillError Bundle
  /-- What the operating system raises when the bundle is stored. -/
  refused : SkillCandidate → Option SkillError

/-- `except (ValueError, PermissionError, OSError, UnicodeError)`. -/
def SkillErrorKind.reported : SkillErrorKind → Bool
  | .permission | .value | .fileNotFound | .os | .unicode => true
  | .key | .other => false

/-- `f"{type(exc).__name__}: {exc}"`. -/
def SkillError.line (e : SkillError) : String := e.kind.className ++ ": " ++ e.text

def undecodableError : SkillError := { kind := .unicode, text := "invalid utf-8" }

variable (host : SkillHost)

/-- The bundle of a candidate with its front matter. -/
def SkillHost.scan (source : SkillSource) (candidate : SkillCandidate) :
    Except SkillError (Bundle × SkillMetadata × List String) := do
  let files ← source.bundle candidate
  let content ← orThrow (files.get? "SKILL.md") { kind := .key, text := "'SKILL.md'" }
  let text ← orThrow (decodeStrict content) undecodableError
  let (metadata, _, diagnostics) ← host.parseSkill text
  return (files, metadata, diagnostics)

/-- An exception of a scan becomes a diagnostic; then there is no digest. -/
def reportedAs (metadata : SkillMetadata) (e : SkillError) :
    SkillM (SkillMetadata × List String × Hash) :=
  if e.kind.reported = true then return (metadata, [e.line], "") else throw e

/-- The `try` of `refresh`: the front matter, the diagnostics and the digest. -/
def SkillHost.takeSnapshot (source : SkillSource) (candidate : SkillCandidate) :
    SkillM (SkillMetadata × List String × Hash) :=
  match host.scan source candidate with
  | .error e => reportedAs [] e
  | .ok (files, metadata, diagnostics) =>
      tryCatch (do
        let digest ← onSnapshots (host.put files (source.refused candidate))
        return (metadata, diagnostics, digest)) (reportedAs metadata)

/-- The record of a candidate, given the one that there was. -/
def refreshedRecord (sourceId : String) (source : SkillSource) (candidate : SkillCandidate)
    (old : Option SkillRecord) (fresh : SkillId) (metadata : SkillMetadata)
    (diagnostics : List String) (digest : Hash) : SkillRecord where
  skillId := (old.map SkillRecord.skillId).getD fresh
  sourceId := sourceId
  revision := (old.map SkillRecord.revision).getD 0 + 1
  relativePath := candidate.relativePath
  name := (metadata.text "name").getD candidate.relativePath
  description := (metadata.text "description").getD ""
  rootUri := candidate.rootUri
  contentHash := digest
  enabled := diagnostics.isEmpty && (old.map SkillRecord.enabled).getD true
  scope := source.scope
  trustState :=
    if old.map SkillRecord.trustState = some .blocked then .blocked
    else if source.trusted = true ∨ old.map SkillRecord.trustState = some .trusted then .trusted
    else .unreviewed
  validationDiagnostics := diagnostics

/-- The last row for a path of a source. -/
def lastAt (existing : List SkillRecord) (sourceId relativePath : String) : Option SkillRecord :=
  existing.reverse.find? fun r => r.sourceId = sourceId && r.relativePath = relativePath

/-- The rows without those that a later row of the same path replaces. -/
def lastRows : List SkillRecord → List SkillRecord
  | [] => []
  | r :: rest =>
      if (lastAt rest r.sourceId r.relativePath).isSome = true then lastRows rest
      else r :: lastRows rest

def SkillHost.refreshCandidate (existing : List SkillRecord) (sourceId : String)
    (source : SkillSource) (fresh : SkillId) (candidate : SkillCandidate) : SkillM SkillRecord := do
  let (metadata, diagnostics, digest) ← host.takeSnapshot source candidate
  let record := refreshedRecord sourceId source candidate
    (lastAt existing sourceId candidate.relativePath) fresh metadata diagnostics digest
  -- The record is made outside the `try`, so what that raises ends the refresh.
  raise metadata.refused
  putSkill record
  if digest ≠ "" then
    modify fun w => { w with versions := w.versions.put (record.skillId, digest) record }
  return record

/-- `uuid4` draws anew at each candidate, also where a source or a path comes twice. -/
def SkillHost.refreshCandidates (existing : List SkillRecord) (sourceId : String)
    (source : SkillSource) (fresh : Nat → SkillId) :
    List SkillCandidate → SkillM (List SkillRecord)
  | [] => return []
  | candidate :: candidates => do
      let record ← host.refreshCandidate existing sourceId source (fresh candidates.length) candidate
      return record :: (← refreshCandidates existing sourceId source fresh candidates)

/-- A skill that is no longer found. -/
def SkillRecord.removed (r : SkillRecord) : SkillRecord :=
  { r with
    enabled := false, revision := r.revision + 1
    validationDiagnostics := ["source entry removed or source disabled"] }

/-- The skills of a source that the scan has not seen. -/
def withdraw (sourceId : String) (seen : List String) : List SkillRecord → SkillM Unit
  | [] => return ()
  | r :: rest => do
      if r.sourceId = sourceId ∧ r.relativePath ∉ seen then putSkill r.removed
      withdraw sourceId seen rest

def SkillHost.refreshSource (sources : List (String × SkillSource)) (existing : List SkillRecord)
    (fresh : Nat → SkillId) (sourceId : String) : SkillM (List SkillRecord) := do
  let source ← orRaise (sources.lookup sourceId) { kind := .key, text := sourceId }
  let records ← host.refreshCandidates existing sourceId source fresh source.candidates
  raise source.interrupted
  withdraw sourceId (source.candidates.map SkillCandidate.relativePath) (lastRows existing)
  return records

def SkillHost.refreshSources (sources : List (String × SkillSource)) (existing : List SkillRecord)
    (fresh : Nat → Nat → SkillId) : List String → SkillM (List SkillRecord)
  | [] => return []
  | sourceId :: sourceIds => do
      let records ← host.refreshSource sources existing (fresh sourceIds.length) sourceId
      return records ++ (← refreshSources sources existing fresh sourceIds)

structure RefreshReport where
  refreshed : List SkillRecord
  nameConflicts : List (String × List SkillId)

/-- The names that more than one skill has. -/
def nameConflicts (rows : List SkillRecord) : List (String × List SkillId) :=
  ((rows.map SkillRecord.name).eraseDups.map fun name =>
    (name, (rows.filter (·.name = name)).map SkillRecord.skillId)).filter (1 < ·.2.length)

/-- `SkillRegistry.refresh`. -/
def SkillHost.refresh (sources : List (String × SkillSource)) (sourceIds : Option (List String))
    (fresh : Nat → Nat → SkillId) : SkillM RefreshReport := do
  let existing := (← get).listSkills
  let chosen := sourceIds.getD []
  let refreshed ← host.refreshSources sources existing fresh
    (if chosen = [] then sources.map Prod.fst else chosen)
  return { refreshed, nameConflicts := nameConflicts (← get).listSkills }

/-- `SkillRegistry.configure`. -/
def configure (skillId : SkillId) (expectedRevision : Nat) (enabled : Option Bool)
    (trustState : Option TrustState) : SkillM SkillRecord := do
  let current ← getSkill skillId
  ensure (current.revision = expectedRevision)
    { kind := .value, text := "skill configuration revision conflict" }
  ensure (enabled = some true → current.validationDiagnostics = [])
    { kind := .value, text := "invalid skill cannot be enabled" }
  let record := { current with
    revision := expectedRevision + 1, enabled := enabled.getD current.enabled
    trustState := trustState.getD current.trustState }
  match (← get).skills.compareAndSet skillId (some expectedRevision) record with
  | .ok skills => modify fun w => { w with skills }
  | .error e => throw { kind := .other, text := e.message }
  return record

/-! ## Activations -/

/-- The context of a caller, of a run or of no run. -/
structure SkillContext where
  ownerId : OwnerId
  workspaceId : WorkspaceId
  sessionId : SessionId
  runId : Option RunId

inductive SkillAccess where
  | activate | read
deriving DecidableEq, Repr

/-- What `authorize` raises, for an action and a record. -/
abbrev SkillAuthorizer := SkillAccess → SkillRecord → Option SkillError

structure ActivateRequest where
  skillId : SkillId
  contentHash : Option Hash := none
  activatedBy : ActivatedBy := .user
  reason : String := "explicit activation"
  agentId : String := "default"
  allowlist : Option (List SkillId) := none

structure ActivatedSkill where
  activationRef : ActivationRef
  activation : SkillActivation
  record : SkillRecord
  body : List Char
  snapshotRef : Hash
  resources : List String

structure ResourceContent where
  content : Bytes
  mimeType : String
  sourceUri : String
  contentHash : Hash
  snapshotRef : Hash

/-- The activation is for this run, agent and skill, and has not ended. -/
def SkillActivation.pins (a : SkillActivation) (runId : RunId) (agentId : String) (skillId : SkillId) :
    Bool :=
  a.runId = runId && a.agentId = agentId && a.skillId = skillId && a.deactivatedAt.isNone

/-- The first activation that pins the skill, in the order of the keys. -/
def SkillWorld.pinned (w : SkillWorld) (runId : RunId) (agentId : String) (skillId : SkillId) :
    Option (ActivationRef × SkillActivation) :=
  (w.activations.rows.insertionSort fun a b => a.1 ≤ b.1).find? fun row =>
    row.2.pins runId agentId skillId

/-- `_check_owner`. -/
def checkOwner (a : SkillActivation) (ctx : SkillContext) : SkillM Unit :=
  ensure (a.ownerId = ctx.ownerId ∧ a.workspaceId = ctx.workspaceId ∧ some a.runId = ctx.runId)
    { kind := .permission, text := "skill activation belongs to another execution scope" }

/-- The digest that an activation asks for. -/
def ActivateRequest.digest (r : ActivateRequest) (existing : Option (ActivationRef × SkillActivation))
    (current : SkillRecord) : Hash :=
  (r.contentHash.filter (· ≠ "")).getD ((existing.map (·.2.contentHash)).getD current.contentHash)

/-- The body of the skill in a snapshot. -/
def SkillHost.readBody (digest : Hash) : SkillM (List Char) := do
  let content ← onSnapshots (host.read digest "SKILL.md")
  let text ← orRaise (decodeStrict content) undecodableError
  match host.parseSkill text with
  | .error e => throw e
  | .ok (_, body, diagnostics) =>
      ensure (diagnostics = [])
        { kind := .value, text := "pinned skill snapshot has invalid frontmatter" }
      return body

/-- The activation that there is, or a new one. -/
def enterActivation (ctx : SkillContext) (r : ActivateRequest) (runId : RunId) (digest : Hash)
    (existing : Option (ActivationRef × SkillActivation)) (fresh : ActivationRef) (now : Time) :
    SkillM (ActivationRef × SkillActivation) :=
  match existing with
  | some (ref, activation) => do
      checkOwner activation ctx
      return (ref, activation)
  | none => do
      let activation : SkillActivation :=
        { ownerId := ctx.ownerId, workspaceId := ctx.workspaceId, sessionId := ctx.sessionId, runId
          agentId := r.agentId, skillId := r.skillId, contentHash := digest
          activatedBy := r.activatedBy, reason := r.reason, activatedAt := now }
      modify fun w => { w with activations := w.activations.put fresh activation }
      return (fresh, activation)

/-- `SkillActivator.activate`. -/
def SkillHost.activate (authorize : SkillAuthorizer) (ctx : SkillContext) (r : ActivateRequest)
    (fresh : ActivationRef) (now : Time) : SkillM ActivatedSkill := do
  let runId ← orRaise ctx.runId
    { kind := .permission, text := "skill activation requires ExecutionContext" }
  ensure (r.allowlist.all (·.contains r.skillId) = true)
    { kind := .permission, text := "skill is outside AgentSpec allowlist" }
  let current ← getSkill r.skillId
  let existing := (← get).pinned runId r.agentId r.skillId
  let digest := r.digest existing current
  ensure (existing.all (·.2.contentHash = digest) = true)
    { kind := .value, text := "active skill version migration requires explicit deactivation" }
  let record ← orRaise ((← get).versions.get? (r.skillId, digest))
    { kind := .fileNotFound, text := "pinned skill version not available" }
  ensure (current.enabled = true ∧ current.trustState ≠ .blocked ∧ current.validationDiagnostics = [])
    { kind := .permission, text := "skill currently disabled, blocked, or invalid" }
  raise (authorize .activate current)
  raise (authorize .read record)
  let body ← host.readBody digest
  let (ref, activation) ← enterActivation ctx r runId digest existing fresh now
  let manifest ← onSnapshots (host.manifest digest)
  return { activationRef := ref, activation, record, body, snapshotRef := digest
           resources := ((manifest.map Prod.fst).insertionSort (· ≤ ·)).take 256 }

/-- `SkillActivator.read_resource`. -/
def SkillHost.readResource (authorize : SkillAuthorizer) (ctx : SkillContext) (ref : ActivationRef)
    (resourceRef : String) : SkillM ResourceContent := do
  let activation ← orRaise ((← get).activations.get? ref)
    { kind := .key, text := "'unknown activation'" }
  checkOwner activation ctx
  ensure (activation.deactivatedAt = none) { kind := .permission, text := "skill activation ended" }
  let record ← getSkill activation.skillId
  ensure (record.enabled = true ∧ record.trustState ≠ .blocked)
    { kind := .permission, text := "skill access revoked" }
  raise (authorize .read record)
  let content ← onSnapshots (host.read activation.contentHash resourceRef)
  if resourceRef ∉ activation.loadedResourceRefs then
    modify fun w => { w with
      activations := w.activations.put ref { activation with
        loadedResourceRefs := activation.loadedResourceRefs ++ [resourceRef]
        deactivationReason := none } }
  return { content, mimeType := (host.guessType resourceRef).getD "application/octet-stream"
           sourceUri := record.rootUri ++ "/" ++ resourceRef, contentHash := host.sha256 content
           snapshotRef := activation.contentHash }

/-- `SkillActivator.deactivate`. -/
def deactivate (ctx : SkillContext) (ref : ActivationRef) (reason : String) (now : Time) :
    SkillM SkillActivation := do
  let activation ← orRaise ((← get).activations.get? ref)
    { kind := .value, text := "SkillActivation" }
  checkOwner activation ctx
  let ended := { activation with deactivatedAt := some now, deactivationReason := some reason }
  modify fun w => { w with activations := w.activations.put ref ended }
  return ended

/-! ## The system -/

/-- A call; what the sources hold and what is authorized is as the call finds it. -/
inductive SkillAction where
  | refresh (sources : List (String × SkillSource)) (sourceIds : Option (List String))
      (fresh : Nat → Nat → SkillId)
  | configure (skillId : SkillId) (expectedRevision : Nat) (enabled : Option Bool)
      (trustState : Option TrustState)
  | activate (authorize : SkillAuthorizer) (ctx : SkillContext) (r : ActivateRequest)
      (fresh : ActivationRef) (now : Time)
  | readResource (authorize : SkillAuthorizer) (ctx : SkillContext) (ref : ActivationRef)
      (resourceRef : String)
  | deactivate (ctx : SkillContext) (ref : ActivationRef) (reason : String) (now : Time)

/-- The state after a call, which may have raised. -/
def afterCall {α : Type} (x : SkillM α) (w : SkillWorld) : SkillWorld :=
  match x w with
  | .ok _ w' => w'
  | .error _ w' => w'

/-- The reference of a new activation has not been used. -/
def SkillHost.next (w : SkillWorld) : SkillAction → Option SkillWorld
  | .refresh sources sourceIds fresh => some (afterCall (host.refresh sources sourceIds fresh) w)
  | .configure skillId expectedRevision enabled trustState =>
      some (afterCall (configure skillId expectedRevision enabled trustState) w)
  | .activate authorize ctx r fresh now =>
      if w.activations.get? fresh = none then some (afterCall (host.activate authorize ctx r fresh now) w)
      else none
  | .readResource authorize ctx ref resourceRef =>
      some (afterCall (host.readResource authorize ctx ref resourceRef) w)
  | .deactivate ctx ref reason now => some (afterCall (deactivate ctx ref reason now) w)

/-- There are no activations yet, and no snapshots. -/
structure SkillWorld.Start (w : SkillWorld) : Prop where
  activations : w.activations = .empty
  snapshots : w.snapshots = .empty

def SkillHost.system : System SkillWorld SkillAction := .ofNext SkillWorld.Start host.next

end MiHarness
