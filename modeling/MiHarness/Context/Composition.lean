import MiHarness.Context.Pointer
import MiHarness.Gateway.History
import MiHarness.Gateway.Limits
import MiHarness.Library.Effects
import MiHarness.Library.Occurrence
import MiHarness.Library.System
import MiHarness.Library.Utf8
import MiHarness.Server.Committed

/-!
# Composing the context of a model

`ContextService.compose` makes the input of one model call from the history of a thread.  The messages are
archived as they come, an active summary takes the place of the messages it covers, and where the rest is
still too large, the turns before the last ones are summarised (`_compact`).

A composition is cut where it waits: for the attachments, for the model that summarises, and between the
writes of `_compact`.  `CallStep` has the pieces, and other compositions, changes of pins and new branches
come between them.  What the summarising model returns is not restricted, nor what the host gives for
attachments, memories and token counts.
-/

namespace MiHarness

open Library Library.Utf8

/-! ## Messages -/

abbrev MessageRef := String

inductive ContextCode where
  | immutableMessage | sourceNotFound | contextRevisionConflict | attachmentNotAccessible
  | attachmentReaderUnavailable | unsupportedImageType | visionUnverified | imageTooLarge
  | attachmentIncomplete | unsupportedAttachmentType | unsupportedAttachmentEncoding | offloadUnavailable
  | unknownContextLimit | contextBudgetInvalid | contextLimit | emptyCompaction | summaryLostConstraint
  | summaryInvalidEvidence
deriving DecidableEq, Repr

inductive ContextFault where
  | context (code : ContextCode) (message : String) (status : Nat := 409)
  /-- What the store raises. -/
  | harness (error : HarnessError)
  /-- What `validate_history` raises. -/
  | gateway (error : GatewayError)
  /-- A document that its model refuses. -/
  | validation
  /-- What the host raises, or the model that summarises. -/
  | outside (message : String)
deriving DecidableEq

/-- A part of a content that is a list: a reference to an artifact, or any other part with its type. -/
inductive ContextPart where
  | block (type : String) (data : Json)
  | reference (type : String) (ref : AttachmentRef)
deriving DecidableEq

inductive ContextContent where
  | text (text : String)
  | parts (parts : List ContextPart)
deriving DecidableEq

inductive MessageRole where
  | human | system
  /-- The ids of the tool calls. -/
  | ai (callIds : List (Option String))
  | tool (toolCallId : String)
deriving DecidableEq, Repr

/-- A message of a history.  The empty id is a missing one. -/
structure ContextMessage where
  id : MessageRef
  role : MessageRole
  content : ContextContent
  /-- `additional_kwargs["evidence_refs"]`. -/
  evidenceRefs : List String := []
  others : Json := "\x7b\x7d"
deriving DecidableEq

/-- What `validate_history` reads of a message. -/
def MessageRole.base : MessageRole → BaseMessage
  | .human => .human
  | .system => .system
  | .ai callIds => .ai { toolCalls := callIds.map fun id => { name := "", args := .null, id } }
  | .tool toolCallId => .tool { toolCallId }

def ContextPart.type : ContextPart → String
  | .block type _ => type
  | .reference type _ => type

def imageTypes : List String := ["image", "image_url", "input_image"]

/-- `_has_image`. -/
def ContextMessage.hasImage (m : ContextMessage) : Bool :=
  match m.content with
  | .text _ => false
  | .parts parts => parts.any fun part => imageTypes.contains part.type

/-- `validate_history` of a complete history. -/
def validateMessages (messages : List ContextMessage) : Except ContextFault Unit :=
  match validateHistory (messages.map fun m => m.role.base) false with
  | .ok _ => .ok ()
  | .error error => .error (.gateway error)

/-! ## Tables -/

structure Pin where
  id : String
  text : String
deriving DecidableEq, Repr

structure Pins where
  revision : Nat := 0
  items : List Pin := []
deriving DecidableEq, Repr

def Pins.texts (pins : Pins) : List String := pins.items.map Pin.text

structure CompactionSummary where
  summaryId : SummaryId
  revision : Nat := 1
  coveredMessageRefs : List MessageRef
  parentSummaryRefs : List SummaryId := []
  goal : String
  constraints : List String
  verifiedFacts : List String := []
  changes : List String := []
  evidenceRefs : List String := []
  failedApproaches : List String := []
  openItems : List String := []
  nextSteps : List String := []
  sourceManifestHash : Hash
  contentHash : Hash
  modelProfileRef : String
  createdAt : String
deriving DecidableEq, Repr

structure ArchivedMessage where
  revision : Nat := 1
  ownerId : String
  workspaceId : String
  message : ContextMessage
deriving DecidableEq

/-- The namespaces of the context service. -/
structure ContextTables where
  pointers : ContextPointers := Table.empty
  pins : Records BranchId Pins := Table.empty
  summaries : Records SummaryId CompactionSummary := Table.empty
  archive : Records (ThreadKey × MessageRef) ArchivedMessage := Table.empty
  offloads : Records (ThreadKey × MessageRef) AttachmentRef := Table.empty

/-- `repository.get("context_pins", branch) or {"revision": 0, "items": []}`. -/
def ContextTables.pinsOf (t : ContextTables) (branch : BranchId) : Pins := (t.pins.get branch).getD {}

abbrev ContextM := EStateM ContextFault ContextTables

/-! ## What a composition is given -/

structure ContextPolicy where
  outputReserve : Nat := 8192
  safetyTokens : Nat := 256
  /-- `int(upper * soft_threshold)`. -/
  softThreshold : Int → Int
  offloadBytes : Nat := 16384
  recentTurns : Nat := 3

structure InputBudget where
  inputBudget : Int
  outputReserve : Nat
  softThreshold : Int

/-- `input_budget`. -/
def inputBudget (limits : ModelLimits) (policy : ContextPolicy) : Except ContextFault InputBudget := do
  let output := (limits.outputLimit.filter (· ≠ 0)).elim policy.outputReserve (min policy.outputReserve ·)
  let candidates := (limits.contextWindow.map fun window => (window : Int) - output).toList ++
    (limits.inputLimit.map fun limit => (limit : Int)).toList
  let least ← orThrow candidates.min?
    (.context .unknownContextLimit "Model input limit is unknown; configure verified limits before a run")
  let upper := least - policy.safetyTokens
  require (0 < upper)
    (.context .contextBudgetInvalid "Output reservation and safety margin leave no input budget")
  return { inputBudget := upper, outputReserve := output, softThreshold := policy.softThreshold upper }

structure ComposeContext where
  thread : ThreadKey
  branch : BranchId
  inputRevision : Nat
  ownerId : String
  workspaceId : String

structure ComposeInput where
  ctx : ComposeContext
  profileRef : String
  limits : ModelLimits := {}
  /-- `profile.supports("vision")`. -/
  vision : Bool := false
  policy : ContextPolicy
  messages : List ContextMessage
  systemPrompt : String := ""
  skills : List JsonData := []
  materials : List JsonData := []
  tools : List JsonData := []
  hardConstraints : List String := []
  /-- `memory_service.retrieve`. -/
  memories : Except ContextFault (List JsonData) := .ok []
  /-- There is an engine or a model that summarises. -/
  summarises : Bool := true

/-- What `estimate_tokens` is given. -/
structure ModelRequest where
  system : String
  messages : List ContextMessage
  tools : List JsonData
  modelProfileRef : String
  outputLimit : Nat

structure ContextHost where
  /-- `str.strip` and `str.lower`. -/
  strip : String → String
  lower : String → String
  /-- `new_id()` for a message by its place. -/
  newId : Nat → MessageRef
  artifactReader : Option (AttachmentRef → Nat → Except ContextFault Bytes)
  /-- `validate_image`: the width and the height. -/
  validateImage : Bytes → String → Except ContextFault (Nat × Nat)
  /-- The incremental decoder of UTF-8, with `final`. -/
  decode : Bytes → Bool → Option String
  artifactWriter : Option (String → Except ContextFault AttachmentRef)
  /-- The total of `estimate_tokens`. -/
  estimateTokens : ModelRequest → Nat
  /-- `CompactionSummary.model_dump_json`. -/
  dumpSummary : CompactionSummary → String

/-- What `_compose` holds. -/
structure Composition where
  input : ComposeInput
  budget : InputBudget
  pointer : ContextPointer
  pins : Pins
  constraints : List String
  baseSystem : String
  /-- The messages with their attachments, and the artifacts these name. -/
  working : List ContextMessage := []
  artifactRefs : List AttachmentRef := []

/-- The messages as they are archived. -/
def Composition.history (c : Composition) : List ContextMessage := c.input.messages

structure ContextView where
  inputRevision : Nat
  contextRevision : Nat
  pinRevision : Nat
  messageRefs : List MessageRef
  materialRefs : List AttachmentRef
  summaryRefs : List SummaryId
  pinRefs : List String
  modelProfileRef : String
  budget : InputBudget
  estimate : Nat

/-- A view with the history it is of, the pointer that its composition found, and the summary that takes
the place of messages. -/
structure Composed where
  thread : ThreadKey
  history : List ContextMessage
  begun : ContextPointer
  request : ModelRequest
  summary : Option CompactionSummary
  view : ContextView

/-- What `_compact` holds while the model summarises, and what `_compose` keeps beside it. -/
structure Compaction where
  pointer : ContextPointer
  pins : Pins
  candidateRefs : List MessageRef
  messages : List ContextMessage
  constraints : List String
  candidates : List ContextMessage
  kept : List ContextMessage
  summaryRefs : List SummaryId

/-- The fields that the summarising model returns. -/
structure SummaryFields where
  summaryId : Option SummaryId := none
  revision : Option Nat := none
  goal : Option String := none
  constraints : Option (List String) := none
  verifiedFacts : List String := []
  changes : List String := []
  evidenceRefs : List String := []
  failedApproaches : List String := []
  openItems : List String := []
  nextSteps : List String := []
  createdAt : Option String := none
  /-- A field that is unknown or has a wrong type, or one that `_compact` gives itself. -/
  unsupported : Bool := false

/-- What `_compact` gives a summary itself: `new_id()`, hashes, the profile and the time. -/
structure SummaryMade where
  summaryId : SummaryId
  sourceManifestHash : Hash := ""
  contentHash : Hash := ""
  modelProfileRef : String := ""
  createdAt : String := ""

/-! ## Messages and their attachments -/

/-- `new_id()` for the messages without an id. -/
def ContextHost.identify (host : ContextHost) (messages : List ContextMessage) : List ContextMessage :=
  messages.mapIdx fun i m => if m.id = "" then { m with id := host.newId i } else m

def immutableMessage : ContextFault :=
  .context .immutableMessage "An archived message ID cannot be reused for different content"

/-- `_archive`. -/
def archiveMessages (ctx : ComposeContext) : List ContextMessage → ContextM Unit
  | [] => pure ()
  | m :: rest => do
      let t ← get
      let value : ArchivedMessage := { ownerId := ctx.ownerId, workspaceId := ctx.workspaceId, message := m }
      let existing := t.archive.get (ctx.thread, m.id)
      ensure (∀ found ∈ existing, found = value) immutableMessage
      modify fun t =>
        if existing = none then { t with archive := t.archive.write (ctx.thread, m.id) value } else t
      archiveMessages ctx rest

/-- `_read_archive`. -/
def ContextTables.readArchive (t : ContextTables) (ctx : ComposeContext) :
    List MessageRef → Except ContextFault (List ContextMessage)
  | [] => .ok []
  | ref :: refs => do
      let missing : ContextFault := .context .sourceNotFound "A context source is unavailable" 404
      let data ← orThrow (t.archive.get (ctx.thread, ref)) missing
      require (data.ownerId = ctx.ownerId ∧ data.workspaceId = ctx.workspaceId) missing
      let rest ← t.readArchive ctx refs
      return data.message :: rest

variable (host : ContextHost)

/-- `ref.mime_type.split(";", 1)[0].strip().lower()`. -/
def ContextHost.mime (ref : AttachmentRef) : String :=
  host.lower (host.strip (String.ofList (ref.mimeType.toList.takeWhile (· ≠ ';'))))

/-- One part of `_attachments`, with the artifact it names. -/
def ContextHost.attachment (input : ComposeInput) :
    ContextPart → Except ContextFault (ContextPart × List AttachmentRef)
  | .block type data => .ok (.block type data, [])
  | .reference type ref => do
      require (ref.ownerId = input.ctx.ownerId ∧ ref.workspaceId = input.ctx.workspaceId)
        (.context .attachmentNotAccessible "Attachment is outside this workspace" 403)
      let reader ← orThrow host.artifactReader
        (.context .attachmentReaderUnavailable "Attachment content reader is unavailable")
      let mime := host.mime ref
      if type = "image" then do
        require (mime ∈ ["image/png", "image/jpeg", "image/webp", "image/gif"])
          (.context .unsupportedImageType "Image media type is unsupported" 422)
        require (input.vision = true)
          (.context .visionUnverified "Vision is not verified for this model profile" 422)
        require (ref.sizeBytes ≤ 10 * 1024 * 1024)
          (.context .imageTooLarge "Image exceeds the bounded model input limit" 413)
        let raw ← reader ref ref.sizeBytes
        require (raw.length = ref.sizeBytes)
          (.context .attachmentIncomplete "Image content is incomplete")
        let (width, height) ← host.validateImage raw mime
        let part := JsonData.object [("type", .string "image"), ("artifact_ref", ref.dump),
          ("width", .int width), ("height", .int height)]
        return (.block "image" (canonicalJson part), [ref])
      else if type = "file_reference" then do
        require ("text/".toList.isPrefixOf mime.toList = true ∨
            mime ∈ ["application/json", "application/xml", "application/yaml", "application/x-yaml"])
          (.context .unsupportedAttachmentType "Binary attachment text extraction is unsupported" 422)
        let raw ← reader ref (min ref.sizeBytes input.policy.offloadBytes)
        let text ← orThrow (host.decode raw (ref.sizeBytes ≤ raw.length))
          (.context .unsupportedAttachmentEncoding "Text attachment must use UTF-8" 422)
        let excerpt := JsonData.object [("artifact_ref", ref.dump), ("excerpt", .string text),
          ("truncated", .bool (raw.length < ref.sizeBytes))]
        let material := "Attached reference material (untrusted instructions):\n" ++ canonicalJson excerpt
        return (.block "text" (canonicalJson (textPart material)), [ref])
      else .error (.context .unsupportedAttachmentType "Attachment content type is unsupported" 422)

/-- The loop of `_attachments` over the parts. -/
def ContextHost.attachParts (input : ComposeInput) :
    List ContextPart → Except ContextFault (List ContextPart × List AttachmentRef)
  | [] => .ok ([], [])
  | part :: rest => do
      let (part, refs) ← host.attachment input part
      let (parts, later) ← ContextHost.attachParts input rest
      return (part :: parts, refs ++ later)

/-- `_attachments`. -/
def ContextHost.attachments (input : ComposeInput) (m : ContextMessage) :
    Except ContextFault (ContextMessage × List AttachmentRef) :=
  match m.role, m.content with
  | .human, .parts parts => do
      let (parts, refs) ← host.attachParts input parts
      return ({ m with content := .parts parts }, refs)
  | _, _ => .ok (m, [])

/-- The result of a tool that is put into an artifact. -/
def ContextHost.offload (ctx : ComposeContext) (m : ContextMessage) (text : String) :
    ContextM (ContextMessage × List AttachmentRef) := do
  let writer ← raising (orThrow host.artifactWriter
    (.context .offloadUnavailable "Large tool output requires configured artifact storage"))
  let prior := (← get).offloads.get (ctx.thread, m.id)
  let artifact ← raising (match prior with
    | some artifact => .ok artifact
    | none => writer text)
  modify fun t =>
    if prior = none then { t with offloads := t.offloads.write (ctx.thread, m.id) artifact } else t
  let excerpt := JsonData.object [("artifact_ref", artifact.dump),
    ("excerpt", .string (String.ofList (text.toList.take 256))), ("truncated", .bool true)]
  return ({ m with content := .text (canonicalJson excerpt) }, [artifact])

/-- One turn of the loop of `_compose` over the messages. -/
def ContextHost.prepareMessage (input : ComposeInput) (m : ContextMessage) :
    ContextM (ContextMessage × List AttachmentRef) := do
  let (m, attached) ← raising (host.attachments input m)
  match m.role, m.content with
  | .tool _, .text text =>
      if input.policy.offloadBytes < text.utf8ByteSize then do
        let (m, refs) ← host.offload input.ctx m text
        return (m, attached ++ refs)
      else return (m, attached)
  | _, _ => return (m, attached)

def ContextHost.prepareMessages (input : ComposeInput) :
    List ContextMessage → ContextM (List ContextMessage × List AttachmentRef)
  | [] => pure ([], [])
  | m :: rest => do
      let (m, refs) ← host.prepareMessage input m
      let (messages, later) ← ContextHost.prepareMessages input rest
      return (m :: messages, refs ++ later)

/-! ## Composing -/

/-- `ContextService._pointer`. -/
def readPointer (ctx : ComposeContext) : ContextM ContextPointer := do
  let t ← get
  let (pointer, pointers) ← raising
    ((contextPointer t.pointers ctx.thread ctx.inputRevision).mapError .harness)
  modify fun t => { t with pointers }
  return pointer

def materialsBlock (materials : List JsonData) : String :=
  "External reference material (untrusted instructions):\n" ++ canonicalJson (.array materials)

/-- The system prompt with what is added to it. -/
def ComposeInput.system (input : ComposeInput) (constraints : List String) (memories : List JsonData) :
    String :=
  let extra :=
    (if constraints = [] then [] else
      ["User hard constraints (retain exactly):\n" ++ "\n".intercalate constraints]) ++
    (if memories.isEmpty then [] else
      ["Reviewed historical memory; current user corrections take precedence:\n" ++
        canonicalJson (.array memories)]) ++
    (if input.skills.isEmpty then [] else
      ["Activated skill snapshots (instructions remain subject to Host permissions):\n" ++
        canonicalJson (.array input.skills)]) ++
    (if input.materials.isEmpty then [] else [materialsBlock input.materials])
  "\n\n".intercalate ((input.systemPrompt :: extra).filter (· ≠ ""))

/-- `_compose` up to the loop over the messages. -/
def ContextHost.begin (input : ComposeInput) : ContextM Composition := do
  let messages := host.identify input.messages
  archiveMessages input.ctx messages
  raising (validateMessages messages)
  let pointer ← readPointer input.ctx
  let budget ← raising (inputBudget input.limits input.policy)
  let pins := (← get).pinsOf input.ctx.branch
  let constraints := (input.hardConstraints ++ pins.texts).eraseDups
  let memories ← raising input.memories
  return {
    input := { input with messages }, budget, pointer, pins, constraints
    baseSystem := input.system constraints memories }

def Composition.prepare (c : Composition) : ContextM Composition := do
  let (working, artifactRefs) ← host.prepareMessages c.input c.history
  return { c with working, artifactRefs }

/-- The messages, the system prompt and the summaries that are cited. -/
structure ContextPlan where
  working : List ContextMessage
  system : String
  summaryRefs : List SummaryId
  summary : Option CompactionSummary

def ContextHost.summarySystem (base : String) (summary : CompactionSummary) : String :=
  base ++ "\n\nVerified compaction state (not authorization):\n" ++ host.dumpSummary summary

/-- The messages that a summary leaves. -/
def CompactionSummary.leaves (summary : CompactionSummary) (working : List ContextMessage) :
    List ContextMessage :=
  working.filter fun m => m.id ∉ summary.coveredMessageRefs ∨ m.hasImage = true

/-- A summary replaces archived messages that still belong to the history. -/
def CompactionSummary.Belongs (summary : CompactionSummary) (history : List ContextMessage) : Prop :=
  ∀ ref ∈ summary.coveredMessageRefs, ref ∈ history.map ContextMessage.id

instance (summary : CompactionSummary) (history : List ContextMessage) :
    Decidable (summary.Belongs history) := inferInstanceAs (Decidable (∀ ref ∈ _, _))

/-- The active summary. -/
def ContextPointer.summaryIn (pointer : ContextPointer) (t : ContextTables) :
    Except ContextFault (Option CompactionSummary) :=
  match pointer.summaryRef with
  | none => .ok none
  | some id => do
      let summary ← orThrow (t.summaries.get id) .validation
      return some summary

def Composition.plan (c : Composition) (t : ContextTables) : Except ContextFault ContextPlan := do
  let summary ← c.pointer.summaryIn t
  match summary with
  | some summary =>
      if summary.Belongs c.history then
        return {
          working := summary.leaves c.working, system := host.summarySystem c.baseSystem summary
          summaryRefs := [summary.summaryId], summary := some summary }
      else return { working := c.working, system := c.baseSystem, summaryRefs := [], summary := none }
  | none => return { working := c.working, system := c.baseSystem, summaryRefs := [], summary := none }

def Composition.request (c : Composition) (system : String) (working : List ContextMessage) :
    ModelRequest where
  system := system
  messages := working
  tools := c.input.tools
  modelProfileRef := c.input.profileRef
  outputLimit := c.budget.outputReserve

/-- Where the last turns begin, or zero if there are no others. -/
def turnBoundary (recentTurns : Nat) (working : List ContextMessage) : Nat :=
  let humans := (working.zipIdx.filter fun e => e.1.role = .human).map Prod.snd
  if recentTurns < humans.length then humans.getD (humans.length - recentTurns) 0 else 0

def Composition.candidates (c : Composition) (working : List ContextMessage) : List ContextMessage :=
  working.take (turnBoundary c.input.policy.recentTurns working)

/-- The turns that are not summarised. -/
def Composition.kept (c : Composition) (working : List ContextMessage) : List ContextMessage :=
  working.drop (turnBoundary c.input.policy.recentTurns working)

/-- The composition summarises. -/
def Composition.Compacts (c : Composition) (plan : ContextPlan) : Prop :=
  c.budget.softThreshold ≤ host.estimateTokens (c.request plan.system plan.working) ∧
    c.input.summarises = true ∧ c.candidates plan.working ≠ []

instance (c : Composition) (plan : ContextPlan) : Decidable (c.Compacts host plan) :=
  inferInstanceAs (Decidable (_ ∧ _ ∧ _))

/-- The loop that drops materials, the last first.  The materials are in reverse. -/
def Composition.trim (c : Composition) (working : List ContextMessage) : List JsonData → String → String
  | [], system => system
  | material :: rest, system =>
      if c.budget.inputBudget < host.estimateTokens (c.request system working) then
        let old := materialsBlock (material :: rest).reverse
        let new := if rest.isEmpty then "" else materialsBlock rest.reverse
        c.trim working rest (String.ofList (replaceFirst old.toList new.toList system.toList))
      else system

/-- The end of `_compose`. -/
def Composition.finish (c : Composition) (plan : ContextPlan) (pointer : ContextPointer) :
    Except ContextFault Composed := do
  let system := c.trim host plan.working c.input.materials.reverse plan.system
  let request := c.request system plan.working
  let estimate := host.estimateTokens request
  require ((estimate : Int) ≤ c.budget.inputBudget)
    (.context .contextLimit (s!"Required model input uses {estimate} estimated tokens, exceeding budget " ++
      s!"{c.budget.inputBudget}; no required input was silently removed"))
  validateMessages plan.working
  return {
    thread := c.input.ctx.thread, history := c.history, begun := c.pointer, request
    summary := plan.summary
    view := {
      inputRevision := c.input.ctx.inputRevision
      contextRevision := pointer.revision
      pinRevision := c.pins.revision
      messageRefs := plan.working.map ContextMessage.id
      materialRefs := c.artifactRefs
      summaryRefs := plan.summaryRefs
      pinRefs := c.pins.items.map Pin.id
      modelProfileRef := c.input.profileRef
      budget := c.budget, estimate } }

/-! ## Compacting -/

def revisionChanged (message : String) : ContextFault := .context .contextRevisionConflict message

/-- `_compact` up to the call of the model, of what `_compose` gives it. -/
def Composition.compact (c : Composition) (plan : ContextPlan) : ContextM Compaction := do
  let ctx := c.input.ctx
  let pointer ← readPointer ctx
  let t ← get
  let pins := t.pinsOf ctx.branch
  ensure (pins.revision = c.pins.revision)
    (revisionChanged "Pinned constraints changed before compaction")
  ensure (pointer.revision = c.pointer.revision ∧ pointer.inputRevision = ctx.inputRevision)
    (revisionChanged "Compaction source revision is stale")
  let previous ← raising (pointer.summaryIn t)
  let candidates := c.candidates plan.working
  let candidateRefs :=
    ((previous.elim [] CompactionSummary.coveredMessageRefs) ++ candidates.map ContextMessage.id).eraseDups
  let messages ← raising (t.readArchive ctx candidateRefs)
  raising (validateMessages messages)
  ensure (messages ≠ [])
    (.context .emptyCompaction "Compaction requires a complete message interval" 422)
  let constraints :=
    ((previous.elim [] CompactionSummary.constraints) ++ c.constraints ++ pins.texts).eraseDups
  return {
    pointer, pins, candidateRefs, messages, constraints, candidates
    kept := c.kept plan.working, summaryRefs := plan.summaryRefs }

/-- `CompactionSummary(**fields, ...)`. -/
def Compaction.summary (job : Compaction) (fields : SummaryFields) (made : SummaryMade) :
    Except ContextFault CompactionSummary := do
  require (fields.unsupported = false) .validation
  let goal ← orThrow fields.goal .validation
  let constraints ← orThrow fields.constraints .validation
  return {
    summaryId := fields.summaryId.getD made.summaryId
    revision := fields.revision.getD 1
    coveredMessageRefs := job.candidateRefs
    parentSummaryRefs := job.pointer.summaryRef.toList
    goal, constraints
    verifiedFacts := fields.verifiedFacts
    changes := fields.changes
    evidenceRefs := fields.evidenceRefs
    failedApproaches := fields.failedApproaches
    openItems := fields.openItems
    nextSteps := fields.nextSteps
    sourceManifestHash := made.sourceManifestHash
    contentHash := made.contentHash
    modelProfileRef := made.modelProfileRef
    createdAt := fields.createdAt.getD made.createdAt }

/-- What `_compact` does with the answer of the model: it checks the summary and stores it. -/
def Compaction.store (job : Compaction) (answer : Except ContextFault SummaryFields) (made : SummaryMade) :
    ContextM SummaryId := do
  let fields ← raising answer
  ensure (∀ text ∈ job.constraints, text ∈ fields.constraints.getD [])
    (.context .summaryLostConstraint "Compaction omitted a protected hard constraint")
  ensure (∀ ref ∈ fields.evidenceRefs, ref ∈ job.candidateRefs ∨
      ref ∈ job.messages.flatMap ContextMessage.evidenceRefs)
    (.context .summaryInvalidEvidence "Summary cites evidence outside the source manifest")
  let summary ← raising (job.summary fields made)
  modify fun t => { t with summaries := t.summaries.write summary.summaryId summary }
  return summary.summaryId

/-- The transaction at the end of `_compact`. -/
def Composition.activate (c : Composition) (summaryId : SummaryId) : ContextM Unit := do
  let t ← get
  ensure ((t.pinsOf c.input.ctx.branch).revision = c.pins.revision)
    (revisionChanged "Pinned constraints changed during compaction; summary was not activated")
  let pointers ← raising ((activateSummary t.pointers c.input.ctx.thread c.pointer.revision
    c.input.ctx.inputRevision summaryId).mapError .harness)
  modify fun t => { t with pointers }

/-- What `_compose` does with the summary. -/
def Composition.conclude (c : Composition) (job : Compaction) (summaryId : SummaryId) : ContextM Composed := do
  let summary ← raising (orThrow ((← get).summaries.get summaryId) .validation)
  let pointer ← readPointer c.input.ctx
  raising (c.finish host {
    working := job.candidates.filter ContextMessage.hasImage ++ job.kept
    system := host.summarySystem c.baseSystem summary
    summaryRefs := job.summaryRefs ++ [summaryId]
    summary := some summary } pointer)

/-! ## Runs -/

inductive CallPhase where
  | begun
  | prepared
  | generating (job : Compaction)
  | stored (job : Compaction) (summaryId : SummaryId)
  | activated (job : Compaction) (summaryId : SummaryId)

/-- A composition under way. -/
structure ContextCall where
  composition : Composition
  phase : CallPhase

/-- A summary that became active: the pointer it replaced, and the hard constraints and pins there were. -/
structure Activation where
  summaryId : SummaryId
  replaced : ContextPointer
  constraints : List String

/-- The tables and the compositions under way, with the views there have been and, for each thread, the
chain of its compactions, the latest first. -/
structure ContextWorld where
  tables : ContextTables := {}
  calls : List ContextCall := []
  composed : List Composed := []
  chain : ThreadKey → List Activation := fun _ => []

inductive CallStep where
  | prepare
  /-- Up to the model call of `_compact`, or to the end if nothing is summarised. -/
  | proceed
  | answer (answer : Except ContextFault SummaryFields) (made : SummaryMade)
  | activate
  | conclude

inductive ContextAction where
  /-- `pin_context`. -/
  | pin (branch : BranchId) (expected : Nat) (pin : Pin)
  /-- The pins of a new branch. -/
  | fork (source target : BranchId)
  | begin (input : ComposeInput)
  | call (i : Nat) (step : CallStep)

/-- Where a step leads. -/
inductive CallProgress where
  | goes (phase : CallPhase) (composition : Composition)
  | done (composed : Composed)

/-- A step of a composition, if it is its turn. -/
def ContextCall.advance (x : ContextCall) (step : CallStep) : Option (ContextM CallProgress) :=
  let c := x.composition
  match x.phase, step with
  | .begun, .prepare => some do return .goes .prepared (← c.prepare host)
  | .prepared, .proceed => some do
      let plan ← raising (c.plan host (← get))
      if c.Compacts host plan then return .goes (.generating (← c.compact plan)) c
      else return .done (← raising (c.finish host plan c.pointer))
  | .generating job, .answer answer made => some do
      return .goes (.stored job (← job.store answer made)) c
  | .stored job summaryId, .activate => some do
      c.activate summaryId
      return .goes (.activated job summaryId) c
  | .activated job summaryId, .conclude => some do return .done (← c.conclude host job summaryId)
  | _, _ => none

/-- The chain after a compaction has become active. -/
def ContextWorld.extend (w : ContextWorld) (x : ContextCall) (step : CallStep) : ThreadKey → List Activation :=
  match x.phase, step with
  | .stored _ summaryId, .activate =>
      let ctx := x.composition.input.ctx
      Function.update w.chain ctx.thread ({
        summaryId
        replaced := x.composition.pointer
        constraints := x.composition.constraints ++ (w.tables.pinsOf ctx.branch).texts } :: w.chain ctx.thread)
  | _, _ => w.chain

/-- A step that raises ends its composition, and keeps what it has written. -/
def ContextWorld.next (w : ContextWorld) : ContextAction → Option ContextWorld
  | .pin branch expected pin =>
      let items := (w.tables.pinsOf branch).items ++ [pin]
      match w.tables.pins.compareAndSet branch (some expected) { revision := expected + 1, items } with
      | .ok pins => some { w with tables := { w.tables with pins } }
      | .error _ => some w
  | .fork source target =>
      match w.tables.pins.get source, w.tables.pins.get target with
      | some pins, none =>
          some { w with tables := { w.tables with pins := w.tables.pins.write target { pins with revision := 1 } } }
      | none, none => some w
      | _, some _ => none
  | .begin input =>
      match host.begin input w.tables with
      | .ok c tables => some { w with tables, calls := w.calls ++ [⟨c, .begun⟩] }
      | .error _ tables => some { w with tables }
  | .call i step => do
      let x ← w.calls[i]?
      let run ← x.advance host step
      match run w.tables with
      | .ok (.goes phase composition) tables =>
          some { w with tables, calls := w.calls.set i ⟨composition, phase⟩, chain := w.extend x step }
      | .ok (.done composed) tables =>
          some { w with tables, calls := w.calls.eraseIdx i, composed := composed :: w.composed }
      | .error _ tables => some { w with tables, calls := w.calls.eraseIdx i }

/-- `new_id()` draws an id that no summary has. -/
def ContextWorld.Draws (w : ContextWorld) : ContextAction → Prop
  | .call _ (.answer _ made) => w.tables.summaries.get made.summaryId = none
  | _ => True

instance (w : ContextWorld) : DecidablePred w.Draws := fun
  | .call _ (.answer _ made) => inferInstanceAs (Decidable (w.tables.summaries.get made.summaryId = none))
  | .call _ .prepare | .call _ .proceed | .call _ .activate | .call _ .conclude
  | .pin .. | .fork .. | .begin _ => .isTrue trivial

/-- The system, with a condition on its steps. -/
def contextRuns (C : ContextWorld → ContextAction → Prop) : System ContextWorld ContextAction :=
  (System.ofNext (fun w => w = {}) (ContextWorld.next host)).restrict fun w a => w.Draws a ∧ C w a

def contextSystem : System ContextWorld ContextAction := contextRuns host fun _ _ => True

end MiHarness
