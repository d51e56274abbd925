import MiHarness.Storage.Budget

/-!
# Rows of the database

One record for each table that the scheduler, the tool gateway and the worker read or
write.  A row does not repeat its primary key, which is the key of its table.

`RunPatch`, `OperationPatch` and `InteractionPatch` are the patches that `update_run`,
`update_operation` and `update_interaction` accept: a column outside the allowed set has no
field here, so an unsupported update cannot be written down.
-/

namespace MiHarness

open Library

structure Branch where
  sessionId : SessionId
  parentId : Option BranchId := none
  graphThreadKey : ThreadKey
  checkpointRef : Option CheckpointRef := none
  activeRunId : Option RunId := none
  revision : Nat := 1
deriving DecidableEq, Repr

structure Run where
  ownerId : OwnerId
  workspaceId : WorkspaceId
  sessionId : SessionId
  branchId : BranchId
  rootRunId : RunId
  parentRunId : Option RunId
  status : RunStatus
  revision : Nat
  inputRevision : Nat
  snapshotId : SnapshotId
  /-- `input["text"]`. -/
  input : String
  checkpointRef : Option CheckpointRef := none
  resultRef : Option ArtifactId := none
  error : Option ErrorEnvelope := none
  deadlineAt : Option Time
  createdAt : Time
  fencingToken : Nat := 0
  attemptId : Option AttemptId := none
  cancelRequested : Bool := false
  requiredInterrupts : List InterruptId := []
  depth : Nat
deriving DecidableEq, Repr

structure RunPatch where
  status : Option RunStatus := none
  inputRevision : Option Nat := none
  checkpointRef : Option CheckpointRef := none
  resultRef : Option ArtifactId := none
  error : Option ErrorEnvelope := none
  fencingToken : Option Nat := none
  attemptId : Option AttemptId := none
  cancelRequested : Option Bool := none
  requiredInterrupts : Option (List InterruptId) := none

/-- The row after `UPDATE runs SET …, revision=revision+1`. -/
def RunPatch.apply (p : RunPatch) (r : Run) : Run :=
  { r with
    status := p.status.getD r.status
    inputRevision := p.inputRevision.getD r.inputRevision
    checkpointRef := p.checkpointRef.or r.checkpointRef
    resultRef := p.resultRef.or r.resultRef
    error := p.error.or r.error
    fencingToken := p.fencingToken.getD r.fencingToken
    attemptId := p.attemptId.or r.attemptId
    cancelRequested := p.cancelRequested.getD r.cancelRequested
    requiredInterrupts := p.requiredInterrupts.getD r.requiredInterrupts
    revision := r.revision + 1 }

structure Attempt where
  runId : RunId
  process : ProcessId
  leaseExpiry : Time
  fencingToken : Nat
  endedAt : Option Time := none
  endReason : Option String := none
deriving DecidableEq, Repr

inductive ContinuationStatus where
  | awaitingInput | sending
deriving DecidableEq, Repr

/-- `metadata["protocol_continuation"]`, with whether its kind is `modern_mrtr`. -/
structure Continuation where
  modernMrtr : Bool
  status : ContinuationStatus
  requestStateRef : Option Nat
  requestHash : Option Hash
  schemaHash : Option Hash
  interactionId : Option InteractionId
  round : Nat
  configRevision : Nat
deriving DecidableEq, Repr

structure Metadata where
  protocolContinuation : Option Continuation := none
  path : Option String := none
  beforeHash : Option Hash := none
  afterHash : Option Hash := none
  provenNotStarted : Bool := false
  unresolvedAccepted : Bool := false
  acceptedBy : Option OwnerId := none
deriving DecidableEq, Repr

structure Operation where
  runId : RunId
  messageId : MessageId
  toolCallId : ToolCallId
  toolId : ToolId
  toolRevision : String
  argsHash : Hash
  args : Json
  resourceFingerprint : Hash
  state : OpState := .prepared
  revision : Nat := 1
  attemptId : AttemptId
  fencingToken : Nat
  grantId : Option GrantId := none
  result : Option ToolResult := none
  metadata : Metadata := {}
  createdAt : Time
deriving DecidableEq, Repr

/-- The unique key of the row of an operation. -/
def Operation.key (o : Operation) : OperationKey := ⟨o.runId, o.messageId, o.toolCallId⟩

/-- A nullable column is patched by `some none` to clear it. -/
structure OperationPatch where
  state : Option OpState := none
  result : Option (Option ToolResult) := none
  metadata : Option Metadata := none
  grantId : Option (Option GrantId) := none
  attemptId : Option AttemptId := none
  fencingToken : Option Nat := none

def OperationPatch.apply (p : OperationPatch) (o : Operation) : Operation :=
  { o with
    state := p.state.getD o.state
    result := p.result.getD o.result
    metadata := p.metadata.getD o.metadata
    grantId := p.grantId.getD o.grantId
    attemptId := p.attemptId.getD o.attemptId
    fencingToken := p.fencingToken.getD o.fencingToken
    revision := o.revision + 1 }

structure Grant where
  operationId : OperationId
  ownerId : OwnerId
  runId : RunId
  binding : ApprovalBinding
  remaining : Nat := 1
  revoked : Bool := false
  consumedAt : Option Time := none
deriving DecidableEq, Repr

/-- The row of a grant after the grants of a run are revoked, except some. -/
def Grant.revoke (rid : RunId) (except : List GrantId) (id : GrantId) (g : Grant) : Grant :=
  if g.runId = rid ∧ id ∉ except then { g with revoked := true } else g

/-- The request keys the code makes: `approval:op`, `input:op`, `mcp:op:round:hash` and
`model-selection:call:revision`. -/
inductive RequestKey where
  | approval (operation : OperationId)
  | input (operation : OperationId)
  | mcp (operation : OperationId) (round : Nat) (requestHash : Hash)
  | modelSelection (logicalCall : Hash) (controlRevision : Nat)
deriving DecidableEq, Repr

/-- A response of the user: the text of the value, and its `decision` field if it has one. -/
structure Response where
  value : Json
  decision : Option ApprovalDecision := none
deriving DecidableEq, Repr

structure Resolution where
  interruptId : Option InterruptId
  outcome : ResolutionOutcome
  reason : String
  response : Option Response := none
  children : List (RunId × RunStatus) := []
deriving DecidableEq, Repr

structure Interaction where
  runId : RunId
  requestKey : RequestKey
  interruptId : Option InterruptId := none
  checkpointRef : Option CheckpointRef := none
  inputRevision : Nat
  kind : InteractionKind
  status : InteractionStatus := .pendingBinding
  revision : Nat := 1
  prompt : String
  responseSchema : Json
  bindingRef : Option ApprovalBinding := none
  operationId : Option OperationId := none
  resolution : Option Resolution := none
  expiresAt : Option Time
deriving DecidableEq, Repr

structure InteractionPatch where
  interruptId : Option InterruptId := none
  checkpointRef : Option CheckpointRef := none
  status : Option InteractionStatus := none
  resolution : Option Resolution := none

def InteractionPatch.apply (p : InteractionPatch) (i : Interaction) : Interaction :=
  { i with
    interruptId := p.interruptId.or i.interruptId
    checkpointRef := p.checkpointRef.or i.checkpointRef
    status := p.status.getD i.status
    resolution := p.resolution.or i.resolution
    revision := i.revision + 1 }

structure Wait where
  parentId : RunId
  requestKey : OperationId
  childIds : List RunId
  mode : WaitMode
  interruptId : Option InterruptId := none
  checkpointRef : Option CheckpointRef := none
  resolution : Option Resolution := none
  revision : Nat := 1
deriving DecidableEq, Repr

/-- A delegation: its key is the operation that made it. -/
structure Dependency where
  parentId : RunId
  childId : RunId
  argsHash : Hash
deriving DecidableEq, Repr

structure InputCommand where
  runId : RunId
  inputRevision : Nat
  text : String
  consumed : Bool := false
deriving DecidableEq, Repr

/-! ## Events -/

inductive EventType where
  | runQueued | runStarted | runStateChanged | runCompleted | runFailed | runCancelled
  | interactionRequired | interactionResolved
  | toolPrepared | toolStarted | toolCompleted | toolFailed
  | childCreated | childCompleted
  | messageCommitted
  | contextCompactionStarted | contextCompactionFailed | contextCompacted
  | modelSelectionRequested | modelSelectionSuperseded | modelSelectionApplied
  | modelSelectionRejected | modelSelectionNotApplied
deriving DecidableEq, Repr

/-- The payload of a committed message: its parts and, of the assistant, the fields of its model
binding. -/
structure MessagePayload where
  messageId : MessageId
  role : String
  contentParts : Json
  modelBinding : List (String × Json) := []
deriving DecidableEq, Repr

inductive EventData where
  | state (revision : Nat) (status : RunStatus) (reason : Option String)
      (resultRef : Option ArtifactId) (error : Option ErrorEnvelope)
  | required (interaction : InteractionId) (revision : Nat) (kind : InteractionKind)
      (prompt : String) (responseSchema : Json) (bindingRef : Option ApprovalBinding)
      (expiresAt : Option Time)
  | resolved (interaction : InteractionId) (revision : Nat) (resolution : ResolutionOutcome)
  | tool (operation : OperationId) (toolId : ToolId) (toolRevision : String)
      (resultStatus : Option ResultStatus) (resultSummary : Option String)
  | child (childRunId : RunId) (goalSummary : String) (status : RunStatus)
      (resultRef : Option ArtifactId)
  | message (payload : MessagePayload)
  | record (payload : Json)
deriving DecidableEq, Repr

structure RunEvent where
  runId : RunId
  seq : Nat
  type : EventType
  data : EventData
  timestamp : Time
deriving DecidableEq, Repr

/-- The durable events, oldest first, and the column `next_event_seq` of every run. -/
structure EventLog where
  next : RunId → Nat
  entries : List RunEvent

/-- A row of the outbox for the consumer `children`, keyed by the child. -/
structure ChildNotice where
  parentRunId : RunId
  delivered : Bool := false
deriving DecidableEq, Repr

end MiHarness
