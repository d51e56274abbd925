import Mathlib.Data.Rat.Defs
import MiHarness.Library.Checked

/-!
# Contracts

The identities, enumerations and records that the store, the scheduler, the tool gateway
and the runtime exchange, and the errors they refuse with.

Identifiers are random UUIDs.  They are modelled by numbers: the order of two identifiers
says nothing about the order of their creation, and an operation that creates rows takes
the fresh identifiers as an argument.  Instants are `utc_now` in milliseconds; their texts
have a fixed width, so comparing texts is comparing numbers.  JSON values that the code
only stores, compares or hashes are kept as their canonical text.
-/

namespace MiHarness

/-! ## Identities -/

abbrev Time := Nat
abbrev OwnerId := Nat
abbrev WorkspaceId := Nat
abbrev SessionId := Nat
abbrev BranchId := Nat
abbrev RunId := Nat
abbrev AttemptId := Nat
abbrev OperationId := Nat
abbrev GrantId := Nat
abbrev InteractionId := Nat
abbrev WaitId := Nat
abbrev ArtifactId := Nat
abbrev SnapshotId := Nat
abbrev ThreadKey := Nat
abbrev CheckpointId := Nat
abbrev MessageId := Nat
abbrev ToolCallId := Nat
abbrev CommandId := Nat

/-- A JSON value by its canonical text. -/
abbrev Json := String
/-- The hexadecimal SHA-256 of a canonical text. -/
abbrev Hash := String

/-- A process as `psutil` identifies it.  A pid is reused only with another start. -/
structure ProcessId where
  pid : Nat
  processStart : Nat
deriving DecidableEq, Repr

/-! ## Enumerations -/

inductive RunStatus where
  | queued | running | waitingUser | waitingChildren | recovering | needsReview | cancelling
  | completed | failed | cancelled
deriving DecidableEq, Repr

inductive OpState where
  | prepared | authorized | running | succeeded | failed | cancelled | unknown
deriving DecidableEq, Repr

inductive ResultStatus where
  | succeeded | failed | cancelled | unknown
deriving DecidableEq, Repr

inductive InteractionStatus where
  | pendingBinding | «open» | resolved | expired | cancelled
deriving DecidableEq, Repr

inductive InteractionKind where
  | approval | userInput | mcpElicitation
deriving DecidableEq, Repr

inductive WaitMode where
  | all | any
deriving DecidableEq, Repr

inductive InterruptKind where
  | user | children | review
deriving DecidableEq, Repr

inductive OutcomeKind where
  | final | waiting | error | cancelAck
deriving DecidableEq, Repr

inductive ResolutionOutcome where
  | answered | expired | cancelled
deriving DecidableEq, Repr

inductive ApprovalDecision where
  | approveOnce | approveScoped | deny
deriving DecidableEq, Repr

inductive Effect where
  | read | workspaceWrite | externalWrite | process
deriving DecidableEq, Repr

inductive RuntimeRevision where
  | langchainV1 | langchainV2Selection | other (name : String)
deriving DecidableEq, Repr

/-- The tools whose names the code compares, and every other name. -/
inductive ToolId where
  | requestInput | waitChildren | requestApproval | writeFile | applyPatch
  | named (name : String)
deriving DecidableEq, Repr

def ToolId.label : ToolId → String
  | .requestInput => "request_input"
  | .waitChildren => "wait_children"
  | .requestApproval => "request_approval"
  | .writeFile => "write_file"
  | .applyPatch => "apply_patch"
  | .named name => name

/-! ## Errors -/

inductive ErrorCode where
  | notFound | revisionConflict | invalidTransition | staleWorker | runStopped | branchBusy
  | branchScope | maintenance | integrity | operationConflict | operationState | grantInvalid
  | grantStale | noBudget | reservationConflict | budgetExhausted | settlementConflict
  | usageExceedsReservation | valueError | outcomeMismatch | checkpointRequired
  | interruptMismatch | finalNotDurable | childrenUnsettled | interactionClosed
  | interactionExpired | responseSchema | bindingMismatch | deadlineExceeded
  | delegationConflict | delegationLimit | childPermission | waitScope | runNotReviewing
  | policyNotFound | evidenceRequired | unverifiableNonExecution | invalidDecision
  | steeringUnavailable | runTerminal | runtimeStopped | toolIdentity | toolUnavailable
  | toolNotInSnapshot | planToolDenied | resourceBusy
  | invalidWait | continuationPolicy | processExitUnknown | mcpInputLimit
  | mcpContinuationStale | mcpContinuationScope | checkpointNotFound | checkpointMismatch
  | runtimeRevisionMismatch | snapshotMismatch | snapshotNotFound
  | incompleteInterruptBarrier | interruptMappingMissing | graphIncomplete
  | invalidFinalResponse | invalidHistory | cancelRequested | runtimeError
  | staleContextInput | contextRevisionConflict | messageConflict
  | toolArguments | policyDenied | resourceChanged | approvalDenied | bindingChanged
  | executionInterrupted | toolExecutionError | continuationInterrupted | continuationUncertain
  | modelSelectionDisabled | runBranchConflict | preferencesRevisionRequired | typeError
  | keyError | permissionError
  | fileNotFound | invalidReadRange | readLimit | invalidRange | artifactScope | artifactCorrupt
  | artifactTooLarge | parentMissing | fileTooLarge | fileVersionConflict | patchTarget
  | patchAmbiguous | mcpInputUnavailable
  /-- The texts of the codes of a server. -/
  | server (text : String)
deriving DecidableEq, Repr

/-- The error every refusal raises: its code, its message and its HTTP status. -/
structure HarnessError where
  code : ErrorCode
  message : String
  status : Nat := 409
deriving DecidableEq, Repr

/-! ## Checkpoints and interrupts -/

structure CheckpointRef where
  graphThreadKey : ThreadKey
  checkpointId : CheckpointId
  runtimeRevision : RuntimeRevision
deriving DecidableEq, Repr

/-- What an interrupt of the graph asks for: its kind and the row that answers it. -/
inductive LogicalRequest where
  | user (interaction : InteractionId)
  | children (wait : WaitId)
  | review (operation : OperationId)
deriving DecidableEq, Repr

/-- The host's name of an interrupt, `uuid5` of the thread, the checkpoint, the identity the
graph gave the interrupt and the logical request.  The name stands for these four. -/
structure InterruptId where
  graphThreadKey : ThreadKey
  checkpointId : CheckpointId
  frameworkId : Nat
  request : LogicalRequest
deriving DecidableEq, Repr

/-- An interrupt as `inspect_interrupts` reports it.  Kind and target are those of the
logical request its name was made from. -/
structure InterruptRef where
  interruptId : InterruptId
  checkpointRef : CheckpointRef
deriving DecidableEq, Repr

def InterruptRef.kind (ref : InterruptRef) : InterruptKind :=
  match ref.interruptId.request with
  | .user _ => .user
  | .children _ => .children
  | .review _ => .review

structure ErrorEnvelope where
  code : ErrorCode
  message : String
deriving DecidableEq, Repr

structure RuntimeOutcome where
  kind : OutcomeKind
  runId : RunId
  inputRevision : Nat
  checkpointRef : Option CheckpointRef := none
  resultRef : Option ArtifactId := none
  interruptRefs : List InterruptRef := []
  error : Option ErrorEnvelope := none
deriving DecidableEq, Repr

/-! ## Execution identities -/

/-- The authority a worker holds for one claim of a run. -/
structure ExecutionContext where
  ownerId : OwnerId
  workspaceId : WorkspaceId
  sessionId : SessionId
  branchId : BranchId
  runId : RunId
  rootRunId : RunId
  parentRunId : Option RunId
  workerAttemptId : AttemptId
  fencingToken : Nat
  graphThreadKey : ThreadKey
  inputRevision : Nat
  configSnapshotId : SnapshotId
  deadlineAt : Option Time
deriving DecidableEq, Repr

/-- The logical identity of one tool call. -/
structure OperationKey where
  runId : RunId
  messageId : MessageId
  toolCallId : ToolCallId
deriving DecidableEq, Repr

structure ApprovalBinding where
  operationId : OperationId
  toolRevision : String
  argsHash : Hash
  resourceFingerprint : Hash
  policyRevision : Nat
  expiresAt : Time
deriving DecidableEq, Repr

/-! ## Tools -/

/-- A tool as registered, with whether its executor has `resume_continuation`. -/
structure ToolSpec where
  id : ToolId
  version : String
  origin : Json := "builtin"
  effect : Effect := .read
  requiredCapabilities : List String := []
  resumable : Bool := false
deriving DecidableEq, Repr

structure ToolResult where
  operationId : OperationId
  status : ResultStatus
  summary : String
  structuredData : Json := "{}"
  errorCode : Option ErrorCode := none
  startedAt : Option Time := none
  completedAt : Option Time := none
deriving DecidableEq, Repr

inductive ToolWait where
  | user (interaction : InteractionId) (operation : OperationId)
  | children (wait : WaitId) (operation : OperationId)
  | review (operation : OperationId)
deriving DecidableEq, Repr

/-- The state an operation takes from the status of its result. -/
def ResultStatus.opState : ResultStatus → OpState
  | .succeeded => .succeeded
  | .failed => .failed
  | .cancelled => .cancelled
  | .unknown => .unknown

/-- What the system reads of the world outside its database, fixed for the life of an
installation: the hash, the tools, the scheduler configuration and the schema validator. -/
structure Host where
  /-- `content_hash` of a canonical text. -/
  contentHash : Json → Hash
  /-- The tool that a name and a version stand for, in each process that has registered it.  The
  version of a tool of a server is made from its schemas, and `register_frozen_catalog` refuses
  another schema or origin under the same name and version. -/
  registry : ToolId → String → Option ToolSpec
  /-- `jsonschema.validate`, by schema and value. -/
  validates : Json → Json → Bool
  workerSlots : Nat := 4
  childConcurrency : Nat := 2
  maxDepth : Nat := 2
  /-- `lease_seconds`, in milliseconds. -/
  lease : Nat := 30000

/-- The keys that the `ToolRegistry` of one process holds.  A process starts with the built-in
tools, and `register_frozen_catalog` adds those of the servers of a run that it makes or prepares. -/
abbrev Registered := ToolId → String → Bool

/-- The item that the registry of a process has under a key. -/
def Host.tool? (host : Host) (registered : Registered) (id : ToolId) (version : String) :
    Option ToolSpec :=
  if registered id version = true then host.registry id version else none

/-- `ToolRegistry.get` of a process. -/
def Host.tool (host : Host) (registered : Registered) (id : ToolId) (version : String) :
    Except HarnessError ToolSpec :=
  Library.orThrow (host.tool? registered id version)
    { code := .toolUnavailable, message := "工具不可用: " ++ id.label, status := 422 }

theorem Host.tool_eq_ok {host : Host} {registered : Registered} {id : ToolId} {version : String}
    {spec : ToolSpec} (h : host.tool registered id version = .ok spec) :
    host.registry id version = some spec := by
  have found := Library.orThrow_eq_ok.mp h
  rw [tool?] at found
  split at found
  · exact found
  · cases found

end MiHarness
