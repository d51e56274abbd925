import Mathlib.Data.List.Sort
import MiHarness.Storage.Rows

/-!
# The store

The tables of the database and the statements the code runs on them.  Every function here
is called inside a transaction: it returns the changed store, or refuses, in which case the
transaction is rolled back and nothing changes.

`assertFence` is the check that every durable write of a worker passes.  It has two parts
with two errors: `Holds`, the lease, whose failure is `STALE_WORKER`, and the status of the
run, whose failure is `RUN_STOPPED`.
-/

namespace MiHarness

open Library

structure Store where
  runs : Table RunId Run
  branches : Table BranchId Branch
  attempts : Table AttemptId Attempt
  operations : Table OperationId Operation
  grants : Table GrantId Grant
  interactions : Table InteractionId Interaction
  waits : Table WaitId Wait
  dependencies : Table OperationKey Dependency
  /-- The records of namespace `review_resolutions`. -/
  reviewResolutions : RunId → List (InterruptId × Resolution)
  inputCommands : Table CommandId InputCommand
  ledger : Ledger
  events : EventLog
  outbox : Table RunId ChildNotice
  /-- The record `system/maintenance`. -/
  maintenance : Bool

namespace Store

/-- The database after `migrate`. -/
def initial : Store where
  runs := .empty
  branches := .empty
  attempts := .empty
  operations := .empty
  grants := .empty
  interactions := .empty
  waits := .empty
  dependencies := .empty
  reviewResolutions := fun _ => []
  inputCommands := .empty
  ledger := .empty
  events := ⟨fun _ => 1, []⟩
  outbox := .empty
  maintenance := false

/-! ## Errors -/

def notFound (message : String) : HarnessError :=
  { code := .notFound, message, status := 404 }

def staleWorker : HarnessError :=
  { code := .staleWorker, message := "执行租约已失效" }

def runStopped : HarnessError :=
  { code := .runStopped, message := "任务已停止接收新操作" }

def conflict (message : String) : HarnessError :=
  { code := .revisionConflict, message }

/-- What SQLite raises for a primary key or a unique constraint. -/
def integrity : HarnessError :=
  { code := .integrity, message := "UNIQUE constraint failed" }

/-! ## Events and the outbox -/

/-- `event`: append an event at the next sequence number of the run. -/
def event (s : Store) (rid : RunId) (type : EventType) (data : EventData) (now : Time) : Store :=
  { s with events :=
    { next := fun r => if r = rid then s.events.next r + 1 else s.events.next r
      entries := s.events.entries ++
        [{ runId := rid, seq := s.events.next rid, type, data, timestamp := now }] } }

/-- `outbox("children", …)`: an insert that ignores a key that is there. -/
def notifyParent (s : Store) (child parent : RunId) : Store :=
  { s with outbox := (s.outbox.insert? child { parentRunId := parent }).getD s.outbox }

/-! ## Branches -/

def branch (s : Store) (id : BranchId) : Except HarnessError Branch :=
  orThrow (s.branches.get? id) (notFound "分支不存在")

def addBranch (s : Store) (id : BranchId) (row : Branch) : Except HarnessError Store := do
  require (s.branches.any (fun _ b => b.graphThreadKey = row.graphThreadKey) = false) integrity
  let branches ← orThrow (s.branches.insert? id row) integrity
  .ok { s with branches }

def advanceBranch (s : Store) (id : BranchId) (expected : Nat) : Except HarnessError Store := do
  require ((s.branches.get? id).map Branch.revision = some expected)
    (conflict "分支已更新，请读取最新版本")
  .ok { s with branches := s.branches.modify id fun b => { b with revision := b.revision + 1 } }

def setBranchOwner (s : Store) (id : BranchId) (expected owner : Option RunId) :
    Except HarnessError Store := do
  require ((s.branches.get? id).map Branch.activeRunId = some expected)
    { code := .branchBusy, message := "分支仍由另一运行占有" }
  .ok { s with branches := s.branches.modify id fun b => { b with activeRunId := owner } }

/-! ## Runs -/

def run (s : Store) (id : RunId) : Except HarnessError Run :=
  orThrow (s.runs.get? id) (notFound "任务不存在")

def insertRun (s : Store) (id : RunId) (row : Run) : Except HarnessError Store := do
  let runs ← orThrow (s.runs.insert? id row) integrity
  .ok { s with runs }

/-- `run(identity, owner)`. -/
def ownedRun (s : Store) (id : RunId) (owner : OwnerId) : Except HarnessError Run := do
  let row ← s.run id
  require (row.ownerId = owner) (notFound "任务不存在")
  .ok row

/-- The order of `ORDER BY created_at,id`. -/
def createdBefore (a b : RunId × Run) : Prop :=
  a.2.createdAt < b.2.createdAt ∨ a.2.createdAt = b.2.createdAt ∧ a.1 ≤ b.1

instance (a b : RunId × Run) : Decidable (createdBefore a b) := by
  unfold createdBefore; infer_instance

/-- `runs(statuses=…)`, in the order of creation. -/
def runsWith (s : Store) (statuses : List RunStatus) : List (RunId × Run) :=
  (s.runs.select fun _ r => decide (r.status ∈ statuses)).insertionSort createdBefore

/-! ## Attempts and the fence -/

/-- The lease part of the fence: the run still names this attempt and this token, and the
attempt has neither ended nor expired. -/
def Holds (s : Store) (ctx : ExecutionContext) (now : Time) : Prop :=
  ∃ row ∈ s.runs.get? ctx.runId, row.fencingToken = ctx.fencingToken ∧
    row.attemptId = some ctx.workerAttemptId ∧
    ∃ attempt ∈ s.attempts.get? ctx.workerAttemptId,
      attempt.endedAt = none ∧ now < attempt.leaseExpiry

instance (s : Store) (ctx : ExecutionContext) (now : Time) : Decidable (s.Holds ctx now) :=
  match hr : s.runs.get? ctx.runId, ha : s.attempts.get? ctx.workerAttemptId with
  | some row, some attempt =>
      decidable_of_iff (row.fencingToken = ctx.fencingToken ∧
          row.attemptId = some ctx.workerAttemptId ∧
          attempt.endedAt = none ∧ now < attempt.leaseExpiry)
        (by simp [Holds, hr, ha])
  | none, _ => isFalse (by simp [Holds, hr])
  | some _, none => isFalse (by simp [Holds, ha])

def assertFence (s : Store) (ctx : ExecutionContext) (now : Time)
    (allowCancelling : Bool := false) : Except HarnessError Unit := do
  let row ← s.run ctx.runId
  require (s.Holds ctx now) staleWorker
  require ((row.status = .running ∨ allowCancelling = true ∧ row.status = .cancelling) ∧
      (row.cancelRequested = true → allowCancelling = true)) runStopped

/-- The fence inside an update: checked only when a context is given. -/
def assertFence? (s : Store) (ctx : Option ExecutionContext) (now : Time) :
    Except HarnessError Unit :=
  match ctx with
  | some ctx => s.assertFence ctx now true
  | none => .ok ()

def updateRun (s : Store) (id : RunId) (expected : Nat) (patch : RunPatch)
    (ctx : Option ExecutionContext) (now : Time) : Except HarnessError Store := do
  s.assertFence? ctx now
  require ((s.runs.get? id).map Run.revision = some expected) (conflict "任务已发生变化")
  .ok { s with runs := s.runs.modify id patch.apply }

def addAttempt (s : Store) (id : AttemptId) (row : Attempt) : Except HarnessError Store := do
  let attempts ← orThrow (s.attempts.insert? id row) integrity
  .ok { s with attempts }

def heartbeat (s : Store) (ctx : ExecutionContext) (expiry now : Time) :
    Except HarnessError Store := do
  s.assertFence ctx now true
  .ok { s with attempts := s.attempts.modify ctx.workerAttemptId fun a =>
    if a.endedAt = none then { a with leaseExpiry := expiry } else a }

def endAttempt (s : Store) (id : AttemptId) (reason : String) (now : Time) : Store :=
  { s with attempts := s.attempts.modify id fun a =>
    if a.endedAt = none then { a with endedAt := some now, endReason := some reason } else a }

/-! ## Operations -/

def operation (s : Store) (id : OperationId) : Except HarnessError Operation :=
  orThrow (s.operations.get? id) (notFound "操作不存在")

/-- `operations(run_id)`. -/
def operationsOf (s : Store) (rid : RunId) : List (OperationId × Operation) :=
  s.operations.select fun _ o => o.runId = rid

def operationByKey (s : Store) (key : OperationKey) : Option (OperationId × Operation) :=
  s.operations.rows.find? fun e => e.2.runId = key.runId ∧ e.2.messageId = key.messageId ∧
    e.2.toolCallId = key.toolCallId

/-- The row `prepare_operation` is asked for. -/
structure PreparedRow where
  messageId : MessageId
  toolCallId : ToolCallId
  toolId : ToolId
  toolRevision : String
  argsHash : Hash
  args : Json
  resourceFingerprint : Hash
deriving DecidableEq, Repr

def prepareOperation (s : Store) (ctx : ExecutionContext) (row : PreparedRow) (fresh : OperationId)
    (now : Time) : Except HarnessError (OperationId × Operation × Store) := do
  s.assertFence ctx now
  match s.operationByKey ⟨ctx.runId, row.messageId, row.toolCallId⟩ with
  | some (id, existing) =>
      require (existing.argsHash = row.argsHash ∧ existing.toolRevision = row.toolRevision ∧
          existing.toolId = row.toolId)
        { code := .operationConflict, message := "已登记操作的参数或工具版本发生变化" }
      .ok (id, existing, s)
  | none =>
      let operation : Operation :=
        { runId := ctx.runId, messageId := row.messageId, toolCallId := row.toolCallId
          toolId := row.toolId, toolRevision := row.toolRevision, argsHash := row.argsHash
          args := row.args, resourceFingerprint := row.resourceFingerprint
          attemptId := ctx.workerAttemptId, fencingToken := ctx.fencingToken, createdAt := now }
      let operations ← orThrow (s.operations.insert? fresh operation) integrity
      let s := { s with operations }
      .ok (fresh, operation, s.event ctx.runId .toolPrepared
        (.tool fresh row.toolId row.toolRevision none none) now)

def updateOperation (s : Store) (id : OperationId) (expected : Nat) (patch : OperationPatch)
    (ctx : Option ExecutionContext) (now : Time) : Except HarnessError Store := do
  s.assertFence? ctx now
  require ((s.operations.get? id).map Operation.revision = some expected)
    (conflict "操作状态已更新")
  .ok { s with operations := s.operations.modify id patch.apply }

/-! ## Grants -/

def addGrant (s : Store) (id : GrantId) (grant : Grant) : Except HarnessError Store := do
  let grants ← orThrow (s.grants.insert? id grant) integrity
  .ok { s with grants }

def consumeGrant (s : Store) (ctx : ExecutionContext) (id : GrantId) (binding : ApprovalBinding)
    (policyRevision : Nat) (now : Time) : Except HarnessError Store := do
  s.assertFence ctx now
  let invalid : HarnessError :=
    { code := .grantInvalid, message := "授权不可用或已消费", status := 403 }
  let grant ← orThrow (s.grants.get? id) invalid
  require (grant.ownerId = ctx.ownerId ∧ grant.runId = ctx.runId ∧ grant.revoked = false ∧
    1 ≤ grant.remaining) invalid
  require (grant.binding = binding ∧ now < grant.binding.expiresAt ∧
      grant.binding.policyRevision = policyRevision)
    { code := .grantStale, message := "参数、资源或权限已变化，需重新审批", status := 403 }
  let operation ← s.operation grant.operationId
  require (operation.state = .prepared ∨ operation.state = .authorized)
    { code := .operationState, message := "操作已开始执行" }
  let s := { s with grants := s.grants.modify id fun g =>
    { g with remaining := g.remaining - 1, consumedAt := some now } }
  s.updateOperation grant.operationId operation.revision
    { state := some .running, grantId := some (some id)
      attemptId := some ctx.workerAttemptId, fencingToken := some ctx.fencingToken } (some ctx) now

/-- `revoke_grants(run_id, except_ids)`. -/
def revokeGrants (s : Store) (rid : RunId) (except : List GrantId) : Store :=
  { s with grants := s.grants.mapRows fun id g => g.revoke rid except id }

def verifyConsumedGrant (s : Store) (ctx : ExecutionContext) (oid : OperationId)
    (policyRevision : Nat) (now : Time) : Except HarnessError Unit := do
  s.assertFence ctx now
  let operation ← s.operation oid
  let invalid : HarnessError :=
    { code := .grantInvalid, message := "继续操作的原授权已失效", status := 403 }
  let grant ← orThrow (operation.grantId.bind s.grants.get?) invalid
  require (grant.ownerId = ctx.ownerId ∧ grant.runId = ctx.runId ∧ grant.operationId = oid ∧
    grant.revoked = false ∧ grant.remaining = 0 ∧ grant.consumedAt.isSome) invalid
  require (now < grant.binding.expiresAt ∧ grant.binding.policyRevision = policyRevision ∧
      grant.binding.argsHash = operation.argsHash ∧
      grant.binding.toolRevision = operation.toolRevision ∧
      grant.binding.resourceFingerprint = operation.resourceFingerprint)
    { code := .grantStale, message := "继续操作的参数、资源、期限或权限已变化", status := 403 }

/-! ## Interactions -/

def interaction (s : Store) (id : InteractionId) : Except HarnessError Interaction :=
  orThrow (s.interactions.get? id) (notFound "交互不存在")

/-- `interactions(run_id)`. -/
def interactionsOf (s : Store) (rid : RunId) : List (InteractionId × Interaction) :=
  s.interactions.select fun _ i => i.runId = rid

/-- What `prepare_interaction` stores for a request. -/
structure InteractionRequest where
  key : RequestKey
  kind : InteractionKind
  prompt : String
  responseSchema : Json
  bindingRef : Option ApprovalBinding := none
  operationId : Option OperationId := none
  expiresAt : Option Time
deriving DecidableEq, Repr

def prepareInteraction (s : Store) (ctx : ExecutionContext) (request : InteractionRequest)
    (fresh : InteractionId) (now : Time) :
    Except HarnessError (InteractionId × Interaction × Store) := do
  s.assertFence ctx now
  match s.interactions.rows.find? fun e => e.2.runId = ctx.runId ∧ e.2.requestKey = request.key with
  | some (id, row) => .ok (id, row, s)
  | none =>
      let row : Interaction :=
        { runId := ctx.runId, requestKey := request.key, inputRevision := ctx.inputRevision
          kind := request.kind, prompt := request.prompt, responseSchema := request.responseSchema
          bindingRef := request.bindingRef, operationId := request.operationId
          expiresAt := request.expiresAt }
      let interactions ← orThrow (s.interactions.insert? fresh row) integrity
      .ok (fresh, row, { s with interactions })

def updateInteraction (s : Store) (id : InteractionId) (expected : Nat) (patch : InteractionPatch) :
    Except HarnessError Store := do
  require ((s.interactions.get? id).map Interaction.revision = some expected)
    (conflict "交互已处理或已过期")
  .ok { s with interactions := s.interactions.modify id patch.apply }

/-! ## Dependencies and waits -/

/-- The identifiers of `children(parent)`. -/
def childIds (s : Store) (parent : RunId) : List RunId :=
  (s.dependencies.select fun _ d => d.parentId = parent).map fun e => e.2.childId

/-- `children(parent)`. -/
def children (s : Store) (parent : RunId) : List (RunId × Run) :=
  (s.childIds parent).filterMap fun id => (s.runs.get? id).map fun r => (id, r)

def addDependency (s : Store) (key : OperationKey) (row : Dependency) :
    Except HarnessError Store := do
  let dependencies ← orThrow (s.dependencies.insert? key row) integrity
  .ok { s with dependencies }

def wait (s : Store) (id : WaitId) : Except HarnessError Wait :=
  orThrow (s.waits.get? id) (notFound "等待对象不存在")

def addWait (s : Store) (parent : RunId) (key : OperationId) (childIds : List RunId)
    (mode : WaitMode) (fresh : WaitId) : Except HarnessError (WaitId × Wait × Store) :=
  match s.waits.rows.find? fun e => e.2.parentId = parent ∧ e.2.requestKey = key with
  | some (id, row) => .ok (id, row, s)
  | none => do
      let row : Wait := { parentId := parent, requestKey := key, childIds, mode }
      let waits ← orThrow (s.waits.insert? fresh row) integrity
      .ok (fresh, row, { s with waits })

def updateWait (s : Store) (id : WaitId) (expected : Nat) (interruptId : Option InterruptId)
    (checkpoint : Option CheckpointRef) (resolution : Option Resolution) :
    Except HarnessError Store := do
  require ((s.waits.get? id).map Wait.revision = some expected) (conflict "等待状态已更新")
  .ok { s with waits := s.waits.modify id fun w =>
    { w with interruptId, checkpointRef := checkpoint, resolution, revision := w.revision + 1 } }

/-! ## Input commands -/

def pendingInputCommands (s : Store) (rid : RunId) : List (CommandId × InputCommand) :=
  (s.inputCommands.select fun _ c => c.runId = rid && !c.consumed).insertionSort
    fun a b => a.2.inputRevision ≤ b.2.inputRevision

def addInputCommand (s : Store) (rid : RunId) (revision : Nat) (text : String) (fresh : CommandId) :
    Except HarnessError Store := do
  require (s.inputCommands.any (fun _ c => c.runId = rid && c.inputRevision = revision) = false)
    integrity
  let inputCommands ← orThrow
    (s.inputCommands.insert? fresh { runId := rid, inputRevision := revision, text }) integrity
  .ok { s with inputCommands }

def ackInputCommands (s : Store) (ctx : ExecutionContext) (ids : List CommandId) (now : Time) :
    Except HarnessError Store := do
  s.assertFence ctx now
  let row ← s.run ctx.runId
  let s ← if row.inputRevision < ctx.inputRevision then
      s.updateRun ctx.runId row.revision { inputRevision := some ctx.inputRevision } (some ctx) now
    else .ok s
  .ok { s with inputCommands := s.inputCommands.mapRows fun id c =>
    if id ∈ ids ∧ c.runId = ctx.runId then { c with consumed := true } else c }

end Store

end MiHarness
