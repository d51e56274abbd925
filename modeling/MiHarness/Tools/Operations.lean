import MiHarness.Scheduler.Transition

/-!
# Writes to operations

The transactions with which the tool gateway and the executors record the progress of an
operation.  Each is fenced by the context of the worker.
-/

namespace MiHarness

open Library

/-- `ToolGateway._finish`. -/
def finishOperation (s : Store) (ctx : ExecutionContext) (id : OperationId) (result : ToolResult)
    (now : Time) : Except HarnessError Store := do
  let o ← s.operation id
  let result := { result with completedAt := some now, startedAt := some o.createdAt }
  let s ← s.updateOperation id o.revision
    { state := some result.status.opState, result := some (some result) } (some ctx) now
  .ok (s.event ctx.runId (if result.status = .failed then .toolFailed else .toolCompleted)
    (.tool id o.toolId o.toolRevision (some result.status) (some result.summary)) now)

/-- The transaction of `execute` that grants, authorizes and starts an operation, given the
operation as it was read before. -/
def startOperation (s : Store) (ctx : ExecutionContext) (id : OperationId) (o : Operation)
    (grant : GrantId) (binding : ApprovalBinding) (policyRevision : Nat) (now : Time) :
    Except HarnessError Store := do
  let s ← s.addGrant grant
    { operationId := id, ownerId := ctx.ownerId, runId := ctx.runId, binding }
  let s ← s.updateOperation id o.revision { state := some .authorized } (some ctx) now
  let s ← s.consumeGrant ctx grant binding policyRevision now
  let ledger ← s.ledger.reserve ctx.rootRunId (.tool id) (Items.single .toolCalls 1)
  .ok ({ s with ledger }.event ctx.runId .toolStarted (.tool id o.toolId o.toolRevision none none)
    now)

/-- What an executor records about its operation while it runs. -/
inductive Annotation where
  /-- The target of a file write and its hashes before and after. -/
  | write (path : String) (before : Option Hash) (after : Hash)
  /-- Evidence that the executor has not started. -/
  | notStarted
deriving DecidableEq, Repr

def Annotation.apply (m : Metadata) : Annotation → Metadata
  | .write path before after =>
      { m with path := some path, beforeHash := before, afterHash := some after }
  | .notStarted => { m with provenNotStarted := true }

/-- `update_operation` of the metadata by an executor. -/
def annotateOperation (s : Store) (ctx : ExecutionContext) (id : OperationId) (a : Annotation)
    (now : Time) : Except HarnessError Store := do
  let o ← s.operation id
  s.updateOperation id o.revision { metadata := some (a.apply o.metadata) } (some ctx) now

/-! ## Exchanges that await the user -/

/-- What `McpContinuationService.suspend` is given by the server. -/
structure PendingInput where
  prompt : String
  responseSchema : Json
  requestHash : Hash
  schemaHash : Hash
  requestStateRef : Nat
  configRevision : Nat
  expiresAt : Time
deriving DecidableEq, Repr

/-- The transaction of `McpContinuationService.suspend`, given the operation the exchange began
with. -/
def suspendExchange (s : Store) (ctx : ExecutionContext) (id : OperationId) (o : Operation)
    (pending : PendingInput) (fresh : InteractionId) (now : Time) :
    Except HarnessError (InteractionId × Store) := do
  let round := (o.metadata.protocolContinuation.map Continuation.round).getD 0 + 1
  require (round ≤ 8)
    { code := .mcpInputLimit, message := "MCP 人工输入轮次或表单数量超过限制", status := 422 }
  let current ← s.operation id
  require (current.revision = o.revision) (Store.conflict "MCP 操作已被另一执行者更新")
  let (iid, _, s) ← s.prepareInteraction ctx
    { key := .mcp id round pending.requestHash, kind := .mcpElicitation, prompt := pending.prompt
      responseSchema := pending.responseSchema, operationId := some id
      expiresAt := some pending.expiresAt } fresh now
  let continuation : Continuation :=
    { modernMrtr := true, status := .awaitingInput
      requestStateRef := some pending.requestStateRef, requestHash := some pending.requestHash
      schemaHash := some pending.schemaHash, interactionId := some iid, round
      configRevision := pending.configRevision }
  let metadata := { current.metadata with protocolContinuation := some continuation }
  let s ← s.updateOperation id current.revision { metadata := some metadata } (some ctx) now
  .ok (iid, s)

/-- The interaction that answers the saved exchange, once it may be sent on: the checks of
`McpContinuationService.responses`. -/
def answeredExchange (s : Store) (ctx : ExecutionContext) (id : OperationId) (o : Operation)
    (schemaHash : Hash) (configRevision : Nat) :
    Except HarnessError (Continuation × InteractionId × Interaction) := do
  let stale : HarnessError :=
    { code := .mcpContinuationStale, message := "MCP 续接状态、目录或连接配置已变化" }
  let c ← orThrow o.metadata.protocolContinuation stale
  require (c.modernMrtr = true ∧ c.status = .awaitingInput ∧ c.schemaHash = some schemaHash ∧
    c.configRevision = configRevision) stale
  let iid ← orThrow c.interactionId stale
  let interaction ← s.interaction iid
  require (interaction.runId = ctx.runId ∧ interaction.operationId = some id)
    { code := .mcpContinuationScope, message := "MCP 表单不属于当前操作", status := 403 }
  .ok (c, iid, interaction)

/-- The transaction of `McpContinuationService.responses`: the answer is being sent. -/
def sendExchange (s : Store) (ctx : ExecutionContext) (id : OperationId) (o : Operation)
    (c : Continuation) (now : Time) : Except HarnessError Store := do
  let current ← s.operation id
  require (current.revision = o.revision) (Store.conflict "MCP 续接答复已被消费")
  let metadata := { o.metadata with protocolContinuation := some { c with status := .sending } }
  s.updateOperation id o.revision { metadata := some metadata } (some ctx) now

end MiHarness
