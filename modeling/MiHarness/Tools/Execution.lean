import MiHarness.Policy.Engine
import MiHarness.Scheduler.System
import MiHarness.Scheduler.Writes

/-!
# Executions of tools

`ToolGateway.execute` as a coroutine: a call goes from phase to phase, each phase ends with one
transaction or one look at the world, and between two phases anything else may happen.  A call
can end at any moment, by an exception or with its process.  Code without an `await` in it is one
phase, except where it commits: registering the operation, committing the grant and recording
the result are phases of their own.  The locks of the gateway take interleavings away and are
left out.

The trace records what leaves the process: an executor is invoked, a request is sent to a server.
-/

namespace MiHarness

open Library

/-! ## What a call reads -/

/-- The tools that only wait. -/
def ToolId.waits (tool : ToolId) : Bool := tool = .requestInput || tool = .waitChildren

/-- A system as it is installed.  `ToolRegistry.register` files a tool under its own name and
version. -/
structure Installation where
  host : Host
  /-- The records of namespace `snapshots`. -/
  snapshots : SnapshotId → Snapshot
  /-- `jsonschema.validate` of the arguments by the input schema of the tool. -/
  accepts : ToolSpec → Json → Bool
  /-- The path or the directory that the arguments name. -/
  target : Json → Option String
  keyed : ∀ id version spec, host.registry id version = some spec →
    spec.id = id ∧ spec.version = version
  /-- The tools that only wait are built in, as tools that read. -/
  waiters : ∀ id version spec, host.registry id version = some spec → id.waits = true →
    spec.effect = .read

/-- What a call reads outside the database, at one moment. -/
structure Surroundings where
  layers : Layers
  /-- `policy.fingerprint` of a target, with whether it is for writing. -/
  fingerprint : ExecutionContext → String → Bool → Except HarnessError Hash

/-- `spec.origin.startswith("mcp:")`. -/
def ToolSpec.mcp (spec : ToolSpec) : Bool := "mcp:".isPrefixOf spec.origin

/-- `canonical_json(dict(tool=…, args=…))`. -/
def callText (tool : ToolId) (args : Json) : Json :=
  "\x7b\"args\":" ++ args ++ ",\"tool\":\"" ++ tool.label ++ "\"\x7d"

/-- `ToolGateway._resources`. -/
def Installation.resources (g : Installation) (env : Surroundings) (ctx : ExecutionContext)
    (spec : ToolSpec) (args : Json) : Except HarnessError Hash :=
  if spec.mcp = true then .ok (g.host.contentHash (callText spec.id args))
  else
    match g.target args with
    | some target => env.fingerprint ctx target (spec.effect = .workspaceWrite)
    | none => .ok (g.host.contentHash (callText spec.id args))

/-- `PolicyEngine.decide`. -/
def Installation.decide (g : Installation) (env : Surroundings) (s : Store)
    (ctx : ExecutionContext) (spec : ToolSpec) (now : Time) : Except HarnessError Decision := do
  s.assertFence ctx now
  let snapshot := g.snapshots ctx.configSnapshotId
  let policy ← env.layers.effective ⟨ctx.ownerId, some ctx.workspaceId⟩ snapshot
  .ok (policy.decide snapshot spec)

/-- `ToolGateway._version`. -/
def Installation.version (g : Installation) (ctx : ExecutionContext) (name : ToolId) :
    Except HarnessError String :=
  orThrow ((g.snapshots ctx.configSnapshotId).tools.reverse.lookup name)
    { code := .toolNotInSnapshot, message := "该工具不在本次任务的固定能力清单内", status := 403 }

/-- `PLAN_TOOLS`. -/
def planTools : List String :=
  ["read_file", "stat_file", "list_files", "search_files", "fetch", "search_web", "artifact_read",
    "artifact_preview", "archive_search", "memory_search", "inspect_child", "request_input",
    "plan_update", "delegate", "wait_children", "skill_activate", "skill_read"]

/-- `modes.permitted`. -/
def Snapshot.permits (snapshot : Snapshot) (spec : ToolSpec) : Bool :=
  snapshot.mode ≠ .plan ||
    if spec.mcp = true then spec.effect = .read && spec.id ∈ snapshot.planReadonlyTools
    else spec.origin = "builtin" && spec.effect = .read && spec.id.label ∈ planTools

/-! ## Results -/

/-- What `execute` returns. -/
inductive ToolValue where
  | result (result : ToolResult)
  | wait (wait : ToolWait)
deriving DecidableEq, Repr

/-- How an executor can fail. -/
inductive Failure where
  | raised (e : HarnessError)
  | cancelled
  | other
deriving DecidableEq, Repr

def deniedResult (oid : OperationId) (reason : String) : ToolResult :=
  { operationId := oid, status := .failed, summary := reason, errorCode := some .policyDenied }

def changedResult (oid : OperationId) : ToolResult :=
  { operationId := oid, status := .failed
    summary := "审批后目标资源已变化，请重新读取并发起新操作", errorCode := some .resourceChanged }

def unapprovedResult (oid : OperationId) : ToolResult :=
  { operationId := oid, status := .failed, summary := "操作未获批准或交互已过期"
    errorCode := some .approvalDenied }

def unboundResult (oid : OperationId) : ToolResult :=
  { operationId := oid, status := .failed, summary := "执行前权限或资源复验失败"
    errorCode := some .bindingChanged }

/-- The `except` clauses around the executor. -/
def ToolSpec.failedResult (spec : ToolSpec) (oid : OperationId) : Failure → ToolResult
  | .raised e =>
      { operationId := oid, status := if e.code = .processExitUnknown then .unknown else .failed
        summary := e.message, errorCode := some e.code }
  | .cancelled =>
      { operationId := oid
        status := if spec.effect = .externalWrite ∨ spec.effect = .process then .unknown
          else .cancelled
        summary := "执行已中断；已发生的副作用不会自动撤销"
        errorCode := some .executionInterrupted }
  | .other =>
      { operationId := oid, status := if spec.effect ≠ .read then .unknown else .failed
        summary := "工具执行异常，详细状态需核对", errorCode := some .toolExecutionError }

/-- The `except` clauses of `_resume_protocol`. -/
def uncertainResult (oid : OperationId) : Failure → ToolResult
  | .cancelled =>
      { operationId := oid, status := .unknown, summary := "MCP 续接已中断，副作用需要核对"
        errorCode := some .continuationInterrupted }
  | _ =>
      { operationId := oid, status := .unknown, summary := "MCP 续接无法确认，原始操作未重发"
        errorCode := some .continuationUncertain }

/-- What an executor that waits without a registered wait raises. -/
def invalidWait : HarnessError :=
  { code := .invalidWait, message := "执行中的操作不能转为未登记等待" }

/-! ## Calls -/

/-- How far a request to a server has come. -/
inductive Stage where
  | ready | validated | sent
deriving DecidableEq, Repr

/-- Where a call of `execute` is.  It keeps the row of its operation as it was read. -/
inductive Phase where
  | entered
  | registered (oid : OperationId) (o : Operation) (fingerprint : Hash)
  | decided (oid : OperationId) (o : Operation) (binding : ApprovalBinding) (verdict : Verdict)
  | cleared (oid : OperationId) (o : Operation) (binding : ApprovalBinding)
  | special (oid : OperationId)
  | rechecked (oid : OperationId) (o : Operation) (binding : ApprovalBinding) (policyRevision : Nat)
  /-- The executor runs; round `0` is the call itself, a later one answers the server. -/
  | working (oid : OperationId) (o : Operation) (round : Nat) (stage : Stage)
  | waiting (oid : OperationId) (interaction : InteractionId) (round : Nat)
  | resuming (oid : OperationId) (o : Operation)
  | verified (oid : OperationId) (o : Operation)
  | closing (oid : OperationId) (result : ToolResult)
  | finishing (oid : OperationId) (result : ToolResult)
  | settling (oid : OperationId) (result : ToolResult)

structure Call where
  ctx : ExecutionContext
  key : OperationKey
  name : ToolId
  args : Json
  spec : ToolSpec
  phase : Phase

/-- What the executor does next. -/
inductive Reply where
  | proceed
  | input (pending : PendingInput)
  | wait (wait : ToolWait)
  | result (result : ToolResult)
  | failure (failure : Failure)

/-- What a phase of a call is given from outside: the surroundings, a fresh identifier, the
executor's doing, and whether the process dies before the executor is called. -/
structure Input where
  env : Surroundings
  fresh : Nat := 0
  reply : Reply := .proceed
  schemaHash : Hash := ""
  configRevision : Nat := 0
  dies : Bool := false

/-- How a call goes on. -/
inductive Progress where
  | next (phase : Phase)
  | done (value : ToolValue)
  | gone

/-- What leaves the process, and what the user has attested. -/
inductive ToolEvent where
  | invoked (oid : OperationId) (key : OperationKey) (spec : ToolSpec)
  /-- The request of a round is sent to the server. -/
  | sent (oid : OperationId) (round : Nat)
  /-- An accepted `confirm_not_executed`, with the operation as it was. -/
  | confirmed (oid : OperationId) (o : Operation)
deriving DecidableEq

/-- The result of a call whose arguments do not match the schema. -/
def argumentsResult : ToolResult :=
  { operationId := 0, status := .failed, summary := "工具参数不符合 schema"
    errorCode := some .toolArguments }

/-- The start of `execute` in a process, up to the first `await`: the tool to call, or a result at
once. -/
def Installation.enter (g : Installation) (registered : Registered) (s : Store)
    (ctx : ExecutionContext) (key : OperationKey) (name : ToolId) (args : Json) (now : Time) :
    Except HarnessError (ToolResult ⊕ ToolSpec) := do
  require (key.runId = ctx.runId)
    { code := .toolIdentity, message := "无效工具执行身份", status := 403 }
  s.assertFence ctx now
  let version ← g.version ctx name
  let spec ← g.host.tool registered name version
  require ((g.snapshots ctx.configSnapshotId).permits spec = true)
    { code := .planToolDenied, message := "Plan 模式禁止此工具；请选择 ReAct 发起新运行", status := 403 }
  if g.accepts spec args = true then .ok (.inr spec) else .ok (.inl argumentsResult)

/-- What `execute` does with an operation that has started and has no outcome. -/
def Call.resumeStarted (c : Call) (oid : OperationId) (o : Operation) : Option Progress :=
  if o.state = .running ∨ o.state = .unknown then
    if o.state = .running ∧ c.spec.resumable = true ∧
        o.metadata.protocolContinuation.any (fun k => k.modernMrtr && k.status = .awaitingInput)
          = true then
      some (.next (.resuming oid o))
    else some (.done (.wait (.review oid)))
  else none

/-- What `execute` does with an operation that is registered already, unless it has not
started. -/
def Call.resume (c : Call) (oid : OperationId) (o : Operation) : Option Progress :=
  match o.result with
  | some result =>
      if o.state.finished = true then some (.done (.result result)) else c.resumeStarted oid o
  | none => c.resumeStarted oid o

/-- The row that a call asks `prepare_operation` for. -/
def Call.prepared (c : Call) (g : Installation) (fingerprint : Hash) : Store.PreparedRow :=
  { messageId := c.key.messageId, toolCallId := c.key.toolCallId, toolId := c.name
    toolRevision := c.spec.version, argsHash := g.host.contentHash c.args, args := c.args
    resourceFingerprint := fingerprint }

/-- The registration of the operation of a call. -/
def Call.prepare (c : Call) (g : Installation) (s : Store) (now : Time) (input : Input) :
    Except HarnessError (Progress × Store) := do
  let fingerprint ← g.resources input.env c.ctx c.spec c.args
  let (oid, o, s) ← s.prepareOperation c.ctx (c.prepared g fingerprint) input.fresh now
  .ok (.next (.registered oid o fingerprint), s)

/-- From the lock to `prepare_operation`. -/
def Call.register (c : Call) (g : Installation) (s : Store) (now : Time) (input : Input) :
    Except HarnessError (Progress × Store) :=
  match s.operationByKey c.key with
  | none => c.prepare g s now input
  | some (oid, o) => do
      require (o.argsHash = g.host.contentHash c.args ∧ o.toolId = c.name ∧
          o.toolRevision = c.spec.version)
        { code := .operationConflict, message := "同一操作不得更换参数或实现版本" }
      match c.resume oid o with
      | some progress => .ok (progress, s)
      | none => c.prepare g s now input

/-- The binding of the operation to a policy. -/
def Call.binding (c : Call) (g : Installation) (oid : OperationId) (fingerprint : Hash)
    (policyRevision : Nat) (now : Time) : ApprovalBinding :=
  { operationId := oid, toolRevision := c.spec.version, argsHash := g.host.contentHash c.args
    resourceFingerprint := fingerprint, policyRevision, expiresAt := now + 900000 }

/-- The first decision of the policy. -/
def Call.decide (c : Call) (g : Installation) (s : Store) (now : Time) (input : Input)
    (oid : OperationId) (o : Operation) (fingerprint : Hash) : Except HarnessError Progress := do
  let decision ← g.decide input.env s c.ctx c.spec now
  if decision.decision = .deny then .ok (.next (.closing oid (deniedResult oid decision.reason)))
  else if fingerprint ≠ o.resourceFingerprint then .ok (.next (.closing oid (changedResult oid)))
  else
    .ok (.next (.decided oid o (c.binding g oid fingerprint decision.policyRevision now)
      decision.decision))

/-- The schema of the answer to an approval. -/
def approvalSchema : Json :=
  "\x7b\"additionalProperties\":false,\"properties\":\x7b\"decision\":\x7b\"enum\":[\"approve_once\"," ++
    "\"approve_scoped\",\"deny\"]\x7d\x7d,\"required\":[\"decision\"],\"type\":\"object\"\x7d"

/-- The interaction that asks for the approval of an operation. -/
def Call.approvalRequest (c : Call) (oid : OperationId) (binding : ApprovalBinding) :
    Store.InteractionRequest :=
  { key := .approval oid, kind := .approval, prompt := "允许执行 " ++ c.name.label ++ "？"
    responseSchema := approvalSchema, bindingRef := some binding
    expiresAt := some binding.expiresAt }

/-- The user has answered the interaction with an approval. -/
def Interaction.approves (i : Interaction) : Bool :=
  i.resolution.any fun r => r.outcome = .answered && r.response.any fun answer =>
    answer.decision = some .approveOnce || answer.decision = some .approveScoped

/-- The interaction that asks for the approval, which may be there already. -/
def Call.ask (c : Call) (s : Store) (now : Time) (fresh : InteractionId) (oid : OperationId)
    (binding : ApprovalBinding) : Except HarnessError (InteractionId × Interaction × Store) :=
  match (s.interactionsOf c.ctx.runId).find? fun e => e.2.requestKey = .approval oid with
  | some (iid, i) => .ok (iid, i, s)
  | none => s.prepareInteraction c.ctx (c.approvalRequest oid binding) fresh now

/-- What the policy decided is put to the user. -/
def Call.consult (c : Call) (s : Store) (now : Time) (input : Input) (oid : OperationId)
    (o : Operation) (binding : ApprovalBinding) : Except HarnessError (Progress × Store) := do
  let (iid, i, s) ← c.ask s now input.fresh oid binding
  let saved ← orThrow i.bindingRef { code := .valueError, message := "binding_ref" }
  if i.status.pending = true then .ok (.done (.wait (.user iid oid)), s)
  else if i.approves = true then .ok (.next (.cleared oid o saved), s)
  else .ok (.next (.closing oid (unapprovedResult oid)), s)

/-- The reservation of a tool that only waits, and the call of its executor. -/
def Call.begin (c : Call) (s : Store) (oid : OperationId) :
    Except HarnessError (Progress × Store × List ToolEvent) := do
  let ledger ← s.ledger.reserve c.ctx.rootRunId (.tool oid) (Items.single .toolCalls 1)
  .ok (.next (.special oid), { s with ledger }, [.invoked oid c.key c.spec])

/-- The second decision, just before the grant. -/
def Call.recheck (c : Call) (g : Installation) (s : Store) (now : Time) (input : Input)
    (oid : OperationId) (o : Operation) (binding : ApprovalBinding) :
    Except HarnessError Progress := do
  let current ← g.decide input.env s c.ctx c.spec now
  if current.decision = .deny ∨ current.policyRevision ≠ binding.policyRevision then
    .ok (.next (.closing oid (unboundResult oid)))
  else
    let fingerprint ← g.resources input.env c.ctx c.spec c.args
    if fingerprint ≠ o.resourceFingerprint then .ok (.next (.closing oid (unboundResult oid)))
    else .ok (.next (.rechecked oid o binding current.policyRevision))

/-- The grant, and the call of the executor that follows it. -/
def Call.grant (c : Call) (s : Store) (now : Time) (input : Input) (oid : OperationId)
    (o : Operation) (binding : ApprovalBinding) (policyRevision : Nat) :
    Except HarnessError (Progress × Store × List ToolEvent) := do
  let s ← startOperation s c.ctx oid o input.fresh binding policyRevision now
  let o ← s.operation oid
  if input.dies = true then .ok (.gone, s, [])
  else .ok (.next (.working oid o 0 .ready), s, [.invoked oid c.key c.spec])

/-- `ledger_invocation_validator`. -/
def Call.validate (c : Call) (g : Installation) (s : Store) (now : Time) (oid : OperationId)
    (o : Operation) : Except HarnessError Unit := do
  s.assertFence c.ctx now
  let current ← s.operation oid
  require (current.runId = c.ctx.runId ∧ current.state = .running ∧ current.grantId.isSome ∧
      o.grantId = current.grantId ∧ current.messageId = c.key.messageId ∧
      current.toolCallId = c.key.toolCallId ∧ current.argsHash = g.host.contentHash c.args)
    { code := .operationState
      message := "MCP invocation must match a running, granted Tool Gateway operation" }

/-- The result of a failure, in the first round or in a later one. -/
def Call.failed (c : Call) (oid : OperationId) (round : Nat) (failure : Failure) : ToolResult :=
  if round = 0 then c.spec.failedResult oid failure else uncertainResult oid failure

/-- What the executor does. -/
def Call.work (c : Call) (g : Installation) (s : Store) (now : Time) (input : Input)
    (oid : OperationId) (o : Operation) (round : Nat) (stage : Stage) :
    Except HarnessError (Progress × Store × List ToolEvent) :=
  match input.reply, stage with
  | .proceed, .ready => do
      c.validate g s now oid o
      .ok (.next (.working oid o round .validated), s, [])
  | .proceed, .validated => .ok (.next (.working oid o round .sent), s, [.sent oid round])
  | .input pending, .sent => do
      let (iid, s) ← suspendExchange s c.ctx oid o pending input.fresh now
      .ok (.next (.waiting oid iid round), s, [])
  | .result result, _ => .ok (.next (.finishing oid { result with operationId := oid }), s, [])
  | .failure failure, _ => .ok (.next (.finishing oid (c.failed oid round failure)), s, [])
  | .wait _, _ => .ok (.next (.finishing oid (c.failed oid round (.raised invalidWait))), s, [])
  | .proceed, .sent | .input _, _ => .ok (.next (.working oid o round stage), s, [])

/-- `ToolGateway._valid_protocol_wait`. -/
def validProtocolWait (s : Store) (oid : OperationId) (iid : InteractionId) : Bool :=
  (s.operations.get? oid).any fun o => o.state = .running &&
    o.metadata.protocolContinuation.any fun k => k.modernMrtr && k.status = .awaitingInput &&
      k.requestStateRef.isSome && k.interactionId = some iid

/-- The checks of `_resume_protocol` before the executor is resumed. -/
def Call.mayResume (c : Call) (g : Installation) (s : Store) (now : Time) (input : Input)
    (oid : OperationId) (o : Operation) : Except HarnessError Unit := do
  let decision ← g.decide input.env s c.ctx c.spec now
  let changed : HarnessError :=
    { code := .continuationPolicy, message := "MCP 等待期间权限或资源已变化，需核对", status := 403 }
  require (decision.decision ≠ .deny) changed
  let fingerprint ← g.resources input.env c.ctx c.spec c.args
  require (fingerprint = o.resourceFingerprint) changed
  s.verifyConsumedGrant c.ctx oid decision.policyRevision now

/-- `DurableMcpExecutor.resume_continuation`, up to the request.  It fails where the profile of the
server or the saved request state cannot be read. -/
def Call.answer (c : Call) (s : Store) (now : Time) (input : Input) (oid : OperationId)
    (o : Operation) : Except HarnessError (Progress × Store) := do
  let (k, iid, i) ← answeredExchange s c.ctx oid o input.schemaHash input.configRevision
  if i.status.pending = true then .ok (.next (.waiting oid iid k.round), s)
  else
    let s ← sendExchange s c.ctx oid o k now
    let o ← s.operation oid
    .ok (.next (.working oid o k.round .ready), s)

/-- The next phase of a call. -/
def Call.advance (c : Call) (g : Installation) (s : Store) (now : Time) (input : Input) :
    Except HarnessError (Progress × Store × List ToolEvent) :=
  match c.phase with
  | .entered => do
      let (progress, s) ← c.register g s now input
      .ok (progress, s, [])
  | .registered oid o fingerprint => do
      let progress ← c.decide g s now input oid o fingerprint
      .ok (progress, s, [])
  | .decided oid o binding .approval => do
      let (progress, s) ← c.consult s now input oid o binding
      .ok (progress, s, [])
  | .decided oid o binding _ => .ok (.next (.cleared oid o binding), s, [])
  | .cleared oid o binding =>
      if c.name.waits = true then c.begin s oid
      else do
        let progress ← c.recheck g s now input oid o binding
        .ok (progress, s, [])
  | .special oid =>
      match input.reply with
      | .wait wait => .ok (.done (.wait wait), s, [])
      | .result result =>
          .ok (.next (.finishing oid { result with operationId := oid, status := .succeeded }), s, [])
      | .failure (.raised e) => .error e
      | .failure _ => .error { code := .toolExecutionError, message := "" }
      | .proceed | .input _ => .ok (.next (.special oid), s, [])
  | .rechecked oid o binding policyRevision => c.grant s now input oid o binding policyRevision
  | .working oid o round stage => c.work g s now input oid o round stage
  | .waiting oid iid round =>
      if validProtocolWait s oid iid = true then .ok (.done (.wait (.user iid oid)), s, [])
      else .ok (.next (.finishing oid (c.failed oid round (.raised invalidWait))), s, [])
  | .resuming oid o =>
      match c.mayResume g s now input oid o with
      | .ok () => .ok (.next (.verified oid o), s, [])
      | .error e => .ok (.next (.finishing oid (uncertainResult oid (.raised e))), s, [])
  | .verified oid o =>
      match input.reply, c.answer s now input oid o with
      | .failure failure, _ => .ok (.next (.finishing oid (uncertainResult oid failure)), s, [])
      | _, .ok (progress, s) => .ok (progress, s, [])
      | _, .error e => .ok (.next (.finishing oid (uncertainResult oid (.raised e))), s, [])
  | .closing oid result => do
      let s ← finishOperation s c.ctx oid result now
      .ok (.done (.result result), s, [])
  | .finishing oid result => do
      let s ← finishOperation s c.ctx oid result now
      .ok (.next (.settling oid result), s, [])
  | .settling oid result => do
      let ledger ← s.ledger.settle (.tool oid)
        (if result.status = .unknown then none else some (Amount.single .toolCalls 1))
      .ok (.done (if result.status = .unknown then .wait (.review oid) else .result result),
        { s with ledger }, [])

/-! ## The system with its calls -/

abbrev CallId := Nat

structure GatewayWorld where
  base : World
  calls : CallId → Option Call := fun _ => none
  /-- The latest event first. -/
  trace : List ToolEvent := []

inductive GatewayAction where
  /-- A transaction that no call makes. -/
  | transact (a : Action)
  /-- A call begins, in a process that has registered these tools. -/
  | enter (id : CallId) (ctx : ExecutionContext) (key : OperationKey) (name : ToolId) (args : Json)
      (registered : Registered)
  | turn (id : CallId) (input : Input)
  /-- A call ends with its process, or by an exception. -/
  | leave (id : CallId)

/-- The transaction is not one of those that calls make. -/
def Action.outside : Action → Bool
  | .prepareOperation _ _ _ | .startOperation _ _ _ _ _ _ | .finishOperation _ _ _
  | .suspendExchange _ _ _ _ _ | .sendExchange _ _ _ _ => false
  | .prepareInteraction _ ⟨.approval _, _, _, _, _, _, _⟩ _
  | .prepareInteraction _ ⟨.mcp _ _ _, _, _, _, _, _, _⟩ _ => false
  | .reserve _ (.tool _) _ | .settleReservation (.tool _) _ => false
  | _ => true

/-- What the user attests with a transaction. -/
def Action.attested (s : Store) : Action → List ToolEvent
  | .reconcile _ _ oid request =>
      if request.decision = .confirmNotExecuted then
        (s.operations.get? oid).toList.map (.confirmed oid)
      else []
  | _ => []

namespace GatewayWorld

/-- The calls after one of them has changed. -/
def withCall (w : GatewayWorld) (id : CallId) (c : Option Call) : CallId → Option Call :=
  fun id' => if id' = id then c else w.calls id'

/-- A call after a phase. -/
def afterPhase (c : Call) : Progress → Option Call
  | .next phase => some { c with phase }
  | .done _ | .gone => none

def next (g : Installation) (w : GatewayWorld) : GatewayAction → Option GatewayWorld
  | .transact a =>
      if a.outside = true then
        (w.base.next g.host a).map fun base =>
          { w with base, trace := a.attested w.base.store ++ w.trace }
      else none
  | .enter id ctx key name args registered =>
      if (w.calls id).isSome = true then none
      else (g.enter registered w.base.store ctx key name args w.base.now).toOption.map fun
        | .inl _ => w
        | .inr spec => { w with calls := w.withCall id (some ⟨ctx, key, name, args, spec, .entered⟩) }
  | .turn id input => do
      let c ← w.calls id
      let (progress, store, events) ← (c.advance g w.base.store w.base.now input).toOption
      some { base := { w.base with store }, calls := w.withCall id (afterPhase c progress)
             trace := events ++ w.trace }
  | .leave id => some { w with calls := w.withCall id none }

end GatewayWorld

/-- The system of an installation with the calls of its tool gateway. -/
def gatewaySystem (g : Installation) : System GatewayWorld GatewayAction :=
  .ofNext (fun w => w.base.store = .initial ∧ w.calls = (fun _ => none) ∧ w.trace = [])
    (GatewayWorld.next g)

end MiHarness
