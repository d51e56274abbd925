import MiHarness.Scheduler.Transition

/-!
# Admission, claims and delegation

Runs enter the system by `submit` and `delegate` and start by `claim`.  A claim takes the
branch, adds an attempt with a lease and gives the run the next fencing token; the context it
returns is the authority the worker then presents at every fenced write.
-/

namespace MiHarness

open Library

/-- What `submit` reads of a request and of the snapshot made for it. -/
structure Submission where
  workspaceId : WorkspaceId
  branchId : BranchId
  expectedBranchRevision : Nat
  snapshotId : SnapshotId
  text : String
  /-- `BudgetPolicy.limits()`. -/
  limits : Amount
  /-- `max_wall_seconds`, in milliseconds. -/
  maxWall : Nat

/-- `Scheduler.submit`. -/
def submit (s : Store) (owner : OwnerId) (session : SessionId) (request : Submission)
    (fresh : RunId) (now : Time) : Except HarnessError Store := do
  require (s.maintenance = false)
    { code := .maintenance, message := "服务处于维护状态，暂停新任务", status := 503 }
  let branch ← s.branch request.branchId
  require (branch.sessionId = session)
    { code := .branchScope, message := "分支不属于此会话", status := 404 }
  let s ← s.advanceBranch request.branchId request.expectedBranchRevision
  let row : Run :=
    { ownerId := owner, workspaceId := request.workspaceId, sessionId := session
      branchId := request.branchId, rootRunId := fresh, parentRunId := none, status := .queued
      revision := 1, inputRevision := request.expectedBranchRevision + 1
      snapshotId := request.snapshotId, input := request.text
      deadlineAt := some (now + request.maxWall), createdAt := now, depth := 0 }
  let s ← s.insertRun fresh row
  let ledger ← s.ledger.addAccount fresh request.limits
  .ok ({ s with ledger }.eventState fresh row .runQueued none now)

/-- `Scheduler.context`.  A run that was never claimed has no attempt to name. -/
def context (s : Store) (rid : RunId) (run : Run) : Except HarnessError ExecutionContext := do
  let branch ← s.branch run.branchId
  let attempt ← orThrow run.attemptId
    { code := .valueError, message := "worker_attempt_id: Input should be a valid string" }
  .ok { ownerId := run.ownerId, workspaceId := run.workspaceId, sessionId := run.sessionId
        branchId := run.branchId, runId := rid, rootRunId := run.rootRunId
        parentRunId := run.parentRunId, workerAttemptId := attempt
        fencingToken := run.fencingToken, graphThreadKey := branch.graphThreadKey
        inputRevision := run.inputRevision, configSnapshotId := run.snapshotId
        deadlineAt := run.deadlineAt }

/-- The writes of `claim` for the run it takes. -/
def takeRun (host : Host) (s : Store) (process : ProcessId) (rid : RunId) (run : Run)
    (owner : Option RunId) (fresh : AttemptId) (now : Time) : Except HarnessError Store := do
  let s ← s.setBranchOwner run.branchId owner (some rid)
  let s ← s.addAttempt fresh
    { runId := rid, process, leaseExpiry := now + host.lease, fencingToken := run.fencingToken + 1 }
  transition s rid .running none none
    { attemptId := some fresh, fencingToken := some (run.fencingToken + 1) } now

/-- The loop of `claim` over the queued runs, given the running and cancelling ones. -/
def claimFrom (host : Host) (running : List (RunId × Run)) (process : ProcessId)
    (fresh : AttemptId) (now : Time) :
    List (RunId × Run) → Store → Except HarnessError (Option RunId × Store)
  | [], s => .ok (none, s)
  | (rid, run) :: rest, s => do
      let branch ← s.branch run.branchId
      if branch.activeRunId ≠ none ∧ branch.activeRunId ≠ some rid then
        claimFrom host running process fresh now rest s
      else if run.cancelRequested = true then
        let s ← transition s rid .cancelled none (some "已取消") {} now
        claimFrom host running process fresh now rest s
      else if run.parentRunId.isSome ∧ host.childConcurrency ≤
          (running.filter fun e => e.2.rootRunId = run.rootRunId && e.2.parentRunId.isSome).length then
        claimFrom host running process fresh now rest s
      else
        let s ← takeRun host s process rid run branch.activeRunId fresh now
        .ok (some rid, s)

/-- `Scheduler.claim`, up to the context of the run it returns. -/
def claim (host : Host) (s : Store) (process : ProcessId) (fresh : AttemptId) (now : Time) :
    Except HarnessError (Option RunId × Store) :=
  if s.maintenance = true then .ok (none, s)
  else
    let running := s.runsWith [.running, .cancelling]
    if host.workerSlots ≤ running.length then .ok (none, s)
    else claimFrom host running process fresh now (s.runsWith [.queued]) s

/-- `Scheduler.heartbeat`. -/
def heartbeat (host : Host) (s : Store) (ctx : ExecutionContext) (now : Time) :
    Except HarnessError Store :=
  s.heartbeat ctx (now + host.lease) now

/-- `Scheduler.boundary`. -/
def boundary (s : Store) (ctx : ExecutionContext) (now : Time) : Except HarnessError Unit := do
  s.assertFence ctx now
  require (∀ deadline ∈ ctx.deadlineAt, now < deadline)
    { code := .deadlineExceeded, message := "任务已超过总时限" }

/-! ## Delegation -/

structure DelegateRequest where
  /-- The canonical text of the request. -/
  args : Json
  goal : String
  completionCriteria : String
  capabilities : Option (List String) := none

/-- The identifiers a delegation draws. -/
structure DelegateIds where
  run : RunId
  branch : BranchId
  thread : ThreadKey
  snapshot : SnapshotId

/-- The row of a delegated run. -/
def childRow (ctx : ExecutionContext) (parent : Run) (request : DelegateRequest) (ids : DelegateIds)
    (now : Time) : Run :=
  { ownerId := ctx.ownerId, workspaceId := ctx.workspaceId, sessionId := ctx.sessionId
    branchId := ids.branch, rootRunId := ctx.rootRunId, parentRunId := some ctx.runId
    status := .queued, revision := 1, inputRevision := 1, snapshotId := ids.snapshot
    input := request.goal ++ "\n完成标准：" ++ request.completionCriteria
    deadlineAt := parent.deadlineAt, createdAt := now, depth := parent.depth + 1 }

/-- The writes of `delegate` for a new child. -/
def addChild (host : Host) (s : Store) (ctx : ExecutionContext) (key : OperationKey) (parent : Run)
    (request : DelegateRequest) (ids : DelegateIds) (now : Time) : Except HarnessError Store := do
  let ledger ← s.ledger.reserve ctx.rootRunId (.child key) (Items.single .children 1)
  let s ← { s with ledger }.addBranch ids.branch
    { sessionId := parent.sessionId, graphThreadKey := ids.thread }
  let child := childRow ctx parent request ids now
  let s ← s.insertRun ids.run child
  let s ← s.addDependency key
    { parentId := ctx.runId, childId := ids.run, argsHash := host.contentHash request.args }
  let ledger ← s.ledger.settle (.child key) (some (Amount.single .children 1))
  let s := { s with ledger }.event ctx.runId .childCreated
    (.child ids.run request.goal .queued none) now
  .ok (s.eventState ids.run child .runQueued none now)

/-- `Scheduler.delegate`, given the capabilities of the effective policy of the parent. -/
def delegate (host : Host) (s : Store) (ctx : ExecutionContext) (key : OperationKey)
    (request : DelegateRequest) (allowed : List String) (ids : DelegateIds) (now : Time) :
    Except HarnessError (RunId × Store) := do
  boundary s ctx now
  match s.dependencies.get? key with
  | some saved =>
      require (saved.argsHash = host.contentHash request.args)
        { code := .delegationConflict, message := "同一委派操作的参数发生变化" }
      .ok (saved.childId, s)
  | none =>
      let parent ← s.run ctx.runId
      let root ← s.run ctx.rootRunId
      require (root.cancelRequested = false ∧ parent.cancelRequested = false ∧
          parent.depth < host.maxDepth)
        { code := .delegationLimit, message := "委派已取消或超过深度限制" }
      require (∀ capability ∈ request.capabilities.getD allowed, capability ∈ allowed)
        { code := .childPermission, message := "子任务权限不能超过父任务", status := 403 }
      let s ← addChild host s ctx key parent request ids now
      .ok (ids.run, s)

/-- `Scheduler.prepare_wait`. -/
def prepareWait (s : Store) (ctx : ExecutionContext) (key : OperationId) (children : List RunId)
    (mode : WaitMode) (fresh : WaitId) : Except HarnessError (WaitId × Wait × Store) := do
  require ((∀ child ∈ children, child ∈ s.childIds ctx.runId) ∧ children ≠ [])
    { code := .waitScope, message := "只能等待当前任务已派发的子任务", status := 422 }
  s.addWait ctx.runId key children mode fresh

/-- `Scheduler.steer`. -/
def steer (s : Store) (owner : OwnerId) (rid : RunId) (text : String) (expected : Nat)
    (fresh : CommandId) : Except HarnessError Store := do
  let run ← s.ownedRun rid owner
  require ((run.status = .running ∨ run.status = .queued) ∧ run.cancelRequested = false)
    { code := .steeringUnavailable, message := "当前运行状态不能接收追加指令" }
  let latest := (s.pendingInputCommands rid).foldl (fun m e => max m e.2.inputRevision)
    run.inputRevision
  require (latest = expected) (Store.conflict "输入版本已更新")
  s.addInputCommand rid (latest + 1) text fresh

end MiHarness
