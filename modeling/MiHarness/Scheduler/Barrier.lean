import MiHarness.Scheduler.Claim

/-!
# Waits and their barriers

A run that suspends records the interrupts it waits for in `required_interrupts`.  Three
kinds of source resolve them: interactions with the user, waits for children, and operations
under review.  `resolutions` collects what is resolved, and `wake` returns a waiting run to
the queue once everything it requires is there.  `settle` is the end of an attempt.
-/

namespace MiHarness

open Library

/-- `Scheduler.resolutions`.  A later entry of the dictionary overrides an earlier one, so
the last source comes first. -/
def resolutions (s : Store) (rid : RunId) : List (InterruptId × Resolution) :=
  s.reviewResolutions rid ++
    ((s.waits.select fun _ w => w.parentId = rid).filterMap fun e =>
      match e.2.interruptId, e.2.resolution with
      | some id, some r => some (id, r)
      | _, _ => none) ++
    ((s.interactionsOf rid).filterMap fun e =>
      match e.2.interruptId, e.2.resolution with
      | some id, some r => some (id, r)
      | _, _ => none)

/-- Every interrupt the run requires has a resolution. -/
def ready (s : Store) (rid : RunId) (run : Run) : Bool :=
  run.requiredInterrupts.all fun id => (resolutions s rid).any fun e => e.1 = id

/-- `Scheduler._wake`. -/
def wake (s : Store) (rid : RunId) (now : Time) : Except HarnessError Store := do
  let run ← s.run rid
  if (run.status = .waitingUser ∨ run.status = .waitingChildren) ∧ run.cancelRequested = false ∧
      ready s rid run = true then
    transition s rid .queued none (some "当前 checkpoint 的全部恢复条件已满足") {} now
  else .ok s

/-- `all` or `any` of the flags, by the mode of a wait. -/
def WaitMode.met : WaitMode → List Bool → Bool
  | .all, flags => flags.all id
  | .any, flags => flags.any id

/-- The body of the loop of `_refresh_waits`. -/
def refreshWait (s : Store) (wid : WaitId) (wait : Wait) (now : Time) :
    Except HarnessError Store := do
  if wait.checkpointRef = none ∨ wait.resolution.isSome then .ok s
  else
    let children ← wait.childIds.mapM fun id => do
      let row ← s.run id
      .ok (id, row)
    if wait.mode.met (children.map fun c => c.2.status.terminal) = true then
      let s ← s.updateWait wid wait.revision wait.interruptId wait.checkpointRef
        (some { interruptId := wait.interruptId, outcome := .answered, reason := "children_ready"
                children := children.map fun c => (c.1, c.2.status) })
      wake s wait.parentId now
    else .ok s

/-- `Scheduler._refresh_waits`, for one parent or for all. -/
def refreshWaitsOf (s : Store) (parent : Option RunId) (now : Time) : Except HarnessError Store :=
  (s.waits.select fun _ w => parent.all (w.parentId = ·)).foldlM
    (fun s e => refreshWait s e.1 e.2 now) s

/-- `Scheduler.refresh_waits`.  At most 200 notices are read at a time. -/
def refreshWaits (s : Store) (now : Time) : Except HarnessError Store := do
  let s ← refreshWaitsOf s none now
  ((s.outbox.select fun _ n => !n.delivered).take 200).foldlM
    (fun s e => do
      let s ← refreshWaitsOf s (some e.2.parentRunId) now
      .ok { s with outbox := s.outbox.modify e.1 fun n => { n with delivered := true } }) s

/-! ## Answers -/

structure RespondRequest where
  expectedRevision : Nat
  response : Response
  bindingRef : Option ApprovalBinding := none

/-- `Scheduler.respond`. -/
def respond (host : Host) (s : Store) (owner : OwnerId) (iid : InteractionId)
    (request : RespondRequest) (now : Time) : Except HarnessError Store := do
  let interaction ← s.interaction iid
  let run ← s.ownedRun interaction.runId owner
  require (interaction.revision = request.expectedRevision) (Store.conflict "交互已发生变化")
  require (interaction.status = .open ∧ run.status = .waitingUser)
    { code := .interactionClosed, message := "此交互不接受答复" }
  require (∀ expiry ∈ interaction.expiresAt, now < expiry)
    { code := .interactionExpired, message := "交互已过期", status := 410 }
  require (host.validates interaction.responseSchema request.response.value = true)
    { code := .responseSchema, message := "答复不符合交互要求", status := 422 }
  require (interaction.kind = .approval → request.bindingRef = interaction.bindingRef)
    { code := .bindingMismatch, message := "审批参数绑定不匹配" }
  let s ← s.updateInteraction iid interaction.revision
    { status := some .resolved
      resolution := some { interruptId := interaction.interruptId, outcome := .answered
                           response := some request.response, reason := "user_response" } }
  let s := s.event interaction.runId .interactionResolved
    (.resolved iid (interaction.revision + 1) .answered) now
  wake s interaction.runId now

/-- The body of the inner loop of `expire_interactions`. -/
def expireInteraction (s : Store) (iid : InteractionId) (interaction : Interaction) (now : Time) :
    Except HarnessError Store :=
  if interaction.status = .open ∧ ∃ expiry ∈ interaction.expiresAt, expiry ≤ now then do
    let s ← s.updateInteraction iid interaction.revision
      { status := some .expired
        resolution := some { interruptId := interaction.interruptId, outcome := .expired
                             reason := "interaction_deadline" } }
    .ok (s.event interaction.runId .interactionResolved
      (.resolved iid (interaction.revision + 1) .expired) now)
  else .ok s

/-- `Scheduler.expire_interactions`. -/
def expireInteractions (s : Store) (now : Time) : Except HarnessError Store :=
  (s.runsWith [.waitingUser, .waitingChildren]).foldlM (fun s e => do
    let s ← (s.interactionsOf e.1).foldlM (fun s i => expireInteraction s i.1 i.2 now) s
    wake s e.1 now) s

/-! ## The end of an attempt -/

/-- The body of the loop of `settle` over the interrupts of a waiting outcome. -/
def bindInterrupt (s : Store) (ctx : ExecutionContext) (checkpoint : CheckpointRef)
    (ref : InterruptRef) (now : Time) : Except HarnessError Store :=
  match ref.interruptId.request with
  | .user iid => do
      let interaction ← s.interaction iid
      require (interaction.runId = ctx.runId ∧ interaction.inputRevision = ctx.inputRevision)
        { code := .interruptMismatch, message := "交互不属于当前运行版本" }
      if interaction.status = .pendingBinding then
        let s ← s.updateInteraction iid interaction.revision
          { interruptId := some ref.interruptId, checkpointRef := some checkpoint
            status := some .open }
        .ok (s.event ctx.runId .interactionRequired
          (.required iid (interaction.revision + 1) interaction.kind interaction.prompt
            interaction.responseSchema interaction.bindingRef interaction.expiresAt) now)
      else .ok s
  | .children wid => do
      let wait ← s.wait wid
      s.updateWait wid wait.revision (some ref.interruptId) (some checkpoint) wait.resolution
  | .review oid => do
      let operation ← s.operation oid
      if operation.state = .running then
        s.updateOperation oid operation.revision { state := some .unknown } none now
      else .ok s

/-- The status `settle` gives a waiting run. -/
def waitingStatus (refs : List InterruptRef) : RunStatus :=
  if refs.any fun ref => ref.kind = .review then .needsReview
  else if refs.any fun ref => ref.kind = .user then .waitingUser
  else .waitingChildren

/-- The operation has started, its outcome is not known, and the user has not accepted that. -/
def Operation.unresolved (o : Operation) : Bool :=
  (o.state = .running ∨ o.state = .unknown) ∧ o.metadata.unresolvedAccepted = false

/-- Some operation of the run is unresolved. -/
def Store.unresolved (s : Store) (rid : RunId) : Bool :=
  s.operations.any fun _ o => o.runId = rid && o.unresolved

/-- `all(x["status"] in TERMINAL for x in children(run_id))`. -/
def Store.childrenTerminal (s : Store) (rid : RunId) : Bool :=
  (s.children rid).all fun c => c.2.status.terminal

/-- The branch of `settle` for a waiting outcome. -/
def settleWaiting (s : Store) (ctx : ExecutionContext) (outcome : RuntimeOutcome) (now : Time) :
    Except HarnessError Store := do
  let checkpoint ← orThrow outcome.checkpointRef
    { code := .checkpointRequired, message := "等待必须关联持久 checkpoint" }
  let s ← outcome.interruptRefs.foldlM (fun s ref => bindInterrupt s ctx checkpoint ref now) s
  let s ← transition s ctx.runId (waitingStatus outcome.interruptRefs) (some ctx) none
    { requiredInterrupts := some (outcome.interruptRefs.map InterruptRef.interruptId) } now
  let s := s.endAttempt ctx.workerAttemptId "waiting" now
  let s ← refreshWaitsOf s (some ctx.runId) now
  wake s ctx.runId now

/-- The branch of `settle` for a final outcome.  `readable` is `artifacts.path`. -/
def settleFinal (s : Store) (readable : ArtifactId → OwnerId → Bool) (ctx : ExecutionContext)
    (outcome : RuntimeOutcome) (now : Time) : Except HarnessError Store := do
  let notDurable : HarnessError :=
    { code := .finalNotDurable, message := "最终结果缺少持久位置" }
  let _ ← orThrow outcome.checkpointRef notDurable
  let result ← orThrow outcome.resultRef notDurable
  require (readable result ctx.ownerId = true) (Store.notFound "产物不存在")
  require (s.childrenTerminal ctx.runId = true)
    { code := .childrenUnsettled, message := "子任务尚未结算，父任务不能完成" }
  transition s ctx.runId .completed (some ctx) none { resultRef := some result } now

/-- The error of an outcome that carries none. -/
def runtimeStopped : ErrorEnvelope := { code := .runtimeStopped, message := "运行内核已停止" }

def OutcomeKind.label : OutcomeKind → String
  | .final => "final"
  | .waiting => "waiting"
  | .error => "error"
  | .cancelAck => "cancel_ack"

/-- The branch of `settle` for a run that is being cancelled. -/
def settleCancelling (s : Store) (ctx : ExecutionContext) (now : Time) :
    Except HarnessError Store := do
  let s ← if s.unresolved ctx.runId = false ∧ s.childrenTerminal ctx.runId = true then
      transition s ctx.runId .cancelled (some ctx) (some "执行者已退出；已有副作用保留") {} now
    else .ok s
  .ok (s.endAttempt ctx.workerAttemptId "cancel" now)

/-- The branch of `settle` for an outcome that does not wait. -/
def settleEnded (s : Store) (readable : ArtifactId → OwnerId → Bool) (ctx : ExecutionContext)
    (outcome : RuntimeOutcome) (now : Time) : Except HarnessError Store := do
  let s ← if s.unresolved ctx.runId = true then
      transition s ctx.runId .needsReview (some ctx) (some "仍有结果未知的操作") {} now
    else if outcome.kind = .final then settleFinal s readable ctx outcome now
    else
      let error := outcome.error.getD runtimeStopped
      transition s ctx.runId .failed (some ctx) none { error := some error } now
  .ok (s.endAttempt ctx.workerAttemptId outcome.kind.label now)

/-- The checkpoint that `settle` records, if the outcome has one. -/
def recordCheckpoint (s : Store) (ctx : ExecutionContext) (run : Run)
    (checkpoint : Option CheckpointRef) (now : Time) : Except HarnessError Store :=
  match checkpoint with
  | some checkpoint =>
      s.updateRun ctx.runId run.revision { checkpointRef := some checkpoint } (some ctx) now
  | none => .ok s

/-- `Scheduler.settle`. -/
def settle (s : Store) (readable : ArtifactId → OwnerId → Bool) (ctx : ExecutionContext)
    (outcome : RuntimeOutcome) (now : Time) : Except HarnessError Store := do
  require (outcome.runId = ctx.runId ∧ outcome.inputRevision = ctx.inputRevision)
    { code := .outcomeMismatch, message := "运行结果与当前输入版本不对应" }
  s.assertFence ctx now true
  let run ← s.run ctx.runId
  let s ← recordCheckpoint s ctx run outcome.checkpointRef now
  if run.status = .cancelling then settleCancelling s ctx now
  else if outcome.kind = .waiting then settleWaiting s ctx outcome now
  else settleEnded s readable ctx outcome now

end MiHarness
