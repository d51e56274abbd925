import MiHarness.Server.Events
import MiHarness.Storage.Records

/-!
# Model selection

A run calls the model of its snapshot until its user selects another one.  `select` records a command
and what the control of the run desires.  A worker takes a `candidate` for each logical call, prepares
the input of the call for it, and binds the call: `bind` looks at the revision of the control again
and refuses when the user has selected in between, and the worker prepares anew.  A logical call that
is bound already keeps its binding, so a crash repeats the call with the model it had.

The functions read the store and return the tables and the events they record.
-/

namespace MiHarness

open Library

abbrev ProfileRef := String
abbrev TaskId := Nat
abbrev InputViewId := Nat

inductive SelectionStatus where
  | initial | requested | superseded | applied | rejected | notApplied
deriving DecidableEq, Repr

/-- `logical_id`, the hash of the run, the revision of its input, the step and the messages of a call.
It stands for these four. -/
structure LogicalCall where
  runId : RunId
  inputRevision : Nat
  step : Nat
  messages : Json
deriving DecidableEq, Repr

/-- A record of `run_model_controls`. -/
structure ModelControl where
  commandId : Option CommandId := none
  controlRevision : Nat
  effectiveRevision : Nat
  desiredProfileRef : ProfileRef
  effectiveProfileRef : ProfileRef
  status : SelectionStatus
  reason : Option String := none
deriving DecidableEq, Repr

/-- A record of `run_model_commands`. -/
structure ModelCommand where
  runId : RunId
  controlRevision : Nat
  profileRef : ProfileRef
  ownerId : OwnerId
  acceptedAt : Time
  status : SelectionStatus := .requested
  logicalCallId : Option LogicalCall := none
  reason : Option String := none
deriving DecidableEq, Repr

/-- A candidate and, with the last three fields, a record of `model_call_bindings`. -/
structure ModelCallBinding where
  logicalCallId : LogicalCall
  runId : RunId
  purpose : String := "agent"
  controlRevision : Nat
  profileRef : ProfileRef
  inputViewId : Option InputViewId := none
  fencingToken : Option Nat := none
  boundAt : Option Time := none
deriving DecidableEq, Repr

/-- A record of `session_preferences`. -/
structure Preferences where
  revision : Nat := 1
  mode : String := "react"
  modelProfileRef : Option ProfileRef
deriving DecidableEq, Repr

structure ModelTables where
  controls : Table RunId ModelControl := .empty
  commands : Table CommandId ModelCommand := .empty
  bindings : Table LogicalCall ModelCallBinding := .empty
  preferences : Records SessionId Preferences := Table.empty

/-- What the selection reads of the settings, the snapshots and the agents, and how a record is
written into an event. -/
structure Models where
  hotModelSelection : Bool
  /-- The profile that the agent of a snapshot names. -/
  profileRef : SnapshotId → ProfileRef
  /-- What `preferences` saves for a session that has none; it refuses the session of another. -/
  original : SessionId → OwnerId → Except HarnessError Preferences
  hasImages : Json → Bool
  encode : ModelControl → Json
  encodeCommand : CommandId → Json

structure SelectionRequest where
  modelProfileRef : ProfileRef
  expectedControlRevision : Nat
  persistForSession : Bool := false
  expectedPreferencesRevision : Option Nat := none

/-- `validate`, of a profile and of whether the messages have images. -/
abbrev Validation := ProfileRef → Bool → Except HarnessError Unit

def ModelControl.initial (ref : ProfileRef) : ModelControl :=
  { controlRevision := 0, effectiveRevision := 0, desiredProfileRef := ref
    effectiveProfileRef := ref, status := .initial }

/-- The control of a run, the initial one where none is saved. -/
def ModelTables.controlOf (m : Models) (t : ModelTables) (rid : RunId) (run : Run) : ModelControl :=
  (t.controls.get? rid).getD (.initial (m.profileRef run.snapshotId))

namespace ModelSelection

/-- A subscript of a record that is not there. -/
def typeError : HarnessError :=
  { code := .typeError, message := "TypeError", status := 500 }

def control (m : Models) (s : Store) (t : ModelTables) (rid : RunId) :
    Except HarnessError ModelControl := do
  let run ← s.run rid
  .ok (t.controlOf m rid run)

def preferences (m : Models) (t : ModelTables) (owner : OwnerId) (session : SessionId) :
    Except HarnessError (Preferences × ModelTables) := do
  let original ← m.original session owner
  match t.preferences.get session with
  | some saved => .ok (saved, t)
  | none => do
      let preferences ← t.preferences.compareAndSet session none original
      .ok (original, { t with preferences })

def updatePreferences (m : Models) (t : ModelTables) (validate : Validation) (owner : OwnerId)
    (session : SessionId) (ref : ProfileRef) (expected : Nat) : Except HarnessError ModelTables := do
  let (old, t) ← preferences m t owner session
  require (old.revision = expected)
    { code := .revisionConflict, message := "会话偏好已更新；保留选择并刷新" }
  validate ref false
  let preferences ← t.preferences.compareAndSet session (some old.revision)
    { old with revision := old.revision + 1, modelProfileRef := some ref }
  .ok { t with preferences }

/-- Put the record of a command again with another status, where a command is given. -/
def putCommand (t : ModelTables) (id : Option CommandId) (change : ModelCommand → ModelCommand) :
    Except HarnessError ModelTables :=
  match id with
  | none => .ok t
  | some id => do
      let command ← orThrow (t.commands.get? id) typeError
      .ok { t with commands := t.commands.put id (change command) }

/-- The command of a control that is still requested, which a new command supersedes. -/
def superseded (old : ModelControl) : Option CommandId :=
  if old.status = .requested then old.commandId else none

/-- `select`, which takes the identifier of the command and the validation as they come. -/
def select (m : Models) (s : Store) (messages : Table MessageId Message) (t : ModelTables)
    (owner : OwnerId) (rid : RunId) (request : SelectionRequest) (validate : Validation)
    (identity : CommandId) (now : Time) : Except HarnessError (ModelTables × List Entry) := do
  require (m.hotModelSelection = true)
    { code := .modelSelectionDisabled, message := "当前启动配置关闭运行中模型切换" }
  let run ← s.ownedRun rid owner
  validate request.modelProfileRef (messages.any fun _ message =>
    message.branchId = run.branchId && m.hasImages message.payload.contentParts)
  let branch ← s.branch run.branchId
  require (run.status ∉ [.completed, .failed, .cancelled, .cancelling] ∧ run.cancelRequested = false)
    { code := .runStopped, message := "运行已结束或正在停止；只可修改后续偏好" }
  require (branch.activeRunId = none ∨ branch.activeRunId = some rid ∨ run.status = .queued)
    { code := .runBranchConflict, message := "指定运行不是当前分支的活动任务" }
  let old ← control m s t rid
  require (old.controlRevision = request.expectedControlRevision)
    { code := .revisionConflict, message := "模型选择已更新，请刷新后重试" }
  let t ← if request.persistForSession = true then do
      let expected ← orThrow request.expectedPreferencesRevision
        { code := .preferencesRevisionRequired, message := "同时保存会话偏好需要版本", status := 422 }
      updatePreferences m t validate owner run.sessionId request.modelProfileRef expected
    else .ok t
  let t ← putCommand t (superseded old) fun c => { c with status := .superseded }
  let told := (superseded old).toList.map fun id =>
    Entry.mk rid .modelSelectionSuperseded (.record (m.encodeCommand id)) now
  let revision := old.controlRevision + 1
  let current := { old with
    commandId := some identity, controlRevision := revision
    desiredProfileRef := request.modelProfileRef, status := .requested }
  let t := { t with
    commands := t.commands.put identity
      { runId := rid, controlRevision := revision, profileRef := request.modelProfileRef
        ownerId := owner, acceptedAt := now }
    controls := t.controls.put rid current }
  .ok (t, told ++ [⟨rid, .modelSelectionRequested, .record (m.encode current), now⟩])

def logicalId (ctx : ExecutionContext) (messages : Json) (step : Nat) : LogicalCall :=
  ⟨ctx.runId, ctx.inputRevision, step, messages⟩

/-- What `candidate` reads first: the fence, and the binding that the call may have. -/
def lookup (s : Store) (t : ModelTables) (ctx : ExecutionContext) (call : LogicalCall) (now : Time) :
    Except HarnessError (Option ModelCallBinding) := do
  s.assertFence ctx now
  .ok (t.bindings.get? call)

/-- What `candidate` returns for a call that had no binding. -/
def fromControl (m : Models) (s : Store) (t : ModelTables) (ctx : ExecutionContext)
    (call : LogicalCall) : Except HarnessError ModelCallBinding := do
  let control ← control m s t ctx.runId
  .ok { logicalCallId := call, runId := ctx.runId, controlRevision := control.controlRevision
        profileRef := control.desiredProfileRef }

def bind (m : Models) (s : Store) (t : ModelTables) (ctx : ExecutionContext)
    (candidate : ModelCallBinding) (view : InputViewId) (now : Time) :
    Except HarnessError (Option ModelCallBinding × ModelTables × List Entry) := do
  s.assertFence ctx now
  match t.bindings.get? candidate.logicalCallId with
  | some old => .ok (some old, t, [])
  | none => do
      let control ← control m s t ctx.runId
      if candidate.controlRevision ≠ control.controlRevision then .ok (none, t, []) else do
        let binding := { candidate with
          inputViewId := some view, fencingToken := some ctx.fencingToken, boundAt := some now }
        let bindings ← orThrow (t.bindings.insert? candidate.logicalCallId binding)
          (Store.conflict "记录已更新，请刷新后重试")
        let current := { control with
          effectiveProfileRef := candidate.profileRef
          effectiveRevision := candidate.controlRevision, status := .applied }
        let t := { t with bindings, controls := t.controls.put ctx.runId current }
        let t ← putCommand t control.commandId fun c =>
          { c with status := .applied, logicalCallId := some candidate.logicalCallId }
        .ok (some binding, t, [⟨ctx.runId, .modelSelectionApplied, .record (m.encode current), now⟩])

def reject (m : Models) (s : Store) (t : ModelTables) (ctx : ExecutionContext)
    (candidate : ModelCallBinding) (code : String) (now : Time) :
    Except HarnessError (ModelTables × List Entry) := do
  s.assertFence ctx now
  let control ← control m s t ctx.runId
  if candidate.controlRevision ≠ control.controlRevision then .ok (t, []) else do
    let current := { control with status := .rejected, reason := some code }
    let t ← putCommand { t with controls := t.controls.put ctx.runId current } control.commandId
      fun c => { c with status := .rejected, reason := some code }
    .ok (t, [⟨ctx.runId, .modelSelectionRejected, .record (m.encode current), now⟩])

def finish (m : Models) (s : Store) (t : ModelTables) (rid : RunId) (now : Time) :
    Except HarnessError (ModelTables × List Entry) := do
  let control ← control m s t rid
  if control.status = .requested then do
    let current := { control with status := .notApplied }
    let id ← orThrow control.commandId typeError
    let t ← putCommand { t with controls := t.controls.put rid current } (some id)
      fun c => { c with status := .notApplied }
    .ok (t, [⟨rid, .modelSelectionNotApplied, .record (m.encode current), now⟩])
  else .ok (t, [])

/-- The hook of the runs that end in one transaction. -/
def finishAll (m : Models) (s : Store) (now : Time) :
    ModelTables → List RunId → Except HarnessError (ModelTables × List Entry)
  | t, [] => .ok (t, [])
  | t, rid :: rest => do
      let (t, finished) ← finish m s t rid now
      let (t, more) ← finishAll m s now t rest
      .ok (t, finished ++ more)

end ModelSelection

/-! ## Runs -/

/-- Where a turn of the loop of `awrap_model_call` stands. -/
inductive Preparation where
  | begun
  /-- The call had no binding. -/
  | unbound
  | prepared (candidate : ModelCallBinding)
deriving DecidableEq, Repr

/-- A model call of a worker that is not bound yet. -/
structure ModelTask where
  ctx : ExecutionContext
  logicalCallId : LogicalCall
  /-- The turns that ended in a selection in between. -/
  preparation : Nat := 0
  state : Preparation := .begun
deriving DecidableEq, Repr

structure SelectionWorld where
  chat : ChatWorld
  tables : ModelTables := {}
  tasks : Table TaskId ModelTask := .empty

namespace SelectionWorld

def store (w : SelectionWorld) : Store := w.chat.base.store

def now (w : SelectionWorld) : Time := w.chat.base.now

/-- The world after a transaction of the selection. -/
def commit (w : SelectionWorld) (tables : ModelTables) (log : List Entry) : SelectionWorld :=
  { w with
    tables
    chat := { w.chat with base := { w.chat.base with store := { w.store with
      events := log.foldl EventLog.record w.store.events } } } }

def setTask (w : SelectionWorld) (id : TaskId) (task : ModelTask) : SelectionWorld :=
  { w with tasks := w.tasks.put id task }

def endTask (w : SelectionWorld) (id : TaskId) : SelectionWorld :=
  { w with tasks := w.tasks.erase id }

end SelectionWorld

inductive SelectionAction where
  /-- A transaction of the others, with the hook of the runs that end in it. -/
  | chat (a : ChatAction)
  | select (owner : OwnerId) (rid : RunId) (request : SelectionRequest) (validate : Validation)
      (identity : CommandId)
  | call (id : TaskId) (ctx : ExecutionContext) (messages : Json) (step : Nat)
  | lookup (id : TaskId)
  | candidate (id : TaskId)
  | bind (id : TaskId) (view : InputViewId)
  | reject (id : TaskId) (code : String)
  /-- The worker dies, or the call is given up. -/
  | crash (id : TaskId)

/-- The events that only the selection records. -/
def EventType.ofSelection : EventType → Bool
  | .modelSelectionRequested | .modelSelectionSuperseded | .modelSelectionApplied => true
  | .modelSelectionRejected | .modelSelectionNotApplied => true
  | _ => false

/-- An event of the selection that is noted outside it. -/
def ChatAction.selects : ChatAction → Bool
  | .note _ type _ => type.ofSelection
  | _ => false

def ChatAction.log : ChatAction → List Entry
  | .base _ log => log
  | _ => []

/-- The run has ended. -/
def Store.Ended (s : Store) (rid : RunId) : Prop :=
  ∃ run, s.runs.get? rid = some run ∧ run.status.terminal = true

open ModelSelection in
def SelectionWorld.Step (host : Host) (m : Models) (w : SelectionWorld) :
    SelectionAction → SelectionWorld → Prop
  | .chat a, w' => a.selects = false ∧ ∃ chat order tables finished,
      w.chat.Step host a chat ∧ order.Nodup ∧
      (∀ rid, rid ∈ order ↔ chat.base.store.Ended rid ∧ ¬w.store.Ended rid) ∧
      finishAll m chat.base.store w.now w.tables order = .ok (tables, finished) ∧
      a.log.filter (fun e => e.type = .modelSelectionNotApplied) = finished ∧
      w' = { w with chat, tables }
  | .select owner rid request validate identity, w' => w.tables.commands.get? identity = none ∧
      ∃ tables log, select m w.store w.chat.messages w.tables owner rid request validate identity
        w.now = .ok (tables, log) ∧ w' = w.commit tables log
  | .call id ctx messages step, w' => w.tasks.get? id = none ∧
      w' = w.setTask id { ctx, logicalCallId := logicalId ctx messages step }
  | .lookup id, w' => ∃ task, w.tasks.get? id = some task ∧ task.state = .begun ∧
      task.preparation < 8 ∧ ∃ binding,
        lookup w.store w.tables task.ctx task.logicalCallId w.now = .ok binding ∧
        w' = w.setTask id { task with state := binding.elim .unbound .prepared }
  | .candidate id, w' => ∃ task, w.tasks.get? id = some task ∧ task.state = .unbound ∧
      ∃ candidate, fromControl m w.store w.tables task.ctx task.logicalCallId = .ok candidate ∧
        w' = w.setTask id { task with state := .prepared candidate }
  | .bind id view, w' => ∃ task candidate, w.tasks.get? id = some task ∧
      task.state = .prepared candidate ∧ ∃ bound tables log,
        bind m w.store w.tables task.ctx candidate view w.now = .ok (bound, tables, log) ∧
        w' = if bound.isSome then (w.commit tables log).endTask id else
          (w.commit tables log).setTask id
            { task with state := .begun, preparation := task.preparation + 1 }
  | .reject id code, w' => ∃ task candidate, w.tasks.get? id = some task ∧
      task.state = .prepared candidate ∧ ∃ tables log,
        reject m w.store w.tables task.ctx candidate code w.now = .ok (tables, log) ∧
        w' = (w.commit tables log).endTask id
  | .crash id, w' => w' = w.endTask id

def selectionSystem (host : Host) (m : Models) : System SelectionWorld SelectionAction where
  init w := (chatSystem host).init w.chat ∧ w.tables = {} ∧ w.tasks = .empty
  step := SelectionWorld.Step host m

end MiHarness
