import MiHarness.Core.Json
import MiHarness.Library.Effects
import MiHarness.Tools.Calls

/-!
# Outcomes of calls to servers

A tool of a server is called by `McpGateway._invoke`, which notes that the request is sent before it
hands it on, and which puts everything that is raised from then on, or before, into an outcome.  The
executor makes the outcome a result of the tool, and the tool gateway puts what the executor raises into
a result of its own.

A call has more than one exchange where the server asks for input: the first is made by `execute`, and
each later one, when the user has answered, by `_resume_protocol`.  The note is of one exchange.
-/

namespace MiHarness

open Library

/-! ## Exceptions -/

/-- What can be raised by an exchange; `value` are the `ValueError`s and the validation errors. -/
inductive PyError where
  | cancelled
  | timeout
  | mcp (code : Int)
  | value (name : String)
  | harness (e : HarnessError)
  | other (name : String)
  | group (errors : List PyError)

mutual

/-- The exceptions in a group, and in the groups in it. -/
def PyError.leaves : PyError → List PyError
  | .group errors => leavesOf errors
  | .cancelled => [.cancelled]
  | .timeout => [.timeout]
  | .mcp code => [.mcp code]
  | .value name => [.value name]
  | .harness e => [.harness e]
  | .other name => [.other name]

def leavesOf : List PyError → List PyError
  | [] => []
  | e :: errors => e.leaves ++ leavesOf errors

end

def PyError.isCancelled : PyError → Bool
  | .cancelled => true
  | _ => false

/-- `except Exception` catches it: no cancellation is in it. -/
def PyError.isException (e : PyError) : Bool := e.leaves.all fun leaf => !leaf.isCancelled

/-- One of the clauses of `_invoke` catches it. -/
def PyError.caught (e : PyError) : Bool := e.isCancelled || e.isException

/-- `type(exc).__name__`. -/
def PyError.className : PyError → String
  | .cancelled => "CancelledError"
  | .timeout => "TimeoutError"
  | .mcp _ => "MCPError"
  | .value name => name
  | .harness _ => "HarnessError"
  | .other name => name
  | .group _ => "ExceptionGroup"

/-- The code of an `MCPError`. -/
def PyError.mcpCode : PyError → Option Int
  | .mcp code => some code
  | _ => none

/-! ## Outcomes -/

inductive McpKind where
  | success | toolError | protocolError | transportError | cancelled | timeout | unknownOutcome
deriving DecidableEq, Repr

def McpKind.label : McpKind → String
  | .success => "success"
  | .toolError => "tool_error"
  | .protocolError => "protocol_error"
  | .transportError => "transport_error"
  | .cancelled => "cancelled"
  | .timeout => "timeout"
  | .unknownOutcome => "unknown_outcome"

/-- A block of the content of a result. -/
structure McpBlock where
  type : String
  text : String := ""

/-- The result of a tool, as the server gives it. -/
structure McpCallResult where
  isError : Bool
  content : List McpBlock
  structuredContent : JsonData

structure McpOutcome where
  kind : McpKind
  serverId : String
  requestSent : Bool
  content : List McpBlock := []
  structuredContent : JsonData := .null
  isError : Bool := false
  errorCode : Option String := none
  cancellationEvidence : Option String := none
  diagnostics : List String

/-- The last clause of `_invoke`, which looks at the exceptions of a group. -/
def mixedOutcome (serverId : String) (diagnostics : List String) (sent : Bool) (e : PyError) :
    McpOutcome :=
  match e.leaves.mapM PyError.mcpCode with
  | some (code :: _) =>
      { kind := .protocolError, serverId, requestSent := sent, errorCode := some (toString code)
        diagnostics }
  | _ =>
      { kind := if sent = true then .unknownOutcome else .transportError, serverId
        requestSent := sent, errorCode := some e.className, diagnostics }

/-- The `except` clauses of `_invoke`, for an exception that one of them catches. -/
def caughtOutcome (serverId : String) (diagnostics : List String) (sent : Bool) (e : PyError) :
    McpOutcome :=
  match e with
  | .cancelled =>
      { kind := .cancelled, serverId, requestSent := sent, diagnostics
        cancellationEvidence := some "local_request_cancelled; remote side effects not rolled back" }
  | .timeout =>
      { kind := if sent = true then .unknownOutcome else .timeout, serverId, requestSent := sent
        errorCode := some "deadline_exceeded", diagnostics }
  | .mcp code =>
      { kind := .protocolError, serverId, requestSent := sent, errorCode := some (toString code)
        diagnostics }
  | .value name =>
      { kind := .protocolError, serverId, requestSent := sent, errorCode := some name, diagnostics }
  | e => mixedOutcome serverId diagnostics sent e

def answeredOutcome (serverId : String) (diagnostics : List String) (sent : Bool)
    (result : McpCallResult) : McpOutcome where
  kind := if result.isError = true then .toolError else .success
  serverId := serverId
  requestSent := sent
  content := result.content
  structuredContent := result.structuredContent
  isError := result.isError
  diagnostics := diagnostics

/-! ## One exchange -/

/-- The calls of an exchange that can raise, in their order. -/
inductive McpPoint where
  | policy | profile | responses | validator | invocationProfile | discover | arguments | connect | callTool
  | disconnect | outcome | suspend | convert | complete
deriving DecidableEq, Repr

def McpPoint.awaits : McpPoint → Bool
  | .policy | .responses | .arguments | .outcome | .suspend | .convert | .complete => false
  | _ => true

/-- What the server answers to one exchange. -/
inductive McpAnswer where
  | result (result : McpCallResult)
  | inputRequired

/-- What an exchange meets outside: what its calls raise, what it finds in the profile, in the catalog and
in the connection, and what the server answers. -/
structure McpHost where
  raises : McpPoint → Option PyError
  /-- What does not await anything is not cancelled. -/
  sync : ∀ point e, point.awaits = false → raises point = some e → e.isException = true
  convertPlain : ∀ e, raises .convert = some e → ∃ name, e = .other name ∨ e = .value name
  serverId : String
  diagnostics : List String
  /-- `profile.allowed_capabilities` has `tools` and `elicitation`. -/
  tools : Bool
  elicitation : Bool
  /-- The protocol of the catalog, and that of the connection, is the modern one. -/
  modernCatalog : Bool
  modernClient : Bool
  schemaCurrent : Bool
  timeLeft : Bool
  /-- The answer to a plain call, and to one that may ask for input. -/
  callAnswer : McpCallResult
  stepAnswer : McpAnswer
  /-- The user has answered, when the exchange is resumed. -/
  userAnswered : Bool
  /-- The wait that the executor returns is still the registered one when the gateway looks. -/
  waitValid : Bool
  /-- `asyncio.wait_for` raises its own cancellation in the place of what the executor returns. -/
  waitCancelled : Bool

/-- The note of an exchange, whether any exchange has been dispatched, and what the server has answered
to the last one that was. -/
structure McpTrace where
  sent : Bool := false
  dispatched : Bool := false
  answer : Option McpAnswer := none

abbrev McpM := EStateM PyError McpTrace

def McpHost.reach (host : McpHost) (point : McpPoint) : McpM Unit := raise (host.raises point)

def McpHost.answerTo (host : McpHost) (continuation : Bool) : McpAnswer :=
  if continuation = true then host.stepAnswer else .result host.callAnswer

/-- The request itself, which is noted before it is dispatched. -/
def McpHost.call (host : McpHost) (continuation : Bool) : McpM McpAnswer := do
  ensure (continuation = true → host.modernClient = true) (.value "ValueError")
  modify fun t => { t with sent := true, dispatched := true, answer := none }
  host.reach .callTool
  modify fun t => { t with answer := some (host.answerTo continuation) }
  return host.answerTo continuation

/-- The body of the `try` of `_invoke`, up to the answer. -/
def McpHost.exchange (host : McpHost) (continuation : Bool) : McpM McpAnswer := do
  host.reach .discover
  ensure (host.schemaCurrent = true) (.value "ValueError")
  host.reach .arguments
  ensure (host.timeLeft = true) .timeout
  host.reach .connect
  let answer ← host.call continuation
  host.reach .disconnect
  return answer

/-- What `_invoke` returns. -/
inductive McpStep where
  | outcome (outcome : McpOutcome)
  | inputRequired

def McpHost.answered (host : McpHost) (answer : McpAnswer) : McpM McpStep := do
  match answer with
  | .inputRequired => return .inputRequired
  | .result result =>
      host.reach .outcome
      return .outcome (answeredOutcome host.serverId host.diagnostics (← get).sent result)

/-- An exception that a clause catches becomes an outcome. -/
def McpHost.caught (host : McpHost) (e : PyError) : McpM McpStep := do
  if e.caught = true then
    return .outcome (caughtOutcome host.serverId host.diagnostics (← get).sent e)
  else throw e

/-- `_invoke`. -/
def McpHost.invoke (host : McpHost) (continuation : Bool) : McpM McpStep := do
  host.reach .validator
  host.reach .invocationProfile
  ensure (host.tools = true) (.other "PermissionError")
  modify fun t => { t with sent := false }
  tryCatch (host.exchange continuation >>= host.answered) host.caught

/-! ## The result of the tool -/

def outcomeStatus (effect : Effect) (outcome : McpOutcome) : ResultStatus :=
  if outcome.requestSent = true ∧ effect ≠ .read ∧
      (outcome.kind = .cancelled ∨ outcome.kind = .protocolError) then .unknown
  else
    match outcome.kind with
    | .success => .succeeded
    | .toolError | .protocolError | .transportError | .timeout => .failed
    | .unknownOutcome => .unknown
    | .cancelled => .cancelled

def McpOutcome.text (outcome : McpOutcome) : List Char :=
  ['\n'].intercalate ((outcome.content.filter (·.type = "text")).map fun block => block.text.toList)

def McpOutcome.data (outcome : McpOutcome) : JsonData :=
  .object [("value", outcome.structuredContent), ("server_id", .string outcome.serverId),
    ("request_sent", .bool outcome.requestSent), ("outcome", .string outcome.kind.label),
    ("diagnostics", .array (outcome.diagnostics.map .string)), ("remote_operation_ref", .null),
    ("cancellation_evidence", (outcome.cancellationEvidence.map JsonData.string).getD .null)]

/-- `outcome_to_tool_result`. -/
def outcomeResult (oid : OperationId) (effect : Effect) (outcome : McpOutcome) : ToolResult where
  operationId := oid
  status := outcomeStatus effect outcome
  summary := if outcome.text = [] then outcome.kind.label else String.ofList (outcome.text.take 2000)
  structuredData := canonicalJson outcome.data
  errorCode := outcome.errorCode.map .server

def inputUnavailable (oid : OperationId) (effect : Effect) : ToolResult where
  operationId := oid
  status := if effect ≠ .read then .unknown else .failed
  summary := "MCP 人工输入无法安全持久化或包含不支持的请求；没有重发原始操作"
  errorCode := some .mcpInputUnavailable

/-- What an executor returns. -/
inductive McpReply where
  | wait
  | result (result : ToolResult)

/-- `DurableMcpExecutor.result`. -/
def McpHost.stepReply (host : McpHost) (effect : Effect) (oid : OperationId) :
    McpStep → McpM McpReply
  | .outcome outcome => do
      host.reach .convert
      return .result (outcomeResult oid effect outcome)
  | .inputRequired =>
      tryCatch (do host.reach .suspend; return .wait) fun e =>
        if e.isException = true then return .result (inputUnavailable oid effect) else throw e

/-- Calls may ask for input. -/
def McpHost.Elicits (host : McpHost) : Bool := host.elicitation && host.modernCatalog

/-- `DurableMcpExecutor.__call__`. -/
def McpHost.start (host : McpHost) (effect : Effect) (oid : OperationId) : McpM McpReply := do
  host.reach .profile
  let step ← host.invoke host.Elicits
  host.stepReply effect oid step

/-- A continuation whose result is known is complete. -/
def McpHost.conclude (host : McpHost) (result : ToolResult) : McpM McpReply := do
  if result.status ≠ .unknown then host.reach .complete
  return .result result

/-- `DurableMcpExecutor.resume_continuation`. -/
def McpHost.resume (host : McpHost) (effect : Effect) (oid : OperationId) : McpM McpReply := do
  host.reach .profile
  ensure (host.elicitation = true) (.other "PermissionError")
  host.reach .responses
  if host.userAnswered = true then
    let step ← host.invoke true
    match ← host.stepReply effect oid step with
    | .wait => return .wait
    | .result result => host.conclude result
  else return .wait

/-! ## The tool gateway -/

/-- What the tool gateway makes of a reply, or of what is raised: a result that it records, or a wait. -/
inductive McpVerdict where
  | recorded (result : ToolResult)
  | waiting

/-- `asyncio.wait_for`. -/
def McpHost.waitFor (host : McpHost) (reply : McpM McpReply) : McpM McpReply :=
  tryFinally reply (ensure (host.waitCancelled = false) .cancelled)

def McpHost.judge (host : McpHost) : McpReply → McpM McpVerdict
  | .wait => do
      ensure (host.waitValid = true) (.harness invalidWait)
      return .waiting
  | .result result => return .recorded result

/-- The part of `execute` that calls the executor. -/
def McpHost.execute (host : McpHost) (spec : ToolSpec) (oid : OperationId) : McpM McpVerdict :=
  tryCatch (host.waitFor (host.start spec.effect oid) >>= host.judge) fun e =>
    match e with
    | .harness e => return .recorded (spec.failedResult oid (.raised e))
    | .cancelled => return .recorded (spec.failedResult oid .cancelled)
    | e => if e.isException = true then return .recorded (spec.failedResult oid .other) else throw e

/-- `_resume_protocol`. -/
def McpHost.resumeProtocol (host : McpHost) (spec : ToolSpec) (oid : OperationId) :
    McpM McpVerdict :=
  tryCatch (do
      host.reach .policy
      let reply ← host.waitFor (host.resume spec.effect oid)
      host.judge reply) fun e =>
    match e with
    | .cancelled => return .recorded (uncertainResult oid .cancelled)
    | e => if e.isException = true then return .recorded (uncertainResult oid .other) else throw e

/-- The later exchanges, while the call waits. -/
def resumeAll (spec : ToolSpec) (oid : OperationId) : List McpHost → McpM McpVerdict
  | [] => return .waiting
  | host :: later => do
      match ← host.resumeProtocol spec oid with
      | .waiting => resumeAll spec oid later
      | .recorded result => return .recorded result

/-- A call of a tool with all its exchanges. -/
def callServer (spec : ToolSpec) (oid : OperationId) (first : McpHost) (later : List McpHost) :
    McpM McpVerdict := do
  match ← first.execute spec oid with
  | .waiting => resumeAll spec oid later
  | .recorded result => return .recorded result

/-! ## One exchange and its trace -/

variable {host : McpHost} {continuation : Bool} {s : McpTrace}

/-- What is raised before the request is sent. -/
def McpHost.refusal (host : McpHost) (continuation : Bool) : Option PyError :=
  (host.raises .discover).or <|
    (if host.schemaCurrent = true then none else some (.value "ValueError")).or <|
    (host.raises .arguments).or <| (if host.timeLeft = true then none else some .timeout).or <|
    (host.raises .connect).or <|
    if continuation = true → host.modernClient = true then none else some (.value "ValueError")

/-- The exchange sends its request. -/
def McpHost.Dispatches (host : McpHost) (continuation : Bool) : Prop :=
  (host.raises .validator = none ∧ host.raises .invocationProfile = none ∧ host.tools = true) ∧
    host.refusal continuation = none

/-- The server asks for input. -/
def McpHost.Asks (host : McpHost) (continuation : Bool) : Prop :=
  host.raises .callTool = none ∧ host.raises .disconnect = none ∧
    host.answerTo continuation = .inputRequired

/-- The trace after the request was sent. -/
structure McpHost.Sends (host : McpHost) (continuation : Bool) (t : McpTrace) : Prop where
  sent : t.sent = true
  dispatched : t.dispatched = true
  answer : t.answer = if (host.raises .callTool).isNone = true then some (host.answerTo continuation)
    else none

/-- No request was sent. -/
structure McpTrace.Quiet (s t : McpTrace) : Prop where
  dispatched : t.dispatched = s.dispatched
  answer : t.answer = s.answer

theorem PyError.caught_of_isException {e : PyError} (h : e.isException = true) :
    e.caught = true := by
  rw [caught, h, Bool.or_true]

theorem McpHost.call_wp (host : McpHost) (continuation : Bool) (s : McpTrace) :
    wp (host.call continuation)
      (fun a t => (continuation = true → host.modernClient = true) ∧ host.Sends continuation t ∧
        a = host.answerTo continuation ∧ host.raises .callTool = none)
      (fun e t => (¬(continuation = true → host.modernClient = true) ∧ e = .value "ValueError" ∧ t = s) ∨
        ((continuation = true → host.modernClient = true) ∧ host.Sends continuation t ∧
          host.raises .callTool ≠ none)) s := by
  rw [call]
  refine wp_ensure_bind (fun legacy => .inl ⟨legacy, rfl, rfl⟩) fun modern => ?_
  rw [wp_bind, wp_modify]
  refine wp_raise_bind (fun e raised => .inr ⟨modern, ⟨rfl, rfl, ?_⟩, ?_⟩) fun called => ?_
  · rw [raised]
    rfl
  · rw [raised]
    exact fun h => by cases h
  · rw [wp_bind, wp_modify]
    refine ⟨modern, ⟨rfl, rfl, ?_⟩, rfl, called⟩
    rw [called]
    rfl

/-- An exchange that is refused before it sends leaves its trace; another one has sent. -/
theorem McpHost.exchange_wp (host : McpHost) (continuation : Bool) (s : McpTrace) :
    wp (host.exchange continuation)
      (fun a t => host.refusal continuation = none ∧ host.Sends continuation t ∧
        a = host.answerTo continuation ∧ host.raises .callTool = none ∧
        host.raises .disconnect = none)
      (fun e t => (host.refusal continuation = some e ∧ t = s) ∨
        (host.refusal continuation = none ∧ host.Sends continuation t ∧
          ¬host.Asks continuation)) s := by
  rw [exchange]
  unfold refusal
  refine wp_raise_bind (fun e raised => .inl ⟨?_, rfl⟩) fun discover => ?_
  · rw [raised]
    rfl
  refine wp_ensure_bind (fun drift => .inl ⟨?_, rfl⟩) fun current => ?_
  · rw [discover, if_neg drift]
    rfl
  refine wp_raise_bind (fun e raised => .inl ⟨?_, rfl⟩) fun arguments => ?_
  · rw [discover, if_pos current, raised]
    rfl
  refine wp_ensure_bind (fun late => .inl ⟨?_, rfl⟩) fun time => ?_
  · rw [discover, if_pos current, arguments, if_neg late]
    rfl
  refine wp_raise_bind (fun e raised => .inl ⟨?_, rfl⟩) fun connect => ?_
  · rw [discover, if_pos current, arguments, if_pos time, raised]
    rfl
  rw [discover, if_pos current, arguments, if_pos time, connect, wp_bind]
  simp only [Option.none_or]
  refine (host.call_wp continuation s).mono ?_ ?_
  · rintro a t ⟨modern, sends, rfl, called⟩
    rw [if_pos modern]
    refine wp_raise_bind (fun e raised => .inr ⟨rfl, sends, fun asks => ?_⟩) fun disconnected => ?_
    · cases raised.symm.trans asks.2.1
    · exact ⟨rfl, sends, rfl, called, disconnected⟩
  · rintro e t (⟨legacy, rfl, rfl⟩ | ⟨modern, sends, raised⟩)
    · rw [if_neg legacy]
      exact .inl ⟨rfl, rfl⟩
    · rw [if_pos modern]
      exact .inr ⟨rfl, sends, fun asks => raised asks.1⟩

/-- The call of the invocation is allowed. -/
def McpHost.Opens (host : McpHost) : Prop :=
  host.raises .validator = none ∧ host.raises .invocationProfile = none ∧ host.tools = true

/-- What `_invoke` returns. -/
inductive McpHost.Stepped (host : McpHost) (continuation : Bool) (s : McpTrace) :
    McpStep → McpTrace → Prop
  | refused (e : PyError) : host.Opens → host.refusal continuation = some e → e.caught = true →
      Stepped host continuation s (.outcome (caughtOutcome host.serverId host.diagnostics false e))
        { s with sent := false }
  | asked (t : McpTrace) : host.Dispatches continuation → host.Sends continuation t →
      host.Asks continuation → Stepped host continuation s .inputRequired t
  | answered (t : McpTrace) (result : McpCallResult) : host.Dispatches continuation →
      host.Sends continuation t → host.raises .callTool = none →
      host.answerTo continuation = .result result →
      Stepped host continuation s
        (.outcome (answeredOutcome host.serverId host.diagnostics true result)) t
  | caught (t : McpTrace) (e : PyError) : host.Dispatches continuation →
      host.Sends continuation t → ¬host.Asks continuation →
      Stepped host continuation s
        (.outcome (caughtOutcome host.serverId host.diagnostics true e)) t

/-- What `_invoke` raises. -/
inductive McpHost.Escaped (host : McpHost) (continuation : Bool) (s : McpTrace) :
    PyError → McpTrace → Prop
  | unopened (e : PyError) : ¬host.Opens → Escaped host continuation s e s
  | refused (e : PyError) : host.refusal continuation = some e → e.caught = false →
      Escaped host continuation s e { s with sent := false }
  | dispatched (t : McpTrace) (e : PyError) : host.Dispatches continuation →
      host.Sends continuation t → ¬host.Asks continuation → e.caught = false →
      Escaped host continuation s e t

theorem McpHost.invoke_wp (host : McpHost) (continuation : Bool) (s : McpTrace) :
    wp (host.invoke continuation) (host.Stepped continuation s) (host.Escaped continuation s) s := by
  rw [invoke]
  refine wp_raise_bind (fun e raised => .unopened e fun opens => ?_) fun validator => ?_
  · cases raised.symm.trans opens.1
  refine wp_raise_bind (fun e raised => .unopened e fun opens => ?_) fun profile => ?_
  · cases raised.symm.trans opens.2.1
  refine wp_ensure_bind (fun disabled => .unopened _ fun opens => disabled opens.2.2) fun tools => ?_
  have opens : host.Opens := ⟨validator, profile, tools⟩
  rw [wp_bind, wp_modify, wp_tryCatch, wp_bind]
  refine (host.exchange_wp continuation { s with sent := false }).mono ?_ ?_
  · rintro answer t ⟨unrefused, sends, rfl, called, disconnected⟩
    have dispatches : host.Dispatches continuation := ⟨opens, unrefused⟩
    cases h : host.answerTo continuation with
    | inputRequired => exact .asked t dispatches sends ⟨called, disconnected, h⟩
    | result result =>
        have plain : ¬host.Asks continuation := fun asks => by cases h.symm.trans asks.2.2
        rw [McpHost.answered]
        refine wp_raise_bind (fun e raised => ?_) fun _ => ?_
        · rw [caught, if_pos (e.caught_of_isException (host.sync _ e rfl raised)), wp_bind, wp_get, sends.sent]
          exact .caught t e dispatches sends plain
        · rw [wp_bind, wp_get, sends.sent]
          exact .answered t result dispatches sends called h
  · intro e t raised
    rw [caught]
    rcases raised with ⟨refused, rfl⟩ | ⟨unrefused, sends, plain⟩
    · cases caught : e.caught with
      | true => exact .refused e opens refused caught
      | false => exact .refused e refused caught
    · cases caught : e.caught with
      | true =>
          rw [if_pos rfl, wp_bind, wp_get, sends.sent]
          exact .caught t e ⟨opens, unrefused⟩ sends plain
      | false => exact .dispatched t e ⟨opens, unrefused⟩ sends plain caught

/-! ## Honest results -/

/-- A result claims of the requests what is so. -/
structure ToolResult.Honest (result : ToolResult) (t : McpTrace) : Prop where
  unsuccessful : result.status = .failed ∨ result.status = .cancelled →
    t.dispatched = false ∨ ∃ r, t.answer = some (.result r) ∧ r.isError = true
  succeeded : result.status = .succeeded → ∃ r, t.answer = some (.result r) ∧ r.isError = false

variable {effect : Effect} {oid : OperationId} {result : ToolResult} {t : McpTrace}

theorem ToolResult.honest_unknown (unknown : result.status = .unknown) : result.Honest t := by
  constructor <;> rw [unknown]
  · rintro (h | h) <;> cases h
  · exact fun h => by cases h

/-- What is caught when the request was sent is not known. -/
theorem outcomeStatus_sent (writes : effect ≠ .read) (serverId : String) (diagnostics : List String)
    (e : PyError) :
    outcomeStatus effect (caughtOutcome serverId diagnostics true e) = .unknown := by
  have unknown : ∀ outcome : McpOutcome, outcome.requestSent = true → outcome.kind = .cancelled ∨
      outcome.kind = .protocolError → outcomeStatus effect outcome = .unknown := by
    intro outcome sent kind
    exact if_pos ⟨sent, writes, kind⟩
  have mixed : ∀ e, outcomeStatus effect (mixedOutcome serverId diagnostics true e) = .unknown := by
    intro e
    rw [mixedOutcome]
    split
    · exact unknown _ rfl (.inr rfl)
    · simp [outcomeStatus]
  cases e with
  | cancelled => exact unknown _ rfl (.inl rfl)
  | timeout => simp [outcomeStatus, caughtOutcome]
  | mcp code => exact unknown _ rfl (.inr rfl)
  | value name => exact unknown _ rfl (.inr rfl)
  | harness e => exact mixed (.harness e)
  | other name => exact mixed (.other name)
  | group errors => exact mixed (.group errors)

/-- What is caught before is taken for a call that has not been made. -/
theorem outcomeStatus_unsent (effect : Effect) (serverId : String) (diagnostics : List String)
    (e : PyError) :
    outcomeStatus effect (caughtOutcome serverId diagnostics false e) = .failed ∨
      outcomeStatus effect (caughtOutcome serverId diagnostics false e) = .cancelled := by
  have mixed : ∀ e, outcomeStatus effect (mixedOutcome serverId diagnostics false e) = .failed := by
    intro e
    rw [mixedOutcome]
    split <;> simp [outcomeStatus]
  cases e with
  | cancelled => exact .inr (by simp [outcomeStatus, caughtOutcome])
  | timeout => exact .inl (by simp [outcomeStatus, caughtOutcome])
  | mcp code => exact .inl (by simp [outcomeStatus, caughtOutcome])
  | value name => exact .inl (by simp [outcomeStatus, caughtOutcome])
  | harness e => exact .inl (mixed (.harness e))
  | other name => exact .inl (mixed (.other name))
  | group errors => exact .inl (mixed (.group errors))

theorem McpHost.Sends.answered (sends : host.Sends continuation t)
    (called : host.raises .callTool = none) : t.answer = some (host.answerTo continuation) := by
  rw [sends.answer, called]
  rfl

/-- A result that the server has given is reported as it is. -/
theorem McpHost.Sends.honest (sends : host.Sends continuation t)
    (called : host.raises .callTool = none) {r : McpCallResult}
    (answer : host.answerTo continuation = .result r) :
    (outcomeResult oid effect (answeredOutcome host.serverId host.diagnostics true r)).Honest t := by
  have given : t.answer = some (.result r) := (sends.answered called).trans (congrArg some answer)
  cases error : r.isError with
  | true =>
      refine ⟨fun _ => .inr ⟨r, given, error⟩, fun h => ?_⟩
      simp [outcomeResult, answeredOutcome, outcomeStatus, error] at h
  | false =>
      refine ⟨fun h => ?_, fun _ => ⟨r, given, error⟩⟩
      simp [outcomeResult, answeredOutcome, outcomeStatus, error] at h

/-! ## The reply of an executor -/

/-- The call is given up before the request is sent, with an outcome. -/
def McpHost.Refuses (host : McpHost) (continuation : Bool) : Prop :=
  host.Opens ∧ (∃ e, host.refusal continuation = some e ∧ e.caught = true) ∧
    host.raises .convert = none

/-- Neither a cancellation nor an error of the harness. -/
def PyError.Foreign (e : PyError) : Prop := e ≠ .cancelled ∧ ∀ error, e ≠ .harness error

theorem PyError.foreign_of_uncaught {e : PyError} (h : e.caught = false) : e.Foreign := by
  constructor
  · intro same
    rw [same] at h
    cases h
  · intro error same
    rw [same] at h
    cases h

theorem McpHost.foreign_of_convert {e : PyError} (h : host.raises .convert = some e) :
    e.Foreign := by
  obtain ⟨name, rfl | rfl⟩ := host.convertPlain e h
  · exact ⟨fun h => (by cases h), fun _ h => by cases h⟩
  · exact ⟨fun h => (by cases h), fun _ h => by cases h⟩

theorem McpHost.Refuses.not_dispatches (refuses : host.Refuses continuation) :
    ¬host.Dispatches continuation := by
  obtain ⟨-, ⟨e, refused, -⟩, -⟩ := refuses
  exact fun dispatches => by cases refused.symm.trans dispatches.2

/-- What the executor replies. -/
inductive McpHost.Replied (host : McpHost) (continuation : Bool) (s : McpTrace) :
    McpReply → McpTrace → Prop
  | wait (t : McpTrace) : host.Dispatches continuation → host.Sends continuation t →
      host.Asks continuation → host.raises .suspend = none → Replied host continuation s .wait t
  | sent (t : McpTrace) (result : ToolResult) : host.Dispatches continuation →
      host.Sends continuation t → ¬(host.Asks continuation ∧ host.raises .suspend = none) →
      result.Honest t → Replied host continuation s (.result result) t
  | refused (t : McpTrace) (result : ToolResult) : host.Refuses continuation → s.Quiet t →
      result.status = .failed ∨ result.status = .cancelled →
      Replied host continuation s (.result result) t

/-- What the executor raises. -/
inductive McpHost.Broken (host : McpHost) (continuation : Bool) (s : McpTrace) :
    PyError → McpTrace → Prop
  | unsent (t : McpTrace) (e : PyError) : ¬host.Dispatches continuation →
      ¬host.Refuses continuation → s.Quiet t → Broken host continuation s e t
  | sent (t : McpTrace) (e : PyError) : host.Dispatches continuation →
      host.Sends continuation t → ¬host.Asks continuation → e.Foreign →
      Broken host continuation s e t

theorem McpHost.convert_wp (outcome : McpOutcome) {Q : McpReply → McpTrace → Prop}
    {E : PyError → McpTrace → Prop} (raised : ∀ e, host.raises .convert = some e → E e t)
    (converted : host.raises .convert = none → Q (.result (outcomeResult oid effect outcome)) t) :
    wp (host.stepReply effect oid (.outcome outcome)) Q E t := by
  rw [stepReply]
  exact wp_raise_bind raised converted

theorem McpHost.Stepped.reply_wp {step : McpStep} (stepped : host.Stepped continuation s step t)
    (writes : effect ≠ .read) (oid : OperationId) : wp (host.stepReply effect oid step)
      (host.Replied continuation s) (host.Broken continuation s) t := by
  cases stepped with
  | refused e opens refused caught =>
      have unsent : ¬host.Dispatches continuation := fun dispatches => by
        cases refused.symm.trans dispatches.2
      refine host.convert_wp _ (fun e' raised => ?_) fun converted => ?_
      · refine .unsent _ e' unsent (fun refuses => ?_) ⟨rfl, rfl⟩
        cases raised.symm.trans refuses.2.2
      · exact .refused _ _ ⟨opens, ⟨e, refused, caught⟩, converted⟩ ⟨rfl, rfl⟩
          (outcomeStatus_unsent effect _ _ e)
  | asked _ dispatches sends asks =>
      rw [stepReply, wp_tryCatch]
      refine wp_raise_bind (fun e raised => ?_) fun suspended => ?_
      · rw [if_pos (host.sync _ e rfl raised)]
        refine .sent t _ dispatches sends (fun waits => ?_) (ToolResult.honest_unknown (if_pos writes))
        cases raised.symm.trans waits.2
      · exact .wait t dispatches sends asks suspended
  | answered _ result dispatches sends called answer =>
      have plain : ¬host.Asks continuation := fun asks => by cases answer.symm.trans asks.2.2
      refine host.convert_wp _ (fun e raised => ?_) fun _ => ?_
      · exact .sent t e dispatches sends plain (host.foreign_of_convert raised)
      · exact .sent t _ dispatches sends (fun waits => plain waits.1) (sends.honest called answer)
  | caught _ e dispatches sends plain =>
      refine host.convert_wp _ (fun e raised => ?_) fun _ => ?_
      · exact .sent t e dispatches sends plain (host.foreign_of_convert raised)
      · exact .sent t _ dispatches sends (fun waits => plain waits.1)
          (ToolResult.honest_unknown (outcomeStatus_sent writes _ _ e))

theorem McpHost.reply_wp (host : McpHost) (continuation : Bool) (writes : effect ≠ .read)
    (oid : OperationId) (s : McpTrace) :
    wp (host.invoke continuation >>= host.stepReply effect oid) (host.Replied continuation s)
      (host.Broken continuation s) s := by
  rw [wp_bind]
  refine (host.invoke_wp continuation s).mono (fun step t stepped => ?_) fun e t escaped => ?_
  · exact stepped.reply_wp writes oid
  · cases escaped with
    | unopened _ closed =>
        exact .unsent s e (fun dispatches => closed dispatches.1)
          (fun refuses => closed refuses.1) ⟨rfl, rfl⟩
    | refused _ refused uncaught =>
        refine .unsent _ e (fun dispatches => ?_) (fun refuses => ?_) ⟨rfl, rfl⟩
        · cases refused.symm.trans dispatches.2
        · obtain ⟨-, ⟨e', refused', caught⟩, -⟩ := refuses
          cases refused.symm.trans refused'
          cases uncaught.symm.trans caught
    | dispatched _ _ dispatches sends plain uncaught =>
        exact .sent t e dispatches sends plain (PyError.foreign_of_uncaught uncaught)

/-! ## The first exchange -/

/-- The first exchange sends its request. -/
def McpHost.Called (host : McpHost) : Prop :=
  host.raises .profile = none ∧ host.Dispatches host.Elicits

/-- The executor registers a wait. -/
def McpHost.Waits (host : McpHost) : Prop :=
  host.Called ∧ host.Asks host.Elicits ∧ host.raises .suspend = none

/-- The trace of the first exchange. -/
structure McpHost.Traced (host : McpHost) (t : McpTrace) : Prop where
  called : host.Called → host.Sends host.Elicits t
  uncalled : ¬host.Called → t.dispatched = false

theorem McpHost.traced_called (called : host.Called) (sends : host.Sends host.Elicits t) :
    host.Traced t := ⟨fun _ => sends, fun uncalled => absurd called uncalled⟩

theorem McpHost.traced_uncalled (uncalled : ¬host.Called) (quiet : t.dispatched = false) :
    host.Traced t := ⟨fun called => absurd called uncalled, fun _ => quiet⟩

theorem McpHost.start_wp (host : McpHost) (writes : effect ≠ .read) (oid : OperationId)
    (unsent : s.dispatched = false) : wp (host.start effect oid)
      (fun reply t => host.Traced t ∧ ((reply = .wait ∧ host.Waits) ∨
        ∃ result, reply = .result result ∧ ¬host.Waits ∧ result.Honest t))
      (fun e t => host.Traced t ∧ ¬host.Waits ∧ (host.Called → e.Foreign)) s := by
  rw [start]
  refine wp_raise_bind (fun e raised => ?_) fun profile => ?_
  · have uncalled : ¬host.Called := fun called => by cases raised.symm.trans called.1
    exact ⟨host.traced_uncalled uncalled unsent, fun waits => uncalled waits.1,
      fun called => absurd called uncalled⟩
  refine (host.reply_wp host.Elicits writes oid s).mono (fun reply t replied => ?_) fun e t broken => ?_
  · cases replied with
    | wait _ dispatches sends asks suspended =>
        have called : host.Called := ⟨profile, dispatches⟩
        exact ⟨host.traced_called called sends, .inl ⟨rfl, called, asks, suspended⟩⟩
    | sent _ result dispatches sends settled honest =>
        exact ⟨host.traced_called ⟨profile, dispatches⟩ sends,
          .inr ⟨result, rfl, fun waits => settled waits.2, honest⟩⟩
    | refused _ result refuses quiet status =>
        have uncalled : ¬host.Called := fun called => refuses.not_dispatches called.2
        have none : t.dispatched = false := quiet.dispatched.trans unsent
        refine ⟨host.traced_uncalled uncalled none, .inr ⟨result, rfl, fun waits => uncalled waits.1, ?_⟩⟩
        refine ⟨fun _ => .inl none, fun succeeded => ?_⟩
        rcases status with status | status <;> cases status.symm.trans succeeded
  · cases broken with
    | unsent _ _ undispatched _ quiet =>
        have uncalled : ¬host.Called := fun called => undispatched called.2
        exact ⟨host.traced_uncalled uncalled (quiet.dispatched.trans unsent),
          fun waits => uncalled waits.1, fun called => absurd called uncalled⟩
    | sent _ _ dispatches sends plain foreign =>
        exact ⟨host.traced_called ⟨profile, dispatches⟩ sends, fun waits => plain waits.2.1,
          fun _ => foreign⟩

/-- The server has answered that the tool has failed. -/
def McpHost.Errs (host : McpHost) (continuation : Bool) : Prop :=
  host.raises .callTool = none ∧ ∃ r, host.answerTo continuation = .result r ∧ r.isError = true

/-- The gateway finds the registered wait of a request that was sent to be another one. -/
def McpHost.LosesWait (host : McpHost) : Prop :=
  host.Waits ∧ host.waitCancelled = false ∧ host.waitValid = false

/-- The gateway is cancelled while it waits for a writer of the workspace that has sent its request. -/
def McpHost.LosesCancel (host : McpHost) (effect : Effect) : Prop :=
  effect = .workspaceWrite ∧ host.waitCancelled = true ∧ host.Called ∧ ¬host.Errs host.Elicits

/-- The first exchange leaves the call waiting. -/
def McpHost.Suspends (host : McpHost) : Prop :=
  host.Waits ∧ host.waitCancelled = false ∧ host.waitValid = true

/-- The server has asked for input, and no exchange was sent since. -/
structure McpTrace.Awaits (t : McpTrace) : Prop where
  dispatched : t.dispatched = true
  answer : t.answer = some .inputRequired

theorem McpHost.Sends.awaits (sends : host.Sends continuation t) (asks : host.Asks continuation) :
    t.Awaits :=
  ⟨sends.dispatched, (sends.answered asks.1).trans (congrArg some asks.2.2)⟩

theorem McpTrace.Awaits.dishonest (awaits : t.Awaits)
    (status : result.status = .failed ∨ result.status = .cancelled) : ¬result.Honest t := by
  intro honest
  rcases honest.unsuccessful status with none | ⟨r, answer, -⟩
  · cases none.symm.trans awaits.dispatched
  · cases answer.symm.trans awaits.answer

/-- A call whose request was not sent, or was answered with an error of the tool. -/
theorem McpHost.Traced.errs (traced : host.Traced t) :
    (t.dispatched = false ∨ ∃ r, t.answer = some (.result r) ∧ r.isError = true) ↔
      ¬(host.Called ∧ ¬host.Errs host.Elicits) := by
  by_cases called : host.Called
  · have sends := traced.called called
    rw [and_iff_right called, not_not]
    constructor
    · rintro (quiet | ⟨r, answer, error⟩)
      · cases quiet.symm.trans sends.dispatched
      · rw [sends.answer] at answer
        cases h : host.raises .callTool with
        | none =>
            rw [h] at answer
            exact ⟨h, r, Option.some.inj answer, error⟩
        | some e =>
            rw [h] at answer
            cases answer
    · rintro ⟨answered, r, answer, error⟩
      exact .inr ⟨r, (sends.answered answered).trans (congrArg some answer), error⟩
  · exact iff_of_true (.inl (traced.uncalled called)) fun h => called h.1

theorem ToolSpec.failedResult_not_succeeded (spec : ToolSpec) (oid : OperationId)
    (failure : Failure) : (spec.failedResult oid failure).status ≠ .succeeded := by
  cases failure <;> rw [failedResult] <;> dsimp only <;> split <;> exact fun h => by cases h

/-- What becomes of a call that is cancelled. -/
theorem McpHost.Traced.cancelled (traced : host.Traced t) {spec : ToolSpec}
    (writes : spec.effect ≠ .read) : (spec.failedResult oid .cancelled).Honest t ↔
      ¬(spec.effect = .workspaceWrite ∧ host.Called ∧ ¬host.Errs host.Elicits) := by
  by_cases files : spec.effect = .workspaceWrite
  · have status : (spec.failedResult oid .cancelled).status = .cancelled := by
      rw [ToolSpec.failedResult, files]
      rfl
    rw [and_iff_right files, ← traced.errs]
    refine ⟨fun honest => honest.unsuccessful (.inr status), fun errs => ⟨fun _ => errs, fun h => ?_⟩⟩
    cases status.symm.trans h
  · refine iff_of_true (ToolResult.honest_unknown ?_) fun h => files h.1
    cases effect : spec.effect with
    | read => exact absurd effect writes
    | workspaceWrite => exact absurd effect files
    | externalWrite => exact if_pos (.inl effect)
    | process => exact if_pos (.inr effect)

/-- What the gateway records of the first exchange is honest unless it loses its wait or its
cancellation. -/
def McpHost.Judged (host : McpHost) (spec : ToolSpec) (v : McpVerdict) (t : McpTrace) : Prop :=
  (v = .waiting ∧ host.Suspends ∧ t.Awaits ∧ ¬host.LosesCancel spec.effect) ∨
    ∃ result, v = .recorded result ∧ ¬host.Suspends ∧
      (result.Honest t ↔ ¬(host.LosesWait ∨ host.LosesCancel spec.effect))

theorem McpHost.execute_wp (host : McpHost) {spec : ToolSpec} (writes : spec.effect ≠ .read)
    (oid : OperationId) (unsent : s.dispatched = false) :
    wp (host.execute spec oid) (host.Judged spec)
      (fun _ _ => ¬host.Suspends ∧ ¬(host.LosesWait ∨ host.LosesCancel spec.effect)) s := by
  rw [execute, wp_tryCatch, wp_bind, waitFor, wp_finally]
  have cancelled : ∀ t, host.Traced t → host.waitCancelled = true →
      host.Judged spec (.recorded (spec.failedResult oid .cancelled)) t := by
    intro t traced cancelled
    refine .inr ⟨_, rfl, fun suspends => ?_, (traced.cancelled writes).trans (not_congr ?_)⟩
    · cases cancelled.symm.trans suspends.2.1
    · constructor
      · exact fun h => .inr ⟨h.1, cancelled, h.2⟩
      · rintro (h | h)
        · cases cancelled.symm.trans h.2.1
        · exact ⟨h.1, h.2.2⟩
  have kept : host.waitCancelled = false → ¬host.LosesCancel spec.effect := by
    exact fun kept h => by cases kept.symm.trans h.2.1
  refine (host.start_wp writes oid unsent).mono ?_ ?_
  · rintro reply t ⟨traced, replied⟩
    refine wp_ensure (fun late => ?_) fun time => ?_
    · exact cancelled t traced (Bool.eq_true_of_not_eq_false late)
    rcases replied with ⟨rfl, waits⟩ | ⟨result, rfl, settled, honest⟩
    · have awaits := (traced.called waits.1).awaits waits.2.1
      refine wp_ensure_bind (fun lost => ?_) fun valid => ?_
      · have invalid : host.waitValid = false := Bool.eq_false_iff.mpr lost
        refine .inr ⟨_, rfl, fun suspends => lost suspends.2.2, iff_of_false ?_ ?_⟩
        · exact awaits.dishonest (.inl rfl)
        · exact fun h => h (.inl ⟨waits, time, invalid⟩)
      · exact .inl ⟨rfl, ⟨waits, time, valid⟩, awaits, kept time⟩
    · refine .inr ⟨result, rfl, fun suspends => settled suspends.1, iff_of_true honest ?_⟩
      rintro (lost | lost)
      · exact settled lost.1
      · exact kept time lost
  · rintro e t ⟨traced, settled, foreign⟩
    refine wp_ensure (fun late => ?_) fun time => ?_
    · exact cancelled t traced (Bool.eq_true_of_not_eq_false late)
    have sound : ¬(host.LosesWait ∨ host.LosesCancel spec.effect) := by
      rintro (lost | lost)
      · exact settled lost.1
      · exact kept time lost
    have stays : ¬host.Suspends := fun suspends => settled suspends.1
    have recorded : ∀ result : ToolResult, result.Honest t →
        host.Judged spec (.recorded result) t := fun result honest =>
      .inr ⟨result, rfl, stays, iff_of_true honest sound⟩
    have other : ∀ e : PyError, wp (if e.isException = true then
        (return .recorded (spec.failedResult oid .other) : McpM McpVerdict) else throw e)
        (host.Judged spec)
        (fun _ _ => ¬host.Suspends ∧ ¬(host.LosesWait ∨ host.LosesCancel spec.effect)) t := by
      intro e
      split
      · exact recorded _ (ToolResult.honest_unknown (if_pos writes))
      · exact ⟨stays, sound⟩
    cases e with
    | harness error =>
        have uncalled : ¬host.Called := fun called => (foreign called).2 error rfl
        refine recorded _ ⟨fun _ => .inl (traced.uncalled uncalled), fun succeeded => ?_⟩
        exact absurd succeeded (spec.failedResult_not_succeeded oid (.raised error))
    | cancelled =>
        have uncalled : ¬host.Called := fun called => (foreign called).1 rfl
        exact recorded _ ((traced.cancelled writes).mpr fun h => uncalled h.2.1)
    | timeout => exact other .timeout
    | mcp code => exact other (.mcp code)
    | value name => exact other (.value name)
    | other name => exact other (.other name)
    | group errors => exact other (.group errors)

/-! ## The later exchanges -/

/-- The answers of the user can be read, if there are any. -/
def McpHost.Resumes (host : McpHost) : Prop :=
  host.raises .profile = none ∧ host.elicitation = true ∧ host.raises .responses = none

/-- The user has not answered, or the server asks again. -/
def McpHost.AsksAgain (host : McpHost) : Prop :=
  host.Resumes ∧ (host.userAnswered = true →
    host.Dispatches true ∧ host.Asks true ∧ host.raises .suspend = none)

/-- The user has answered, and the call is given up before the request is sent again. -/
def McpHost.GivesUp (host : McpHost) : Prop :=
  host.Resumes ∧ host.userAnswered = true ∧ host.Refuses true ∧ host.raises .complete = none

theorem McpHost.AsksAgain.not_givesUp (asks : host.AsksAgain) : ¬host.GivesUp := by
  rintro ⟨-, answered, refuses, -⟩
  exact refuses.not_dispatches (asks.2 answered).1

theorem McpHost.conclude_wp (host : McpHost) (result : ToolResult) (t : McpTrace) :
    wp (host.conclude result)
      (fun reply u => reply = .result result ∧ u = t ∧
        (result.status = .unknown ∨ host.raises .complete = none))
      (fun e _ => result.status ≠ .unknown ∧ host.raises .complete = some e) t := by
  rw [conclude]
  split
  case isTrue known =>
    exact wp_raise_bind (fun e raised => ⟨known, raised⟩) fun completed => ⟨rfl, rfl, .inr completed⟩
  case isFalse unknown => exact ⟨rfl, rfl, .inl (not_not.mp unknown)⟩

theorem McpHost.resume_wp (host : McpHost) (writes : effect ≠ .read) (oid : OperationId)
    (awaits : s.Awaits) : wp (host.resume effect oid)
      (fun reply t => (reply = .wait ∧ host.AsksAgain ∧ t.Awaits) ∨
        ∃ result, reply = .result result ∧ ¬host.AsksAgain ∧ (result.Honest t ↔ ¬host.GivesUp))
      (fun _ _ => ¬host.AsksAgain ∧ ¬host.GivesUp) s := by
  rw [resume]
  have closed : ¬host.Resumes → ¬host.AsksAgain ∧ ¬host.GivesUp :=
    fun closed => ⟨fun h => closed h.1, fun h => closed h.1⟩
  refine wp_raise_bind (fun e raised => closed fun h => ?_) fun profile => ?_
  · cases raised.symm.trans h.1
  refine wp_ensure_bind (fun revoked => closed fun h => revoked h.2.1) fun elicitation => ?_
  refine wp_raise_bind (fun e raised => closed fun h => ?_) fun responses => ?_
  · cases raised.symm.trans h.2.2
  have resumes : host.Resumes := ⟨profile, elicitation, responses⟩
  split
  case isFalse unanswered =>
    exact .inl ⟨rfl, ⟨resumes, fun answered => absurd answered unanswered⟩, awaits⟩
  case isTrue answered =>
    rw [← bind_assoc, wp_bind]
    refine (host.reply_wp true writes oid s).mono (fun reply t replied => ?_) fun e t broken => ?_
    · cases replied with
      | wait _ dispatches sends asks suspended =>
          exact .inl ⟨rfl, ⟨resumes, fun _ => ⟨dispatches, asks, suspended⟩⟩, sends.awaits asks⟩
      | sent _ result dispatches sends settled honest =>
          have quiet : ¬host.AsksAgain := fun h => settled (h.2 answered).2
          have kept : ¬host.GivesUp := fun h => h.2.2.1.not_dispatches dispatches
          refine (host.conclude_wp result t).mono ?_ fun _ _ _ => ⟨quiet, kept⟩
          rintro _ u ⟨rfl, rfl, -⟩
          exact .inr ⟨result, rfl, quiet, iff_of_true honest kept⟩
      | refused _ result refuses silent status =>
          have quiet : ¬host.AsksAgain := fun h => refuses.not_dispatches (h.2 answered).1
          refine (host.conclude_wp result t).mono ?_ fun e _ raised => ⟨quiet, fun h => ?_⟩
          · rintro _ u ⟨rfl, rfl, completed⟩
            have waiting : u.Awaits :=
              ⟨silent.dispatched.trans awaits.dispatched, silent.answer.trans awaits.answer⟩
            refine .inr ⟨result, rfl, quiet, iff_of_false (waiting.dishonest status) fun h => h ?_⟩
            refine ⟨resumes, answered, refuses, completed.resolve_left fun unknown => ?_⟩
            rcases status with status | status <;> cases status.symm.trans unknown
          · cases raised.2.symm.trans h.2.2.2
    · cases broken with
      | unsent _ _ undispatched unrefused _ =>
          exact ⟨fun h => undispatched (h.2 answered).1, fun h => unrefused h.2.2.1⟩
      | sent _ _ dispatches _ plain _ =>
          exact ⟨fun h => plain (h.2 answered).2.1, fun h => h.2.2.1.not_dispatches dispatches⟩

/-! ## A whole call -/

/-- The user has answered, and the gateway records a call that is given up before the request is sent
again. -/
def McpHost.EndsEarly (host : McpHost) : Prop :=
  host.raises .policy = none ∧ host.GivesUp ∧ host.waitCancelled = false

/-- The call waits again. -/
def McpHost.Rewaits (host : McpHost) : Prop :=
  host.raises .policy = none ∧ host.AsksAgain ∧ host.waitCancelled = false ∧ host.waitValid = true

theorem McpHost.Rewaits.not_endsEarly (rewaits : host.Rewaits) : ¬host.EndsEarly :=
  fun early => rewaits.2.1.not_givesUp early.2.1

/-- What the gateway records of a later exchange is honest unless the call ends early. -/
theorem McpHost.resumeProtocol_wp (host : McpHost) {spec : ToolSpec} (writes : spec.effect ≠ .read)
    (oid : OperationId) (awaits : s.Awaits) : wp (host.resumeProtocol spec oid)
      (fun v t => (v = .waiting ∧ host.Rewaits ∧ t.Awaits) ∨
        ∃ result, v = .recorded result ∧ ¬host.Rewaits ∧ (result.Honest t ↔ ¬host.EndsEarly))
      (fun _ _ => ¬host.Rewaits ∧ ¬host.EndsEarly) s := by
  have handled : ∀ e : PyError, ∀ t, ¬host.Rewaits → ¬host.EndsEarly → wp
      (match e with
        | .cancelled => return .recorded (uncertainResult oid .cancelled)
        | e => if e.isException = true then return .recorded (uncertainResult oid .other) else throw e :
          McpM McpVerdict)
      (fun v t => (v = .waiting ∧ host.Rewaits ∧ t.Awaits) ∨
        ∃ result, v = .recorded result ∧ ¬host.Rewaits ∧ (result.Honest t ↔ ¬host.EndsEarly))
      (fun _ _ => ¬host.Rewaits ∧ ¬host.EndsEarly) t := by
    intro e t stays kept
    have uncertain : ∀ failure, (uncertainResult oid failure).Honest t ↔ ¬host.EndsEarly := by
      intro failure
      refine iff_of_true (ToolResult.honest_unknown ?_) kept
      cases failure <;> rfl
    split
    · exact .inr ⟨_, rfl, stays, uncertain .cancelled⟩
    · split
      · exact .inr ⟨_, rfl, stays, uncertain .other⟩
      · exact ⟨stays, kept⟩
  rw [resumeProtocol, wp_tryCatch]
  refine wp_raise_bind (fun e raised => handled e s (fun h => ?_) fun h => ?_) fun policy => ?_
  · cases raised.symm.trans h.1
  · cases raised.symm.trans h.1
  rw [wp_bind, waitFor, wp_finally]
  have late : host.waitCancelled ≠ false → ¬host.Rewaits ∧ ¬host.EndsEarly :=
    fun late => ⟨fun h => late h.2.2.1, fun h => late h.2.2⟩
  refine (host.resume_wp writes oid awaits).mono (fun reply t replied => ?_) fun e t broken => ?_
  · refine wp_ensure (fun cancelled => ?_) fun time => ?_
    · exact handled .cancelled t (late cancelled).1 (late cancelled).2
    rcases replied with ⟨rfl, asks, awaits⟩ | ⟨result, rfl, quiet, honest⟩
    · have kept : ¬host.EndsEarly := fun early => asks.not_givesUp early.2.1
      refine wp_ensure_bind (fun lost => ?_) fun valid => ?_
      · exact handled (.harness invalidWait) t (fun h => lost h.2.2.2) kept
      · exact .inl ⟨rfl, ⟨policy, asks, time, valid⟩, awaits⟩
    · refine .inr ⟨result, rfl, fun h => quiet h.2.1, honest.trans (not_congr ?_)⟩
      exact ⟨fun h => ⟨policy, h, time⟩, fun h => h.2.1⟩
  · have stays : ¬host.Rewaits ∧ ¬host.EndsEarly := ⟨fun h => broken.1 h.2.1, fun h => broken.2 h.2.1⟩
    exact wp_ensure (fun _ => handled .cancelled t stays.1 stays.2) fun _ => handled e t stays.1 stays.2

/-- A later exchange of a call that still waits ends early. -/
def SomeEndsEarly : List McpHost → Prop
  | [] => False
  | host :: later => host.EndsEarly ∨ host.Rewaits ∧ SomeEndsEarly later

/-- What is recorded is honest. -/
def McpVerdict.Honest (v : McpVerdict) (t : McpTrace) : Prop :=
  ∀ result, v = .recorded result → result.Honest t

theorem resumeAll_wp {spec : ToolSpec} (writes : spec.effect ≠ .read) (oid : OperationId)
    (later : List McpHost) : ∀ s : McpTrace, s.Awaits → wp (resumeAll spec oid later)
      (fun v t => v.Honest t ↔ ¬SomeEndsEarly later) (fun _ _ => ¬SomeEndsEarly later) s := by
  induction later with
  | nil => exact fun s _ => iff_of_true (fun result h => (by cases h)) id
  | cons host later ih =>
      intro s awaits
      rw [resumeAll, wp_bind]
      refine (host.resumeProtocol_wp writes oid awaits).mono ?_ ?_
      · rintro v t (⟨rfl, rewaits, awaits⟩ | ⟨result, rfl, stays, honest⟩)
        · have only : SomeEndsEarly (host :: later) ↔ SomeEndsEarly later := by
            rw [SomeEndsEarly, or_iff_right rewaits.not_endsEarly, and_iff_right rewaits]
          rw [only]
          exact ih t awaits
        · have only : SomeEndsEarly (host :: later) ↔ host.EndsEarly := by
            rw [SomeEndsEarly, or_iff_left fun h => stays h.1]
          rw [only]
          exact ⟨fun h => honest.mp (h result rfl), fun kept r h => by
            cases h
            exact honest.mpr kept⟩
      · rintro e t ⟨stays, kept⟩ (early | h)
        · exact kept early
        · exact stays h.1

/-- The calls that are recorded otherwise than they were. -/
def Misrecorded (effect : Effect) (first : McpHost) (later : List McpHost) : Prop :=
  first.LosesWait ∨ first.LosesCancel effect ∨ first.Suspends ∧ SomeEndsEarly later

theorem callServer_wp {spec : ToolSpec} (writes : spec.effect ≠ .read) (oid : OperationId)
    (first : McpHost) (later : List McpHost) : wp (callServer spec oid first later)
      (fun v t => v.Honest t ↔ ¬Misrecorded spec.effect first later)
      (fun _ _ => ¬Misrecorded spec.effect first later) {} := by
  rw [callServer, wp_bind]
  refine (first.execute_wp writes oid rfl).mono ?_ ?_
  · rintro v t (⟨rfl, suspends, awaits, kept⟩ | ⟨result, rfl, stays, honest⟩)
    · have valid : ¬first.LosesWait := fun lost => by cases lost.2.2.symm.trans suspends.2.2
      have only : Misrecorded spec.effect first later ↔ SomeEndsEarly later := by
        rw [Misrecorded, or_iff_right valid, or_iff_right kept, and_iff_right suspends]
      rw [only]
      exact resumeAll_wp writes oid later t awaits
    · have only : Misrecorded spec.effect first later ↔
          first.LosesWait ∨ first.LosesCancel spec.effect := by
        rw [Misrecorded, ← or_assoc, or_iff_left fun h => stays h.1]
      rw [only]
      exact ⟨fun h => honest.mp (h result rfl), fun kept r h => by
        cases h
        exact honest.mpr kept⟩
  · rintro e t ⟨stays, kept⟩ (lost | lost | h)
    · exact kept (.inl lost)
    · exact kept (.inr lost)
    · exact stays h.1

/-- The state of an operation says of its requests what is so. -/
structure OpState.Faithful (state : OpState) (t : McpTrace) : Prop where
  unsuccessful : state = .failed ∨ state = .cancelled →
    t.dispatched = false ∨ ∃ r, t.answer = some (.result r) ∧ r.isError = true
  succeeded : state = .succeeded → ∃ r, t.answer = some (.result r) ∧ r.isError = false
  uncertain : t.dispatched = true → (∀ r, t.answer ≠ some (.result r)) → state = .unknown

theorem ToolResult.faithful_iff : result.status.opState.Faithful t ↔ result.Honest t := by
  constructor
  · intro faithful
    refine ⟨fun status => faithful.unsuccessful ?_, fun status => faithful.succeeded ?_⟩
    · rcases status with status | status <;> rw [status] <;> decide
    · rw [status]
      rfl
  · rintro ⟨unsuccessful, succeeded⟩
    have unanswered : t.dispatched = true → (∀ r, t.answer ≠ some (.result r)) →
        ¬(t.dispatched = false ∨ ∃ r, t.answer = some (.result r) ∧ r.isError = true) := by
      rintro dispatched none (quiet | ⟨r, answer, -⟩)
      · cases quiet.symm.trans dispatched
      · exact none r answer
    cases status : result.status with
    | succeeded =>
        obtain ⟨r, answer, plain⟩ := succeeded status
        refine ⟨?_, fun _ => ⟨r, answer, plain⟩, fun _ none => absurd answer (none r)⟩
        rintro (h | h) <;> cases h
    | failed =>
        have told := unsuccessful (.inl status)
        exact ⟨fun _ => told, fun h => (by cases h), fun sent none => absurd told (unanswered sent none)⟩
    | cancelled =>
        have told := unsuccessful (.inr status)
        exact ⟨fun _ => told, fun h => (by cases h), fun sent none => absurd told (unanswered sent none)⟩
    | unknown =>
        refine ⟨?_, fun h => (by cases h), fun _ _ => rfl⟩
        rintro (h | h) <;> cases h

/-- The state in which a call of a writing tool is recorded is what has become of its requests, unless
the gateway loses a registered wait, is cancelled in the place of a writer of the workspace, or gives the
call up when the user has answered, before it sends the request again. -/
theorem call_faithful {spec : ToolSpec} (writes : spec.effect ≠ .read) (ctx : ExecutionContext)
    (oid : OperationId) (first : McpHost) (later : List McpHost) :
    wp (callServer spec oid first later)
      (fun v t =>
        (∀ result, v = .recorded result → ∀ store now s,
          finishOperation store ctx oid result now = .ok s →
            ∃ o, s.operations.get? oid = some o ∧ o.state = result.status.opState) ∧
        ((∀ result, v = .recorded result → result.status.opState.Faithful t) ↔
          ¬Misrecorded spec.effect first later))
      (fun _ _ => ¬Misrecorded spec.effect first later) {} := by
  refine (callServer_wp writes oid first later).mono (fun v t honest => ?_) fun _ _ kept => kept
  refine ⟨fun result _ store now s finishes => finishOperation_state finishes, Iff.trans ?_ honest⟩
  exact ⟨fun h r same => ToolResult.faithful_iff.mp (h r same),
    fun h r same => ToolResult.faithful_iff.mpr (h r same)⟩

namespace Sample

/-- A server that asks for input, with a connection on which every call passes. -/
def eliciting : McpHost where
  raises _ := none
  sync _ _ _ h := by cases h
  convertPlain _ h := by cases h
  serverId := "server"
  diagnostics := []
  tools := true
  elicitation := true
  modernCatalog := true
  modernClient := true
  schemaCurrent := true
  timeLeft := true
  callAnswer := ⟨false, [], .null⟩
  stepAnswer := .inputRequired
  userAnswered := true
  waitValid := true
  waitCancelled := false

/-- The schema of the tool has changed while the user was asked. -/
def drifted : McpHost := { eliciting with schemaCurrent := false }

def serverTool : ToolSpec :=
  { id := .named "mcp", version := "1", origin := "mcp:server", effect := .externalWrite
    resumable := true }

end Sample

theorem call_faithful_once : Sample.serverTool.effect ≠ .read ∧
    wp (callServer Sample.serverTool 100 Sample.eliciting [])
      (fun v t =>
        (∀ result, v = .recorded result → ∀ store now s,
          finishOperation store (Sample.context 20 1) 100 result now = .ok s →
            ∃ o, s.operations.get? 100 = some o ∧ o.state = result.status.opState) ∧
        ((∀ result, v = .recorded result → result.status.opState.Faithful t) ↔
          ¬Misrecorded Sample.serverTool.effect Sample.eliciting []))
      (fun _ _ => ¬Misrecorded Sample.serverTool.effect Sample.eliciting []) {} :=
  ⟨by decide, call_faithful (by decide) (Sample.context 20 1) 100 Sample.eliciting []⟩

/-- The server has asked for input, and the user has answered: the schema of the tool is another one by
then, and the call whose request was sent is recorded as failed. -/
theorem call_unfaithful : ¬∀ spec : ToolSpec, spec.effect ≠ .read → ∀ oid first later,
    wp (callServer spec oid first later)
      (fun v t => ∀ result, v = .recorded result → result.status.opState.Faithful t)
      (fun _ _ => True) {} := by
  intro faithful
  have writes : Sample.serverTool.effect ≠ .read := by decide
  have asks : Sample.eliciting.Asks true := ⟨rfl, rfl, rfl⟩
  have waits : Sample.eliciting.Waits := ⟨⟨rfl, ⟨rfl, rfl, rfl⟩, rfl⟩, asks, rfl⟩
  have refuses : Sample.drifted.Refuses true :=
    ⟨⟨rfl, rfl, rfl⟩, ⟨.value "ValueError", rfl, rfl⟩, rfl⟩
  have early : Sample.drifted.EndsEarly := ⟨rfl, ⟨⟨rfl, rfl, rfl⟩, rfl, refuses, rfl⟩, rfl⟩
  have lost : Misrecorded Sample.serverTool.effect Sample.eliciting [Sample.drifted] :=
    .inr (.inr ⟨⟨waits, rfl, rfl⟩, .inl early⟩)
  have run := (callServer_wp writes 100 Sample.eliciting [Sample.drifted]).and
    (faithful Sample.serverTool writes 100 Sample.eliciting [Sample.drifted])
  have none : wp (callServer Sample.serverTool 100 Sample.eliciting [Sample.drifted])
      (fun _ _ => False) (fun _ _ => False) {} := by
    refine run.mono ?_ fun _ _ raised => raised.1 lost
    intro v t told
    refine told.1.mp (fun r same => ToolResult.faithful_iff.mp (told.2 r same)) lost
  unfold wp at none
  split at none <;> exact none

end MiHarness
