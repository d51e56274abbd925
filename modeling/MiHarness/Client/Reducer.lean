import Mathlib.Data.Rat.Cast.Order
import MiHarness.Library.System

/-!
# The projection of a run in the client

The client folds what it hears of a run into a `RunProjection`: snapshots, durable events in the
order of their sequence numbers, and the chunks of messages that are still being written.  Objects
of JavaScript are functions from property names, and a property that is not there is `undefined`;
spreading one object over another is reading the second where it says something.  Property names
are identifiers, so none of them is inherited from `Object.prototype`.
-/

namespace MiHarness

open Library

/-! ## Values -/

/-- A JSON value. -/
inductive Value where
  | null
  | bool (b : Bool)
  | number (n : ℚ)
  | string (s : String)
  | array (items : List Value)
  | object (fields : String → Option Value)

/-- The properties of an object, `none` where one is `undefined`. -/
abbrev ObjectValue := String → Option Value

/-- `object` of `values.ts`. -/
def objectOf : Option Value → ObjectValue
  | some (.object fields) => fields
  | _ => fun _ => none

/-- `array`. -/
def arrayOf : Option Value → List Value
  | some (.array items) => items
  | _ => []

/-- `string`. -/
def stringOf (v : Option Value) (fallback : String := "") : String :=
  match v with
  | some (.string s) => s
  | _ => fallback

/-- `number`. -/
def numberOf (v : Option Value) (fallback : ℚ := 0) : ℚ :=
  match v with
  | some (.number n) => n
  | _ => fallback

/-- The first of the properties that is neither `null` nor `undefined`, as `??` finds it. -/
def firstOf (v : ObjectValue) : List String → Option Value
  | [] => none
  | name :: rest =>
      match v name with
      | some .null | none => firstOf v rest
      | found => found

/-- `id`. -/
def idOf (v : ObjectValue) : String :=
  stringOf (firstOf v
    ["id", "run_id", "session_id", "workspace_id", "agent_spec_id", "skill_id", "memory_id"])

/-- A property is the string, `===`. -/
def isText (v : Option Value) (s : String) : Bool :=
  match v with
  | some (.string t) => t = s
  | _ => false

def isNull : Option Value → Bool
  | some .null => true
  | _ => false

def isNumber : Option Value → Bool
  | some (.number _) => true
  | _ => false

/-- `Number.isInteger`. -/
def isInteger (n : ℚ) : Bool := n.den = 1

def startsWith (s pre : String) : Bool := pre.toList.isPrefixOf s.toList

/-- `{...previous, ...value}`, where `own` are the properties `value` has although they may be
`undefined`. -/
def spread (previous value : ObjectValue) (own : List String) : ObjectValue := fun name =>
  if name ∈ own then value name else (value name).or (previous name)

/-- An object with one property set. -/
def withField (v : ObjectValue) (name : String) (value : Value) : ObjectValue :=
  fun name' => if name' = name then some value else v name'

/-! ## The projection -/

/-- The rows of one kind by their key. -/
abbrev Rows (α : Type) := String → Option α

structure TransientStream where
  messageId : String
  streamId : String
  chunks : Nat → Option String
  lastChunk : Int
  interrupted : Bool

structure RunProjection where
  runId : String
  snapshotRevision : ℚ := 0
  lastAppliedDurableSeq : ℚ := 0
  serverStatus : String := ""
  messages : Rows ObjectValue := fun _ => none
  tools : Rows ObjectValue := fun _ => none
  interactions : Rows ObjectValue := fun _ => none
  artifacts : Rows ObjectValue := fun _ => none
  children : Rows ObjectValue := fun _ => none
  streams : Rows TransientStream := fun _ => none
  usage : ObjectValue := fun _ => none
  context : ObjectValue := fun _ => none
  snapshot : ObjectValue := fun _ => none
  needsRecovery : Bool := false
  updatedAt : String := ""

def emptyRun (runId : String) : RunProjection := { runId }

/-- The key `indexed` gives an object. -/
def indexKey (key : String) (v : ObjectValue) : String :=
  if stringOf (v key) = "" then idOf v else stringOf (v key)

/-- `indexed`: of two objects with one key the later stays. -/
def indexed (value : Option Value) (key : String) : Rows ObjectValue := fun name =>
  (((arrayOf value).map (fun item => objectOf (some item))).filter
    (fun v => indexKey key v ≠ "")).reverse.find? fun v => indexKey key v = name

def upsert (current : Rows ObjectValue) (key : String) (value : ObjectValue)
    (own : List String := []) : Rows ObjectValue :=
  match current key with
  | some previous =>
      if isNumber (value "revision") = true ∧
          numberOf (value "revision") < numberOf (previous "revision") then current
      else fun name => if name = key then some (spread previous value own) else current name
  | none => fun name => if name = key then some value else current name

inductive RunAction where
  | snapshot (value : ObjectValue)
  | event (value : ObjectValue)
  | disconnected

namespace RunProjection

/-- The state a snapshot gives. -/
def ofSnapshot (value : ObjectValue) : RunProjection where
  runId := stringOf (value "run_id")
  snapshot := value
  snapshotRevision := numberOf (value "revision")
  lastAppliedDurableSeq := numberOf (value "last_seq")
  serverStatus := stringOf (value "status") "queued"
  messages := indexed (value "messages") "message_id"
  tools := indexed (value "tools") "operation_id"
  interactions := indexed (value "interactions") "interaction_id"
  artifacts := indexed (value "artifacts") "artifact_id"
  children := indexed (value "children") "child_run_id"
  usage := objectOf (value "usage_summary")
  context := objectOf (value "context_summary")
  updatedAt := stringOf (value "updated_at")

/-- The snapshot is older than the state. -/
def outdates (state : RunProjection) (value : ObjectValue) : Bool :=
  isText (value "run_id") state.runId && numberOf (value "last_seq") < state.lastAppliedDurableSeq

/-- The chunk of a message that is being written. -/
def applyDelta (state : RunProjection) (value : ObjectValue) : RunProjection :=
  let payload := objectOf (value "data")
  let messageId := stringOf (payload "message_id")
  let streamId := stringOf (payload "stream_id")
  let chunk := numberOf (payload "chunk_index") (-1)
  let index := chunk.num.toNat
  let old := state.streams streamId
  if stringOf (value "type") ≠ "message.delta" ∨ isNull (value "seq") = false ∨
      (state.messages messageId).isSome = true then state
  else if streamId = "" ∨ chunk < 0 ∨ isInteger chunk = false then state
  else if (old.bind fun s => s.chunks index).isSome = true then state
  else
    let stream : TransientStream :=
      { messageId, streamId
        chunks := fun i => if i = index then some (stringOf (payload "text")) else
          old.bind fun s => s.chunks i
        lastChunk := max ((old.map TransientStream.lastChunk).getD (-1)) index
        interrupted := (old.map TransientStream.interrupted).getD false }
    { state with streams := fun name => if name = streamId then some stream else state.streams name }

/-- The rows of one kind, with one changed when the event is of the kind. -/
def upsertIf (c : Prop) [Decidable c] (rows : Rows ObjectValue) (key : String) (value : ObjectValue)
    (own : List String := []) : Rows ObjectValue :=
  if c then upsert rows key value own else rows

/-- The next durable event of the log. -/
def applyDurable (state : RunProjection) (seq : ℚ) (value : ObjectValue) : RunProjection :=
  let eventType := stringOf (value "type")
  let payload := objectOf (value "data")
  let current := startsWith eventType "run." && state.snapshotRevision ≤ numberOf (payload "revision")
  let committed := eventType = "message.committed"
  let artifact := objectOf (payload "artifact_ref")
  { state with
    lastAppliedDurableSeq := seq
    updatedAt := stringOf (value "timestamp")
    snapshotRevision := if current then numberOf (payload "revision") else state.snapshotRevision
    serverStatus := if current then stringOf (payload "status") state.serverStatus
      else state.serverStatus
    snapshot :=
      if startsWith eventType "model.selection." && (payload "control_revision").isSome then
        withField state.snapshot "model_control" (.object payload)
      else state.snapshot
    messages := upsertIf committed state.messages (stringOf (payload "message_id")) payload
    streams := fun name => (state.streams name).filter fun stream =>
      !(committed && isText (payload "message_id") stream.messageId)
    tools := upsertIf (startsWith eventType "tool." = true) state.tools
      (stringOf (payload "operation_id")) (withField payload "event_type" (.string eventType))
    interactions :=
      upsertIf (eventType = "interaction.resolved")
        (upsertIf (eventType = "interaction.required") state.interactions
          (stringOf (payload "interaction_id")) (withField payload "status" (.string "open")))
        (stringOf (payload "interaction_id")) (withField payload "status" (.string "resolved"))
    artifacts := upsertIf (eventType = "artifact.created") state.artifacts
      (stringOf (artifact "artifact_id"))
      (fun name =>
        if name ∈ ["display_name", "operation_id"] then payload name else artifact name)
      ["display_name", "operation_id"]
    children := upsertIf (startsWith eventType "child." = true) state.children
      (stringOf (payload "child_run_id")) payload
    context := if eventType = "context.compacted" then
        withField state.context "compaction" (.object payload)
      else state.context
    usage := if eventType = "usage.updated" &&
        numberOf (state.usage "revision") ≤ numberOf (payload "revision") then payload
      else state.usage }

def applyEvent (state : RunProjection) (value : ObjectValue) : RunProjection :=
  let seq := numberOf (value "seq") (-1)
  if isText (value "run_id") state.runId = false ∨ state.needsRecovery = true then state
  else if isText (value "durability") "ephemeral" = true then state.applyDelta value
  else if isText (value "durability") "durable" = false ∨ isInteger seq = false ∨
      seq ≤ state.lastAppliedDurableSeq then state
  else if seq ≠ state.lastAppliedDurableSeq + 1 then { state with needsRecovery := true }
  else state.applyDurable seq value

/-- What a disconnection leaves: the streams are interrupted. -/
def interrupt (state : RunProjection) : RunProjection :=
  { state with
    streams := fun name => (state.streams name).map fun stream => { stream with interrupted := true } }

end RunProjection

def runReducer (state : RunProjection) : RunAction → RunProjection
  | .disconnected => state.interrupt
  | .snapshot value => if state.outdates value = true then state else .ofSnapshot value
  | .event value => state.applyEvent value

end MiHarness
