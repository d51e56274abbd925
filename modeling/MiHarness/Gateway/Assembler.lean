import Mathlib.Data.Finset.Dedup
import MiHarness.Gateway.Messages
import MiHarness.Library.Checked
import MiHarness.Library.Merging

/-!
# Assembling a streamed response

`StreamAssembler` adds the chunks of one attempt and makes a turn of them at the end.  Adding chunks is
the message library's: it joins what they bring for one call index and puts the other calls behind.
The library also repairs arguments that were cut off; so `finish` reads the text of every call as strict
JSON before it takes the message that the library makes.

`stream_executable` says what a turn that `finish` returns holds, which chunks are rejected, and that it
does not matter how a response was cut into chunks.
-/

namespace MiHarness

open Library

/-- What a chunk brings for one call. -/
structure ToolCallChunk where
  name : Option String := none
  args : Option (List Char) := none
  id : Option String := none
  index : Option Int := none

def ToolCallChunk.text (c : ToolCallChunk) : List Char := c.args.getD []

/-- A chunk.  `β` is what the code reads nothing of: the content, the id and the usage. -/
structure AIMessageChunk (β : Type) where
  toolCallChunks : List ToolCallChunk := []
  responseMetadata : ResponseMetadata := {}
  body : β

/-- What validating arguments against a schema comes to. -/
inductive SchemaVerdict where
  | valid
  | violated
  /-- The schema library raises something else. -/
  | broken
deriving DecidableEq

/-- The message library, `json.loads` and the schema library. -/
structure MessageLibrary (β σ : Type) where
  joinId : String → String → String
  joinMetadata : ResponseMetadata → ResponseMetadata → ResponseMetadata
  joinBody : β → β → β
  /-- `AIMessageChunk(**message.model_dump(exclude={"type"}))` -/
  ofMessage : AIMessage → AIMessageChunk β
  /-- `message_chunk_to_message` -/
  toMessage : AIMessageChunk β → AIMessage
  loads : List Char → Option JsonData
  /-- `Draft202012Validator(schema).validate` -/
  validate : σ → JsonData → SchemaVerdict

variable {β σ : Type}

def ToolCallChunk.join (joinId : String → String → String) (x y : ToolCallChunk) : ToolCallChunk where
  name := Option.merge (· ++ ·) x.name y.name
  args := Option.merge (· ++ ·) x.args y.args
  id := Option.merge joinId x.id y.id
  index := x.index

def JsonData.IsObject : JsonData → Prop
  | .object _ => True
  | _ => False

instance : DecidablePred JsonData.IsObject := fun value => by
  cases value <;> unfold JsonData.IsObject <;> infer_instance

namespace MessageLibrary

/-- The calls of chunks are told apart by their index, and what comes for one index is joined. -/
def merging (lib : MessageLibrary β σ) : Merging ToolCallChunk Int where
  key := ToolCallChunk.index
  join := ToolCallChunk.join lib.joinId

def add (lib : MessageLibrary β σ) (x y : AIMessageChunk β) : AIMessageChunk β where
  toolCallChunks := lib.merging.merge x.toolCallChunks y.toolCallChunks
  responseMetadata := lib.joinMetadata x.responseMetadata y.responseMetadata
  body := lib.joinBody x.body y.body

/-- The call that a strict reading of its text makes. -/
def read (lib : MessageLibrary β σ) (call : ToolCallChunk) : ToolCall where
  name := call.name.getD ""
  args := (lib.loads call.text).getD .null
  id := call.id

/-- What the assembler relies on.  `calls` is that the library's own parser first tries the text as it
is. -/
structure Lawful (lib : MessageLibrary β σ) : Prop where
  id_assoc : ∀ a b c, lib.joinId (lib.joinId a b) c = lib.joinId a (lib.joinId b c)
  metadata_assoc : ∀ a b c,
    lib.joinMetadata (lib.joinMetadata a b) c = lib.joinMetadata a (lib.joinMetadata b c)
  body_assoc : ∀ a b c, lib.joinBody (lib.joinBody a b) c = lib.joinBody a (lib.joinBody b c)
  calls : ∀ c : AIMessageChunk β,
    (∀ call ∈ c.toolCallChunks, ∃ value, lib.loads call.text = some value ∧ value.IsObject) →
    (lib.toMessage c).toolCalls = c.toolCallChunks.map lib.read

end MessageLibrary

/-! ## The response -/

/-- What `finish` raises: an error of the gateway, or what the schema library raises of its own. -/
inductive TurnFault where
  | gateway (error : GatewayError)
  | schema
deriving DecidableEq

inductive UsageSource where
  | provider | estimated | unknown
deriving DecidableEq, Repr

structure Usage where
  inputTokens : Option Nat := none
  outputTokens : Option Nat := none
  totalTokens : Option Nat := none
  source : UsageSource := .unknown
deriving DecidableEq

structure ValidatedAssistantTurn where
  message : AIMessage
  usage : Usage
  providerMetadata : ResponseMetadata

def turnFault (code : GatewayCode) (message : String) : TurnFault :=
  .gateway { code, message }

/-- `metadata.get("finish_reason") or metadata.get("stop_reason")` -/
def ResponseMetadata.finish (m : ResponseMetadata) : Option String :=
  match m.finishReason with
  | some "" => m.stopReason
  | some reason => some reason
  | none => m.stopReason

def raiseIfTruncated (m : ResponseMetadata) : Except TurnFault PUnit :=
  require (m.finish ∉ [some "length", some "max_tokens", some "content_filter"])
    (turnFault .truncatedResponse "Model response did not complete normally")

/-- The schemas of the bound tools. -/
abbrev Catalog (σ : Type) := List (String × σ)

def checkSchema (lib : MessageLibrary β σ) (schema : σ) (args : JsonData) : Except TurnFault PUnit :=
  match lib.validate schema args with
  | .valid => .ok ⟨⟩
  | .violated => .error (turnFault .invalidToolArguments "Tool arguments violate the bound schema")
  | .broken => .error .schema

def checkBound (lib : MessageLibrary β σ) (schemas : Option (Catalog σ)) (call : ToolCall) :
    Except TurnFault PUnit :=
  match schemas with
  | none => .ok ⟨⟩
  | some catalog => do
      let schema ← orThrow (catalog.lookup call.name)
        (turnFault .unknownTool "Provider requested a tool outside the bound catalog")
      checkSchema lib schema call.args

/-- One turn of the loop over the calls, with the ids seen so far. -/
def checkCall (lib : MessageLibrary β σ) (schemas : Option (Catalog σ)) (seen : List String)
    (call : ToolCall) : Except TurnFault (List String) := do
  require (call.identity ≠ "" ∧ call.identity ∉ seen)
    (turnFault .invalidToolId "Tool-call IDs must be present and unique")
  require call.args.IsObject (turnFault .invalidToolArguments "Tool arguments must be an object")
  checkBound lib schemas call
  return call.identity :: seen

def Usage.ofMetadata : Option UsageMetadata → Usage
  | some m =>
      { inputTokens := m.inputTokens, outputTokens := m.outputTokens, totalTokens := m.totalTokens
        source := .provider }
  | none => {}

/-- `fresh` is the id that is made for a message without one. -/
def AIMessage.identified (m : AIMessage) (fresh : String) : AIMessage :=
  if m.id = none ∨ m.id = some "" then { m with id := some fresh } else m

def validateResponse (lib : MessageLibrary β σ) (message : AIMessage) (schemas : Option (Catalog σ))
    (fresh : String) : Except TurnFault ValidatedAssistantTurn := do
  raiseIfTruncated message.responseMetadata
  require (message.invalidToolCalls = 0)
    (turnFault .invalidToolArguments "Provider returned malformed tool arguments")
  let _ ← message.toolCalls.foldlM (checkCall lib schemas) []
  return {
    message := message.identified fresh
    usage := .ofMetadata message.usageMetadata
    providerMetadata := message.responseMetadata }

/-! ## The assembler -/

structure StreamAssembler (β : Type) where
  attemptId : String
  chunk : Option (AIMessageChunk β) := none
  finished : Bool := false

/-- What the provider's stream yields: a chunk, or a message as a whole. -/
inductive StreamPiece (β : Type) where
  | chunk (chunk : AIMessageChunk β)
  | message (message : AIMessage)

def StreamPiece.toChunk (lib : MessageLibrary β σ) : StreamPiece β → AIMessageChunk β
  | .chunk c => c
  | .message m => lib.ofMessage m

/-- `chunk if self.chunk is None else self.chunk + chunk` -/
def MessageLibrary.extend (lib : MessageLibrary β σ) :
    Option (AIMessageChunk β) → AIMessageChunk β → AIMessageChunk β
  | none, chunk => chunk
  | some held, chunk => lib.add held chunk

/-- The strict reading of one call. -/
def checkText (lib : MessageLibrary β σ) (call : ToolCallChunk) : Except TurnFault PUnit := do
  let args ← orThrow (lib.loads call.text)
    (turnFault .invalidToolArguments "Stream tool arguments are not complete JSON")
  require args.IsObject (turnFault .invalidToolArguments "Tool arguments must be an object")

namespace StreamAssembler

def push (lib : MessageLibrary β σ) (s : StreamAssembler β) (attemptId : String)
    (piece : StreamPiece β) : Except TurnFault Unit × StreamAssembler β :=
  if attemptId ≠ s.attemptId ∨ s.finished then
    (.error (turnFault .streamState "Attempt stream identity or completion mismatch"), s)
  else (.ok (), { s with chunk := some (lib.extend s.chunk (piece.toChunk lib)) })

def turn (lib : MessageLibrary β σ) (chunk : Option (AIMessageChunk β)) (completed : Bool)
    (schemas : Option (Catalog σ)) (fresh : String) : Except TurnFault ValidatedAssistantTurn := do
  require (completed = true)
    (turnFault .incompleteStream "Stream ended before complete response")
  let chunk ← orThrow chunk (turnFault .incompleteStream "Stream ended before complete response")
  raiseIfTruncated chunk.responseMetadata
  chunk.toolCallChunks.forM (checkText lib)
  validateResponse lib (lib.toMessage chunk) schemas fresh

def finish (lib : MessageLibrary β σ) (s : StreamAssembler β) (completed : Bool)
    (schemas : Option (Catalog σ)) (fresh : String) :
    Except TurnFault ValidatedAssistantTurn × StreamAssembler β :=
  (turn lib s.chunk completed schemas fresh, { s with finished := true })

/-- Pushes one after the other, whatever becomes of each. -/
def feed (lib : MessageLibrary β σ) (s : StreamAssembler β)
    (pieces : List (String × StreamPiece β)) : StreamAssembler β :=
  pieces.foldl (fun s piece => (s.push lib piece.1 piece.2).2) s

end StreamAssembler

/-! ## What the checks of a turn establish -/

variable {lib : MessageLibrary β σ} {schemas : Option (Catalog σ)}

/-- The call is to a bound tool and its arguments fit the schema. -/
def BoundCall (lib : MessageLibrary β σ) (schemas : Option (Catalog σ)) (call : ToolCall) : Prop :=
  ∀ catalog, schemas = some catalog → ∃ schema, catalog.lookup call.name = some schema ∧
    lib.validate schema call.args = .valid

theorem checkSchema_eq_ok {schema : σ} {args : JsonData} {u : PUnit} :
    checkSchema lib schema args = .ok u ↔ lib.validate schema args = .valid := by
  unfold checkSchema
  cases lib.validate schema args <;> simp

theorem checkBound_eq_ok {call : ToolCall} {u : PUnit} :
    checkBound lib schemas call = .ok u ↔ BoundCall lib schemas call := by
  cases schemas with
  | none => exact iff_of_true rfl fun _ h => by cases h
  | some catalog =>
      unfold checkBound
      rw [bind_eq_ok]
      constructor
      · rintro ⟨schema, found, fits⟩ _ same
        cases same
        exact ⟨schema, orThrow_eq_ok.mp found, checkSchema_eq_ok.mp fits⟩
      · intro bound
        obtain ⟨schema, found, fits⟩ := bound catalog rfl
        exact ⟨schema, orThrow_eq_ok.mpr found, checkSchema_eq_ok.mpr fits⟩

theorem checkCall_eq_ok {seen seen' : List String} {call : ToolCall} :
    checkCall lib schemas seen call = .ok seen' ↔
      (call.identity ≠ "" ∧ call.identity ∉ seen) ∧ call.args.IsObject ∧ BoundCall lib schemas call ∧
        seen' = call.identity :: seen := by
  unfold checkCall
  constructor
  · intro h
    obtain ⟨_, new, h⟩ := bind_eq_ok.mp h
    obtain ⟨_, object, h⟩ := bind_eq_ok.mp h
    obtain ⟨_, bound, h⟩ := bind_eq_ok.mp h
    exact ⟨require_eq_ok.mp new, require_eq_ok.mp object, checkBound_eq_ok.mp bound,
      (pure_eq_ok.mp h).symm⟩
  · rintro ⟨new, object, bound, rfl⟩
    exact bind_eq_ok.mpr ⟨⟨⟩, require_eq_ok.mpr new, bind_eq_ok.mpr ⟨⟨⟩, require_eq_ok.mpr object,
      bind_eq_ok.mpr ⟨⟨⟩, checkBound_eq_ok.mpr bound, rfl⟩⟩⟩

/-- What the loop over the calls establishes. -/
theorem checkCalls_ok : ∀ {calls : List ToolCall} {seen seen' : List String},
    calls.foldlM (checkCall lib schemas) seen = .ok seen' →
    (∀ call ∈ calls, call.identity ≠ "" ∧ call.identity ∉ seen ∧ BoundCall lib schemas call) ∧
      (calls.map ToolCall.identity).Nodup
  | [], _, _, _ => ⟨fun _ h => absurd h List.not_mem_nil, List.nodup_nil⟩
  | call :: calls, seen, seen', h => by
      rw [List.foldlM_cons] at h
      obtain ⟨_, first, later⟩ := bind_eq_ok.mp h
      obtain ⟨new, _, bound, rfl⟩ := checkCall_eq_ok.mp first
      obtain ⟨each, distinct⟩ := checkCalls_ok later
      constructor
      · intro c hc
        rcases List.mem_cons.mp hc with rfl | hc
        · exact ⟨new.1, new.2, bound⟩
        · obtain ⟨named, fresh, bound⟩ := each c hc
          exact ⟨named, fun old => fresh (List.mem_cons_of_mem _ old), bound⟩
      · refine List.nodup_cons.mpr ⟨fun again => ?_, distinct⟩
        obtain ⟨c, hc, same⟩ := List.mem_map.mp again
        exact (each c hc).2.1 (same ▸ List.mem_cons_self ..)

theorem identified_toolCalls (m : AIMessage) (fresh : String) :
    (m.identified fresh).toolCalls = m.toolCalls := by
  unfold AIMessage.identified
  split <;> rfl

theorem validateResponse_ok {message : AIMessage} {fresh : String} {turn : ValidatedAssistantTurn}
    (h : validateResponse lib message schemas fresh = .ok turn) :
    turn.message.toolCalls = message.toolCalls ∧
      (∀ call ∈ message.toolCalls, call.identity ≠ "" ∧ BoundCall lib schemas call) ∧
      (message.toolCalls.map ToolCall.identity).Nodup := by
  obtain ⟨_, _, h⟩ := bind_eq_ok.mp h
  obtain ⟨_, _, h⟩ := bind_eq_ok.mp h
  obtain ⟨_, checked, h⟩ := bind_eq_ok.mp h
  obtain ⟨each, distinct⟩ := checkCalls_ok checked
  refine ⟨?_, fun call hcall => ⟨(each call hcall).1, (each call hcall).2.2⟩, distinct⟩
  rw [← pure_eq_ok.mp h]
  exact identified_toolCalls message fresh

theorem checkText_eq_ok {call : ToolCallChunk} {u : PUnit} : checkText lib call = .ok u ↔
    ∃ value, lib.loads call.text = some value ∧ value.IsObject := by
  unfold checkText
  constructor
  · intro h
    obtain ⟨value, parsed, h⟩ := bind_eq_ok.mp h
    exact ⟨value, orThrow_eq_ok.mp parsed, require_eq_ok.mp h⟩
  · rintro ⟨value, parsed, object⟩
    exact bind_eq_ok.mpr ⟨value, orThrow_eq_ok.mpr parsed, require_eq_ok.mpr object⟩

theorem checkTexts_ok {calls : List ToolCallChunk} {u : PUnit}
    (h : calls.forM (checkText lib) = .ok u) :
    ∀ call ∈ calls, ∃ value, lib.loads call.text = some value ∧ value.IsObject :=
  fun call hcall => checkText_eq_ok.mp (forM_eq_ok.mp h call hcall)

namespace StreamAssembler

/-- A turn is made of the assembled calls as a strict reading gives them. -/
theorem turn_ok {chunk : Option (AIMessageChunk β)} {completed : Bool} {fresh : String}
    {turn : ValidatedAssistantTurn} (lawful : lib.Lawful)
    (h : StreamAssembler.turn lib chunk completed schemas fresh = .ok turn) :
    ∃ held, chunk = some held ∧
      (∀ call ∈ held.toolCallChunks, ∃ value,
        lib.loads call.text = some value ∧ value.IsObject) ∧
      turn.message.toolCalls = held.toolCallChunks.map lib.read ∧
      (∀ call ∈ turn.message.toolCalls, call.identity ≠ "" ∧ BoundCall lib schemas call) ∧
      (turn.message.toolCalls.map ToolCall.identity).Nodup := by
  obtain ⟨_, _, h⟩ := bind_eq_ok.mp h
  obtain ⟨held, found, h⟩ := bind_eq_ok.mp h
  obtain ⟨_, _, h⟩ := bind_eq_ok.mp h
  obtain ⟨_, texts, h⟩ := bind_eq_ok.mp h
  have strict := checkTexts_ok texts
  obtain ⟨calls, each, distinct⟩ := validateResponse_ok h
  rw [lawful.calls held strict] at calls each distinct
  rw [calls]
  exact ⟨held, orThrow_eq_ok.mp found, strict, rfl, each, distinct⟩

/-- A push of another attempt, or after `finish`, is rejected and leaves the assembler as it is. -/
theorem push_rejected {s : StreamAssembler β} {attemptId : String} (piece : StreamPiece β)
    (other : attemptId ≠ s.attemptId ∨ s.finished = true) :
    s.push lib attemptId piece =
      (.error (turnFault .streamState "Attempt stream identity or completion mismatch"), s) :=
  if_pos other

/-- The chunks of the attempt among the pieces. -/
def accepted (lib : MessageLibrary β σ) (attemptId : String)
    (pieces : List (String × StreamPiece β)) : List (AIMessageChunk β) :=
  (pieces.filter (·.1 = attemptId)).map (·.2.toChunk lib)

/-- What has been assembled of chunks. -/
def assembled (lib : MessageLibrary β σ) (held : Option (AIMessageChunk β))
    (chunks : List (AIMessageChunk β)) : Option (AIMessageChunk β) :=
  chunks.foldl (fun held chunk => some (lib.extend held chunk)) held

theorem feed_eq : ∀ {pieces : List (String × StreamPiece β)} {s : StreamAssembler β},
    s.finished = false → s.feed lib pieces =
      { s with chunk := assembled lib s.chunk (accepted lib s.attemptId pieces) }
  | [], _, _ => rfl
  | piece :: pieces, s, runs => by
      show ((s.push lib piece.1 piece.2).2).feed lib pieces = _
      by_cases own : piece.1 = s.attemptId
      · have pushed : s.push lib piece.1 piece.2 =
            (.ok (), { s with chunk := some (lib.extend s.chunk (piece.2.toChunk lib)) }) :=
          if_neg (not_or.mpr ⟨not_not.mpr own, by simp [runs]⟩)
        rw [pushed]
        refine (feed_eq (s := { s with
          chunk := some (lib.extend s.chunk (piece.2.toChunk lib)) }) runs).trans ?_
        simp only [accepted, List.filter_cons, own, decide_true, if_true, List.map_cons]
        rfl
      · rw [push_rejected _ (.inl own), feed_eq runs]
        simp only [accepted, List.filter_cons, own, decide_false, Bool.false_eq_true, if_false]

end StreamAssembler

/-! ## Chunks of one response -/

section Chunkings

namespace MessageLibrary

theorem Lawful.merging (lawful : lib.Lawful) : lib.merging.Lawful where
  key_join _ _ := rfl
  assoc x y z := by
    have ids : Std.Associative lib.joinId := ⟨lawful.id_assoc⟩
    have names : Std.Associative (fun a b : String => a ++ b) := ⟨fun _ _ _ => String.append_assoc⟩
    have texts : Std.Associative (fun a b : List Char => a ++ b) := ⟨List.append_assoc⟩
    simp only [MessageLibrary.merging, ToolCallChunk.join, ToolCallChunk.mk.injEq, and_true]
    exact ⟨Std.Associative.assoc .., Std.Associative.assoc .., Std.Associative.assoc ..⟩

theorem add_assoc (lawful : lib.Lawful) {x y z : AIMessageChunk β}
    (apart : lib.merging.Apart y.toolCallChunks) :
    lib.add x (lib.add y z) = lib.add (lib.add x y) z := by
  unfold add
  rw [Merging.merge_merge lawful.merging apart, lawful.metadata_assoc, lawful.body_assoc]

/-- A chunk that brings something for one call at most. -/
def Fragment (c : AIMessageChunk β) : Prop := c.toolCallChunks.length ≤ 1

theorem Fragment.apart {c : AIMessageChunk β} (h : Fragment c) :
    lib.merging.Apart c.toolCallChunks := by
  unfold Fragment at h
  match c.toolCallChunks, h with
  | [], _ => exact List.Pairwise.nil
  | [call], _ => exact List.pairwise_singleton ..
  | _ :: _ :: _, h => exact absurd h (by simp)

/-- The chunk that fragments add up to. -/
def sum (lib : MessageLibrary β σ) (first : AIMessageChunk β) (rest : List (AIMessageChunk β)) :
    AIMessageChunk β :=
  rest.foldl lib.add first

/-- Adding a sum is adding its fragments one after the other. -/
theorem add_sum (lawful : lib.Lawful) {x : AIMessageChunk β} :
    ∀ {rest : List (AIMessageChunk β)} {first : AIMessageChunk β},
      lib.merging.Apart first.toolCallChunks →
      lib.add x (lib.sum first rest) = lib.sum (lib.add x first) rest
  | [], _, _ => rfl
  | y :: rest, first, apart => by
      show lib.add x (lib.sum (lib.add first y) rest) =
        lib.sum (lib.add (lib.add x first) y) rest
      rw [← add_assoc lawful apart]
      exact add_sum lawful (Merging.Apart.merge lawful.merging _ apart)

/-- `chunks` are the fragments of a response, cut into chunks at some places. -/
def Chunking (lib : MessageLibrary β σ) (fragments chunks : List (AIMessageChunk β)) : Prop :=
  ∃ groups : List (AIMessageChunk β × List (AIMessageChunk β)),
    fragments = groups.flatMap (fun group => group.1 :: group.2) ∧
      chunks = groups.map fun group => lib.sum group.1 group.2

theorem assembled_some : ∀ (rest : List (AIMessageChunk β)) (c : AIMessageChunk β),
    StreamAssembler.assembled lib (some c) rest = some (lib.sum c rest)
  | [], _ => rfl
  | y :: rest, c => assembled_some rest (lib.add c y)

/-- However a response was cut, the same is assembled. -/
theorem assembled_chunking (lawful : lib.Lawful) {fragments chunks : List (AIMessageChunk β)}
    (cut : lib.Chunking fragments chunks) (each : ∀ c ∈ fragments, Fragment c) :
    ∀ held, StreamAssembler.assembled lib held chunks =
      StreamAssembler.assembled lib held fragments := by
  obtain ⟨groups, rfl, rfl⟩ := cut
  induction groups with
  | nil => exact fun _ => rfl
  | cons group groups ih =>
      intro held
      rw [List.flatMap_cons] at each ⊢
      have first : Fragment group.1 := each _ (List.mem_append_left _ (List.mem_cons_self ..))
      have later := ih (fun c hc => each c (List.mem_append_right _ hc))
      have here : some (lib.extend held (lib.sum group.1 group.2)) =
          StreamAssembler.assembled lib held (group.1 :: group.2) := by
        show _ = StreamAssembler.assembled lib (some (lib.extend held group.1)) group.2
        rw [assembled_some]
        cases held with
        | none => rfl
        | some c => exact congrArg some (add_sum lawful first.apart)
      show StreamAssembler.assembled lib
        (some (lib.extend held (lib.sum group.1 group.2))) _ = _
      rw [here, later]
      unfold StreamAssembler.assembled
      rw [List.foldl_append]

theorem sum_calls : ∀ (rest : List (AIMessageChunk β)) (first : AIMessageChunk β),
    (lib.sum first rest).toolCallChunks =
      lib.merging.merge first.toolCallChunks (rest.flatMap (·.toolCallChunks))
  | [], _ => rfl
  | y :: rest, first => by
      have later := sum_calls rest (lib.add first y)
      unfold Merging.merge at later ⊢
      rw [List.flatMap_cons, List.foldl_append]
      exact later

theorem text_join (x y : ToolCallChunk) : (lib.merging.join x y).text = x.text ++ y.text := by
  cases x with
  | mk _ args _ _ =>
      cases y with
      | mk _ args' _ _ =>
          cases args <;> cases args' <;>
            simp [merging, ToolCallChunk.join, ToolCallChunk.text]

/-- What the chunks bring for calls, one after the other. -/
def brought (chunks : List (AIMessageChunk β)) : List ToolCallChunk :=
  chunks.flatMap (·.toolCallChunks)

/-- What the chunks bring for one call index, one after the other. -/
def textAt (lib : MessageLibrary β σ) (chunks : List (AIMessageChunk β)) (index : Int) : List Char :=
  lib.merging.readAt ToolCallChunk.text index (brought chunks)

/-- The assembled calls are what the first chunk brings, merged with what came after it. -/
theorem assembled_calls {chunks : List (AIMessageChunk β)} {held : AIMessageChunk β}
    (h : StreamAssembler.assembled lib none chunks = some held) :
    ∃ first rest, chunks = first :: rest ∧
      held.toolCallChunks = lib.merging.merge first.toolCallChunks (brought rest) := by
  cases chunks with
  | nil => cases h
  | cons first rest =>
      have sums : lib.sum first rest = held :=
        Option.some.inj ((assembled_some rest first).symm.trans h)
      exact ⟨first, rest, rfl, sums ▸ sum_calls rest first⟩

/-- An assembled call is an entry that came, joined with later ones of its index. -/
theorem built_assembled (lawful : lib.Lawful) {chunks : List (AIMessageChunk β)}
    {held : AIMessageChunk β} (h : StreamAssembler.assembled lib none chunks = some held)
    {call : ToolCallChunk} (hcall : call ∈ held.toolCallChunks) :
    lib.merging.Built (brought chunks) call := by
  obtain ⟨first, rest, rfl, calls⟩ := assembled_calls h
  rw [calls] at hcall
  exact Merging.mem_merge lawful.merging hcall

theorem text_foldl : ∀ (later : List ToolCallChunk) (first : ToolCallChunk),
    (later.foldl lib.merging.join first).text = first.text ++ later.flatMap ToolCallChunk.text
  | [], _ => (List.append_nil _).symm
  | e :: later, first => by
      rw [List.foldl_cons, text_foldl later, text_join, List.flatMap_cons, List.append_assoc]

/-- The text of an assembled call is all that came for its index, in order. -/
theorem text_assembled (lawful : lib.Lawful) {chunks : List (AIMessageChunk β)}
    {held : AIMessageChunk β} (h : StreamAssembler.assembled lib none chunks = some held)
    {call : ToolCallChunk} (hcall : call ∈ held.toolCallChunks) {index : Int}
    (key : call.index = some index) (alone : lib.merging.Alone index held.toolCallChunks) :
    call.text = lib.textAt chunks index := by
  obtain ⟨first, rest, rfl, calls⟩ := assembled_calls h
  have own : lib.merging.readAt ToolCallChunk.text index held.toolCallChunks = call.text :=
    Merging.readAt_of_mem alone hcall key
  rw [calls] at alone
  rw [← own, calls, Merging.readAt_merge lawful.merging text_join _ _ alone,
    ← Merging.readAt_append]
  rfl

end MessageLibrary

end Chunkings

/-! ## Whole streams -/

/-- The text of a call is a complete JSON object.  It is put together of entries that came for the
call's index, in the order in which they came; it is all of them if no other call has that index.  What
came without an index is a call as it came. -/
structure Strict (lib : MessageLibrary β σ) (chunks : List (AIMessageChunk β))
    (calls : List ToolCallChunk) (call : ToolCallChunk) : Prop where
  object : ∃ value, lib.loads call.text = some value ∧ value.IsObject
  pieces : ∃ first later, (first :: later).Sublist (MessageLibrary.brought chunks) ∧
    (∀ e ∈ later, lib.merging.Same first e) ∧ call.index = first.index ∧
    call.text = first.text ++ later.flatMap ToolCallChunk.text
  apart : call.index = none → call ∈ MessageLibrary.brought chunks
  whole : ∀ index, call.index = some index → lib.merging.Alone index calls →
    call.text = lib.textAt chunks index

theorem strict_assembled (lawful : lib.Lawful) {chunks : List (AIMessageChunk β)}
    {held : AIMessageChunk β} (h : StreamAssembler.assembled lib none chunks = some held)
    {call : ToolCallChunk} (hcall : call ∈ held.toolCallChunks)
    (object : ∃ value, lib.loads call.text = some value ∧ value.IsObject) :
    Strict lib chunks held.toolCallChunks call := by
  have built := MessageLibrary.built_assembled lawful h hcall
  constructor
  · exact object
  · obtain ⟨first, later, taken, own, same⟩ := built
    refine ⟨first, later, taken, own, ?_, ?_⟩
    · rw [same]
      exact Merging.key_foldl lawful.merging later first
    · rw [same]
      exact MessageLibrary.text_foldl later first
  · intro unkeyed
    exact built.mem_of_key unkeyed lawful.merging
  · intro index key alone
    exact MessageLibrary.text_assembled lawful h hcall key alone

/-- The calls of the turn are the strict readings of the calls that were assembled of the chunks.  Each
has an id of its own and is bound. -/
def Executable (lib : MessageLibrary β σ) (schemas : Option (Catalog σ))
    (chunks : List (AIMessageChunk β)) (turn : ValidatedAssistantTurn) : Prop :=
  ∃ held, StreamAssembler.assembled lib none chunks = some held ∧
    turn.message.toolCalls = held.toolCallChunks.map lib.read ∧
    (∀ call ∈ held.toolCallChunks, Strict lib chunks held.toolCallChunks call) ∧
    (∀ call ∈ turn.message.toolCalls, call.identity ≠ "" ∧ BoundCall lib schemas call) ∧
    (turn.message.toolCalls.map ToolCall.identity).Nodup

/-- Whatever is pushed, a turn that `finish` returns holds only executable calls.  A push of another
attempt or after `finish` is rejected and changes nothing.  However a response is cut into chunks, the
result is the same. -/
theorem stream_executable (lib : MessageLibrary β σ) (lawful : lib.Lawful) (attemptId : String) :
    (∀ (pieces : List (String × StreamPiece β)) (completed : Bool) (schemas : Option (Catalog σ))
      (fresh : String) (turn : ValidatedAssistantTurn),
      ((StreamAssembler.feed lib { attemptId } pieces).finish lib completed schemas fresh).1 =
        .ok turn →
      Executable lib schemas (StreamAssembler.accepted lib attemptId pieces) turn) ∧
    (∀ (s : StreamAssembler β) (other : String) (piece : StreamPiece β) (completed : Bool)
      (schemas : Option (Catalog σ)) (fresh : String),
      (other ≠ s.attemptId → s.push lib other piece =
        (.error (turnFault .streamState "Attempt stream identity or completion mismatch"), s)) ∧
      (s.finish lib completed schemas fresh).2.push lib other piece =
        (.error (turnFault .streamState "Attempt stream identity or completion mismatch"),
          (s.finish lib completed schemas fresh).2)) ∧
    (∀ (fragments chunks chunks' : List (AIMessageChunk β)),
      (∀ c ∈ fragments, MessageLibrary.Fragment c) → lib.Chunking fragments chunks →
      lib.Chunking fragments chunks' →
      ∀ (completed : Bool) (schemas : Option (Catalog σ)) (fresh : String),
      (StreamAssembler.feed lib { attemptId } (chunks.map (attemptId, .chunk ·))).finish
          lib completed schemas fresh =
        (StreamAssembler.feed lib { attemptId } (chunks'.map (attemptId, .chunk ·))).finish
          lib completed schemas fresh) := by
  refine ⟨?_, ?_, ?_⟩
  · intro pieces completed schemas fresh turn h
    rw [StreamAssembler.feed_eq rfl] at h
    obtain ⟨held, found, strict, calls, each, distinct⟩ := StreamAssembler.turn_ok lawful h
    refine ⟨held, found, calls, fun call hcall => ?_, each, distinct⟩
    exact strict_assembled lawful found hcall (strict call hcall)
  · intro s other piece completed schemas fresh
    exact ⟨fun h => StreamAssembler.push_rejected piece (.inl h),
      StreamAssembler.push_rejected piece (.inr rfl)⟩
  · intro fragments chunks chunks' each cut cut' completed schemas fresh
    have own : ∀ chunks : List (AIMessageChunk β),
        StreamAssembler.accepted lib attemptId (chunks.map (attemptId, .chunk ·)) = chunks := by
      intro chunks
      induction chunks with
      | nil => rfl
      | cons c chunks ih =>
          simp only [StreamAssembler.accepted, List.map_cons, List.filter_cons, decide_true,
            if_true] at ih ⊢
          exact congrArg (c :: ·) ih
    rw [StreamAssembler.feed_eq rfl, StreamAssembler.feed_eq rfl, own, own,
      MessageLibrary.assembled_chunking lawful cut each none,
      MessageLibrary.assembled_chunking lawful cut' each none]

namespace Sample

/-- A library that knows the empty object. -/
def messageLibrary : MessageLibrary Unit Unit where
  joinId a _ := a
  joinMetadata a b :=
    { finishReason := a.finishReason.or b.finishReason, stopReason := a.stopReason.or b.stopReason
      done := a.done || b.done }
  joinBody _ _ := ()
  ofMessage m :=
    { toolCallChunks := m.toolCalls.map fun call =>
        { name := some call.name, args := some call.args.dumps, id := call.id }
      responseMetadata := m.responseMetadata
      body := () }
  toMessage c :=
    { toolCalls := c.toolCallChunks.map fun call =>
        { name := call.name.getD "", id := call.id
          args := (if call.text = ['\x7b', '\x7d'] then some (.object []) else none).getD .null }
      responseMetadata := c.responseMetadata }
  loads text := if text = ['\x7b', '\x7d'] then some (.object []) else none
  validate _ _ := .valid

theorem messageLibrary_lawful : messageLibrary.Lawful where
  id_assoc _ _ _ := rfl
  metadata_assoc a b c := by
    simp only [messageLibrary, Option.or_assoc, Bool.or_assoc]
  body_assoc _ _ _ := rfl
  calls _ _ := rfl

/-- A call whose arguments come in two chunks. -/
def splitCall : List (String × StreamPiece Unit) :=
  [("one", .chunk { body := (), toolCallChunks :=
      [{ name := some "echo", args := some ['\x7b'], id := some "call", index := some 0 }] }),
    ("one", .chunk { body := (), toolCallChunks := [{ args := some ['\x7d'], index := some 0 }] })]

end Sample

theorem stream_executable_split : ∃ turn,
    ((StreamAssembler.feed Sample.messageLibrary { attemptId := "one" } Sample.splitCall).finish
      Sample.messageLibrary true (some [("echo", ())]) "message").1 = .ok turn ∧
    turn.message.callIds = ["call"] ∧
    Executable Sample.messageLibrary (some [("echo", ())])
      (StreamAssembler.accepted Sample.messageLibrary "one" Sample.splitCall) turn := by
  have returns : ∃ turn, ((StreamAssembler.feed Sample.messageLibrary { attemptId := "one" }
      Sample.splitCall).finish Sample.messageLibrary true (some [("echo", ())]) "message").1 =
      .ok turn ∧ turn.message.callIds = ["call"] := ⟨_, rfl, rfl⟩
  obtain ⟨turn, h, ids⟩ := returns
  exact ⟨turn, h, ids, (stream_executable Sample.messageLibrary Sample.messageLibrary_lawful "one").1
    _ _ _ _ _ h⟩

end MiHarness
