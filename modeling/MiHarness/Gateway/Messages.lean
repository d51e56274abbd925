import MiHarness.Core.Json

/-!
# Messages

The messages of the message library, with the fields that the model gateway and the runtime read.
A tool call names its tool, its arguments and an id that may be missing; `ToolCall.identity` reads a
missing id as the empty one, as `not call.get("id")` does.
-/

namespace MiHarness

inductive GatewayCode where
  | invalidHistory | truncatedResponse | invalidResponse | invalidToolArguments | invalidToolId
  | unknownTool | streamState | incompleteStream
deriving DecidableEq, Repr

structure GatewayError where
  code : GatewayCode
  message : String
  retryable : Bool := false
deriving DecidableEq, Repr

structure ToolCall where
  name : String
  args : JsonData
  id : Option String

def ToolCall.identity (call : ToolCall) : String := call.id.getD ""

inductive ToolStatus where
  | success | error
deriving DecidableEq, Repr

structure ToolMessage where
  toolCallId : String
  status : ToolStatus := .success
deriving DecidableEq, Repr

/-- What the provider says of the end of its response. -/
structure ResponseMetadata where
  finishReason : Option String := none
  stopReason : Option String := none
  done : Bool := false
deriving DecidableEq, Repr

structure UsageMetadata where
  inputTokens : Option Nat := none
  outputTokens : Option Nat := none
  totalTokens : Option Nat := none
deriving DecidableEq, Repr

/-- An assistant message.  A call whose arguments the library could not read is an invalid one. -/
structure AIMessage where
  id : Option String := none
  toolCalls : List ToolCall := []
  invalidToolCalls : Nat := 0
  responseMetadata : ResponseMetadata := {}
  usageMetadata : Option UsageMetadata := none

def AIMessage.callIds (m : AIMessage) : List String := m.toolCalls.map ToolCall.identity

inductive BaseMessage where
  | human
  | system
  | ai (message : AIMessage)
  | tool (message : ToolMessage)

/-- The tool calls of a message. -/
def BaseMessage.toolCalls : BaseMessage → List ToolCall
  | .ai message => message.toolCalls
  | _ => []

end MiHarness
