import Polaris.Journal.Stored
import Polaris.Providers.Base

namespace Polaris
open PyJson PyVal SortedDict

def optNat (n : Option ℕ) : PyVal := n.elim .null fun n => .int n

def serializeToolCall (call : ToolCall) : PyVal :=
  dict [("id", .str call.id), ("name", .str call.name), ("arguments", call.arguments.toDict)]

def serializeMessage (message : Message) : PyVal :=
  dict [("role", .str message.role.value), ("content", message.contentValue),
    ("name", optStr message.name),
    ("tool_calls", .seq .list (message.toolCalls.map serializeToolCall)),
    ("tool_call_id", optStr message.toolCallId)]

def usageEntries (usage : Usage) : List (String × PyVal) :=
  [("prompt_tokens", .int usage.promptTokens),
    ("completion_tokens", .int usage.completionTokens),
    ("total_tokens", .int usage.totalTokens),
    ("total_duration_ns", optNat usage.totalDurationNs),
    ("load_duration_ns", optNat usage.loadDurationNs),
    ("prompt_eval_duration_ns", optNat usage.promptEvalDurationNs),
    ("eval_duration_ns", optNat usage.evalDurationNs)]

def serializeUsage (usage : Usage) : PyVal := dict (usageEntries usage)

def serializeCompletion (result : CompletionResult) : PyVal :=
  dict [("message", serializeMessage result.message), ("model", .str result.model),
    ("usage", serializeUsage result.usage), ("finish_reason", optStr result.finishReason),
    ("response_id", optStr result.responseId)]

def getItem (key : String) (es : List (String × PyVal)) : Except PyError PyVal :=
  match lookup key es with
  | some v => .ok v
  | none => .error ⟨.keyError, Journal.pyRepr key⟩

def getOrNone (key : String) (es : List (String × PyVal)) : PyVal := (lookup key es).getD .null

def withGet : PyVal → Except PyError (List (String × PyVal))
  | .map _ es => .ok es
  | v => .error ⟨.attributeError, "'" ++ typeName v ++ "' object has no attribute 'get'"⟩

def requireMapping (message : String) : PyVal → Except PyError (List (String × PyVal))
  | .map _ es => .ok es
  | _ => .error (typeError message)

def deserializeToolCall (py : PyBuiltins) (value : PyVal) : Except PyError ToolCall := do
  let es ← withGet value
  let arguments := (lookup "arguments" es).getD (dict [])
  let _ ← requireMapping "serialized tool call arguments must be a mapping" arguments
  let id ← getItem "id" es
  let name ← getItem "name" es
  ToolCall.make (py.strOf id) (py.strOf name) arguments

def callsOf (es : List (String × PyVal)) : Except PyError (List PyVal) :=
  match lookup "tool_calls" es with
  | none => .ok []
  | some (.seq _ calls) => .ok calls
  | some _ => .error (typeError "serialized message tool_calls must be a sequence")

def isMapping : PyVal → Bool
  | .map _ _ => true
  | _ => false

def requireContent : PyVal → Except PyError Unit
  | .null => .ok ()
  | .str _ => .ok ()
  | .seq _ parts =>
      if parts.all isMapping then .ok ()
      else .error (typeError "serialized message content is invalid")
  | _ => .error (typeError "serialized message content is invalid")

def deserializeMessage (py : PyBuiltins) (es : List (String × PyVal)) : Except PyError Message := do
  let calls ← callsOf es
  let content := getOrNone "content" es
  requireContent content
  let role ← getItem "role" es
  let toolCalls ← calls.mapM (deserializeToolCall py)
  Message.make py role content (getOrNone "name" es) toolCalls (getOrNone "tool_call_id" es)

def usageCount (py : PyBuiltins) (key : String) (es : List (String × PyVal)) : Except PyError ℤ :=
  py.intOf ((lookup key es).getD (.int 0))

def deserializeUsage (py : PyBuiltins) (es : List (String × PyVal)) : Except PyError Usage := do
  let prompt ← usageCount py "prompt_tokens" es
  let completion ← usageCount py "completion_tokens" es
  let total ← usageCount py "total_tokens" es
  Usage.make prompt completion total (getOrNone "total_duration_ns" es)
    (getOrNone "load_duration_ns" es) (getOrNone "prompt_eval_duration_ns" es)
    (getOrNone "eval_duration_ns" es)

def deserializeCompletion (py : PyBuiltins) (value : PyVal) : Except PyError CompletionResult := do
  let es ← withGet value
  let messageEntries ←
    requireMapping "serialized completion message must be a mapping" (getOrNone "message" es)
  let usageEntries ← requireMapping "serialized completion usage must be a mapping"
    ((lookup "usage" es).getD (dict []))
  let message ← deserializeMessage py messageEntries
  let model ← getItem "model" es
  let usage ← deserializeUsage py usageEntries
  CompletionResult.make message (py.strOf model) usage (getOrNone "finish_reason" es)
    (getOrNone "response_id" es)

end Polaris
