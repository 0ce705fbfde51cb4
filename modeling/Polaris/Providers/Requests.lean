import Polaris.Runtime.Serialization

namespace Polaris
open PyJson PyVal SortedDict

inductive ProviderApi where
  | chatCompletions
  | responses
  | ollama
deriving DecidableEq, Repr

/-- `dict(value)` of a mapping whose `get` was called. -/
def dictOf (es : List (String × PyVal)) : PyVal := dict es

def isFunctionTool (es : List (String × PyVal)) : Bool :=
  lookup "type" es = some (.str "function")

def functionTool (es : List (String × PyVal)) : List (String × PyVal) :=
  [("type", .str "function"), ("function", dictOf es)]

def normalizeChatTool (tool : PyVal) : Except PyError (List (String × PyVal)) := do
  let es ← withGet tool
  return if isFunctionTool es && isMapping (getOrNone "function" es) then es else functionTool es

def normalizeOllamaTool (tool : PyVal) : Except PyError (List (String × PyVal)) := do
  let es ← withGet tool
  return if isFunctionTool es then es else functionTool es

def responseKeys : List String := ["name", "description", "parameters", "strict"]

/-- The keys of a tool that are sent, without those that are missing or `None`. -/
def sentEntries (es : List (String × PyVal)) : List (String × PyVal) :=
  responseKeys.filterMap fun key => match getOrNone key es with
    | .null => none
    | v => some (key, v)

def rawFunction (es : List (String × PyVal)) : List (String × PyVal) :=
  match isFunctionTool es, getOrNone "function" es with
  | true, .map _ fs => fs
  | _, _ => es

def normalizeResponseTool (tool : PyVal) : Except PyError (List (String × PyVal)) := do
  let item := ("type", PyVal.str "function") :: sentEntries (rawFunction (← withGet tool))
  match getOrNone "name" item with
  | .str _ => return item
  | _ => .error ⟨.providerError "ProviderConfigurationError", "tool definitions require a name"⟩

def jsonText (v : PyVal) : String := String.ofList (text v)

def responsesItems (message : Message) : List PyVal :=
  if message.role = .tool then
    let output := match message.content with
      | .text s => s
      | .none => "null"
      | .parts views => jsonText (.seq .list (views.map JsonObject.toDict))
    [dict [("type", .str "function_call_output"), ("call_id", optStr message.toolCallId),
      ("output", .str output)]]
  else
    (if message.content = .none then []
      else [dict [("role", .str message.role.value), ("content", message.contentValue)]]) ++
    message.toolCalls.map fun call =>
      dict [("type", .str "function_call"), ("call_id", .str call.id), ("name", .str call.name),
        ("arguments", .str (jsonText call.arguments.toDict.normal))]

/-- The elements of what `for tool in tools` runs over. -/
def iterate : PyVal → Except PyError (List PyVal)
  | .seq _ items => .ok items
  | .map _ es => .ok (es.map fun e => .str e.1)
  | .str s => .ok (s.toList.map fun c => .str (String.ofList [c]))
  | v => .error (typeError ("'" ++ typeName v ++ "' object is not iterable"))

def sentTools (normalize : PyVal → Except PyError (List (String × PyVal))) :
    PyVal → Except PyError (List (String × PyVal))
  | .null => .ok []
  | tools => do
      let normalized ← (← iterate tools).mapM normalize
      return [("tools", .seq .list (normalized.map dictOf))]

namespace ProviderApi

def normalizeTool : ProviderApi → PyVal → Except PyError (List (String × PyVal))
  | .chatCompletions => normalizeChatTool
  | .responses => normalizeResponseTool
  | .ollama => normalizeOllamaTool

def bodyOf (model : String) (messages : List Message) : ProviderApi → List (String × PyVal)
  | .chatCompletions =>
      [("model", .str model), ("messages", .seq .list (messages.map Message.toDict))]
  | .responses => [("model", .str model), ("input", .seq .list (messages.flatMap responsesItems))]
  | .ollama =>
      [("model", .str model), ("messages", .seq .list (messages.map Message.toDict)),
        ("stream", .bool false)]

/-- The JSON body of the request, without a response schema: the runtime gives none. -/
def requestBody (model : String) (messages : List Message) (tools : PyVal) (api : ProviderApi) :
    Except PyError PyVal := do
  let sent ← sentTools api.normalizeTool tools
  return dict (api.bodyOf model messages ++ sent)

end ProviderApi

/-! What an encoder takes that knows dicts, lists, tuples, text, numbers, booleans and `None`. -/

mutual
def encodable : PyVal → Bool
  | .seq _ xs => itemsEncodable xs
  | .map .dict es => entriesEncodable es
  | .map .proxy _ => false
  | _ => true
def itemsEncodable : List PyVal → Bool
  | [] => true
  | x :: xs => encodable x && itemsEncodable xs
def entriesEncodable : List (String × PyVal) → Bool
  | [] => true
  | (_, x) :: es => encodable x && entriesEncodable es
end

end Polaris
