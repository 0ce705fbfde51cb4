import Mathlib.Data.List.DropRight
import Polaris.Journal.Steps

namespace Polaris
open PyJson PyVal SortedDict

/-- What Python's `str`, `repr` and `int` make of a value that is neither text nor a whole
number, and when it takes a float for equal to a whole number. -/
structure PyBuiltins where
  str : PyVal → String
  repr : PyVal → String
  int : PyVal → Except PyError ℤ
  floatIs : PyFloat → ℤ → Bool

namespace PyBuiltins

def strOf (py : PyBuiltins) : PyVal → String
  | .str s => s
  | v => py.str v

def reprOf (py : PyBuiltins) : PyVal → String
  | .str s => Journal.pyRepr s
  | v => py.repr v

def intOf (py : PyBuiltins) : PyVal → Except PyError ℤ
  | .int n => .ok n
  | .bool b => .ok (if b then 1 else 0)
  | v => py.int v

end PyBuiltins

def typeError (message : String) : PyError := ⟨.typeError, message⟩

def typeName : PyVal → String
  | .null => "NoneType"
  | .bool _ => "bool"
  | .int _ => "int"
  | .float _ => "float"
  | .str _ => "str"
  | .seq .list _ => "list"
  | .seq .tuple _ => "tuple"
  | .map .dict _ => "dict"
  | .map .proxy _ => "mappingproxy"

/-- The characters `str.strip` drops. -/
def isSpace (c : Char) : Bool :=
  let n := c.toNat
  (9 ≤ n && n ≤ 13) || (28 ≤ n && n ≤ 32) || n = 0x85 || n = 0xa0 || n = 0x1680 ||
    (0x2000 ≤ n && n ≤ 0x200a) || n = 0x2028 || n = 0x2029 || n = 0x202f || n = 0x205f || n = 0x3000

/-- `str.strip` -/
def pyStrip (s : String) : String := String.ofList ((s.toList.dropWhile isSpace).rdropWhile isSpace)

def isBlankText (s : String) : Bool := s.toList.all isSpace

abbrev NonBlank := {s : String // isBlankText s = false}

def requireStr (s fieldName : String) : Except PyError NonBlank :=
  if h : isBlankText s = false then .ok ⟨s, h⟩
  else .error (typeError (fieldName ++ " must be a non-empty string"))

mutual
def jsonCopy (fieldName : String) : PyVal → Except PyError PyVal
  | .seq .list xs => do return .seq .list (← copyItems fieldName xs)
  | .seq .tuple _ => .error (typeError (fieldName ++ " must contain only JSON values"))
  | .map _ es => do return .map .dict (ofPairs (← copyEntries fieldName es))
  | v => .ok v
def copyItems (fieldName : String) : List PyVal → Except PyError (List PyVal)
  | [] => .ok []
  | x :: xs => do
      let copied ← jsonCopy fieldName x
      return copied :: (← copyItems fieldName xs)
def copyEntries (fieldName : String) :
    List (String × PyVal) → Except PyError (List (String × PyVal))
  | [] => .ok []
  | (k, x) :: es => do
      let copied ← jsonCopy fieldName x
      return (k, copied) :: (← copyEntries fieldName es)
end

mutual
theorem jsonCopy_plain {fieldName : String} : ∀ {v w : PyVal},
    jsonCopy fieldName v = .ok w → w.isPlain = true
  | .null, w, h | .bool _, w, h | .int _, w, h | .float _, w, h | .str _, w, h => by
      simp only [jsonCopy, Except.ok.injEq] at h
      exact h ▸ rfl
  | .seq .list xs, w, h => by
      simp only [jsonCopy, bind_eq_ok, pure_eq_ok] at h
      obtain ⟨ys, hys, rfl⟩ := h
      exact copyItems_plain hys
  | .seq .tuple _, w, h => by simp [jsonCopy] at h
  | .map _ es, w, h => by
      simp only [jsonCopy, bind_eq_ok, pure_eq_ok] at h
      obtain ⟨fs, hfs, rfl⟩ := h
      have hplain := entriesPlain_iff.1 (copyEntries_plain hfs)
      simp only [isPlain, Bool.and_eq_true, decide_eq_true_eq]
      exact ⟨ofPairs_nodup fs, entriesPlain_iff.2 fun e he => hplain e (mem_ofPairs he)⟩
theorem copyItems_plain {fieldName : String} : ∀ {xs ys : List PyVal},
    copyItems fieldName xs = .ok ys → itemsPlain ys = true
  | [], ys, h => by
      simp only [copyItems, Except.ok.injEq] at h
      exact h ▸ rfl
  | x :: xs, ys, h => by
      simp only [copyItems, bind_eq_ok, pure_eq_ok] at h
      obtain ⟨y, hy, ys, hys, rfl⟩ := h
      simp [itemsPlain, jsonCopy_plain hy, copyItems_plain hys]
theorem copyEntries_plain {fieldName : String} : ∀ {es fs : List (String × PyVal)},
    copyEntries fieldName es = .ok fs → entriesPlain fs = true
  | [], fs, h => by
      simp only [copyEntries, Except.ok.injEq] at h
      exact h ▸ rfl
  | (k, x) :: es, fs, h => by
      simp only [copyEntries, bind_eq_ok, pure_eq_ok] at h
      obtain ⟨y, hy, fs, hfs, rfl⟩ := h
      simp [entriesPlain, jsonCopy_plain hy, copyEntries_plain hfs]
end

structure JsonObject where
  entries : List (String × PyVal)
  plain : (PyVal.map .dict entries).isPlain = true
deriving DecidableEq, Repr

namespace JsonObject

def empty : JsonObject := ⟨[], rfl⟩

def toDict (o : JsonObject) : PyVal := dict o.entries

def ofValue (fieldName notMapping : String) (v : PyVal) : Except PyError JsonObject :=
  match h : jsonCopy fieldName v with
  | .error e => .error e
  | .ok (.map .dict es) => .ok ⟨es, jsonCopy_plain h⟩
  | .ok _ => .error (typeError notMapping)

end JsonObject

structure ToolCall where
  id : NonBlank
  name : NonBlank
  arguments : JsonObject
deriving DecidableEq

namespace ToolCall

def make (id name : String) (arguments : PyVal) : Except PyError ToolCall := do
  let id ← requireStr id "ToolCall.id"
  let name ← requireStr name "ToolCall.name"
  let copied ← JsonObject.ofValue "ToolCall.arguments" "ToolCall.arguments must be a mapping"
    arguments
  return ⟨id, name, copied⟩

def toDict (call : ToolCall) : PyVal :=
  dict [("id", .str call.id), ("type", .str "function"),
    ("function", dict [("name", .str call.name), ("arguments", call.arguments.toDict)])]

end ToolCall

inductive MessageRole where
  | system
  | developer
  | user
  | assistant
  | tool
deriving DecidableEq, Repr

namespace MessageRole

def value : MessageRole → String
  | .system => "system"
  | .developer => "developer"
  | .user => "user"
  | .assistant => "assistant"
  | .tool => "tool"

def ofValue (s : String) : Option MessageRole :=
  [system, developer, user, assistant, tool].find? fun role => role.value = s

@[simp] theorem ofValue_value (role : MessageRole) : ofValue role.value = some role := by
  cases role <;> rfl

end MessageRole

inductive Content where
  | none
  | text (s : String)
  | parts (parts : List JsonObject)
deriving DecidableEq, Repr

structure Message where
  role : MessageRole
  content : Content
  name : Option String
  toolCalls : List ToolCall
  toolCallId : Option String
  toolHasId : role = .tool → toolCallId.any (· ≠ "") = true
deriving DecidableEq

def optionalStr (fieldName : String) : PyVal → Except PyError (Option String)
  | .null => .ok none
  | .str s => .ok (some s)
  | _ => .error (typeError (fieldName ++ " must be a string or None"))

mutual
/-- Asking a set for a value hashes the value first. -/
def unhashable : PyVal → Option String
  | .seq .list _ => some "list"
  | .seq .tuple xs => unhashableItem xs
  | .map .dict _ => some "dict"
  | .map .proxy _ => some "mappingproxy"
  | _ => none
def unhashableItem : List PyVal → Option String
  | [] => none
  | x :: xs => (unhashable x).or (unhashableItem xs)
end

def requireHashable (v : PyVal) : Except PyError Unit :=
  match unhashable v with
  | some name => .error (typeError ("unhashable type: '" ++ name ++ "'"))
  | none => .ok ()

namespace Message

def copyPart (part : PyVal) : Except PyError JsonObject :=
  JsonObject.ofValue "Message.content" "Message content parts must be mappings" part

def copyContent : PyVal → Except PyError Content
  | .null => .ok .none
  | .str s => .ok (.text s)
  | .seq _ parts => do return .parts (← parts.mapM copyPart)
  | _ => .error (typeError
      "Message.content must be text, a sequence of content parts, or None")

def knownRole (py : PyBuiltins) (role : PyVal) : Except PyError MessageRole := do
  requireHashable role
  match role with
  | .str s =>
      match MessageRole.ofValue s with
      | some known => return known
      | none => .error ⟨.valueError, "invalid message role: " ++ py.reprOf role⟩
  | _ => .error ⟨.valueError, "invalid message role: " ++ py.reprOf role⟩

def make (py : PyBuiltins) (role content name : PyVal) (toolCalls : List ToolCall)
    (toolCallId : PyVal) : Except PyError Message := do
  let role ← knownRole py role
  let name ← optionalStr "Message.name" name
  let toolCallId ← optionalStr "Message.tool_call_id" toolCallId
  let content ← copyContent content
  if h : role = .tool → toolCallId.any (· ≠ "") = true then
    return ⟨role, content, name, toolCalls, toolCallId, h⟩
  else .error ⟨.valueError, "tool messages require tool_call_id"⟩

def contentValue (message : Message) : PyVal :=
  match message.content with
  | .none => .null
  | .text s => .str s
  | .parts parts => .seq .list (parts.map JsonObject.toDict)

def toDict (message : Message) : PyVal :=
  dict ([("role", .str message.role.value), ("content", message.contentValue)] ++
    (message.name.map fun name => ("name", .str name)).toList ++
    (if message.toolCalls = [] then []
      else [("tool_calls", .seq .list (message.toolCalls.map ToolCall.toDict))]) ++
    (message.toolCallId.map fun id => ("tool_call_id", .str id)).toList)

end Message

structure Usage where
  promptTokens : ℕ
  completionTokens : ℕ
  totalTokens : ℕ
  totalDurationNs : Option ℕ
  loadDurationNs : Option ℕ
  promptEvalDurationNs : Option ℕ
  evalDurationNs : Option ℕ
deriving DecidableEq, Repr

namespace Usage

def tokens (name : String) (n : ℤ) : Except PyError ℕ :=
  if 0 ≤ n then .ok n.toNat
  else .error (typeError ("Usage." ++ name ++ " must be a non-negative integer"))

def duration (name : String) (v : PyVal) : Except PyError (Option ℕ) :=
  let failure := typeError ("Usage." ++ name ++ " must be a non-negative integer or None")
  match v with
  | .null => .ok none
  | .int n => if 0 ≤ n then .ok (some n.toNat) else .error failure
  | _ => .error failure

def make (prompt completion total : ℤ) (totalDuration load promptEval eval : PyVal) :
    Except PyError Usage := do
  let promptTokens ← tokens "prompt_tokens" prompt
  let completionTokens ← tokens "completion_tokens" completion
  let totalTokens ← tokens "total_tokens" total
  let totalDurationNs ← duration "total_duration_ns" totalDuration
  let loadDurationNs ← duration "load_duration_ns" load
  let promptEvalDurationNs ← duration "prompt_eval_duration_ns" promptEval
  let evalDurationNs ← duration "eval_duration_ns" eval
  return ⟨promptTokens, completionTokens, totalTokens, totalDurationNs, loadDurationNs,
    promptEvalDurationNs, evalDurationNs⟩

end Usage

structure CompletionResult where
  message : Message
  model : NonBlank
  usage : Usage
  finishReason : Option String
  responseId : Option String
deriving DecidableEq

def CompletionResult.make (message : Message) (model : String) (usage : Usage)
    (finishReason responseId : PyVal) : Except PyError CompletionResult := do
  let model ← requireStr model "CompletionResult.model"
  let finishReason ← optionalStr "CompletionResult.finish_reason" finishReason
  let responseId ← optionalStr "CompletionResult.response_id" responseId
  return ⟨message, model, usage, finishReason, responseId⟩

end Polaris
