import Polaris.Runtime.Replay

namespace Polaris
open PyJson SortedDict

theorem NonBlank.ne_empty (s : NonBlank) : s.1 ≠ "" := by
  intro h
  have hblank := s.2
  rw [h] at hblank
  exact absurd hblank (by decide)

def canonicalText (v : PyVal) : Except PyError String := do
  return (← canonicalJson v).text

namespace Message

def system (text : String) : Message := ⟨.system, .text text, none, [], none, by simp⟩

def user (text : String) : Message := ⟨.user, .text text, none, [], none, by simp⟩

def toolReply (call : ToolCall) (text : String) : Message :=
  ⟨.tool, .text text, some call.name, [], some call.id, fun _ => by simp [call.id.ne_empty]⟩

def textOf (message : Message) : Except PyError String :=
  match message.content with
  | .text s => .ok s
  | .none => .ok ""
  | .parts views => canonicalText (.seq .list (views.map JsonObject.toDict))

end Message

namespace Agent
variable (rt : AgentRuntime)

/-- `mapping.get(key)`, or a default for what is not a mapping. -/
def getIfMapping (key : String) (fallback : PyVal) : PyVal → PyVal
  | .map _ es => getOrNone key es
  | _ => fallback

def userContent (run : RunRecord) : Except PyError String := do
  let prompt := getIfMapping "prompt" run.request.value run.request.value
  let content ← match prompt with
    | .str s => pure s
    | v => canonicalText v
  match getIfMapping "memory_context" (optStr rt.config.memoryContext) run.config.value with
  | .str context => return if context = "" then content else content ++ "\n\n" ++ context
  | _ => return content

def systemPrompt (run : RunRecord) : PyVal :=
  match run.config.value with
  | .map _ es => (lookup "system_prompt" es).getD (.str rt.config.systemPrompt)
  | _ => .str rt.config.systemPrompt

def initialMessages (run : RunRecord) : Except PyError (List Message) := do
  let content ← userContent rt run
  let prompt := systemPrompt rt run
  return (if truthy rt.py prompt then [Message.system (rt.py.strOf prompt)] else []) ++
    [Message.user content]

def isCommittedModel (step : StepRecord) : Bool :=
  step.kind = "model" && step.status = .committed && isMapping step.outputValue

def iterationOf (step : StepRecord) : Except PyError ℤ := do
  rt.py.intOf (← subscript "iteration" step.input.value)

def committedModels (steps : List StepRecord) : Except PyError (List (ℤ × CompletionResult)) :=
  steps.foldlM (fun models step =>
    if isCommittedModel step then do
      let iteration ← iterationOf rt step
      let completion ← deserializeCompletion rt.py step.outputValue
      return insertKey iteration completion models
    else return models) []

/-- A tool step of the iteration that recovers no other step. -/
def isOriginalOf (iteration : ℤ) (step : StepRecord) : Except PyError Bool :=
  if step.kind = "tool" then do
    let es ← withGet step.input.value
    return equalsInt rt.py iteration (getOrNone "iteration" es) && (lookup "recovery_of" es).isNone
  else .ok false

def originalSteps (iteration : ℤ) (steps : List StepRecord) :
    Except PyError (List (ℤ × StepRecord)) := do
  let originals ← filterE (isOriginalOf rt iteration) steps
  originals.foldlM (fun byIndex step => do
    let index ← rt.py.intOf (← subscript "call_index" step.input.value)
    return setKey index step byIndex) []

def outputsFrom (runId : String) (originals : List (ℤ × StepRecord)) :
    ℤ → List ToolCall → Agent (Option (List PyVal))
  | _, [] => return some []
  | index, _ :: calls =>
      match lookup index originals with
      | none => return none
      | some step => do
          match ← recordedToolOutput runId step with
          | none => return none
          | some output => return (← outputsFrom runId originals (index + 1) calls).map (output :: ·)

def toolOutputs (runId : String) (iteration : ℤ) (calls : List ToolCall) :
    Agent (Option (List PyVal)) := do
  let steps ← listSteps runId
  let originals ← .ofExcept (originalSteps rt iteration steps)
  outputsFrom runId originals 0 calls

def toolReplies (calls : List ToolCall) (outputs : List PyVal) : Except PyError (List Message) :=
  (calls.zip outputs).mapM fun (call, output) => do
    return .toolReply call (← canonicalText output)

structure Conversation where
  messages : List Message
  iteration : ℤ
  finalText : Option String

def replayTurns (runId : String) : List (ℤ × CompletionResult) → List Message → ℤ → Agent Conversation
  | [], messages, next => return ⟨messages, next, none⟩
  | (iteration, completion) :: turns, messages, next =>
      if iteration ≠ next then return ⟨messages, next, none⟩
      else do
        let messages := messages ++ [completion.message]
        if completion.message.toolCalls = [] then
          let text ← .ofExcept completion.message.textOf
          return ⟨messages, iteration + 1, some text⟩
        else
          match ← toolOutputs rt runId iteration completion.message.toolCalls with
          | none => return ⟨messages, iteration, none⟩
          | some outputs => do
              let replies ← .ofExcept (toolReplies completion.message.toolCalls outputs)
              replayTurns runId turns (messages ++ replies) (iteration + 1)

def reconstruct (runId : String) : Agent Conversation := do
  let run ← getRun runId
  let messages ← .ofExcept (initialMessages rt run)
  let steps ← listSteps runId
  let models ← .ofExcept (committedModels rt steps)
  replayTurns rt runId models messages 0

def turnCalls (iteration : ℤ) : List StepRecord → Except PyError (List ToolCall)
  | [] => .ok []
  | step :: steps =>
      if step.kind = "model" ∧ step.status = .committed then do
        let committed ← iterationOf rt step
        if committed = iteration && isMapping step.outputValue then
          return (← deserializeCompletion rt.py step.outputValue).message.toolCalls
        else turnCalls iteration steps
      else turnCalls iteration steps

def outstandingToolCalls (runId : String) (iteration : ℤ) : Agent (List ToolCall) := do
  let steps ← listSteps runId
  .ofExcept (turnCalls rt iteration steps)

def callSignature (calls : List ToolCall) : Except PyError String :=
  canonicalText (.seq .list (calls.map fun call =>
    dict [("name", .str call.name), ("arguments", call.arguments.toDict)]))

def callSignatures : List StepRecord → Except PyError (List String)
  | [] => .ok []
  | step :: steps => do
      let first ← if isCommittedModel step then do
          let completion ← deserializeCompletion rt.py step.outputValue
          if completion.message.toolCalls = [] then pure []
          else pure [← callSignature completion.message.toolCalls]
        else pure []
      return first ++ (← callSignatures steps)

def hasRepeatedToolCalls (runId : String) : Agent Bool := do
  let steps ← listSteps runId
  let signatures ← .ofExcept (callSignatures rt steps)
  let threshold := rt.config.noProgressThreshold
  let last := signatures.drop (signatures.length - threshold)
  return threshold ≤ signatures.length && last.dedup.length = 1

structure AgentResult where
  runId : String
  status : RunStatus
  finalText : Option String
  actualModels : List String
  usage : Usage

def modelNames (calls : List ProviderCallRecord) : List String :=
  calls.foldl (fun models call =>
    match call.model with
    | some model => if model ∈ models then models else models ++ [model]
    | none => models) []

def result (runId : String) : Agent AgentResult := do
  let run ← getRun runId
  let conversation ← reconstruct rt runId
  let calls := (← listProviderCalls runId).filter fun call => call.status = .completed
  let prompt := (calls.map ProviderCallRecord.inputTokens).sum
  let completion := (calls.map ProviderCallRecord.outputTokens).sum
  let usage ← .ofExcept (Usage.make prompt completion (prompt + completion) .null .null .null .null)
  return ⟨runId, run.status, conversation.finalText, modelNames calls, usage⟩

end Agent

end Polaris
