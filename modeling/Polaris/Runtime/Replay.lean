import Polaris.Runtime.Effects

namespace Polaris
open PyJson SortedDict

def toolResult : PyVal → PyVal
  | .map kind es => (lookup "result" es).getD (.map kind es)
  | v => v

def reconciledKey (stepId : String) : String := "runtime:reconciled:" ++ stepId

namespace Agent

def isReplacementOf (stepId : String) (candidate : StepRecord) : Except PyError Bool :=
  if candidate.kind = "tool" then do
    return (← candidate.inputGet "recovery_of") = .str stepId
  else .ok false

def recordedFrom (steps : List StepRecord) : ℕ → List String → StepRecord → Agent (Option PyVal)
  | 0, _, _ => return none
  | n + 1, visited, current =>
      if current.id ∈ visited then return none
      else if current.status = .committed then return some (toolResult current.outputValue)
      else do
        match ← findReceipt (reconciledKey current.id) with
        | some receipt => return some (toolResult receipt.payload.value)
        | none =>
            match ← .ofExcept (firstM (isReplacementOf current.id) steps) with
            | none => return none
            | some replacement => recordedFrom steps n (current.id :: visited) replacement

/-- Each turn of the source's loop visits another of the steps. -/
def recordedToolOutput (runId : String) (original : StepRecord) : Agent (Option PyVal) := do
  let steps ← listSteps runId
  recordedFrom steps (steps.length + 1) [] original

end Agent

end Polaris
