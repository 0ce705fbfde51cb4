import Polaris.Library.Program
import Polaris.Journal.Calls
import Polaris.Runtime.Serialization
import Polaris.Tools.Registry

namespace Polaris
open PyJson

structure ApprovalPolicy where
  requiresApproval : String → SafetyClass → Bool

def defaultApprovalPolicy (preapprovedToolNames preapprovedTools : List String) :
    ApprovalPolicy where
  requiresApproval toolName safety :=
    safety ≠ .readOnly && toolName ∉ preapprovedToolNames && toolName ∉ preapprovedTools

structure RuntimeConfig where
  systemPrompt : String
  maxIterations : ℕ
  leaseSeconds : ℚ
  workerId : String
  approvalPolicy : ApprovalPolicy
  reservationTokens : ℕ
  reservationCalls : ℕ
  reservationMicroUsd : ℕ
  noProgressThreshold : ℕ
  memoryContext : Option String
  iterationsPositive : 0 < maxIterations
  leasePositive : 0 < leaseSeconds
  workerNamed : workerId ≠ ""
  thresholdPositive : 0 < noProgressThreshold

/-! The bounds that the configurations of the service and of the ensemble engine share. -/

theorem RuntimeConfig.iterations_positive : 0 < 24 := by decide

theorem RuntimeConfig.lease_positive : (0 : ℚ) < 30 := by decide

theorem RuntimeConfig.threshold_positive : 0 < 3 := by decide

structure AgentRuntime where
  py : PyBuiltins
  providerName : String
  providerModel : String
  tools : ToolRegistry
  config : RuntimeConfig
  estimatesCost : Bool
  providerNamed : providerName ≠ ""

/-- What the runtime asks of the journal, of the tools, of the provider and of its
environment. `execute` and `leaseFailure` name the step they are done for. -/
inductive AgentCall : Type → Type 1 where
  | journal {β : Type} (call : JournalCall β) : AgentCall β
  | execute (stepId name : String) (arguments : JsonObject) : AgentCall PyVal
  | reconcile (name : String) (arguments : JsonObject) : AgentCall PyVal
  | complete (stepId : String) (messages : List Message) (tools : PyVal) :
      AgentCall CompletionResult
  | getDefinitions : AgentCall (List PyVal)
  | estimateCost (completion : CompletionResult) : AgentCall ℤ
  | leaseFailure (stepId : String) : AgentCall (Option PyError)

abbrev Agent (α : Type) := Program AgentCall PyError α

namespace Agent
variable {α : Type}

def journal {β : Type} (call : JournalCall β) : Agent β := Program.perform (.journal call)

def getRun (runId : String) : Agent RunRecord := journal (.getRun runId)

def markRunStatus (runId : String) (target : RunStatus) : Agent RunRecord :=
  journal (.markRunStatus runId target)

def appendEvent (runId eventType : String) (payload : PyVal) (stepId : Option String) :
    Agent EventRecord :=
  journal (.appendEvent runId eventType payload stepId)

def createStep (runId kind name : String) (input : PyVal) (safety : SafetyClass)
    (sequence : ℤ) : Agent StepRecord :=
  journal (.createStep runId kind name input safety.value (some sequence))

def getStep (stepId : String) : Agent StepRecord := journal (.getStep stepId)

def listSteps (runId : String) : Agent (List StepRecord) := journal (.listSteps runId none)

def cancelStep (stepId : String) : Agent StepRecord := journal (.cancelStep stepId none)

def findReceipt (idempotencyKey : String) : Agent (Option ReceiptRecord) :=
  journal (.findReceipt idempotencyKey)

def listApprovals (runId : String) (stepId : Option String) : Agent (List ApprovalRecord) :=
  journal (.listApprovals (some runId) stepId none)

def listProviderCalls (runId : String) : Agent (List ProviderCallRecord) :=
  journal (.listProviderCalls runId)

/-- `value == n` -/
def equalsInt (py : PyBuiltins) (n : ℤ) : PyVal → Bool
  | .int m => m = n
  | .bool b => (if b then 1 else 0) = n
  | .float f => py.floatIs f n
  | _ => false

def truthy (py : PyBuiltins) : PyVal → Bool
  | .null => false
  | .bool b => b
  | .int n => n ≠ 0
  | .float f => !py.floatIs f 0
  | .str s => s ≠ ""
  | .seq _ xs => !xs.isEmpty
  | .map _ es => !es.isEmpty

/-- `value[key]` -/
def subscript (key : String) : PyVal → Except PyError PyVal
  | .map _ es => getItem key es
  | .str _ => .error (typeError "string indices must be integers, not 'str'")
  | .seq kind xs => .error (typeError
      (typeName (.seq kind xs) ++ " indices must be integers or slices, not str"))
  | v => .error (typeError ("'" ++ typeName v ++ "' object is not subscriptable"))

def firstM {ε : Type} (p : α → Except ε Bool) : List α → Except ε (Option α)
  | [] => .ok none
  | x :: xs => do if ← p x then return some x else firstM p xs

def filterE {ε : Type} (p : α → Except ε Bool) : List α → Except ε (List α)
  | [] => .ok []
  | x :: xs => do
      let keep ← p x
      let rest ← filterE p xs
      return if keep then x :: rest else rest

end Agent

namespace StepRecord

def outputValue (step : StepRecord) : PyVal := step.output.elim .null JsonColumn.value

/-- `step.input.get(key)`, `None` for a missing key. -/
def inputGet (key : String) (step : StepRecord) : Except PyError PyVal := do
  return getOrNone key (← withGet step.input.value)

end StepRecord

end Polaris
