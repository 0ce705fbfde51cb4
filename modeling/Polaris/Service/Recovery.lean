import Polaris.Runtime.Conversation
import Polaris.Service.State

namespace Polaris
open PyJson SortedDict

def RunStatus.isTerminal (status : RunStatus) : Bool :=
  status = .completed || status = .failed || status = .cancelled

def RunRecord.listedBefore (a b : RunRecord) : Bool :=
  a.createdAt < b.createdAt || (a.createdAt = b.createdAt && !(b.id < a.id))

def Journal.listRuns (statuses : Option (List RunStatus)) : Journal.Op (List RunRecord) :=
  Txn.read fun j => (j.runs.filter fun r => statuses.all (r.status ∈ ·)).insertionSort
    fun a b => a.listedBefore b

def providerConfigurationError (message : String) : PyError :=
  ⟨.other "ProviderConfigurationError", message⟩

namespace AgentService
variable (svc : AgentService)

def configured (name : String) : Bool := (lookup name svc.providers).isSome

def isConfigured : PyVal → Bool
  | .str name => svc.configured name
  | _ => false

def workerNames (items : List PyVal) : Except PyError (List PyVal) :=
  (items.filter Polaris.isMapping).mapM fun item => do
    let name := Agent.getIfMapping "provider_name" .null item
    requireHashable name
    return name

def fanOutNames (es : List (String × PyVal)) : Except PyError (List PyVal) := do
  let verifier := getOrNone "verifier" es
  let synthesizer := getOrNone "synthesizer" es
  requireHashable verifier
  requireHashable synthesizer
  match (lookup "workers" es).getD (.seq .tuple []) with
  | .seq .list items => return verifier :: synthesizer :: (← workerNames items)
  | _ => return [verifier, synthesizer]

def providersAvailable (run : RunRecord) : Except PyError Bool :=
  match run.config.value with
  | .map _ es =>
      if run.mode = "single" then .ok (svc.isConfigured (getOrNone "provider" es))
      else if run.mode = "fan-out" then do
        return (← fanOutNames es).all svc.isConfigured
      else .ok false
  | _ => .ok false

def hasActiveLease (runId : String) : Service Bool := do
  let steps ← svc.onJournal (.listSteps runId none)
  return steps.any fun step => step.status = .leased || step.status = .executing

def hasUncertainOpaqueStep (runId : String) : Service Bool := do
  let steps ← svc.onJournal (.listSteps runId none)
  return steps.any fun step => step.status = .uncertain && step.safety = .opaqueSideEffect

def skipRecovery (runId reason : String) : Service Bool := do
  let _ ← svc.onJournal (.appendEvent runId "service.recovery_skipped"
    (dict [("reason", .str reason)]) none)
  return false

/-- Whether the run is scheduled. -/
def recoverRun (parentIds : List String) (run : RunRecord) : Service Bool := do
  if run.parentRunId.any (· ∈ parentIds) then return false
  else if ← svc.hasActiveLease run.id then
    svc.skipRecovery run.id "run still has an active step lease"
  else if ← svc.hasUncertainOpaqueStep run.id then
    svc.skipRecovery run.id "uncertain opaque side effect requires operator decision"
  else if !(← Txn.lift (svc.providersAvailable run)) then
    svc.skipRecovery run.id "provider configuration unavailable"
  else
    let _ ← schedule run.id
    return true

def recoverRuns (parentIds : List String) : List RunRecord → Service (List String)
  | [] => return []
  | run :: runs => do
      let scheduled ← svc.recoverRun parentIds run
      let resumed ← recoverRuns parentIds runs
      return if scheduled then run.id :: resumed else resumed

def listRuns (statuses : Option (List RunStatus)) : Service (List RunRecord) := fun s =>
  ((Journal.listRuns statuses s.journal).1, s)

/-- `startup` up to the start of the scheduler and of the channels. -/
def startup : Service (List String) := do
  let _ ← svc.onJournal (.reclaimExpiredLeases none)
  let runs ← listRuns (some [.created, .running])
  let parentIds := (runs.filterMap RunRecord.parentRunId).filter (· ≠ "")
  svc.recoverRuns parentIds runs

def resume (runId : String) : Service RunRecord := do
  let run ← svc.onJournal (.getRun runId)
  if run.status.isTerminal then
    Txn.fail ⟨.invalidTransitionError, "run " ++ Journal.pyRepr runId ++ " is already " ++
      run.status.value⟩
  else if ← svc.hasUncertainOpaqueStep runId then
    Txn.fail ⟨.invalidTransitionError, "uncertain opaque steps require explicit reconciliation"⟩
  else if !(← Txn.lift (svc.providersAvailable run)) then
    Txn.fail (providerConfigurationError "run provider configuration is unavailable")
  else
    let _ ← schedule runId
    return run

def decideApproval (approvalId : String) (approved : Bool) (decidedBy : String)
    (reason : Option String) (schedule : Bool) : Service ApprovalRecord := do
  let approval ← svc.onJournal (.decideApproval approvalId
    (if approved then .approved else .rejected) decidedBy reason)
  if schedule then
    let run ← svc.onJournal (.getRun approval.runId)
    if run.status.isTerminal then return approval
    else
      let _ ← AgentService.schedule run.id
      return approval
  else return approval

end AgentService

end Polaris
