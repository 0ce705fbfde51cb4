import Polaris.Ensemble.Creation
import Polaris.Runtime.Agent

namespace Polaris
open PyJson SortedDict Agent

namespace EnsembleResearchEngine

def readWorker : PyVal → Except PyError WorkerSpec
  | .map _ es => WorkerSpec.modelValidate es
  | v => .error (typeError ("'" ++ typeName v ++ "' object is not iterable"))

/-- The workers that a fan-out run records. -/
def workers (run : RunRecord) : Except PyError (List WorkerSpec) := do
  match ← subscript "workers" run.config.value with
  | .seq _ items => items.mapM readWorker
  | v => .error (typeError ("'" ++ typeName v ++ "' object is not iterable"))

/-- What an execution of a fan-out run does beyond the parts modelled here: the runtime of a worker,
whether the artifact of a child exists, the use of its result, and all that follows the start of the
run (the group of the workers, the verification, the synthesis and the outputs). -/
structure Phases where
  turns : ℕ
  workerRuntime : RunRecord → WorkerSpec → Except PyError AgentRuntime
  workerArtifact : String → Bool
  accept : WorkerSpec → RunRecord → AgentResult → Agent Unit
  research : RunRecord → Agent Unit

def executeWorker (x : Phases) (worker : WorkerSpec) (child : RunRecord) : Agent Unit := do
  if child.status = .completed ∧ x.workerArtifact child.id = true then return ()
  else if child.status ∈ [RunStatus.failed, .cancelled] then
    .throw (ensembleError ("worker " ++ Journal.pyRepr worker.id ++ " child run is " ++
      child.status.value))
  else
    let steps ← journal (.listSteps child.id none)
    if steps.any (fun step => step.status ∈ [StepStatus.leased, .executing]) then
      .throw ⟨.runtimeError, "worker " ++ Journal.pyRepr worker.id ++
        " is not recoverable until its lease expires"⟩
    else
      let parent ← getRun (child.parentRunId.getD "")
      let runtime ← .ofExcept (x.workerRuntime parent worker)
      match ← Agent.execute runtime child.id x.turns with
      | none => return ()
      | some result =>
          if result.status ≠ .completed then
            .throw (ensembleError ("worker " ++ Journal.pyRepr worker.id ++
              " did not complete: " ++ result.status.value))
          else x.accept worker child result

/-- `execute`; the replay of a completed run reads its artifacts alone. -/
def execute (x : Phases) (runId : String) : Agent Unit := do
  let run ← getRun runId
  if run.mode ≠ "fan-out" then
    .throw (ensembleError ("run " ++ Journal.pyRepr runId ++ " is not a fan-out run"))
  else if run.status = .completed then return ()
  else if run.status ∈ [RunStatus.failed, .cancelled] then
    .throw (ensembleError ("run " ++ Journal.pyRepr runId ++ " is " ++ run.status.value))
  else
    let _ ← journal (.reclaimExpiredLeases none)
    let current ← getRun runId
    if current.status ∈ [RunStatus.created, .paused] then
      let _ ← markRunStatus runId .running
      x.research run
    else x.research run

end EnsembleResearchEngine

end Polaris
