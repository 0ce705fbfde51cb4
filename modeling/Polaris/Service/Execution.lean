import Polaris.Ensemble.Execution
import Polaris.Service.Submission

namespace Polaris
open PyJson SortedDict Journal Agent

/-- What the executions of a service rest on beyond its own code: the runtime configuration that a
run records, and the phases of the ensemble engine. -/
structure Execution extends EnsembleResearchEngine.Phases where
  recordedConfig : List (String × PyVal) → Except PyError RuntimeConfig

def suppress {α : Type} (cls : ErrorClass) (p : Agent α) : Agent Unit := do
  match ← p.attempt with
  | .ok _ => return ()
  | .error e => if e.cls = cls then return () else .throw e

namespace AgentService
variable (svc : AgentService) (x : Execution)

def maxWorkers (run : RunRecord) : Except PyError (Option ℤ) :=
  match run.config.value with
  | .map _ es => some <$> svc.py.int ((lookup "max_workers" es).getD (.int 4))
  | _ => .ok none

def ensemble (maxWorkers : Option ℤ) : Except PyError EnsembleResearchEngine :=
  if maxWorkers.any fun n => n < 1 || 8 < n then
    .error (valueError "max_workers must be between 1 and 8")
  else .ok ⟨svc.providers, maxWorkers.map Int.toNat, none⟩

/-- What `_execute` does for a run that it read. -/
def executeRun (run : RunRecord) : Agent Unit :=
  if run.mode = "single" then do
    let es := (withGet run.config.value).toOption.getD []
    match getOrNone "provider" es with
    | .str provider =>
        let config ← .ofExcept (x.recordedConfig es)
        let runtime ← .ofExcept (svc.runtime provider config)
        let _ ← Agent.execute runtime run.id x.turns
        return ()
    | _ => .throw (providerConfigurationError "run does not record a provider")
  else if run.mode = "fan-out" then do
    let maxWorkers ← .ofExcept (svc.maxWorkers run)
    let _ ← .ofExcept (svc.ensemble maxWorkers)
    EnsembleResearchEngine.execute x.toPhases run.id
  else .throw (valueError ("unsupported run mode: " ++ Journal.pyRepr run.mode))

/-- The end of a task whose run failed or was cancelled. -/
def closeRun (runId : String) (status : RunStatus) (eventType : String) (payload : PyVal) :
    Agent Unit := do
  let current ← getRun runId
  if current.status.isTerminal then
    let _ ← appendEvent runId eventType payload none
    return ()
  else
    suppress .invalidTransitionError (markRunStatus runId status)
    let _ ← appendEvent runId eventType payload none
    return ()

def taskFailed (runId : String) (exc : PyError) : Agent Unit :=
  closeRun runId .failed "service.task_failed"
    (dict [("error_type", .str exc.cls.name), ("message", .str exc.message)])

def taskCancelled (runId : String) : Agent Unit :=
  closeRun runId .cancelled "service.task_cancelled" (dict [])

/-- `_execute` but for a cancellation. -/
def execute (runId : String) : Agent Unit := do
  let run ← getRun runId
  match ← (svc.executeRun x run).attempt with
  | .ok _ => return ()
  | .error exc =>
      taskFailed runId exc
      .throw exc

/-- A program that asks for nothing but the journal, run without a pause. -/
def runJournal (others : Answers) {α : Type} : Agent α → Service α
  | .done r => Txn.lift r
  | .call e k => fun s =>
      let (r, w) := e.answer svc.memory.sha
        { others with
          clock := fun _ => s.clock s.ticks } ⟨s.journal, []⟩
      runJournal others (k r) (s.withJournal w.journal)

/-- The arguments of `submit_fanout`. -/
structure FanOutSubmission where
  question : String
  workers : List WorkerSpec
  verifier : String
  synthesizer : String
  budget : BudgetSpec
  maxWorkers : Option ℤ

def submitFanout (others : Answers) (sub : FanOutSubmission) (schedule : Bool) :
    Service RunRecord := do
  let engine ← Txn.lift (svc.ensemble sub.maxWorkers)
  let run ← svc.runJournal others (engine.createRun sub.question sub.workers sub.verifier
    sub.synthesizer sub.budget)
  if schedule then
    let _ ← AgentService.schedule run.id
    return run
  else return run

/-- The rest of `cancel` once it has the outcome of the task it waited for. -/
def markCancelled (runId : String) : Service RunRecord := do
  let current ← svc.onJournal (.getRun runId)
  if current.status.isTerminal then return current
  else svc.onJournal (.markRunStatus runId .cancelled)

def awaited (runId : String) (task : ℕ) : Service RunRecord := do
  match ← Txn.read fun s => s.loop[task]?.map AsyncTask.status with
  | some (.finished (.raised exc)) => Txn.fail exc
  | _ => svc.markCancelled runId

/-- `task.cancel()` of a task that is not done. -/
def requestCancel (task : ℕ) (s : ServiceState) : ServiceState :=
  { s with
    loop := s.loop.modify task fun t => { t with cancelRequested := true } }

/-- `cancel` up to its await: the run, or the task it waits for. -/
def cancel (runId : String) : Service (RunRecord ⊕ ℕ) := do
  let run ← svc.onJournal (.getRun runId)
  if run.status.isTerminal then return .inl run
  else
    match ← Txn.read fun s => lookup runId s.tasks with
    | none => return .inl (← svc.markCancelled runId)
    | some task =>
        if ← Txn.read fun s => s.done task then return .inl (← svc.awaited runId task)
        else
          Txn.write (requestCancel task)
          return .inr task

end AgentService

end Polaris
