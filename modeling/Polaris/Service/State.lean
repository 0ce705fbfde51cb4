import Polaris.Ensemble.Creation
import Polaris.Memory.Store

namespace Polaris
open SortedDict

structure MemoryConfig where
  enabled : Bool
  profileId : NonBlank
  charBudget : ℕ

structure AppConfig where
  providers : List String
  memory : MemoryConfig

structure AgentService where
  py : PyBuiltins
  memory : MemoryBackend
  providers : List (String × ProviderConfig)
  tools : ToolRegistry
  config : AppConfig

inductive TaskOutcome where
  | returned
  | raised (exc : PyError)
  | cancelled
deriving DecidableEq, Repr

inductive TaskStatus where
  | created
  | running
  | finished (outcome : TaskOutcome)
deriving DecidableEq, Repr

/-- A task of the event loop; its done-callback is due from its last step on until it ran. -/
structure AsyncTask where
  runId : String
  status : TaskStatus
  cancelRequested : Bool
  callbackDue : Bool
deriving DecidableEq, Repr

namespace AsyncTask

def done (t : AsyncTask) : Bool :=
  match t.status with
  | .finished _ => true
  | _ => false

def start (runId : String) : AsyncTask := ⟨runId, .created, false, false⟩

@[simps]
def finish (outcome : TaskOutcome) (t : AsyncTask) : AsyncTask :=
  { t with
    status := .finished outcome, callbackDue := true }

end AsyncTask

/-- A task is named by its place among the tasks that the loop ever had. -/
structure ServiceState where
  journal : Journal
  memory : MemoryStore
  loop : List AsyncTask
  tasks : List (String × ℕ)
  taskFailures : List (String × String)
  closed : Bool
  clock : ℕ → Ambient
  ticks : ℕ

abbrev Service (β : Type) := Txn PyError ServiceState β

namespace ServiceState

@[simps]
def withJournal (s : ServiceState) (j : Journal) : ServiceState :=
  { s with
    journal := j, ticks := s.ticks + 1 }

@[simps]
def withMemory (s : ServiceState) (m : MemoryStore) : ServiceState :=
  { s with
    memory := m, ticks := s.ticks + 1 }

def done (s : ServiceState) (task : ℕ) : Bool := s.loop[task]?.any AsyncTask.done

@[simps]
def createTask (runId : String) (s : ServiceState) : ServiceState :=
  { s with
    loop := s.loop ++ [.start runId], tasks := setKey runId s.loop.length s.tasks }

end ServiceState

namespace AgentService
variable (svc : AgentService)

def onJournal {β : Type} (c : JournalCall β) : Service β := fun s =>
  let (r, j) := c.perform svc.memory.sha (s.clock s.ticks) s.journal
  (r, s.withJournal j)

def onMemory {β : Type} (op : Ambient → MemoryBackend.Op β) : Service β := fun s =>
  let (r, m) := op (s.clock s.ticks) s.memory
  (r, s.withMemory m)

def schedule (runId : String) : Service ℕ := do
  let closed ← Txn.read ServiceState.closed
  Txn.require (!closed) ⟨.runtimeError, "service is closed"⟩
  match ← Txn.read fun s => (lookup runId s.tasks).filter fun task => !s.done task with
  | some existing => return existing
  | none => do
      let task ← Txn.read fun s => s.loop.length
      Txn.write (ServiceState.createTask runId)
      return task

def taskFailure (t : AsyncTask) : Option String :=
  match t.status with
  | .finished (.raised exc) => some (exc.cls.name ++ ": " ++ exc.message)
  | _ => none

/-- The done-callback of a task: it clears the table by the name of the run alone. -/
def taskDone (t : AsyncTask) (s : ServiceState) : ServiceState :=
  { s with
    tasks := s.tasks.filter fun e => e.1 ≠ t.runId,
    taskFailures := (taskFailure t).elim s.taskFailures fun text =>
      setKey t.runId text s.taskFailures }

end AgentService

end Polaris
