import Polaris.Journal.Codec
import Polaris.Library.Transaction
import Polaris.Library.Table
import Mathlib.Tactic.Simps.Basic

namespace Polaris

inductive RunStatus where
  | created
  | running
  | paused
  | completed
  | failed
  | cancelled
deriving DecidableEq, Repr

def RunStatus.value : RunStatus → String
  | .created => "created"
  | .running => "running"
  | .paused => "paused"
  | .completed => "completed"
  | .failed => "failed"
  | .cancelled => "cancelled"

inductive StepStatus where
  | created
  | ready
  | leased
  | executing
  | committed
  | uncertain
  | failed
  | cancelled
deriving DecidableEq, Repr

def StepStatus.value : StepStatus → String
  | .created => "created"
  | .ready => "ready"
  | .leased => "leased"
  | .executing => "executing"
  | .committed => "committed"
  | .uncertain => "uncertain"
  | .failed => "failed"
  | .cancelled => "cancelled"

inductive SafetyClass where
  | readOnly
  | idempotent
  | reconcilable
  | opaqueSideEffect
deriving DecidableEq, Repr

def SafetyClass.value : SafetyClass → String
  | .readOnly => "read_only"
  | .idempotent => "idempotent"
  | .reconcilable => "reconcilable"
  | .opaqueSideEffect => "opaque_side_effect"

structure Budget where
  callLimit : Option ℤ
  tokenLimit : Option ℤ
  microUsdLimit : Option ℤ
  wallSecondsLimit : Option ℚ
deriving DecidableEq, Repr

structure Resources where
  calls : ℤ
  tokens : ℤ
  microUsd : ℤ
  wallSeconds : ℚ
deriving DecidableEq, Repr

structure RunRecord where
  id : String
  mode : String
  request : JsonColumn
  config : JsonColumn
  status : RunStatus
  parentRunId : Option String
  limits : Budget
  reserved : Resources
  used : Resources
  createdAt : Timestamp
  updatedAt : Timestamp
deriving DecidableEq

structure ExternalKey where
  externalKey : String
  runId : String
  modeHash : String
  requestHash : String
  configHash : String
  budgetHash : String
  parentRunId : Option String
  createdAt : Timestamp
deriving DecidableEq

structure StepRecord where
  id : String
  runId : String
  key : String
  kind : String
  name : String
  input : JsonColumn
  inputHash : String
  safety : SafetyClass
  sequence : Option ℤ
  status : StepStatus
  output : Option JsonColumn
  error : Option JsonColumn
  uncertaintyReason : Option String
  leaseOwner : Option String
  leaseExpiresAt : Option Timestamp
  attemptCount : ℕ
  createdAt : Timestamp
  updatedAt : Timestamp
deriving DecidableEq

structure EventRecord where
  id : ℕ
  runId : String
  stepId : Option String
  type : String
  payload : JsonColumn
  createdAt : Timestamp
deriving DecidableEq

structure ReceiptRecord where
  id : String
  runId : String
  stepId : Option String
  idempotencyKey : String
  payload : JsonColumn
  createdAt : Timestamp
deriving DecidableEq

inductive ApprovalStatus where
  | pending
  | approved
  | rejected
deriving DecidableEq, Repr

def ApprovalStatus.value : ApprovalStatus → String
  | .pending => "pending"
  | .approved => "approved"
  | .rejected => "rejected"

structure ApprovalRecord where
  id : String
  runId : String
  stepId : Option String
  kind : String
  request : JsonColumn
  status : ApprovalStatus
  decision : Option ApprovalStatus
  decidedBy : Option String
  decisionReason : Option String
  createdAt : Timestamp
  decidedAt : Option Timestamp
deriving DecidableEq

inductive CallStatus where
  | started
  | completed
  | failed
  | uncertain
deriving DecidableEq, Repr

def CallStatus.value : CallStatus → String
  | .started => "started"
  | .completed => "completed"
  | .failed => "failed"
  | .uncertain => "uncertain"

structure ProviderCallRecord where
  id : String
  runId : String
  stepId : Option String
  provider : String
  model : Option String
  request : JsonColumn
  response : Option JsonColumn
  status : CallStatus
  inputTokens : ℤ
  outputTokens : ℤ
  microUsd : ℤ
  startedAt : Timestamp
  completedAt : Option Timestamp
deriving DecidableEq

inductive ReservationStatus where
  | reserved
  | settled
deriving DecidableEq, Repr

structure Reservation where
  id : String
  runId : String
  amount : Resources
  actual : Option Resources
  status : ReservationStatus
  createdAt : Timestamp
  settledAt : Option Timestamp
deriving DecidableEq

structure Journal where
  runs : List RunRecord
  externalKeys : List ExternalKey
  steps : List StepRecord
  events : List EventRecord
  receipts : List ReceiptRecord
  approvals : List ApprovalRecord
  providerCalls : List ProviderCallRecord
  reservations : List Reservation
deriving DecidableEq

/-- What one call takes from outside the database: a fresh uuid and the clock, which
is read when a lease is checked, when rows are stamped and when a lease is extended. -/
structure Ambient where
  checkedAt : Timestamp
  now : Timestamp
  leaseFrom : Timestamp
  uuid : String
deriving DecidableEq, Repr

namespace Journal

abbrev Op (β : Type) := Txn PyError Journal β

def empty : Journal := ⟨[], [], [], [], [], [], [], []⟩

def findRun (runId : String) (j : Journal) : Option RunRecord :=
  Table.find RunRecord.id runId j.runs

def findStep (stepId : String) (j : Journal) : Option StepRecord :=
  Table.find StepRecord.id stepId j.steps

/-- `repr` of a string of printable characters. -/
def pyRepr (s : String) : String :=
  let quote := if '\'' ∈ s.toList ∧ '"' ∉ s.toList then '"' else '\''
  let body := s.toList.flatMap fun c =>
    if c = quote ∨ c = '\\' then ['\\', c]
    else if c = '\n' then ['\\', 'n']
    else if c = '\r' then ['\\', 'r']
    else if c = '\t' then ['\\', 't']
    else [c]
  String.ofList (quote :: (body ++ [quote]))

def notFound (recordType recordId : String) : PyError :=
  ⟨.journalNotFoundError, recordType ++ " " ++ pyRepr recordId ++ " does not exist"⟩

def invalid (message : String) : PyError := ⟨.journalValidationError, message⟩

def requireRun (runId : String) : Op RunRecord := do
  let run ← Txn.read (findRun runId)
  Txn.getOr run (notFound "run" runId)

def requireStep (stepId : String) : Op StepRecord := do
  let step ← Txn.read (findStep stepId)
  Txn.getOr step (notFound "step" stepId)

@[simps]
def addRun (run : RunRecord) (j : Journal) : Journal := { j with runs := j.runs ++ [run] }

@[simps]
def addExternalKey (key : ExternalKey) (j : Journal) : Journal :=
  { j with externalKeys := j.externalKeys ++ [key] }

@[simps]
def addStep (row : StepRecord) (j : Journal) : Journal := { j with steps := j.steps ++ [row] }

@[simps]
def addEvent (event : EventRecord) (j : Journal) : Journal :=
  { j with events := j.events ++ [event] }

@[simps]
def addReceipt (receipt : ReceiptRecord) (j : Journal) : Journal :=
  { j with receipts := j.receipts ++ [receipt] }

@[simps]
def addApproval (approval : ApprovalRecord) (j : Journal) : Journal :=
  { j with approvals := j.approvals ++ [approval] }

@[simps]
def addProviderCall (call : ProviderCallRecord) (j : Journal) : Journal :=
  { j with providerCalls := j.providerCalls ++ [call] }

@[simps]
def addReservation (reservation : Reservation) (j : Journal) : Journal :=
  { j with reservations := j.reservations ++ [reservation] }

@[simps]
def eventRecord (j : Journal) (runId type : String) (stepId : Option String)
    (payload : JsonColumn) (now : Timestamp) : EventRecord :=
  ⟨j.events.length + 1, runId, stepId, type, payload, now⟩

def appendEventRow (runId type : String) (payload : PyJson.PyVal) (stepId : Option String)
    (now : Timestamp) : Op EventRecord := do
  let column ← Txn.lift (canonicalJson payload)
  let event ← Txn.read fun j => j.eventRecord runId type stepId column now
  Txn.write (addEvent event)
  return event

end Journal

end Polaris
