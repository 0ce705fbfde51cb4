import Polaris.Journal.Runs

namespace Polaris
open PyJson

inductive Resource where
  | calls
  | tokens
  | microUsd
  | wallSeconds
deriving DecidableEq, Repr

namespace Resource

def name : Resource → String
  | .calls => "calls"
  | .tokens => "tokens"
  | .microUsd => "micro_usd"
  | .wallSeconds => "wall_seconds"

def all : List Resource := [.calls, .tokens, .microUsd, .wallSeconds]

end Resource

namespace Resources

def get (amount : Resources) : Resource → ℚ
  | .calls => amount.calls
  | .tokens => amount.tokens
  | .microUsd => amount.microUsd
  | .wallSeconds => amount.wallSeconds

def add (a b : Resources) : Resources :=
  ⟨a.calls + b.calls, a.tokens + b.tokens, a.microUsd + b.microUsd, a.wallSeconds + b.wallSeconds⟩

def sub (a b : Resources) : Resources :=
  ⟨a.calls - b.calls, a.tokens - b.tokens, a.microUsd - b.microUsd, a.wallSeconds - b.wallSeconds⟩

def entries (amount : Resources) : List (String × PyVal) :=
  [("calls", .int amount.calls), ("tokens", .int amount.tokens),
    ("micro_usd", .int amount.microUsd), ("wall_seconds", exactSeconds amount.wallSeconds)]

def isNonnegative (amount : Resources) : Bool :=
  0 ≤ amount.calls && 0 ≤ amount.tokens && 0 ≤ amount.microUsd && 0 ≤ amount.wallSeconds

end Resources

def Budget.limit (limits : Budget) : Resource → Option ℚ
  | .calls => limits.callLimit.map fun n : ℤ => (n : ℚ)
  | .tokens => limits.tokenLimit.map fun n : ℤ => (n : ℚ)
  | .microUsd => limits.microUsdLimit.map fun n : ℤ => (n : ℚ)
  | .wallSeconds => limits.wallSecondsLimit

structure Actuals where
  calls : Option ℤ
  tokens : Option ℤ
  microUsd : Option ℤ
  wallSeconds : Option ℚ
deriving DecidableEq, Repr

namespace Actuals

def none : Actuals := ⟨.none, .none, .none, .none⟩

def given (actuals : Actuals) : Resource → Bool
  | .calls => actuals.calls.isSome
  | .tokens => actuals.tokens.isSome
  | .microUsd => actuals.microUsd.isSome
  | .wallSeconds => actuals.wallSeconds.isSome

def resolve (explicit aliases : Actuals) : Resources :=
  ⟨explicit.calls.getD (aliases.calls.getD 0), explicit.tokens.getD (aliases.tokens.getD 0),
    explicit.microUsd.getD (aliases.microUsd.getD 0),
    explicit.wallSeconds.getD (aliases.wallSeconds.getD 0)⟩

end Actuals

namespace RunRecord

def projected (run : RunRecord) (amount : Resources) (resource : Resource) : ℚ :=
  run.reserved.get resource + run.used.get resource + amount.get resource

def exceeds (run : RunRecord) (amount : Resources) (resource : Resource) : Bool :=
  (run.limits.limit resource).any (· < run.projected amount resource)

@[simps]
def reserving (a : Ambient) (amount : Resources) (run : RunRecord) : RunRecord :=
  { run with reserved := run.reserved.add amount, updatedAt := a.now }

@[simps]
def settled (a : Ambient) (amount actual : Resources) (run : RunRecord) : RunRecord :=
  { run with
    reserved := run.reserved.sub amount, used := run.used.add actual, updatedAt := a.now }

end RunRecord

@[simps]
def Reservation.settled (a : Ambient) (actual : Resources) (r : Reservation) : Reservation :=
  { r with actual := some actual, status := .settled, settledAt := some a.now }

@[simps]
def ProviderCallRecord.completed (a : Ambient) (response : JsonColumn) (status : CallStatus)
    (model : Option String) (inputTokens outputTokens microUsd : ℤ) (r : ProviderCallRecord) :
    ProviderCallRecord :=
  { r with
    response := some response, status := status, model := model.or r.model,
    inputTokens := inputTokens, outputTokens := outputTokens, microUsd := microUsd,
    completedAt := some a.now }

namespace Journal

def findReservation (reservationId : String) (j : Journal) : Option Reservation :=
  Table.find Reservation.id reservationId j.reservations

def requireWithin (run : RunRecord) (amount : Resources) : List Resource → Op Unit
  | [] => return ()
  | resource :: resources => do
      Txn.require (!run.exceeds amount resource) ⟨.budgetExceededError,
        resource.name ++ " budget exceeded: " ++
          toString (run.projected amount resource) ++ " requested against limit " ++
          toString ((run.limits.limit resource).getD 0)⟩
      requireWithin run amount resources

/-- `UPDATE runs`, under the table's `CHECK` on the reserved amounts. -/
def updateLedger (runId : String) (f : RunRecord → RunRecord) : Op Unit := do
  let run ← requireRun runId
  Txn.require (f run).reserved.isNonnegative ⟨.integrityError, "CHECK constraint failed"⟩
  Txn.write (updateRun runId f)

def reserveBudget (a : Ambient) (runId : String) (amount : Resources)
    (reservationId : Option String) : Op String := do
  validateNonnegativeInteger "calls" amount.calls
  validateNonnegativeInteger "tokens" amount.tokens
  validateNonnegativeInteger "micro_usd" amount.microUsd
  validateNonnegative "wall_seconds" amount.wallSeconds
  -- an empty id counts as none
  let id := (reservationId.filter (· ≠ "")).getD ("budget_" ++ a.uuid)
  Txn.atomically do
    match ← Txn.read (findReservation id) with
    | some existing => do
        Txn.require (existing.runId = runId && existing.amount = amount)
          ⟨.journalConflictError, "budget reservation " ++ pyRepr id ++
            " already exists with different data"⟩
        return id
    | none => do
        let run ← requireRun runId
        requireWithin run amount Resource.all
        updateLedger runId (.reserving a amount)
        Txn.write (addReservation ⟨id, runId, amount, none, .reserved, a.now, none⟩)
        let _ ← appendEventRow runId "budget.reserved"
          (dict (("reservation_id", .str id) :: amount.entries)) none a.now
        return id

def requireOneForm (explicit aliases : Actuals) : List Resource → Op Unit
  | [] => return ()
  | resource :: resources => do
      Txn.require (!(explicit.given resource && aliases.given resource))
        (invalid ("pass either actual_" ++ resource.name ++ " or " ++ resource.name ++
          ", not both"))
      requireOneForm explicit aliases resources

@[simps]
def updateReservations (p : Reservation → Bool) (f : Reservation → Reservation) (j : Journal) :
    Journal :=
  { j with reservations := Table.updateWhere p f j.reservations }

def settleBudget (a : Ambient) (runId reservationId : String) (explicit aliases : Actuals) :
    Op RunRecord := do
  requireOneForm explicit aliases Resource.all
  let actual := Actuals.resolve explicit aliases
  validateNonnegativeInteger "actual_calls" actual.calls
  validateNonnegativeInteger "actual_tokens" actual.tokens
  validateNonnegativeInteger "actual_micro_usd" actual.microUsd
  validateNonnegative "actual_wall_seconds" actual.wallSeconds
  Txn.atomically do
    let found ← Txn.read (findReservation reservationId)
    let reservation ← Txn.getOr found (notFound "budget reservation" reservationId)
    Txn.require (reservation.runId = runId) (invalid "budget reservation does not belong to run")
    if reservation.status = .settled then do
      Txn.require (reservation.actual = some actual) ⟨.journalConflictError,
        "budget reservation " ++ pyRepr reservationId ++ " was settled differently"⟩
      requireRun runId
    else do
      updateLedger runId (.settled a reservation.amount actual)
      Txn.write (updateReservations (fun r => r.id = reservationId && r.status = .reserved)
        (.settled a actual))
      let _ ← appendEventRow runId "budget.settled"
        (dict (("reservation_id", .str reservationId) :: actual.entries)) none a.now
      requireRun runId

def findProviderCall (callId : String) (j : Journal) : Option ProviderCallRecord :=
  Table.find ProviderCallRecord.id callId j.providerCalls

def requireForeignStep : Option String → Op Unit
  | none => return ()
  | some stepId => do
      let step ← Txn.read (findStep stepId)
      Txn.require step.isSome ⟨.integrityError, "FOREIGN KEY constraint failed"⟩

def startProviderCall (a : Ambient) (runId provider : String) (request : PyVal)
    (stepId model : Option String) : Op ProviderCallRecord := do
  Txn.require (provider ≠ "") (invalid "provider must not be empty")
  let callId := "provider_" ++ a.uuid
  Txn.atomically do
    let _ ← requireRun runId
    let column ← Txn.lift (canonicalJson request)
    let taken ← Txn.read (findProviderCall callId)
    Txn.require taken.isNone ⟨.integrityError, "UNIQUE constraint failed: provider_calls.id"⟩
    requireForeignStep stepId
    let call : ProviderCallRecord :=
      ⟨callId, runId, stepId, provider, model, column, none, .started, 0, 0, 0, a.now, none⟩
    Txn.write (addProviderCall call)
    let _ ← appendEventRow runId "provider.started"
      (dict [("provider_call_id", .str callId), ("provider", .str provider),
        ("model", optStr model)]) stepId a.now
    return call

@[simps]
def updateProviderCalls (p : ProviderCallRecord → Bool)
    (f : ProviderCallRecord → ProviderCallRecord) (j : Journal) : Journal :=
  { j with providerCalls := Table.updateWhere p f j.providerCalls }

def completeProviderCall (a : Ambient) (callId : String) (response : PyVal) (status : CallStatus)
    (model : Option String) (inputTokens outputTokens microUsd : ℤ) : Op ProviderCallRecord := do
  Txn.require (status ≠ .started) (invalid "invalid provider call status")
  validateNonnegativeInteger "input_tokens" inputTokens
  validateNonnegativeInteger "output_tokens" outputTokens
  validateNonnegativeInteger "micro_usd" microUsd
  Txn.atomically do
    let found ← Txn.read (findProviderCall callId)
    let row ← Txn.getOr found (notFound "provider call" callId)
    Txn.require (row.status = .started) ⟨.invalidTransitionError,
      "provider call " ++ pyRepr callId ++ " is already " ++ row.status.value⟩
    let column ← Txn.lift (canonicalJson response)
    Txn.write (updateProviderCalls (fun r => r.id = callId && r.status = .started)
      (.completed a column status model inputTokens outputTokens microUsd))
    -- the event takes an empty model name for none
    let _ ← appendEventRow row.runId ("provider." ++ status.value)
      (dict [("provider_call_id", .str callId),
        ("model", optStr ((model.filter (· ≠ "")).or row.model)),
        ("input_tokens", .int inputTokens), ("output_tokens", .int outputTokens),
        ("micro_usd", .int microUsd)]) row.stepId a.now
    let updated ← Txn.read (findProviderCall callId)
    Txn.getOr updated (notFound "provider call" callId)

/-- `ORDER BY started_at, id` -/
def providerCallBefore (a b : ProviderCallRecord) : Bool :=
  a.startedAt < b.startedAt || (a.startedAt = b.startedAt && !(b.id < a.id))

def listProviderCalls (runId : String) : Op (List ProviderCallRecord) :=
  Txn.read fun j => (j.providerCalls.filter fun r => r.runId = runId).insertionSort
    fun a b => providerCallBefore a b

end Journal

end Polaris
