import Polaris.Journal.Steps

namespace Polaris
open PyJson

namespace RunStatus

/-- `_RUN_TRANSITIONS` -/
def transitions : RunStatus → List RunStatus
  | .created => [.running, .paused, .failed, .cancelled]
  | .running => [.paused, .completed, .failed, .cancelled]
  | .paused => [.running, .completed, .failed, .cancelled]
  | .completed => []
  | .failed => []
  | .cancelled => []

end RunStatus

/-- Seconds are exact rationals here, where the code has floats. -/
def exactSeconds (seconds : ℚ) : PyVal :=
  .str (toString seconds.num ++ "/" ++ toString seconds.den)

@[simps]
def RunRecord.withStatus (a : Ambient) (target : RunStatus) (run : RunRecord) : RunRecord :=
  { run with status := target, updatedAt := a.now }

@[simps]
def ApprovalRecord.decided (a : Ambient) (decision : ApprovalStatus) (decidedBy : String)
    (reason : Option String) (r : ApprovalRecord) : ApprovalRecord :=
  { r with
    status := decision, decision := some decision, decidedBy := some decidedBy,
    decisionReason := reason, decidedAt := some a.now }

def Resources.zero : Resources := ⟨0, 0, 0, 0⟩

namespace Journal

def validateNonnegativeInteger (name : String) (value : ℤ) : Op Unit :=
  Txn.require (0 ≤ value) (invalid (name ++ " must be a non-negative integer"))

def validateNonnegative (name : String) (value : ℚ) : Op Unit :=
  Txn.require (0 ≤ value) (invalid (name ++ " must be non-negative"))

def validateLimits (limits : Budget) : Op Unit := do
  validateNonnegativeInteger "call_limit" (limits.callLimit.getD 0)
  validateNonnegativeInteger "token_limit" (limits.tokenLimit.getD 0)
  validateNonnegativeInteger "micro_usd_limit" (limits.microUsdLimit.getD 0)
  validateNonnegative "wall_seconds_limit" (limits.wallSecondsLimit.getD 0)

def budgetIdentityHash (sha : Sha256) (limits : Budget) : Except PyError String :=
  sha256Hex sha (dict [("call_limit", optInt limits.callLimit),
    ("token_limit", optInt limits.tokenLimit), ("micro_usd_limit", optInt limits.microUsdLimit),
    ("wall_seconds_limit", limits.wallSecondsLimit.elim .null exactSeconds)])

def externalRun (externalKey : String) (j : Journal) : Option (ExternalKey × RunRecord) := do
  let key ← Table.find ExternalKey.externalKey externalKey j.externalKeys
  let run ← j.findRun key.runId
  return (key, run)

def insertRun (run : RunRecord) : Op Unit := do
  let taken ← Txn.read (findRun run.id)
  Txn.require taken.isNone ⟨.integrityError, "UNIQUE constraint failed: runs.id"⟩
  Txn.write (addRun run)

def insertExternalKey (row : String → ExternalKey) : Option String → Op Unit
  | none => return ()
  | some key => Txn.write (addExternalKey (row key))

@[simps]
def newRun (a : Ambient) (mode : String) (request config : JsonColumn) (limits : Budget)
    (parentRunId : Option String) : RunRecord :=
  ⟨"run_" ++ a.uuid, mode, request, config, .created, parentRunId, limits, .zero, .zero,
    a.now, a.now⟩

def createRun (sha : Sha256) (a : Ambient) (mode : String) (request config : PyVal)
    (limits : Budget) (parentRunId externalKey : Option String) : Op RunRecord := do
  Txn.require (mode ≠ "") (invalid "mode must not be empty")
  Txn.require (externalKey.all fun k => !k.toList.all Char.isWhitespace)
    (invalid "external_key must not be empty")
  validateLimits limits
  let requestJson ← Txn.lift (canonicalJson request)
  let configJson ← Txn.lift (canonicalJson config)
  let modeHash ← Txn.lift (sha256Hex sha (.str mode))
  let requestHash ← Txn.lift (sha256Hex sha request)
  let configHash ← Txn.lift (sha256Hex sha config)
  let budgetHash ← Txn.lift (budgetIdentityHash sha limits)
  let run := newRun a mode requestJson configJson limits parentRunId
  Txn.atomically do
    match ← Txn.read fun j => externalKey.bind (externalRun · j) with
    | some (key, existing) => do
        Txn.require (key.modeHash = modeHash && key.requestHash = requestHash &&
            key.configHash = configHash && key.budgetHash = budgetHash &&
            key.parentRunId = parentRunId)
          ⟨.journalConflictError, "external key " ++ pyRepr (externalKey.getD "") ++
            " already identifies a different run"⟩
        return existing
    | none => do
        requireRunIfGiven parentRunId
        insertRun run
        insertExternalKey (fun k =>
          ⟨k, run.id, modeHash, requestHash, configHash, budgetHash, parentRunId, a.now⟩) externalKey
        let _ ← appendEventRow run.id "run.created"
          (dict [("mode", .str mode), ("parent_run_id", optStr parentRunId)]) none a.now
        requireRun run.id

def getRun (runId : String) : Op RunRecord := requireRun runId

@[simps]
def updateRun (runId : String) (f : RunRecord → RunRecord) (j : Journal) : Journal :=
  { j with runs := Table.updateWhere (fun r => r.id = runId) f j.runs }

def markRunStatus (a : Ambient) (runId : String) (target : RunStatus) : Op RunRecord :=
  Txn.atomically do
    let row ← requireRun runId
    if row.status = target then return row
    else do
      Txn.require (target ∈ row.status.transitions) ⟨.invalidTransitionError,
        "run " ++ pyRepr runId ++ " cannot transition from " ++ row.status.value ++ " to " ++
          target.value⟩
      Txn.write (updateRun runId (.withStatus a target))
      let _ ← appendEventRow runId "run.status_changed"
        (dict [("from", .str row.status.value), ("to", .str target.value)]) none a.now
      requireRun runId

def requireStepOfRun (runId : String) : Option String → Op Unit
  | none => return ()
  | some stepId => do
      let step ← requireStep stepId
      Txn.require (step.runId = runId) (invalid "step does not belong to run")

def appendEvent (a : Ambient) (runId eventType : String) (payload : PyVal)
    (stepId : Option String) : Op EventRecord := do
  Txn.require (eventType ≠ "") (invalid "event_type must not be empty")
  Txn.atomically do
    let _ ← requireRun runId
    requireStepOfRun runId stepId
    appendEventRow runId eventType payload stepId a.now

def recordReceipt (sha : Sha256) (a : Ambient) (stepId idempotencyKey : String)
    (payload : PyVal) : Op ReceiptRecord :=
  Txn.atomically do
    let step ← requireStep stepId
    let existed ← Txn.read (findReceipt idempotencyKey)
    let receipt ← recordReceiptInTransaction sha step.runId (some stepId) idempotencyKey payload
      a.now
    if existed.isNone then
      let _ ← appendEventRow step.runId "receipt.recorded"
        (dict [("receipt_id", .str receipt.id), ("idempotency_key", .str idempotencyKey)])
        (some stepId) a.now
    return receipt

def findApproval (approvalId : String) (j : Journal) : Option ApprovalRecord :=
  Table.find ApprovalRecord.id approvalId j.approvals

@[simps]
def updateApprovals (p : ApprovalRecord → Bool) (f : ApprovalRecord → ApprovalRecord)
    (j : Journal) : Journal :=
  { j with approvals := Table.updateWhere p f j.approvals }

def requestApproval (a : Ambient) (runId : String) (stepId : Option String) (request : PyVal)
    (kind : String) : Op ApprovalRecord := do
  Txn.require (kind ≠ "") (invalid "approval kind must not be empty")
  let approvalId := "approval_" ++ a.uuid
  Txn.atomically do
    let _ ← requireRun runId
    requireStepOfRun runId stepId
    let column ← Txn.lift (canonicalJson request)
    let taken ← Txn.read (findApproval approvalId)
    Txn.require taken.isNone ⟨.integrityError, "UNIQUE constraint failed: approvals.id"⟩
    let approval : ApprovalRecord :=
      ⟨approvalId, runId, stepId, kind, column, .pending, none, none, none, a.now, none⟩
    Txn.write (addApproval approval)
    let _ ← appendEventRow runId "approval.requested"
      (dict [("approval_id", .str approvalId), ("kind", .str kind)]) stepId a.now
    return approval

def getApproval (approvalId : String) : Op ApprovalRecord := do
  let approval ← Txn.read (findApproval approvalId)
  Txn.getOr approval (notFound "approval" approvalId)

def decideApproval (a : Ambient) (approvalId : String) (decision : ApprovalStatus)
    (decidedBy : String) (reason : Option String) : Op ApprovalRecord := do
  Txn.require (decision ≠ .pending) (invalid "approval decision must be approved or rejected")
  Txn.require (decidedBy ≠ "") (invalid "decided_by must not be empty")
  Txn.atomically do
    let row ← getApproval approvalId
    if row.status ≠ .pending then do
      Txn.require (row.decision = some decision && row.decidedBy = some decidedBy)
        ⟨.invalidTransitionError, "approval " ++ pyRepr approvalId ++ " has already been " ++
          row.status.value⟩
      return row
    else do
      Txn.write (updateApprovals (fun r => r.id = approvalId && r.status = .pending)
        (.decided a decision decidedBy reason))
      let _ ← appendEventRow row.runId "approval.decided"
        (dict [("approval_id", .str approvalId), ("decision", .str decision.value),
          ("decided_by", .str decidedBy), ("reason", optStr reason)]) row.stepId a.now
      getApproval approvalId

/-- `ORDER BY created_at, id` -/
def approvalBefore (a b : ApprovalRecord) : Bool :=
  a.createdAt < b.createdAt || (a.createdAt = b.createdAt && !(b.id < a.id))

def listApprovals (runId stepId : Option String) (status : Option ApprovalStatus) :
    Op (List ApprovalRecord) :=
  Txn.read fun j => (j.approvals.filter fun r =>
    runId.all (r.runId = ·) && stepId.all (r.stepId = some ·) && status.all (r.status = ·)
    ).insertionSort fun a b => approvalBefore a b

end Journal

end Polaris
