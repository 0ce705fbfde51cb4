import Polaris.Journal.Records

namespace Polaris
open PyJson

def dict (entries : List (String × PyVal)) : PyVal := .map .dict entries

def optStr (s : Option String) : PyVal := s.elim .null .str

def optInt (n : Option ℤ) : PyVal := n.elim .null .int

namespace StepRecord

/-- `ORDER BY CASE WHEN sequence IS NULL THEN 1 ELSE 0 END, sequence, created_at, id` -/
def listedBefore (a b : StepRecord) : Bool :=
  let tie := a.createdAt < b.createdAt || (a.createdAt = b.createdAt && !(b.id < a.id))
  match a.sequence, b.sequence with
  | some _, none => true
  | none, some _ => false
  | some m, some n => m < n || (m = n && tie)
  | none, none => tie

def expiresBefore (a b : StepRecord) : Bool :=
  let s := a.leaseExpiresAt.getD 0
  let t := b.leaseExpiresAt.getD 0
  s < t || (s = t && !(b.id < a.id))

@[simps]
def lease (workerId : String) (expiry now : Timestamp) (r : StepRecord) : StepRecord :=
  { r with
    status := .leased, leaseOwner := some workerId, leaseExpiresAt := some expiry,
    attemptCount := r.attemptCount + 1, updatedAt := now }

@[simps]
def execute (now : Timestamp) (r : StepRecord) : StepRecord :=
  { r with status := .executing, updatedAt := now }

@[simps]
def extend (expiry now : Timestamp) (r : StepRecord) : StepRecord :=
  { r with leaseExpiresAt := some expiry, updatedAt := now }

@[simps]
def commit (output : JsonColumn) (now : Timestamp) (r : StepRecord) : StepRecord :=
  { r with
    status := .committed, output := some output, error := none, leaseOwner := none,
    leaseExpiresAt := none, updatedAt := now }

@[simps]
def finish (target : StepStatus) (error : Option JsonColumn) (reason : Option String)
    (now : Timestamp) (r : StepRecord) : StepRecord :=
  { r with
    status := target, error := error, uncertaintyReason := reason, leaseOwner := none,
    leaseExpiresAt := none, updatedAt := now }

@[simps]
def cancel (now : Timestamp) (r : StepRecord) : StepRecord :=
  { r with status := .cancelled, leaseOwner := none, leaseExpiresAt := none, updatedAt := now }

@[simps]
def expire (target : StepStatus) (reason : Option String) (now : Timestamp) (r : StepRecord) :
    StepRecord :=
  { r with
    status := target, uncertaintyReason := reason, leaseOwner := none, leaseExpiresAt := none,
    updatedAt := now }

end StepRecord

namespace Journal

def coerceSafety (safety : String) : Except PyError SafetyClass :=
  if safety = "read_only" then .ok .readOnly
  else if safety = "idempotent" then .ok .idempotent
  else if safety = "reconcilable" then .ok .reconcilable
  else if safety = "opaque_side_effect" then .ok .opaqueSideEffect
  else .error (invalid ("unknown safety class: " ++ pyRepr safety))

def stepKey (sha : Sha256) (kind name inputHash : String) (safety : SafetyClass)
    (sequence : Option ℤ) : Except PyError String :=
  sha256Hex sha (dict [("kind", .str kind), ("name", .str name), ("input_hash", .str inputHash),
    ("safety", .str safety.value), ("sequence", optInt sequence)])

def stepIdOf (sha : Sha256) (runId key : String) : Except PyError String := do
  return "step_" ++ (← sha256Hex sha (dict [("run_id", .str runId), ("key", .str key)]))

@[simps]
def updateSteps (p : StepRecord → Bool) (f : StepRecord → StepRecord) (j : Journal) : Journal :=
  { j with steps := Table.updateWhere p f j.steps }

def changeStep (row : StepRecord) (p : StepRecord → Bool) (f : StepRecord → StepRecord)
    (eventType : String) (payload : PyVal) (now : Timestamp) : Op StepRecord := do
  Txn.write (updateSteps (fun r => r.id = row.id && p r) f)
  let _ ← appendEventRow row.runId eventType payload (some row.id) now
  requireStep row.id

@[simps]
def newStep (a : Ambient) (stepId runId key kind name : String) (input : JsonColumn)
    (inputHash : String) (safety : SafetyClass) (sequence : Option ℤ) : StepRecord :=
  ⟨stepId, runId, key, kind, name, input, inputHash, safety, sequence, .ready, none, none, none,
    none, none, 0, a.now, a.now⟩

def createStep (sha : Sha256) (a : Ambient) (runId kind name : String) (input : PyVal)
    (safety : String) (sequence : Option ℤ) : Op StepRecord := do
  Txn.require (kind ≠ "" && name ≠ "") (invalid "step kind and name must not be empty")
  Txn.require (sequence.all (0 ≤ ·)) (invalid "sequence must be non-negative")
  let safetyValue ← Txn.lift (coerceSafety safety)
  let inputJson ← Txn.lift (canonicalJson input)
  let inputHash ← Txn.lift (sha256Hex sha input)
  let key ← Txn.lift (stepKey sha kind name inputHash safetyValue sequence)
  let stepId ← Txn.lift (stepIdOf sha runId key)
  Txn.atomically do
    let _ ← requireRun runId
    -- INSERT OR IGNORE: neither the id nor the run's deterministic key may be taken
    let taken ← Txn.read fun j => j.steps.any fun r =>
      r.id = stepId || (r.runId = runId && r.key = key)
    if !taken then
      Txn.write (addStep (newStep a stepId runId key kind name inputJson inputHash safetyValue
        sequence))
      let _ ← appendEventRow runId "step.created"
        (dict [("kind", .str kind), ("name", .str name), ("input_hash", .str inputHash),
          ("safety", .str safetyValue.value), ("sequence", optInt sequence),
          ("status", .str StepStatus.ready.value)]) (some stepId) a.now
    requireStep stepId

def getStep (stepId : String) : Op StepRecord := requireStep stepId

def orderedSteps (runId : String) (statuses : Option (List StepStatus)) (j : Journal) :
    List StepRecord :=
  (j.steps.filter fun r => r.runId = runId && statuses.all (r.status ∈ ·)).insertionSort
    fun a b => a.listedBefore b

def listSteps (runId : String) (statuses : Option (List StepStatus)) : Op (List StepRecord) := do
  if statuses = some [] then return []
  else
    let _ ← requireRun runId
    Txn.read (orderedSteps runId statuses)

def firstReady (runId : Option String) (j : Journal) : Option StepRecord :=
  ((j.steps.filter fun r => r.status = .ready && runId.all (r.runId = ·)).insertionSort
    fun a b => a.listedBefore b).head?

def requireRunIfGiven : Option String → Op Unit
  | none => return ()
  | some runId => do let _ ← requireRun runId

def claimReadyStep (a : Ambient) (workerId : String) (leaseSeconds : ℚ)
    (runId : Option String) : Op (Option StepRecord) := do
  Txn.require (workerId ≠ "") (invalid "worker_id must not be empty")
  Txn.require (0 < leaseSeconds) (invalid "lease_seconds must be positive")
  let expiry ← Txn.lift (expiryAfter a.leaseFrom leaseSeconds)
  Txn.atomically do
    requireRunIfGiven runId
    match ← Txn.read (firstReady runId) with
    | none => return none
    | some row => do
        -- the row was read in this transaction, so exactly one row changes
        let claimed ← changeStep row (fun r => r.status = .ready) (.lease workerId expiry a.now)
          "step.leased"
          (dict [("worker_id", .str workerId), ("lease_expires_at", .str (isoformat expiry)),
            ("attempt", .int (row.attemptCount + 1))]) a.now
        return some claimed

def checkOwnerAndLease (a : Ambient) (row : StepRecord) (workerId : String) : Op Unit := do
  Txn.require (workerId ≠ "") (invalid "worker_id must not be empty")
  Txn.require (row.leaseOwner = some workerId) ⟨.ownershipError,
    "step " ++ pyRepr row.id ++ " is owned by " ++ row.leaseOwner.elim "None" pyRepr ++ ", not " ++
      pyRepr workerId⟩
  Txn.require (row.leaseExpiresAt.any (a.checkedAt < ·)) ⟨.leaseExpiredError,
    "lease for step " ++ pyRepr row.id ++ " has expired"⟩

def cannotTransition (stepId : String) (current target : StepStatus) : PyError :=
  ⟨.invalidTransitionError, "step " ++ pyRepr stepId ++ " cannot transition from " ++
    current.value ++ " to " ++ target.value⟩

def markExecuting (a : Ambient) (stepId workerId : String) : Op StepRecord :=
  Txn.atomically do
    let row ← requireStep stepId
    Txn.require (row.status = .leased) (cannotTransition stepId row.status .executing)
    checkOwnerAndLease a row workerId
    changeStep row (fun r => r.status = .leased) (.execute a.now) "step.executing"
      (dict [("worker_id", .str workerId)]) a.now

def heartbeat (a : Ambient) (stepId workerId : String) (leaseSeconds : ℚ) : Op StepRecord := do
  Txn.require (0 < leaseSeconds) (invalid "lease_seconds must be positive")
  Txn.atomically do
    let row ← requireStep stepId
    Txn.require (row.status = .leased || row.status = .executing) ⟨.invalidTransitionError,
      "cannot heartbeat step " ++ pyRepr stepId ++ " in " ++ row.status.value ++ " state"⟩
    checkOwnerAndLease a row workerId
    let expiry ← Txn.lift (expiryAfter a.leaseFrom leaseSeconds)
    changeStep row (fun r => r.status = row.status && r.leaseOwner = some workerId)
      (.extend expiry a.now) "step.heartbeat"
      (dict [("worker_id", .str workerId), ("lease_expires_at", .str (isoformat expiry))]) a.now

def findReceipt (idempotencyKey : String) (j : Journal) : Option ReceiptRecord :=
  Table.find ReceiptRecord.idempotencyKey idempotencyKey j.receipts

def recordReceiptInTransaction (sha : Sha256) (runId : String) (stepId : Option String)
    (idempotencyKey : String) (payload : PyVal) (now : Timestamp) : Op ReceiptRecord := do
  Txn.require (idempotencyKey ≠ "") (invalid "idempotency_key must not be empty")
  let payloadJson ← Txn.lift (canonicalJson payload)
  match ← Txn.read (findReceipt idempotencyKey) with
  | some existing => do
      Txn.require (existing.runId = runId && existing.stepId = stepId &&
          existing.payload.text = payloadJson.text)
        ⟨.journalConflictError, "receipt " ++ pyRepr idempotencyKey ++
          " already exists with different data"⟩
      return existing
  | none => do
      let digest ← Txn.lift (sha256Hex sha (.str idempotencyKey))
      let receipt : ReceiptRecord :=
        ⟨"receipt_" ++ digest, runId, stepId, idempotencyKey, payloadJson, now⟩
      let taken ← Txn.read fun j => j.receipts.any fun r => r.id = receipt.id
      Txn.require (!taken) ⟨.integrityError, "UNIQUE constraint failed: receipts.id"⟩
      Txn.write (addReceipt receipt)
      return receipt

/-- A receipt as `commit_step` takes it: a record, or a mapping with these keys. -/
structure ReceiptInput where
  idempotencyKey : Option String
  payload : Option PyVal
  receipt : Option PyVal
deriving DecidableEq

def ReceiptInput.payloadValue (receipt : ReceiptInput) : PyVal :=
  receipt.payload.getD (receipt.receipt.getD .null)

def commitReceipt (sha : Sha256) (a : Ambient) (row : StepRecord) :
    Option ReceiptInput → Op (Option String)
  | none => return none
  | some receipt => do
      let idempotencyKey ← Txn.getOr receipt.idempotencyKey
        (invalid "receipt requires an idempotency_key")
      let record ← recordReceiptInTransaction sha row.runId (some row.id) idempotencyKey
        receipt.payloadValue a.now
      return some record.id

def commitStep (sha : Sha256) (a : Ambient) (stepId workerId : String) (output : PyVal)
    (receipt : Option ReceiptInput) : Op StepRecord :=
  Txn.atomically do
    let row ← requireStep stepId
    Txn.require (row.status = .executing) (cannotTransition stepId row.status .committed)
    checkOwnerAndLease a row workerId
    let receiptId ← commitReceipt sha a row receipt
    let outputJson ← Txn.lift (canonicalJson output)
    let outputHash ← Txn.lift (sha256Hex sha output)
    changeStep row (fun r => r.status = .executing && r.leaseOwner = some workerId)
      (.commit outputJson a.now) "step.committed"
      (dict [("worker_id", .str workerId), ("output_hash", .str outputHash),
        ("receipt_id", optStr receiptId)]) a.now

def errorColumn : Option PyVal → Op (Option JsonColumn)
  | some error => do return some (← Txn.lift (canonicalJson error))
  | none => return none

def finishOwnedStep (a : Ambient) (stepId workerId : String) (target : StepStatus)
    (eventType : String) (error : Option PyVal) (reason : Option String) : Op StepRecord :=
  Txn.atomically do
    let row ← requireStep stepId
    Txn.require (row.status = .leased || row.status = .executing)
      (cannotTransition stepId row.status target)
    checkOwnerAndLease a row workerId
    let errorJson ← errorColumn error
    changeStep row (fun r => r.status = row.status && r.leaseOwner = some workerId)
      (.finish target errorJson reason a.now) eventType
      (dict ([("worker_id", .str workerId)] ++ (error.map fun e => ("error", e)).toList ++
        (reason.map fun r => ("reason", .str r)).toList)) a.now

def failStep (a : Ambient) (stepId workerId : String) (error : PyVal) : Op StepRecord :=
  -- a JSON null error is Python's None: no error is stored
  finishOwnedStep a stepId workerId .failed "step.failed"
    (if error = .null then none else some error) none

def markUncertain (a : Ambient) (stepId workerId reason : String) : Op StepRecord := do
  Txn.require (reason ≠ "") (invalid "uncertainty reason must not be empty")
  finishOwnedStep a stepId workerId .uncertain "step.uncertain" none (some reason)

def checkCanceller (a : Ambient) (row : StepRecord) (workerId : Option String) : Op Unit :=
  if row.status = .leased ∨ row.status = .executing then do
    let worker ← Txn.getOr workerId ⟨.ownershipError,
      "worker_id is required to cancel leased step " ++ pyRepr row.id⟩
    checkOwnerAndLease a row worker
  else return ()

def cancelStep (a : Ambient) (stepId : String) (workerId : Option String) : Op StepRecord :=
  Txn.atomically do
    let row ← requireStep stepId
    Txn.require (row.status ∈ [StepStatus.created, .ready, .leased, .executing, .uncertain])
      (cannotTransition stepId row.status .cancelled)
    checkCanceller a row workerId
    changeStep row (fun r => r.status = row.status) (.cancel a.now) "step.cancelled"
      (dict [("worker_id", optStr workerId), ("from", .str row.status.value)]) a.now

def reclaimTarget : SafetyClass → StepStatus
  | .readOnly => .ready
  | .idempotent => .ready
  | .reconcilable => .uncertain
  | .opaqueSideEffect => .uncertain

def reclaimReason (target : StepStatus) : Option String :=
  if target = .ready then none
  else some "lease expired; outcome requires reconciliation or approval"

def expiredAt (now : Timestamp) (r : StepRecord) : Bool :=
  (r.status = .leased || r.status = .executing) && r.leaseExpiresAt.any (· ≤ now)

def reclaimRows (now : Timestamp) : List StepRecord → Op (List StepRecord)
  | [] => return []
  | row :: rows => do
      let target := reclaimTarget row.safety
      let updated ← changeStep row (fun r => r.status = row.status &&
          r.leaseExpiresAt.any (· ≤ now)) (.expire target (reclaimReason target) now)
        "step.lease_expired"
        (dict [("from", .str row.status.value), ("to", .str target.value),
          ("previous_owner", optStr row.leaseOwner), ("safety", .str row.safety.value),
          ("reason", optStr (reclaimReason target))]) now
      return updated :: (← reclaimRows now rows)

/-- `now` defaults to the clock. -/
def reclaimExpiredLeases (a : Ambient) (now : Option Timestamp) : Op (List StepRecord) :=
  let timestamp := now.getD a.now
  Txn.atomically do
    let rows ← Txn.read fun j =>
      (j.steps.filter (expiredAt timestamp)).insertionSort fun a b => a.expiresBefore b
    reclaimRows timestamp rows

end Journal

end Polaris
