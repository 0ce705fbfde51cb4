import Mathlib.Data.List.Perm.Basic
import Polaris.Library.Table
import Polaris.Library.Transaction
import Polaris.Scheduler.Schedule

namespace Polaris
open PyJson

structure SchedulerTables where
  jobs : List Job
  runs : List JobRun

/-- What a `SchedulerStore` takes from Python's libraries. -/
structure SchedulerStore where
  zones : ZoneInfos
  shuffle : ℤ → List Job → List Job
  shuffle_perm : ∀ seed jobs, (shuffle seed jobs).Perm jobs

/-- The clock in one operation, and the identifiers that it draws. -/
structure Draws where
  clock : Timestamp
  jobId : String
  runId : String → Timestamp → String

namespace SchedulerTables

def findJob (t : SchedulerTables) (jobId : String) : Option Job := Table.find Job.id jobId t.jobs

def findRun (t : SchedulerTables) (runId : String) : Option JobRun :=
  Table.find JobRun.id runId t.runs

end SchedulerTables

namespace SchedulerStore

abbrev Op (α : Type) := Txn PyError SchedulerTables α

def validationError (message : String) : PyError := ⟨.other "SchedulerValidationError", message⟩

def conflictError (message : String) : PyError := ⟨.other "SchedulerConflictError", message⟩

def ownershipError (message : String) : PyError := ⟨.other "SchedulerOwnershipError", message⟩

def jobNotFound (jobId : String) : PyError :=
  ⟨.other "SchedulerNotFoundError", "job " ++ Journal.pyRepr jobId ++ " was not found"⟩

def runNotFound (runId : String) : PyError :=
  ⟨.other "SchedulerNotFoundError", "job run " ++ Journal.pyRepr runId ++ " was not found"⟩

def getJob (jobId : String) : Op Job := do
  let found ← Txn.read fun t => t.findJob jobId
  Txn.getOr found (jobNotFound jobId)

def getRun (runId : String) : Op JobRun := do
  let found ← Txn.read fun t => t.findRun runId
  Txn.getOr found (runNotFound runId)

def updateJobs (p : Job → Bool) (f : Job → Job) (t : SchedulerTables) : SchedulerTables :=
  { t with jobs := Table.updateWhere p f t.jobs }

def updateRuns (p : JobRun → Bool) (f : JobRun → JobRun) (t : SchedulerTables) : SchedulerTables :=
  { t with runs := Table.updateWhere p f t.runs }

/-- An update that must meet exactly one row. -/
def updateOneJob (p : Job → Bool) (f : Job → Job) (e : PyError) : Op Unit := do
  let count ← Txn.read fun t => t.jobs.countP p
  Txn.write (updateJobs p f)
  Txn.require (count = 1) e

def updateOneRun (p : JobRun → Bool) (f : JobRun → JobRun) (e : PyError) : Op Unit := do
  let count ← Txn.read fun t => t.runs.countP p
  Txn.write (updateRuns p f)
  Txn.require (count = 1) e

/-! Jobs. -/

def policyOf (policy : String) : Except PyError CatchupPolicy :=
  if policy = "skip" then .ok .skip
  else if policy = "fire_once" then .ok .fireOnce
  else if policy = "bounded" then .ok .bounded
  else .error (validationError "invalid catch-up policy")

def validateJobOptions (catchupPolicy : String) (maxCatchup : ℤ) (graceSeconds : ℚ) :
    Except PyError CatchupPolicy := do
  let policy ← policyOf catchupPolicy
  if maxCatchup < 1 ∨ 10 < maxCatchup then
    .error (validationError "max_catchup must be between 1 and 10")
  else if graceSeconds < 0 then
    .error (validationError "grace_seconds must be finite and non-negative")
  else if policy ≠ .bounded ∧ maxCatchup ≠ 1 then
    .error (validationError "max_catchup applies only to bounded catch-up")
  else return policy

variable (store : SchedulerStore)

/-- An interval without a start begins one interval from now. -/
def anchored (schedule : ScheduleSpec) (now : Timestamp) : Except PyError ScheduleSpec :=
  match schedule.kind with
  | .interval intervalSeconds none => do
      let delta ← timedeltaOfSeconds intervalSeconds
      let startAt ← checkedInstant (now + delta)
      return ⟨.interval intervalSeconds (some (.aware startAt)), schedule.timezone⟩
  | _ => .ok schedule

structure JobOptions where
  name : String
  jobId : Option String
  catchupPolicy : String
  maxCatchup : ℤ
  graceSeconds : ℚ

def createJob (schedule : ScheduleSpec) (payload : JobPayload) (options : JobOptions)
    (now : Option Timestamp) (a : Draws) : Op Job := do
  Txn.lift (schedule.postInit store.zones)
  let now := now.getD a.clock
  let policy ← Txn.lift
    (validateJobOptions options.catchupPolicy options.maxCatchup options.graceSeconds)
  let schedule ← Txn.lift (anchored schedule now)
  let nextRun ← Txn.lift (initialRun store.zones schedule now)
  let identifier := match options.jobId with
    | some jobId => if jobId = "" then a.jobId else jobId
    | none => a.jobId
  Txn.require (identifier ≠ "") (validationError "job_id must not be empty")
  let displayName := if pyStrip options.name = "" then identifier else pyStrip options.name
  Txn.atomically do
    let taken ← Txn.read fun t => (t.findJob identifier).isSome
    Txn.require (!taken) (conflictError ("job " ++ Journal.pyRepr identifier ++ " already exists"))
    Txn.write fun t => { t with jobs := t.jobs ++ [
      { id := identifier
        name := displayName
        schedule := schedule
        payload := payload
        catchupPolicy := policy
        maxCatchup := options.maxCatchup
        graceSeconds := options.graceSeconds
        state := .scheduled
        nextRunAt := nextRun
        createdAt := now
        updatedAt := now
        version := 1 }] }
  getJob identifier

/-- The fields that an update is given. -/
structure JobChanges where
  name : Option String
  schedule : Option ScheduleSpec
  payload : Option JobPayload
  catchupPolicy : Option String
  maxCatchup : Option ℤ
  graceSeconds : Option ℚ

/-- The columns that an update writes. -/
structure JobColumns where
  name : String
  schedule : ScheduleSpec
  payload : JobPayload
  catchupPolicy : CatchupPolicy
  maxCatchup : ℤ
  graceSeconds : ℚ
  nextRunAt : Option Timestamp
  updatedAt : Timestamp

end SchedulerStore

def Job.update (c : SchedulerStore.JobColumns) (job : Job) : Job :=
  { job with
    name := c.name
    schedule := c.schedule
    payload := c.payload
    catchupPolicy := c.catchupPolicy
    maxCatchup := c.maxCatchup
    graceSeconds := c.graceSeconds
    nextRunAt := c.nextRunAt
    updatedAt := c.updatedAt
    version := job.version + 1 }

def Job.setState (state : JobState) (stamp : Timestamp) (job : Job) : Job :=
  { job with
    state := state
    updatedAt := stamp
    version := job.version + 1 }

def Job.setNextRun (nextRunAt : Option Timestamp) (state : JobState) (stamp : Timestamp)
    (job : Job) : Job :=
  { job with
    nextRunAt := nextRunAt
    state := state
    updatedAt := stamp
    version := job.version + 1 }

namespace SchedulerStore
variable (store : SchedulerStore)

/-- The first half of an update: the current job is read outside of the transaction. -/
def updateJobRead (jobId : String) (changes : JobChanges) (now : Option Timestamp) (a : Draws) :
    Op JobColumns := do
  Txn.lift ((changes.schedule.map (ScheduleSpec.postInit store.zones)).getD (.ok ()))
  let current ← getJob jobId
  let newName := (changes.name.map pyStrip).getD current.name
  Txn.require (newName ≠ "") (validationError "name must not be empty")
  let newSchedule := changes.schedule.getD current.schedule
  let newMax := changes.maxCatchup.getD current.maxCatchup
  let newGrace := changes.graceSeconds.getD current.graceSeconds
  let policy ← Txn.lift (validateJobOptions
    (changes.catchupPolicy.getD current.catchupPolicy.value) newMax newGrace)
  let stampTime := now.getD a.clock
  let newSchedule ← Txn.lift (anchored newSchedule stampTime)
  let nextRun ← Txn.lift (if changes.schedule.isSome then initialRun store.zones newSchedule stampTime
    else .ok current.nextRunAt)
  return ⟨newName, newSchedule, changes.payload.getD current.payload, policy, newMax, newGrace,
    nextRun, stampTime⟩

def updateJobWrite (jobId : String) (columns : JobColumns) : Op Unit :=
  Txn.atomically (updateOneJob (fun job => job.id = jobId) (Job.update columns) (jobNotFound jobId))

def updateJob (jobId : String) (changes : JobChanges) (now : Option Timestamp) (a : Draws) :
    Op Job := do
  let columns ← updateJobRead store jobId changes now a
  updateJobWrite jobId columns
  getJob jobId

def setJobState (jobId : String) (state fromState : JobState) (now : Option Timestamp) (a : Draws) :
    Op Job := do
  Txn.atomically do
    let found ← Txn.read fun t => t.findJob jobId
    let met ← Txn.read fun t => t.jobs.countP fun job => job.id = jobId && job.state = fromState
    Txn.write (updateJobs (fun job => job.id = jobId && job.state = fromState)
      (Job.setState state (now.getD a.clock)))
    Txn.require (met = 1 || found.isSome) (jobNotFound jobId)
    Txn.require (met = 1) (conflictError
      ("only " ++ fromState.value ++ " jobs can transition to " ++ state.value))
  getJob jobId

def pauseJob (jobId : String) (now : Option Timestamp) (a : Draws) : Op Job :=
  setJobState jobId .paused .scheduled now a

def resumeJob (jobId : String) (now : Option Timestamp) (a : Draws) : Op Job := do
  let stamp := now.getD a.clock
  Txn.atomically do
    let current ← getJob jobId
    Txn.require (current.state = .paused) (conflictError "only paused jobs can be resumed")
    let nextRun ← Txn.lift (match current.nextRunAt with
      | some next => .ok (some next)
      | none => initialRun store.zones current.schedule stamp)
    updateOneJob (fun job => job.id = jobId && job.state = .paused)
      (Job.setNextRun nextRun .scheduled stamp)
      (conflictError "job state changed while it was being resumed")
  getJob jobId

end SchedulerStore

/-! Runs. -/

def DeliveryStatus.suppressPending (status : DeliveryStatus) : DeliveryStatus :=
  if status = .pending then .suppressed else status

namespace JobRun

def requestCancel (stamp : Timestamp) (run : JobRun) : JobRun :=
  { run with
    cancelRequested := true
    updatedAt := stamp }

/-- A result that has not been delivered is not delivered any more. -/
def suppress (stamp : Timestamp) (run : JobRun) : JobRun :=
  { run with
    cancelRequested := true
    deliveryStatus := .suppressed
    deliveryError := none
    updatedAt := stamp }

def cancelClaimed (polarisRunId : Option String) (stamp : Timestamp) (run : JobRun) : JobRun :=
  { run with
    status := .cancelled
    owner := none
    leaseExpiresAt := none
    polarisRunId := polarisRunId.or run.polarisRunId
    deliveryStatus := run.deliveryStatus.suppressPending
    completedAt := some stamp
    updatedAt := stamp }

def start (polarisRunId : Option String) (stamp : Timestamp) (run : JobRun) : JobRun :=
  { run with
    status := .running
    startedAt := some stamp
    updatedAt := stamp
    polarisRunId := polarisRunId.or run.polarisRunId }

def attach (polarisRunId : String) (stamp : Timestamp) (run : JobRun) : JobRun :=
  { run with
    polarisRunId := some polarisRunId
    updatedAt := stamp }

def extend (expires stamp : Timestamp) (run : JobRun) : JobRun :=
  { run with
    leaseExpiresAt := some expires
    updatedAt := stamp }

/-- What a request to cancel writes, whatever the run has become since it was read. -/
def cancelRequest (stamp : Timestamp) (run : JobRun) : JobRun :=
  { run with
    cancelRequested := true
    deliveryStatus := if run.status = .succeeded ∧ run.deliveryStatus = .pending then .suppressed
      else run.deliveryStatus
    deliveryError := if run.status = .succeeded ∧ run.deliveryStatus = .pending then none
      else run.deliveryError
    updatedAt := stamp }

def cancel (stamp : Timestamp) (run : JobRun) : JobRun :=
  { run with
    status := .cancelled
    cancelRequested := true
    owner := none
    leaseExpiresAt := none
    deliveryStatus := run.deliveryStatus.suppressPending
    deliveryError := if run.deliveryStatus = .pending then none else run.deliveryError
    completedAt := some stamp
    updatedAt := stamp }

def complete (effective : JobRunStatus) (error polarisRunId : Option String) (stamp : Timestamp)
    (run : JobRun) : JobRun :=
  { run with
    status := effective
    executionError := error
    polarisRunId := polarisRunId.or run.polarisRunId
    owner := none
    leaseExpiresAt := none
    deliveryStatus := if effective = .cancelled then run.deliveryStatus.suppressPending
      else run.deliveryStatus
    deliveryError := if effective = .cancelled ∧ run.deliveryStatus = .pending then none
      else run.deliveryError
    completedAt := some stamp
    updatedAt := stamp }

def deliver (status : DeliveryStatus) (error : Option String) (stamp : Timestamp) (run : JobRun) :
    JobRun :=
  { run with
    deliveryStatus := status
    deliveryError := error
    updatedAt := stamp }

def interrupt (stamp : Timestamp) (run : JobRun) : JobRun :=
  { run with
    status := .interrupted
    executionError := some "lease expired; execution outcome may be ambiguous"
    owner := none
    leaseExpiresAt := none
    completedAt := some stamp
    updatedAt := stamp }

def initialDelivery (payload : JobPayload) : DeliveryStatus :=
  if payload.delivery.isSome then .pending else .notRequested

def retry (owner : String) (expires stamp : Timestamp) (run : JobRun) : JobRun :=
  { run with
    status := .claimed
    attempt := run.attempt + 1
    owner := some owner
    leaseExpiresAt := some expires
    polarisRunId := none
    cancelRequested := false
    executionError := none
    deliveryStatus := initialDelivery run.payload
    deliveryError := none
    claimedAt := stamp
    startedAt := none
    completedAt := none
    updatedAt := stamp }

def isStale (now : Timestamp) (run : JobRun) : Bool :=
  run.status.isActive && run.leaseExpiresAt.any (· ≤ now)

def isRetryable (run : JobRun) : Bool :=
  run.status = .failed || run.status = .interrupted || run.status = .cancelled

end JobRun

namespace SchedulerStore
variable (store : SchedulerStore)

def cancelJob (jobId : String) (now : Option Timestamp) (a : Draws) : Op Job := do
  let stamp := now.getD a.clock
  Txn.atomically do
    let current ← getJob jobId
    if current.state = .cancelled then pure ()
    else do
      if current.state = .completed then pure ()
      else
        updateOneJob (fun job => job.id = jobId && (job.state = .scheduled || job.state = .paused))
          (Job.setState .cancelled stamp)
          (conflictError "job state changed while cancellation was requested")
      Txn.write (updateRuns (fun run => run.jobId = jobId && run.status.isActive)
        (JobRun.requestCancel stamp))
      Txn.write (updateRuns (fun run => run.jobId = jobId && run.status = .succeeded &&
        run.deliveryStatus = .pending) (JobRun.suppress stamp))
  getJob jobId

/-- `next_run_at, id` -/
def runsBefore (job other : Job) : Bool :=
  job.nextRunAt.getD 0 < other.nextRunAt.getD 0 ||
    job.nextRunAt.getD 0 = other.nextRunAt.getD 0 && job.id ≤ other.id

def isDue (now : Timestamp) (job : Job) : Bool :=
  job.state = .scheduled && job.nextRunAt.any (· ≤ now)

def dueJobs (now : Timestamp) (t : SchedulerTables) : List Job :=
  (t.jobs.filter (isDue now)).insertionSort fun job other => runsBefore job other

def claimedRun (job : Job) (runId owner : String) (scheduledFor expires now : Timestamp) :
    JobRun where
  id := runId
  jobId := job.id
  scheduledFor := scheduledFor
  payload := job.payload
  status := .claimed
  attempt := 1
  owner := some owner
  leaseExpiresAt := some expires
  polarisRunId := none
  cancelRequested := false
  executionError := none
  deliveryStatus := JobRun.initialDelivery job.payload
  deliveryError := none
  claimedAt := now
  startedAt := none
  completedAt := none
  updatedAt := now

def holds (t : SchedulerTables) (run : JobRun) : Bool :=
  t.runs.any fun other => other.id = run.id ||
    other.jobId = run.jobId && other.scheduledFor = run.scheduledFor

/-- `INSERT OR IGNORE` -/
def insertRun (run : JobRun) (t : SchedulerTables) : SchedulerTables :=
  if holds t run then t else { t with runs := t.runs ++ [run] }

/-- What one claim has of its caller. -/
structure Claim where
  now : Timestamp
  owner : String
  leaseDelta : ℤ
  limit : ℕ
  runId : String → Timestamp → String

def claimOccurrences (c : Claim) (job : Job) : List Timestamp → List String → Op (List String)
  | [], ids => return ids
  | scheduledFor :: occurrences, ids => do
      let expires ← Txn.lift (checkedInstant (c.now + c.leaseDelta))
      let run := claimedRun job (c.runId job.id scheduledFor) c.owner scheduledFor expires c.now
      let held ← Txn.read fun t => holds t run
      Txn.write (insertRun run)
      claimOccurrences c job occurrences (if held then ids else ids ++ [run.id])

/-- `occurrences[-available:]` -/
def lastOf (available : ℕ) (occurrences : List Timestamp) : List Timestamp :=
  occurrences.drop (occurrences.length - available)

def claimJob (c : Claim) (job : Job) (ids : List String) : Op (List String) := do
  let occurrences ← Txn.lift (dueOccurrences store.zones job c.now)
  let ids ← claimOccurrences c job (lastOf (c.limit - ids.length) occurrences) ids
  let nextRun ← Txn.lift (advanceAfterNow store.zones job c.now)
  Txn.write (updateJobs (fun other => other.id = job.id)
    (Job.setNextRun nextRun (if nextRun.isSome then .scheduled else .completed) c.now))
  return ids

def claimJobs (c : Claim) : List Job → List String → Op (List String)
  | [], ids => return ids
  | job :: jobs, ids =>
      if c.limit ≤ ids.length then return ids
      else do
        let ids ← claimJob store c job ids
        claimJobs c jobs ids

def getRuns : List String → Op (List JobRun)
  | [] => return []
  | runId :: ids => do
      let run ← getRun runId
      let runs ← getRuns ids
      return run :: runs

def claimDueRuns (now : Timestamp) (owner : String) (lease : LeaseTime) (batch : ℤ)
    (startupCap jitterSeed : Option ℤ) (a : Draws) : Op (List JobRun) := do
  let leaseDelta ← Txn.lift lease.delta
  Txn.require (owner ≠ "") (validationError "owner must not be empty")
  Txn.require (0 < leaseDelta) (validationError "lease must be positive")
  Txn.require (1 ≤ batch) (validationError "batch must be positive")
  let limit := startupCap.elim batch (min batch)
  Txn.require (1 ≤ limit) (validationError "startup_cap must be positive")
  let claimedIds ← Txn.atomically do
    let due ← Txn.read (dueJobs now)
    let jobs := jitterSeed.elim due fun seed => store.shuffle seed due
    claimJobs store ⟨now, owner, leaseDelta, limit.toNat, a.runId⟩ jobs []
  getRuns claimedIds

def requireActiveLease (run : JobRun) (owner : String) (now : Timestamp) : Op Unit := do
  Txn.require (run.owner = some owner) (ownershipError "job run is owned by another scheduler")
  Txn.require (run.leaseExpiresAt.any (now < ·)) (ownershipError "job run lease has expired")

def markRunning (runId owner : String) (now : Option Timestamp) (polarisRunId : Option String)
    (a : Draws) : Op JobRun := do
  let stamp := now.getD a.clock
  let claimed (run : JobRun) : Bool :=
    run.id = runId && run.status = .claimed && run.owner = some owner
  Txn.atomically do
    let row ← getRun runId
    Txn.require (row.status = .claimed) (conflictError "only claimed runs can start")
    requireActiveLease row owner stamp
    if row.cancelRequested then
      Txn.write (updateRuns claimed (JobRun.cancelClaimed polarisRunId stamp))
    else
      updateOneRun claimed (JobRun.start polarisRunId stamp)
        (ownershipError "job run is no longer actively owned")
  getRun runId

def setPolarisRunId (runId owner polarisRunId : String) (now : Option Timestamp) (a : Draws) :
    Op JobRun := do
  Txn.require (polarisRunId ≠ "") (validationError "polaris_run_id must not be empty")
  Txn.atomically (updateOneRun
    (fun run => run.id = runId && run.owner = some owner && run.status.isActive)
    (JobRun.attach polarisRunId (now.getD a.clock))
    (ownershipError "cannot attach run id without an active ownership"))
  getRun runId

/-- The first half of a heartbeat: the run is read outside of the transaction. -/
def heartbeatRead (runId owner : String) (lease : LeaseTime) (now : Option Timestamp)
    (a : Draws) : Op Timestamp := do
  let stamp := now.getD a.clock
  let leaseDelta ← Txn.lift lease.delta
  Txn.require (0 < leaseDelta) (validationError "lease must be positive")
  let run ← getRun runId
  Txn.require run.status.isActive (conflictError "only active runs can heartbeat")
  requireActiveLease run owner stamp
  Txn.lift (checkedInstant (stamp + leaseDelta))

def heartbeatWrite (runId owner : String) (expires stamp : Timestamp) : Op Unit :=
  Txn.write (updateRuns (fun run => run.id = runId && run.owner = some owner)
    (JobRun.extend expires stamp))

def heartbeat (runId owner : String) (lease : LeaseTime) (now : Option Timestamp) (a : Draws) :
    Op JobRun := do
  let expires ← heartbeatRead runId owner lease now a
  heartbeatWrite runId owner expires (now.getD a.clock)
  getRun runId

/-- The first half of a request to cancel; no second half follows when the run has failed. -/
def requestCancelRead (runId : String) : Op Bool := do
  let run ← getRun runId
  return !run.isRetryable

def requestCancelWrite (runId : String) (stamp : Timestamp) : Op Unit :=
  Txn.write (updateRuns (fun run => run.id = runId) (JobRun.cancelRequest stamp))

def requestCancel (runId : String) (now : Option Timestamp) (a : Draws) : Op JobRun := do
  let goesOn ← requestCancelRead runId
  if goesOn then requestCancelWrite runId (now.getD a.clock) else pure ()
  getRun runId

def cancel (runId : String) (owner : Option String) (now : Option Timestamp) (a : Draws) :
    Op JobRun := do
  Txn.atomically do
    let row ← getRun runId
    if row.status.isActive then do
      Txn.require (owner.all fun name => row.owner = some name)
        (ownershipError "job run is owned by another scheduler")
      updateOneRun (fun run => run.id = runId && run.status.isActive)
        (JobRun.cancel (now.getD a.clock))
        (conflictError "job run changed while cancellation was requested")
    else pure ()
  getRun runId

def complete (runId owner : String) (terminal : JobRunStatus) (error polarisRunId : Option String)
    (now : Option Timestamp) (a : Draws) : Op JobRun := do
  let stamp := now.getD a.clock
  Txn.require (terminal = .succeeded || terminal = .failed || terminal = .cancelled)
    (validationError "completion status must be terminal")
  Txn.atomically do
    let row ← getRun runId
    Txn.require row.status.isActive (conflictError "only active runs can complete")
    requireActiveLease row owner stamp
    let effective := if row.cancelRequested then .cancelled else terminal
    Txn.write (updateRuns (fun run => run.id = runId && run.owner = some owner)
      (JobRun.complete effective error polarisRunId stamp))
  getRun runId

def recordDelivery (runId : String) (status : DeliveryStatus) (error : Option String)
    (now : Option Timestamp) (a : Draws) : Op JobRun := do
  Txn.require (status = .succeeded || status = .failed || status = .suppressed)
    (validationError "delivery status must be terminal")
  Txn.atomically do
    let row ← getRun runId
    Txn.require (row.status = .succeeded)
      (conflictError "delivery is only recorded after execution success")
    if row.deliveryStatus = .pending then
      Txn.write (updateRuns
        (fun run => run.id = runId && run.status = .succeeded && run.deliveryStatus = .pending)
        (JobRun.deliver status error (now.getD a.clock)))
    else pure ()
  getRun runId

/-- `lease_expires_at, id` -/
def expiresBefore (run other : JobRun) : Bool :=
  run.leaseExpiresAt.getD 0 < other.leaseExpiresAt.getD 0 ||
    run.leaseExpiresAt.getD 0 = other.leaseExpiresAt.getD 0 && run.id ≤ other.id

def recoverStaleRuns (now : Option Timestamp) (a : Draws) : Op (List JobRun) := do
  let stamp := now.getD a.clock
  let identifiers ← Txn.atomically do
    let stale ← Txn.read fun t => (t.runs.filter (JobRun.isStale stamp)).insertionSort
      fun run other => expiresBefore run other
    let identifiers := stale.map JobRun.id
    Txn.write (updateRuns (fun run => run.id ∈ identifiers) (JobRun.interrupt stamp))
    return identifiers
  getRuns identifiers

def createRetry (runId owner : String) (lease : LeaseTime) (approved : Bool)
    (now : Option Timestamp) (a : Draws) : Op JobRun := do
  Txn.require approved (validationError "retry requires explicit approval")
  let stamp := now.getD a.clock
  let leaseDelta ← Txn.lift lease.delta
  Txn.require (0 < leaseDelta && owner ≠ "") (validationError "retry owner and lease must be valid")
  Txn.atomically do
    let row ← getRun runId
    Txn.require row.isRetryable (conflictError "only unsuccessful terminal runs can be retried")
    let expires ← Txn.lift (checkedInstant (stamp + leaseDelta))
    updateOneRun (fun run => run.id = runId && run.isRetryable) (JobRun.retry owner expires stamp)
      (conflictError "job run changed while retry was requested")
  getRun runId

end SchedulerStore

end Polaris
