import Polaris.Scheduler.Cron

namespace Polaris
open PyJson

/-- A kind of schedule with the fields that it may have. -/
inductive ScheduleKind where
  | once (onceAt : TimeValue)
  | interval (intervalSeconds : ℚ) (startAt : Option TimeValue)
  | cron (cron : String)
deriving DecidableEq, Repr

structure ScheduleSpec where
  kind : ScheduleKind
  timezone : String
deriving DecidableEq, Repr

structure JobPayload where
  mode : String
  request : List (String × PyVal)
  delivery : Option (List (String × PyVal))

structure Job where
  id : String
  name : String
  schedule : ScheduleSpec
  payload : JobPayload
  catchupPolicy : CatchupPolicy
  maxCatchup : ℤ
  graceSeconds : ℚ
  state : JobState
  nextRunAt : Option Timestamp
  createdAt : Timestamp
  updatedAt : Timestamp
  version : ℕ

structure JobRun where
  id : String
  jobId : String
  scheduledFor : Timestamp
  payload : JobPayload
  status : JobRunStatus
  attempt : ℕ
  owner : Option String
  leaseExpiresAt : Option Timestamp
  polarisRunId : Option String
  cancelRequested : Bool
  executionError : Option String
  deliveryStatus : DeliveryStatus
  deliveryError : Option String
  claimedAt : Timestamp
  startedAt : Option Timestamp
  completedAt : Option Timestamp
  updatedAt : Timestamp

namespace ScheduleSpec
variable (zones : ZoneInfos)

/-- `__post_init__` -/
def postInit (schedule : ScheduleSpec) : Except PyError Unit := do
  let _ ← getTimezone zones schedule.timezone
  match schedule.kind with
  | .once onceAt => do
      let _ ← parseTimestamp zones onceAt schedule.timezone
  | .interval intervalSeconds startAt =>
      if intervalSeconds ≤ 0 then .error ⟨.valueError, "interval_seconds must be positive"⟩
      else
        match startAt with
        | none => return ()
        | some value => do
            let _ ← parseTimestamp zones value schedule.timezone
  | .cron cron => do
      let _ ← CronExpression.parse cron

end ScheduleSpec

/-- `anchor + timedelta(seconds=index * interval_seconds)` -/
def intervalAt (anchor : Timestamp) (index : ℤ) (intervalSeconds : ℚ) : Except PyError Timestamp := do
  let offset ← finite (Binary64.mulInt index intervalSeconds)
  let delta ← timedeltaOfSeconds offset
  checkedInstant (anchor + delta)

/-- `int(elapsed // interval_seconds)` -/
def intervalIndex (elapsed : ℤ) (intervalSeconds : ℚ) : Except PyError ℤ :=
  finite (Binary64.floorDiv (totalSeconds elapsed) intervalSeconds)

section
variable (zones : ZoneInfos)

/-- The first occurrence after an instant. -/
def computeNextRun (schedule : ScheduleSpec) (after : Timestamp) :
    Except PyError (Option Timestamp) :=
  match schedule.kind with
  | .once onceAt => do
      let occurrence ← parseTimestamp zones onceAt schedule.timezone
      return if after < occurrence then some occurrence else none
  | .interval intervalSeconds startAt => do
      let anchor ← match startAt with
        | none => .ok after
        | some value => parseTimestamp zones value schedule.timezone
      if after < anchor then return some anchor
      else do
        let quotient ← intervalIndex (after - anchor) intervalSeconds
        let occurrence ← intervalAt anchor (quotient + 1) intervalSeconds
        return some occurrence
  | .cron cron => do
      let expression ← CronExpression.parse cron
      let zone ← getTimezone zones schedule.timezone
      let occurrence ← expression.nextAfter after zone
      return some occurrence

def initialRun (schedule : ScheduleSpec) (now : Timestamp) : Except PyError (Option Timestamp) :=
  match schedule.kind with
  | .once onceAt => do
      let occurrence ← parseTimestamp zones onceAt schedule.timezone
      return some occurrence
  | .interval _ startAt =>
      match startAt with
      | none => .error ⟨.other "AssertionError", ""⟩
      | some value => do
          let anchor ← parseTimestamp zones value schedule.timezone
          if now ≤ anchor then return some anchor else computeNextRun zones schedule now
  | .cron _ => computeNextRun zones schedule now

/-- The matching minutes from a cursor back to the first one, no more than a number of them. The
next one back is sought even when it is not needed. -/
def collectBack (expression : CronExpression) (zone : ZoneInfo) (first : Timestamp) :
    ℕ → Timestamp → Except PyError (List Timestamp)
  | 0, _ => .ok []
  | count + 1, cursor =>
      if cursor < first then .ok []
      else do
        let before ← checkedInstant (cursor - 1)
        let earlier ← expression.previousOrAt before zone
        let found ← collectBack expression zone first count earlier
        return cursor :: found

/-- The latest occurrence, as the policy `SKIP` takes it. -/
def latestOccurrence (schedule : ScheduleSpec) (first now : Timestamp) :
    Except PyError Timestamp :=
  match schedule.kind with
  | .once _ => .ok first
  | .interval intervalSeconds _ => do
      let index ← intervalIndex (now - first) intervalSeconds
      intervalAt first index intervalSeconds
  | .cron cron => do
      let expression ← CronExpression.parse cron
      let zone ← getTimezone zones schedule.timezone
      expression.previousOrAt now zone

/-- The last occurrences up to now, no more than a number of them; all but one policy take these. -/
def lastOccurrences (schedule : ScheduleSpec) (count : ℕ) (first now : Timestamp) :
    Except PyError (List Timestamp) :=
  match schedule.kind with
  | .once _ => .ok [first]
  | .interval intervalSeconds _ => do
      let latest ← intervalIndex (now - first) intervalSeconds
      let start := max 0 (latest - count + 1)
      (List.range (latest + 1 - start).toNat).mapM fun i : ℕ =>
        intervalAt first (start + i) intervalSeconds
  | .cron cron => do
      let expression ← CronExpression.parse cron
      let zone ← getTimezone zones schedule.timezone
      let cursor ← expression.previousOrAt now zone
      let found ← collectBack expression zone first count cursor
      return found.reverse

def dueOccurrences (job : Job) (now : Timestamp) : Except PyError (List Timestamp) :=
  match job.nextRunAt with
  | none => .ok []
  | some first =>
      if now < first then .ok []
      else
        match job.catchupPolicy with
        | .skip => do
            let latest ← latestOccurrence zones job.schedule first now
            return if latest < first ∨ job.graceSeconds < totalSeconds (now - latest) then []
              else [latest]
        | .fireOnce => lastOccurrences zones job.schedule 1 first now
        | .bounded => lastOccurrences zones job.schedule job.maxCatchup.toNat first now

def advanceAfterNow (job : Job) (now : Timestamp) : Except PyError (Option Timestamp) :=
  match job.schedule.kind with
  | .once _ => .ok none
  | _ => computeNextRun zones job.schedule now

end

end Polaris
