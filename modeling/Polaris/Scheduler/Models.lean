import Mathlib.Data.List.Sort
import Polaris.Library.Binary64
import Polaris.Providers.Base

namespace Polaris
open PyJson

inductive CatchupPolicy where
  | skip
  | fireOnce
  | bounded
deriving DecidableEq, Repr

def CatchupPolicy.value : CatchupPolicy → String
  | .skip => "skip"
  | .fireOnce => "fire_once"
  | .bounded => "bounded"

inductive JobState where
  | scheduled
  | paused
  | completed
  | cancelled
deriving DecidableEq, Repr

def JobState.value : JobState → String
  | .scheduled => "scheduled"
  | .paused => "paused"
  | .completed => "completed"
  | .cancelled => "cancelled"

inductive JobRunStatus where
  | claimed
  | running
  | succeeded
  | failed
  | interrupted
  | cancelled
deriving DecidableEq, Repr

def JobRunStatus.isActive : JobRunStatus → Bool
  | .claimed | .running => true
  | _ => false

inductive DeliveryStatus where
  | notRequested
  | pending
  | succeeded
  | failed
  | suppressed
deriving DecidableEq, Repr

/-! Instants and durations, in microseconds. -/

def minute : ℕ := 60000000

def rangeError : PyError := ⟨.overflowError, "date value out of range"⟩

/-- A datetime lies in the years 1 to 9999. -/
def checkedInstant (t : ℤ) : Except PyError Timestamp :=
  if 0 ≤ t ∧ t < timestampLimit then .ok t.toNat else .error rangeError

/-- What a double gives once `int` or `timedelta` takes it. -/
def finite {α : Type} (x : Option α) : Except PyError α :=
  x.elim (.error ⟨.overflowError, "cannot convert float infinity to integer"⟩) .ok

/-- `timedelta(seconds=…)` of a double. -/
def timedeltaOfSeconds (seconds : ℚ) : Except PyError ℤ := do
  let whole := Binary64.truncate seconds
  let part ← finite (Binary64.nearest (1000000 * (seconds - whole)))
  let delta := whole * 1000000 + Binary64.roundEven part
  let days := delta / microsecondsPerDay
  if |days| ≤ 999999999 then return delta
  else if |days| < 2147483648 then .error ⟨.overflowError,
    "days=" ++ toString days ++ "; must have magnitude <= 999999999"⟩
  else .error ⟨.overflowError, "Python int too large to convert to C int"⟩

/-- `timedelta.total_seconds` -/
def totalSeconds (delta : ℤ) : ℚ := (Binary64.nearest (delta / 1000000)).getD 0

/-- A lease is a duration or a number of seconds. -/
inductive LeaseTime where
  | timedelta (microseconds : ℤ)
  | seconds (seconds : ℚ)

def LeaseTime.delta : LeaseTime → Except PyError ℤ
  | .timedelta microseconds => .ok microseconds
  | .seconds x => timedeltaOfSeconds x

/-! Time zones. -/

/-- A naive local time, counted as if it were one of UTC, and its fold. -/
structure LocalTime where
  naive : ℤ
  fold : Bool
deriving DecidableEq, Repr

structure ZoneInfo where
  /-- The local time of an instant. -/
  localTime : Timestamp → LocalTime
  /-- What a local time is ahead of UTC. -/
  utcOffset : LocalTime → ℤ

/-- `value.astimezone(zone)` -/
def ZoneInfo.astimezone (zone : ZoneInfo) (value : Timestamp) : Except PyError LocalTime :=
  let l := zone.localTime value
  if 0 ≤ l.naive ∧ l.naive < timestampLimit then .ok l else .error rangeError

/-- `local.replace(tzinfo=zone, fold=fold).astimezone(UTC)` -/
def ZoneInfo.toUtc (zone : ZoneInfo) (l : LocalTime) : Except PyError Timestamp :=
  checkedInstant (l.naive - zone.utcOffset l)

/-- The zones that the time zone database has. -/
abbrev ZoneInfos := String → Option ZoneInfo

def getTimezone (zones : ZoneInfos) (name : String) : Except PyError ZoneInfo :=
  (zones name).elim (.error ⟨.valueError, "unknown IANA timezone: " ++ Journal.pyRepr name⟩) .ok

/-- What an ISO text or a datetime says: an instant, or a local time without a zone. -/
inductive TimeValue where
  | aware (instant : Timestamp)
  | naive (l : Timestamp)
deriving DecidableEq, Repr

def validLocalInstants (zone : ZoneInfo) (l : Timestamp) : Except PyError (List Timestamp) := do
  let step (found : List Timestamp) (fold : Bool) : Except PyError (List Timestamp) := do
    let candidate ← zone.toUtc ⟨l, fold⟩
    let roundTrip ← zone.astimezone candidate
    return if roundTrip = ⟨l, fold⟩ ∧ candidate ∉ found then found ++ [candidate] else found
  let first ← step [] false
  let found ← step first true
  return found.insertionSort (· ≤ ·)

/-- The text of a naive datetime; a fraction is left out when it is zero. -/
def naiveIsoformat (t : Timestamp) : String :=
  let (year, month, day) := dateOfDay (t / microsecondsPerDay)
  let seconds := t % microsecondsPerDay / 1000000
  let fraction := t % 1000000
  padded 4 year ++ "-" ++ padded 2 month ++ "-" ++ padded 2 day ++ "T" ++
    padded 2 (seconds / 3600) ++ ":" ++ padded 2 (seconds / 60 % 60) ++ ":" ++
    padded 2 (seconds % 60) ++ if fraction = 0 then "" else "." ++ padded 6 fraction

def parseTimestamp (zones : ZoneInfos) (value : TimeValue) (timezone : String) :
    Except PyError Timestamp :=
  match value with
  | .aware instant => .ok instant
  | .naive l => do
      let zone ← getTimezone zones timezone
      let candidates ← validLocalInstants zone l
      match candidates with
      | [] => .error ⟨.valueError, "timestamp " ++ naiveIsoformat l ++ " does not exist in " ++
          timezone⟩
      | first :: _ => .ok first

end Polaris
