import Polaris.Journal.Records
import Polaris.Library.FixedWidth
import Polaris.Library.Replace
import Polaris.Scheduler.Calendar

namespace Polaris
open FixedWidth

/-- A datetime: what its clock shows, as microseconds since the first day of year 1, and what the
clock is ahead of UTC. A naive one has no offset. -/
structure Datetime where
  wall : Timestamp
  offset : Option ℤ
  wall_lt : wall < timestampLimit
  offset_lt : ∀ o ∈ offset, o.natAbs < microsecondsPerDay

inductive Timespec where
  | auto
  | microseconds
deriving DecidableEq, Repr

def wallText (timespec : Timespec) (t : Timestamp) : String :=
  let (year, month, day) := dateOfDay (t / microsecondsPerDay)
  let seconds := t % microsecondsPerDay / 1000000
  let fraction := t % 1000000
  padded 4 year ++ "-" ++ padded 2 month ++ "-" ++ padded 2 day ++ "T" ++
    padded 2 (seconds / 3600) ++ ":" ++ padded 2 (seconds / 60 % 60) ++ ":" ++
    padded 2 (seconds % 60) ++
    if timespec = .auto ∧ fraction = 0 then "" else "." ++ padded 6 fraction

def offsetText (offset : ℤ) : String :=
  let n := offset.natAbs
  (if offset < 0 then "-" else "+") ++ padded 2 (n / 3600000000) ++ ":" ++
    padded 2 (n / 60000000 % 60) ++
    if n % 60000000 = 0 then "" else
      ":" ++ padded 2 (n / 1000000 % 60) ++
        if n % 1000000 = 0 then "" else "." ++ padded 6 (n % 1000000)

namespace Datetime

/-- `value.isoformat(timespec=...)` -/
def isoformat (timespec : Timespec) (d : Datetime) : String :=
  wallText timespec d.wall ++ d.offset.elim "" offsetText

/-- `value.astimezone(UTC)`, where a naive datetime is taken as UTC -/
def toUtc (d : Datetime) : Except PyError Timestamp :=
  let instant := (d.wall : ℤ) - d.offset.getD 0
  if 0 ≤ instant ∧ instant < timestampLimit then .ok instant.toNat
  else .error ⟨.overflowError, "date value out of range"⟩

end Datetime

/-! Reading the texts. -/

structure TimeFields where
  hour : ℕ
  minute : ℕ
  second : ℕ
  fraction : ℕ
deriving DecidableEq, Repr

def TimeFields.microseconds (f : TimeFields) : ℕ :=
  ((f.hour * 60 + f.minute) * 60 + f.second) * 1000000 + f.fraction

def readFraction (fields : TimeFields) (cs : List Char) : Option (TimeFields × List Char) :=
  match cs with
  | [] => some (fields, [])
  | c :: cs =>
      if c = '.' ∨ c = ',' then
        let ds := cs.takeWhile Char.isDigit
        if ds = [] then none
        else
          let fraction := Nat.ofDigitChars 10 ((ds ++ List.replicate 6 '0').take 6) 0
          some ({ fields with fraction := fraction }, cs.dropWhile Char.isDigit)
      else some (fields, c :: cs)

def readSecond (fields : TimeFields) (cs : List Char) : Option (TimeFields × List Char) :=
  match cs with
  | ':' :: cs => do
      let (second, cs) ← readDigits 2 cs
      readFraction { fields with second := second } cs
  | cs => some (fields, cs)

/-- `HH[:MM[:SS[.ffffff]]]` -/
def readTime (cs : List Char) : Option (TimeFields × List Char) := do
  let (hour, cs) ← readDigits 2 cs
  match cs with
  | ':' :: cs => do
      let (minute, cs) ← readDigits 2 cs
      readSecond ⟨hour, minute, 0, 0⟩ cs
  | cs => some (⟨hour, 0, 0, 0⟩, cs)

def readOffset (cs : List Char) : Option (Option ℤ) :=
  match cs with
  | [] => some none
  | c :: cs =>
      if c = 'Z' ∧ cs = [] then some (some 0)
      else if c = '+' ∨ c = '-' then do
        let (fields, rest) ← readTime cs
        let n : ℤ := fields.microseconds
        if rest = [] then some (some (if c = '-' then -n else n)) else none
      else none

def readClock (cs : List Char) : Option (TimeFields × Option ℤ) :=
  match cs with
  | [] => some (⟨0, 0, 0, 0⟩, none)
  | _ :: cs => do
      let (fields, cs) ← readTime cs
      let offset ← readOffset cs
      return (fields, offset)

def readDate (cs : List Char) : Option ((ℕ × ℕ × ℕ) × List Char) := do
  let (year, cs) ← readDigits 4 cs
  match cs with
  | '-' :: cs => do
      let (month, cs) ← readDigits 2 cs
      match cs with
      | '-' :: cs => do
          let (day, cs) ← readDigits 2 cs
          return ((year, month, day), cs)
      | _ => none
  | _ => none

/-- `datetime.fromisoformat` of a text in the extended form with a calendar date, as `isoformat` writes
it; `none` is its `ValueError`. -/
def fromisoformat (text : String) : Option Datetime := do
  let ((year, month, day), cs) ← readDate text.toList
  let (time, offset) ← readClock cs
  let wall := dayOf year (month - 1) (day - 1) * microsecondsPerDay + time.microseconds
  if 1 ≤ year ∧ 1 ≤ month ∧ month ≤ 12 ∧ 1 ≤ day ∧ day ≤ (monthLengths year).getD (month - 1) 0 ∧
      time.hour < 24 ∧ time.minute < 60 ∧ time.second < 60 then
    if h : wall < timestampLimit ∧ ∀ o ∈ offset, o.natAbs < microsecondsPerDay then
      some ⟨wall, offset, h.1, h.2⟩
    else none
  else none

/-! The encoders. -/

def utcText (t : Timestamp) : String := wallText .microseconds t ++ "+00:00"

def utcNow (now : Timestamp) : String := (utcText now).replace "+00:00" "Z"

/-- What `normalize_timestamp` takes. -/
inductive TimestampInput where
  | clock
  | text (value : String)
  | datetime (value : Datetime)

def normalizeTimestamp (now : Timestamp) (value : TimestampInput) : Except PyError String :=
  match value with
  | .clock => .ok (utcNow now)
  | .text value =>
      match fromisoformat (value.replace "Z" "+00:00") with
      | none => .error ⟨.valueError, "Invalid isoformat string: " ++ Journal.pyRepr value⟩
      | some parsed => do return (utcText (← parsed.toUtc)).replace "+00:00" "Z"
  | .datetime parsed => do return (utcText (← parsed.toUtc)).replace "+00:00" "Z"

def ensureAware (value : Datetime) (name : String) : Except PyError Timestamp :=
  if value.offset.isNone then .error ⟨.valueError, name ++ " must include a timezone"⟩
  else value.toUtc

/-- `_timestamp` of the scheduler's store -/
def schedulerTimestamp (value : Datetime) : Except PyError String := do
  return utcText (← ensureAware value "timestamp")

/-- `_from_timestamp` of the scheduler's store; a naive datetime is one of the system's zone -/
def schedulerFromTimestamp (systemZone : Timestamp → Except PyError Timestamp) (value : String) :
    Except PyError Timestamp :=
  match fromisoformat value with
  | none => .error ⟨.valueError, "Invalid isoformat string: " ++ Journal.pyRepr value⟩
  | some parsed => if parsed.offset.isNone then systemZone parsed.wall else parsed.toUtc

/-- `_timestamp` of the channel store -/
def channelTimestamp (value : Datetime) : Except PyError String := do
  return (utcText (← value.toUtc)).replace "+00:00" "Z"

end Polaris
