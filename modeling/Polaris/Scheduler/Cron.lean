import Polaris.Scheduler.Models

namespace Polaris
open PyJson

/-! `int` of a text. -/

/-- The zeros of the decimal digits of Unicode. -/
def decimalZeros : List ℕ :=
  [0x30, 0x660, 0x6f0, 0x7c0, 0x966, 0x9e6, 0xa66, 0xae6, 0xb66, 0xbe6, 0xc66, 0xce6, 0xd66, 0xde6,
    0xe50, 0xed0, 0xf20, 0x1040, 0x1090, 0x17e0, 0x1810, 0x1946, 0x19d0, 0x1a80, 0x1a90, 0x1b50,
    0x1bb0, 0x1c40, 0x1c50, 0xa620, 0xa8d0, 0xa900, 0xa9d0, 0xa9f0, 0xaa50, 0xabf0, 0xff10, 0x104a0,
    0x10d30, 0x11066, 0x110f0, 0x11136, 0x111d0, 0x112f0, 0x11450, 0x114d0, 0x11650, 0x116c0,
    0x11730, 0x118e0, 0x11950, 0x11c50, 0x11d50, 0x11da0, 0x16a60, 0x16ac0, 0x16b50, 0x1d7ce,
    0x1d7d8, 0x1d7e2, 0x1d7ec, 0x1d7f6, 0x1e140, 0x1e2f0, 0x1e950, 0x1fbf0]

def decimalDigit (c : Char) : Option ℕ :=
  (decimalZeros.find? fun z => z ≤ c.toNat && c.toNat < z + 10).map (c.toNat - ·)

/-- Digits, with single underscores between them. -/
def readDigits : List Char → Option (List ℕ)
  | [] => none
  | [c] => (decimalDigit c).map ([·])
  | c :: '_' :: cs => do
      let d ← decimalDigit c
      let ds ← readDigits cs
      return d :: ds
  | c :: cs => do
      let d ← decimalDigit c
      let ds ← readDigits cs
      return d :: ds

def maxStrDigits : ℕ := 4300

def readNatural (cs : List Char) : Option ℕ := do
  let ds ← readDigits cs
  guard (ds.length ≤ maxStrDigits)
  return ds.foldl (fun n d => n * 10 + d) 0

def pyInt (text : String) : Option ℤ :=
  match (pyStrip text).toList with
  | '-' :: cs => (readNatural cs).map fun n => -n
  | '+' :: cs => (readNatural cs).map fun n => n
  | cs => (readNatural cs).map fun n => n

/-! Five-field expressions. -/

/-- The text before the first separator, and the text after it if there is one. -/
def partition (separator : Char) (cs : List Char) : List Char × Option (List Char) :=
  match cs.dropWhile (· ≠ separator) with
  | [] => (cs, none)
  | _ :: rest => (cs.takeWhile (· ≠ separator), some rest)

def splitOn (separator : Char) : List Char → List (List Char)
  | [] => [[]]
  | c :: cs =>
      if c = separator then [] :: splitOn separator cs
      else match splitOn separator cs with
        | [] => [[c]]
        | part :: parts => (c :: part) :: parts

/-- `str.split()` -/
def splitBlanks : List Char → List (List Char)
  | [] => []
  | c :: cs =>
      if isSpace c then splitBlanks cs
      else
        match cs, splitBlanks cs with
        | next :: _, part :: parts => if isSpace next then [c] :: part :: parts
            else (c :: part) :: parts
        | _, parts => [c] :: parts

namespace Cron

def limits : List (ℤ × ℤ) := [(0, 59), (0, 23), (1, 31), (1, 12), (0, 7)]

def partError (message : String) (part : List Char) : PyError :=
  ⟨.valueError, message ++ ": " ++ Journal.pyRepr (String.ofList part)⟩

def readInt (message : String) (part text : List Char) : Except PyError ℤ :=
  (pyInt (String.ofList text)).elim (.error (partError message part)) .ok

/-- The first and the last value of a part. -/
def bounds (part base : List Char) (slash : Bool) (low high : ℤ) : Except PyError (ℤ × ℤ) :=
  if base = ['*'] then .ok (low, high)
  else if '-' ∈ base then do
    let (startText, endText) := partition '-' base
    let first ← readInt "invalid cron range" part startText
    let last ← readInt "invalid cron range" part (endText.getD [])
    if last < first then .error (partError "descending cron range" part) else return (first, last)
  else do
    let first ← readInt "invalid cron field" part base
    return (first, if slash then high else first)

/-- `range(start, end + 1, step)` -/
def stepRange (first last step : ℤ) : List ℤ :=
  (List.range ((last - first) / step + 1).toNat).map fun i => first + i * step

def parsePart (low high : ℤ) (part : List Char) : Except PyError (List ℤ) := do
  let (base, stepText) := partition '/' part
  let step ← stepText.elim (.ok 1) (readInt "invalid cron step" part)
  if step ≤ 0 then .error ⟨.valueError, "cron step must be positive"⟩
  else do
    let (first, last) ← bounds part base stepText.isSome low high
    if first < low ∨ high < last then
      .error (partError ("cron value outside " ++ toString low ++ "-" ++ toString high) part)
    else return stepRange first last step

def parseField (text : List Char) (low high : ℤ) (dow : Bool) : Except PyError (List ℤ) :=
  if text = [] then .error ⟨.valueError, "empty cron field"⟩
  else do
    let parts ← (splitOn ',' text).mapM (parsePart low high)
    let values := parts.flatten
    return if dow && 7 ∈ values then 0 :: values.filter (· ≠ 7) else values

end Cron

structure CronExpression where
  minutes : List ℤ
  hours : List ℤ
  days : List ℤ
  months : List ℤ
  weekdays : List ℤ
  dayWildcard : Bool
  weekdayWildcard : Bool

/-- The fields of a naive datetime that an expression looks at; Monday is the first weekday. -/
structure LocalFields where
  minute : ℕ
  hour : ℕ
  day : ℕ
  month : ℕ
  weekday : ℕ
deriving DecidableEq, Repr

def LocalTime.fields (l : LocalTime) : LocalFields :=
  let t := l.naive.toNat
  let (_, month, day) := dateOfDay (t / microsecondsPerDay)
  ⟨t / Polaris.minute % 60, t / (60 * Polaris.minute) % 24, day, month,
    t / microsecondsPerDay % 7⟩

namespace CronExpression

def parse (expression : String) : Except PyError CronExpression :=
  match splitBlanks expression.toList with
  | [minutes, hours, days, months, weekdays] => do
      let minuteSet ← Cron.parseField minutes 0 59 false
      let hourSet ← Cron.parseField hours 0 23 false
      let daySet ← Cron.parseField days 1 31 false
      let monthSet ← Cron.parseField months 1 12 false
      let weekdaySet ← Cron.parseField weekdays 0 7 true
      return ⟨minuteSet, hourSet, daySet, monthSet, weekdaySet, days = ['*'], weekdays = ['*']⟩
  | _ => .error ⟨.valueError, "cron expression must contain exactly five fields"⟩

def matchesFields (e : CronExpression) (l : LocalFields) : Bool :=
  (l.minute : ℤ) ∈ e.minutes && (l.hour : ℤ) ∈ e.hours && (l.month : ℤ) ∈ e.months &&
    let dayMatches : Bool := (l.day : ℤ) ∈ e.days
    let weekdayMatches : Bool := (((l.weekday + 1) % 7 : ℕ) : ℤ) ∈ e.weekdays
    if e.dayWildcard then weekdayMatches
    else if e.weekdayWildcard then dayMatches
    else dayMatches || weekdayMatches

def matchesAt (e : CronExpression) (zone : ZoneInfo) (candidate : Timestamp) :
    Except PyError Bool :=
  (zone.astimezone candidate).map fun l => e.matchesFields l.fields

/-- The minutes of eight years. -/
def scanLimit : ℕ := 8 * 366 * 24 * 60

/-- The candidate minutes from one on, a minute apart. -/
def scanFrom (e : CronExpression) (zone : ZoneInfo) (direction : ℤ) :
    ℕ → Timestamp → Except PyError Timestamp
  | 0, _ => .error ⟨.valueError, "cron expression has no occurrence within eight years"⟩
  | limit + 1, candidate => do
      if ← e.matchesAt zone candidate then return candidate
      let next ← checkedInstant (candidate + direction * minute)
      scanFrom e zone direction limit next

def scan (e : CronExpression) (value : Timestamp) (zone : ZoneInfo) (direction : ℤ)
    (inclusive : Bool) : Except PyError Timestamp := do
  let candidate : Timestamp := value - value % minute
  let candidate ←
    if !inclusive || (0 < direction && candidate ≤ value) then
      checkedInstant (candidate + direction * minute)
    else if direction < 0 && value < candidate then checkedInstant (candidate - minute)
    else .ok candidate
  e.scanFrom zone direction scanLimit candidate

def nextAfter (e : CronExpression) (after : Timestamp) (zone : ZoneInfo) :
    Except PyError Timestamp := e.scan after zone 1 false

def previousOrAt (e : CronExpression) (value : Timestamp) (zone : ZoneInfo) :
    Except PyError Timestamp := e.scan value zone (-1) true

end CronExpression

end Polaris
