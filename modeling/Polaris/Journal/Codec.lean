import Polaris.Library.PyJsonRoundTrip
import Mathlib.Data.Rat.Defs

namespace Polaris
open PyJson

inductive ErrorClass where
  | journalNotFoundError
  | invalidTransitionError
  | ownershipError
  | leaseExpiredError
  | budgetExceededError
  | journalConflictError
  | journalValidationError
  | typeError
  | valueError
  | keyError
  | attributeError
  | overflowError
  | runtimeError
  | integrityError
  | timeoutError
  | providerError (name : String)
  | other (name : String)
deriving DecidableEq, Repr

def ErrorClass.name : ErrorClass → String
  | .journalNotFoundError => "JournalNotFoundError"
  | .invalidTransitionError => "InvalidTransitionError"
  | .ownershipError => "OwnershipError"
  | .leaseExpiredError => "LeaseExpiredError"
  | .budgetExceededError => "BudgetExceededError"
  | .journalConflictError => "JournalConflictError"
  | .journalValidationError => "JournalValidationError"
  | .typeError => "TypeError"
  | .valueError => "ValueError"
  | .keyError => "KeyError"
  | .attributeError => "AttributeError"
  | .overflowError => "OverflowError"
  | .runtimeError => "RuntimeError"
  | .integrityError => "IntegrityError"
  | .timeoutError => "TimeoutError"
  | .providerError name => name
  | .other name => name

structure PyError where
  cls : ErrorClass
  message : String
deriving DecidableEq, Repr

abbrev Timestamp := ℕ

def microsecondsPerDay : ℕ := 86400000000

def timestampLimit : ℕ := 3652059 * microsecondsPerDay

def isLeapYear (year : ℕ) : Bool := year % 4 = 0 && (year % 100 ≠ 0 || year % 400 = 0)

def monthLengths (year : ℕ) : List ℕ :=
  [31, if isLeapYear year then 29 else 28, 31, 30, 31, 30, 31, 31, 30, 31, 30, 31]

def monthAndDay : List ℕ → ℕ → ℕ × ℕ
  | [], day => (1, day + 1)
  | length :: lengths, day =>
      if day < length then (1, day + 1)
      else
        let (month, rest) := monthAndDay lengths (day - length)
        (month + 1, rest)

def dateOfDay (day : ℕ) : ℕ × ℕ × ℕ :=
  let n400 := day / 146097
  let n100 := min 3 (day % 146097 / 36524)
  let rest := day % 146097 - n100 * 36524
  let n4 := rest / 1461
  let n1 := min 3 (rest % 1461 / 365)
  let year := n400 * 400 + n100 * 100 + n4 * 4 + n1 + 1
  (year, monthAndDay (monthLengths year) (rest % 1461 - n1 * 365))

def padded (width n : ℕ) : String :=
  let digits := Nat.toDigits 10 n
  String.ofList (List.replicate (width - digits.length) '0' ++ digits)

def isoformat (t : Timestamp) : String :=
  let (year, month, day) := dateOfDay (t / microsecondsPerDay)
  let seconds := t % microsecondsPerDay / 1000000
  padded 4 year ++ "-" ++ padded 2 month ++ "-" ++ padded 2 day ++ "T" ++
    padded 2 (seconds / 3600) ++ ":" ++ padded 2 (seconds / 60 % 60) ++ ":" ++
    padded 2 (seconds % 60) ++ "." ++ padded 6 (t % 1000000) ++ "Z"

/-- Rounds to the nearest microsecond, ties to even. -/
def microseconds (seconds : ℚ) : ℤ :=
  let scaled := seconds * 1000000
  let whole := scaled.floor
  let rest := scaled - whole
  if rest < 1 / 2 then whole
  else if 1 / 2 < rest then whole + 1
  else if whole % 2 = 0 then whole else whole + 1

def expiryAfter (start : Timestamp) (leaseSeconds : ℚ) : Except PyError Timestamp :=
  let expiry := start + (microseconds leaseSeconds).toNat
  if expiry < timestampLimit then .ok expiry
  else .error ⟨.overflowError, "date value out of range"⟩

mutual
def deepFreeze : PyVal → PyVal
  | .map .dict es => .map .proxy (freezeEntries es)
  | .seq .list xs => .seq .tuple (freezeItems xs)
  | v => v
def freezeItems : List PyVal → List PyVal
  | [] => []
  | x :: xs => deepFreeze x :: freezeItems xs
def freezeEntries : List (String × PyVal) → List (String × PyVal)
  | [] => []
  | (k, x) :: es => (k, deepFreeze x) :: freezeEntries es
end

def decodeJson (text : String) : Except PyError PyVal :=
  match loads text with
  | some v => .ok (deepFreeze v)
  | none => .error ⟨.valueError, "Expecting value"⟩

structure JsonColumn where
  text : String
  value : PyVal
  decodes : decodeJson text = .ok value
deriving DecidableEq

def canonicalJson (v : PyVal) : Except PyError JsonColumn :=
  match h : dumps v with
  | some text => .ok ⟨text, deepFreeze v.normal, by simp [decodeJson, loads_dumps h]⟩
  | none => .error ⟨.valueError, "Out of range float values are not JSON compliant"⟩

theorem bind_eq_ok {α β : Type} {x : Except PyError α} {f : α → Except PyError β} {b : β} :
    (x >>= f) = .ok b ↔ ∃ a, x = .ok a ∧ f a = .ok b := by
  cases x <;> simp [bind, Except.bind]

theorem bind_eq_error {α β : Type} {x : Except PyError α} {f : α → Except PyError β} {e : PyError} :
    (x >>= f) = .error e ↔ x = .error e ∨ ∃ a, x = .ok a ∧ f a = .error e := by
  cases x <;> simp [bind, Except.bind]

theorem pure_eq_ok {α : Type} {a b : α} : (pure a : Except PyError α) = .ok b ↔ a = b := by
  simp [pure, Except.pure]

/-- `hashlib.sha256` on UTF-8 text, read as hexadecimal digits. -/
structure Sha256 where
  hexdigest : String → String

/-- The digests of some texts; other texts get digests of their own. -/
def Sha256.ofTable (digests : List (String × String)) : Sha256 :=
  ⟨fun text => (digests.lookup text).getD ("x" ++ text)⟩

def sha256Hex (sha : Sha256) (v : PyVal) : Except PyError String := do
  return sha.hexdigest (← canonicalJson v).text

end Polaris
