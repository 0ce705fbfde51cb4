import Mathlib.Data.List.DropRight
import Polaris.Runtime.Creation
import Polaris.Journal.Stored

namespace Polaris
open PyJson SortedDict

/-- The characters that `strip_whitespace` drops. -/
def isWhiteSpace (c : Char) : Bool := isSpace c && !(28 ≤ c.toNat && c.toNat ≤ 31)

def stripWhitespace (s : String) : String :=
  String.ofList ((s.toList.dropWhile isWhiteSpace).rdropWhile isWhiteSpace)

abbrev NonEmpty := {s : String // stripWhitespace s = s ∧ s ≠ ""}

def validationError : PyError := ⟨.other "ValidationError", ""⟩

def NonEmpty.validate : PyVal → Except PyError NonEmpty
  | .str s =>
      if h : stripWhitespace (stripWhitespace s) = stripWhitespace s ∧ stripWhitespace s ≠ "" then
        .ok ⟨stripWhitespace s, h⟩
      else .error validationError
  | _ => .error validationError

def isIdentifierStart (c : Char) : Bool :=
  ('A' ≤ c && c ≤ 'Z') || ('a' ≤ c && c ≤ 'z') || ('0' ≤ c && c ≤ '9')

/-- `[A-Za-z0-9][A-Za-z0-9_.-]{0,63}` -/
def isSafeIdentifier (s : String) : Bool :=
  match s.toList with
  | [] => false
  | c :: cs => isIdentifierStart c && cs.length ≤ 63 &&
      cs.all fun d => isIdentifierStart d || d = '_' || d = '.' || d = '-'

structure BudgetSpec where
  callLimit : Option ℕ
  tokenLimit : Option ℕ
  microUsdLimit : Option ℕ
  wallSecondsLimit : Option ℚ
  wallNonnegative : 0 ≤ wallSecondsLimit.getD 0
deriving DecidableEq

def BudgetSpec.toDict (b : BudgetSpec) : PyVal :=
  dict [("call_limit", optNat b.callLimit), ("token_limit", optNat b.tokenLimit),
    ("micro_usd_limit", optNat b.microUsdLimit),
    ("wall_seconds_limit", optSeconds b.wallSecondsLimit)]

def BudgetSpec.journalBudget (b : BudgetSpec) : Budget :=
  ⟨b.callLimit.map (↑), b.tokenLimit.map (↑), b.microUsdLimit.map (↑), b.wallSecondsLimit⟩

structure WorkerSpec where
  id : NonEmpty
  providerName : NonEmpty
  role : NonEmpty
  instructions : NonEmpty
  validId : isSafeIdentifier id = true
deriving DecidableEq

namespace WorkerSpec

def toDict (w : WorkerSpec) : PyVal :=
  dict [("id", .str w.id), ("provider_name", .str w.providerName), ("role", .str w.role),
    ("instructions", .str w.instructions)]

def fields : List String := ["id", "provider_name", "role", "instructions"]

def validateField (key : String) (es : List (String × PyVal)) : Except PyError NonEmpty :=
  match lookup key es with
  | some v => NonEmpty.validate v
  | none => .error validationError

/-- `WorkerSpec.model_validate` of a dict. -/
def modelValidate (es : List (String × PyVal)) : Except PyError WorkerSpec := do
  if es.all fun e => e.1 ∈ fields then
    let id ← validateField "id" es
    let providerName ← validateField "provider_name" es
    let role ← validateField "role" es
    let instructions ← validateField "instructions" es
    if h : isSafeIdentifier id = true then return ⟨id, providerName, role, instructions, h⟩
    else .error validationError
  else .error validationError

theorem validate_val (s : NonEmpty) : NonEmpty.validate (.str s) = .ok s := by
  obtain ⟨s, hstrip, hne⟩ := s
  simp [NonEmpty.validate, hstrip, hne]

theorem modelValidate_stored (w : WorkerSpec) :
    ∃ es, stored w.toDict = .map .proxy es ∧ modelValidate es = .ok w := by
  refine ⟨storedEntries [("id", .str w.id), ("provider_name", .str w.providerName),
    ("role", .str w.role), ("instructions", .str w.instructions)], rfl, ?_⟩
  have hfields : (storedEntries [("id", .str w.id), ("provider_name", .str w.providerName),
      ("role", .str w.role), ("instructions", .str w.instructions)]).all
        (fun e => e.1 ∈ fields) = true := by
    refine List.all_eq_true.2 fun e he => ?_
    simpa [fields] using key_of_mem_storedEntries he
  rw [modelValidate, if_pos hfields]
  simp [validateField, lookup_storedEntries, lastOf, lookup, validate_val, w.validId, bind,
    Except.bind, pure, Except.pure]

end WorkerSpec

end Polaris
