import Polaris.Journal.Addresses
import Polaris.Journal.Events
import Polaris.Providers.Base

namespace Polaris
open PyJson PyVal SortedDict Journal

/-! The limits of a budget as a caller gives them: `None` or a number for each. -/

structure BudgetLimits where
  callLimit : PyVal
  tokenLimit : PyVal
  microUsdLimit : PyVal
  wallSecondsLimit : PyVal
deriving DecidableEq

inductive BudgetInput where
  | none
  | budget (limits : BudgetLimits)
  | mapping (entries : List (String × PyVal))

def isZeroLiteral (x : FloatLiteral) : Bool :=
  ((dropSign x.chars).takeWhile (!isMarker ·)).all fun c => c = '0' || c = '.'

def isNegativeZero (x : FloatLiteral) : Bool := x.chars.head? = some '-' && isZeroLiteral x

def isBelowZero : PyFloat → Bool
  | .finite x => x.chars.head? = some '-' && !isZeroLiteral x
  | .nan => false
  | .inf negative => negative

namespace BudgetLimits

def aliases : List (String × String) :=
  [("max_calls", "call_limit"), ("calls", "call_limit"), ("max_tokens", "token_limit"),
    ("tokens", "token_limit"), ("max_micro_usd", "micro_usd_limit"),
    ("micro_usd", "micro_usd_limit"), ("max_wall_seconds", "wall_seconds_limit"),
    ("wall_seconds", "wall_seconds_limit"), ("wall_time_limit_seconds", "wall_seconds_limit")]

def allowed : List String := ["call_limit", "token_limit", "micro_usd_limit", "wall_seconds_limit"]

def validateNonnegativeInteger (name : String) : PyVal → Except PyError Unit
  | .null => .ok ()
  | .int n =>
      if n < 0 then .error (invalid (name ++ " must be a non-negative integer")) else .ok ()
  | _ => .error (invalid (name ++ " must be a non-negative integer"))

def validateNonnegative (name : String) : PyVal → Except PyError Unit
  | .null => .ok ()
  | .int n => if n < 0 then .error (invalid (name ++ " must be non-negative")) else .ok ()
  | .float x => if isBelowZero x then .error (invalid (name ++ " must be non-negative")) else .ok ()
  | _ => .error (invalid (name ++ " must be non-negative"))

def validate (limits : BudgetLimits) : Except PyError Unit := do
  validateNonnegativeInteger "call_limit" limits.callLimit
  validateNonnegativeInteger "token_limit" limits.tokenLimit
  validateNonnegativeInteger "micro_usd_limit" limits.microUsdLimit
  validateNonnegative "wall_seconds_limit" limits.wallSecondsLimit

def ofEntries (entries : List (String × PyVal)) : Except PyError BudgetLimits :=
  let data := entries.map fun e => ((aliases.lookup e.1).getD e.1, e.2)
  let unknown := ((data.map Prod.fst).filter (· ∉ allowed)).dedup
  if unknown ≠ [] then
    .error (invalid ("unknown budget limit(s): " ++
      ", ".intercalate (unknown.insertionSort (· ≤ ·))))
  else
    let limit (name : String) : PyVal := (lastOf name data).getD .null
    .ok ⟨limit "call_limit", limit "token_limit", limit "micro_usd_limit",
      limit "wall_seconds_limit"⟩

def ofInput : BudgetInput → Except PyError BudgetLimits
  | .none => .ok ⟨.null, .null, .null, .null⟩
  | .budget limits => .ok limits
  | .mapping entries => ofEntries entries

/-- `_budget_from_input` -/
def fromInput (value : BudgetInput) : Except PyError BudgetLimits := do
  let limits ← ofInput value
  limits.validate
  return limits

def identity (limits : BudgetLimits) : PyVal :=
  dict [("call_limit", limits.callLimit), ("token_limit", limits.tokenLimit),
    ("micro_usd_limit", limits.microUsdLimit), ("wall_seconds_limit", limits.wallSecondsLimit)]

/-- `_budget_identity_hash` -/
def identityHash (sha : Sha256) (limits : BudgetLimits) : Except PyError String :=
  sha256Hex sha limits.identity

end BudgetLimits

/-! The columns that keep them. -/

def integerOf : PyVal → Option ℤ
  | .int n => some n
  | _ => none

def zeroLiteral : FloatLiteral := ⟨"0.0".toList, by decide⟩

/-- A `REAL` column keeps the double nearest to an integer, no sign of a zero and no `NaN`. -/
structure RealColumn where
  ofInt : ℤ → FloatLiteral

def RealColumn.stored (column : RealColumn) : PyVal → Option PyFloat
  | .int n => some (.finite (column.ofInt n))
  | .float (.finite x) => some (.finite (if isNegativeZero x then zeroLiteral else x))
  | .float (.inf negative) => some (.inf negative)
  | _ => none

structure StoredLimits where
  callLimit : Option ℤ
  tokenLimit : Option ℤ
  microUsdLimit : Option ℤ
  wallSecondsLimit : Option PyFloat
deriving DecidableEq

namespace BudgetLimits

/-- What SQLite takes the parameters of the insertion as. -/
def bind (limits : BudgetLimits) : Except PyError Unit := do
  bindInteger (integerOf limits.callLimit)
  bindInteger (integerOf limits.tokenLimit)
  bindInteger (integerOf limits.microUsdLimit)
  bindInteger (integerOf limits.wallSecondsLimit)

def stored (column : RealColumn) (limits : BudgetLimits) : StoredLimits :=
  ⟨integerOf limits.callLimit, integerOf limits.tokenLimit, integerOf limits.microUsdLimit,
    column.stored limits.wallSecondsLimit⟩

end BudgetLimits

/-- The limits that a row is read as. -/
def StoredLimits.limits (row : StoredLimits) : BudgetLimits :=
  ⟨optInt row.callLimit, optInt row.tokenLimit, optInt row.microUsdLimit,
    row.wallSecondsLimit.elim .null .float⟩

structure RunRow where
  id : String
  mode : String
  request : JsonColumn
  config : JsonColumn
  status : RunStatus
  parentRunId : Option String
  limits : StoredLimits
  reserved : Resources
  used : Resources
  createdAt : Timestamp
  updatedAt : Timestamp

/-- A row of `run_external_keys` before the third version. -/
structure KeyRow where
  externalKey : String
  runId : String
  modeHash : String
  requestHash : String
  configHash : String
  createdAt : Timestamp

structure MigratedKey extends KeyRow where
  budgetHash : Option String
  parentRunId : Option String

structure JournalV2 where
  runs : List RunRow
  keys : List KeyRow
  runsKeyed : Table.Keyed RunRow.id runs
  keysKeyed : Table.Keyed KeyRow.externalKey keys

structure JournalV3 where
  runs : List RunRow
  keys : List MigratedKey

/-! The migration. -/

def KeyRow.widened (key : KeyRow) : MigratedKey := ⟨key, none, none⟩

def MigratedKey.identified (budgetHash : String) (parentRunId : Option String) (key : MigratedKey) :
    MigratedKey :=
  { key with budgetHash := some budgetHash, parentRunId := parentRunId }

def updateKeys (sha : Sha256) :
    List (KeyRow × RunRow) → List MigratedKey → Except PyError (List MigratedKey)
  | [], keys => .ok keys
  | (existing, run) :: rows, keys => do
      let budgetHash ← run.limits.limits.identityHash sha
      updateKeys sha rows (Table.updateWhere (fun key => key.externalKey = existing.externalKey)
        (.identified budgetHash run.parentRunId) keys)

namespace JournalV2

/-- `run_external_keys JOIN runs ON runs.id = run_external_keys.run_id` -/
def joined (j : JournalV2) : List (KeyRow × RunRow) :=
  j.keys.flatMap fun key => (j.runs.filter fun run => run.id = key.runId).map (key, ·)

def migrate (sha : Sha256) (j : JournalV2) : Except PyError JournalV3 := do
  let keys ← updateKeys sha j.joined (j.keys.map KeyRow.widened)
  return ⟨j.runs, keys⟩

end JournalV2

/-! The creation of a run, which finds the run of its key. -/

structure RunArguments where
  mode : String
  request : PyVal
  config : PyVal
  budgetLimits : BudgetInput
  parentRunId : Option String
  budget : BudgetInput

def BudgetInput.isNone : BudgetInput → Bool
  | .none => true
  | _ => false

/-- The one of the two parameters that is given. -/
def RunArguments.input (args : RunArguments) : BudgetInput :=
  if args.budget.isNone then args.budgetLimits else args.budget

namespace JournalV3

def require (p : Bool) (e : PyError) : Except PyError Unit := if p then .ok () else .error e

def keyConflict (externalKey : String) : PyError :=
  ⟨.journalConflictError, "external key " ++ pyRepr externalKey ++
    " already identifies a different run"⟩

def findRun (runId : String) (j : JournalV3) : Option RunRow := Table.find RunRow.id runId j.runs

def externalRun (externalKey : String) (j : JournalV3) : Option (MigratedKey × RunRow) := do
  let key ← Table.find (fun key : MigratedKey => key.externalKey) externalKey j.keys
  let run ← j.findRun key.runId
  return (key, run)

def insertKey (key : Option MigratedKey) (j : JournalV3) : Except PyError JournalV3 :=
  match key with
  | none => .ok j
  | some key => do
      require (Table.find (fun key : MigratedKey => key.externalKey) key.externalKey j.keys).isNone
        ⟨.integrityError, "UNIQUE constraint failed: run_external_keys.external_key"⟩
      return { j with keys := j.keys ++ [key] }

/-- `create_run`; its event is left out. -/
def createRun (sha : Sha256) (column : RealColumn) (a : Ambient) (args : RunArguments)
    (externalKey : Option String) (j : JournalV3) : Except PyError (RunRow × JournalV3) := do
  require (args.mode ≠ "") (invalid "mode must not be empty")
  require (externalKey.all (!isBlankText ·)) (invalid "external_key must not be empty")
  require (args.budgetLimits.isNone || args.budget.isNone)
    (invalid "pass either budget_limits or budget, not both")
  let limits ← BudgetLimits.fromInput args.input
  let requestJson ← canonicalJson args.request
  let configJson ← canonicalJson args.config
  let modeHash ← sha256Hex sha (.str args.mode)
  let requestHash ← sha256Hex sha args.request
  let configHash ← sha256Hex sha args.config
  let budgetHash ← limits.identityHash sha
  match externalKey.bind (j.externalRun ·) with
  | some (existing, run) => do
      require (existing.modeHash = modeHash && existing.requestHash = requestHash &&
          existing.configHash = configHash && existing.budgetHash = some budgetHash &&
          existing.parentRunId = args.parentRunId) (keyConflict (externalKey.getD ""))
      return (run, j)
  | none => do
      require (args.parentRunId.all fun id => (j.findRun id).isSome)
        (notFound "run" (args.parentRunId.getD ""))
      limits.bind
      let run : RunRow := ⟨"run_" ++ a.uuid, args.mode, requestJson, configJson, .created,
        args.parentRunId, limits.stored column, .zero, .zero, a.now, a.now⟩
      require (j.findRun run.id).isNone ⟨.integrityError, "UNIQUE constraint failed: runs.id"⟩
      let j ← insertKey (externalKey.map fun key =>
        ⟨⟨key, run.id, modeHash, requestHash, configHash, a.now⟩, some budgetHash,
          args.parentRunId⟩) { j with runs := j.runs ++ [run] }
      return (run, j)

end JournalV3

/-- What `create_run` stored for a key in the second version, where the run may have gone on since. -/
structure CreatedFrom (sha : Sha256) (column : RealColumn) (args : RunArguments)
    (limits : BudgetLimits) (key : KeyRow) (run : RunRow) : Prop where
  mode : args.mode ≠ ""
  keyGiven : isBlankText key.externalKey = false
  oneBudget : (args.budgetLimits.isNone || args.budget.isNone) = true
  fromInput : BudgetLimits.fromInput args.input = .ok limits
  binds : limits.bind = .ok ()
  modeHash : sha256Hex sha (.str args.mode) = .ok key.modeHash
  requestHash : sha256Hex sha args.request = .ok key.requestHash
  configHash : sha256Hex sha args.config = .ok key.configHash
  runId : key.runId = run.id
  parent : run.parentRunId = args.parentRunId
  limits : run.limits = limits.stored column

/-- The limits are those of some call that `create_run` takes. -/
structure AcceptedLimits (sha : Sha256) (input : BudgetInput) (limits : BudgetLimits) : Prop where
  fromInput : BudgetLimits.fromInput input = .ok limits
  hashes : ∃ digest, limits.identityHash sha = .ok digest
  binds : limits.bind = .ok ()

/-- The migrated journal knows the submission again, and tells it from one with other limits. -/
def KeepsSubmission (sha : Sha256) (column : RealColumn) (j : JournalV2) (args : RunArguments)
    (limits : BudgetLimits) (externalKey : String) (run : RunRow) : Prop :=
  ∃ j', j.migrate sha = .ok j' ∧
    (∀ a, j'.createRun sha column a args (some externalKey) = .ok (run, j')) ∧
    ∀ a input limits', AcceptedLimits sha input limits' → limits' ≠ limits →
      j'.createRun sha column a { args with budgetLimits := input, budget := .none }
        (some externalKey) = .error (JournalV3.keyConflict externalKey)

/-- The column gives back the limit that it was given. -/
def BudgetLimits.Kept (limits : BudgetLimits) : Prop :=
  limits.wallSecondsLimit = .null ∨
    ∃ x, limits.wallSecondsLimit = .float (.finite x) ∧ isNegativeZero x = false

def StoredLimits.Finite (row : StoredLimits) : Prop :=
  ∀ x ∈ row.wallSecondsLimit, ∃ literal, x = .finite literal

section
variable {sha : Sha256} {column : RealColumn} {limits limits' : BudgetLimits} {row : StoredLimits}
  {args : RunArguments} {input : BudgetInput} {key : KeyRow} {run : RunRow} {digest : String}
  {externalKey : String}

namespace BudgetLimits

/-! What the validation leaves of the values. -/

theorem validateNonnegativeInteger_ok {name : String} {v : PyVal}
    (h : validateNonnegativeInteger name v = .ok ()) : optInt (integerOf v) = v := by
  cases v with
  | null => rfl
  | int n => rfl
  | _ => simp [validateNonnegativeInteger] at h

inductive IsSeconds : PyVal → Prop
  | null : IsSeconds .null
  | int (n : ℤ) : IsSeconds (.int n)
  | float (x : PyFloat) : IsSeconds (.float x)

theorem validateNonnegative_ok {name : String} {v : PyVal}
    (h : validateNonnegative name v = .ok ()) : IsSeconds v := by
  cases v with
  | null => exact .null
  | int n => exact .int n
  | float x => exact .float x
  | _ => simp [validateNonnegative] at h

structure Valid (limits : BudgetLimits) : Prop where
  calls : optInt (integerOf limits.callLimit) = limits.callLimit
  tokens : optInt (integerOf limits.tokenLimit) = limits.tokenLimit
  microUsd : optInt (integerOf limits.microUsdLimit) = limits.microUsdLimit
  wallSeconds : IsSeconds limits.wallSecondsLimit

theorem fromInput_valid (h : fromInput input = .ok limits) : limits.Valid := by
  simp only [fromInput, validate, bind_eq_ok, pure_eq_ok] at h
  obtain ⟨limits, -, _, ⟨_, hcalls, _, htokens, _, hmicroUsd, hwallSeconds⟩, rfl⟩ := h
  exact ⟨validateNonnegativeInteger_ok hcalls, validateNonnegativeInteger_ok htokens,
    validateNonnegativeInteger_ok hmicroUsd, validateNonnegative_ok hwallSeconds⟩

/-! Digests of limits. -/

@[simp] theorem stored_optInt (n : Option ℤ) : Polaris.stored (optInt n) = optInt n := by
  cases n <;> rfl

theorem IsSeconds.stored {v : PyVal} (h : IsSeconds v) : Polaris.stored v = v := by
  cases h <;> rfl

theorem identityHash_stored (hsha : sha.CollisionFree) (h : limits.identityHash sha = .ok digest)
    (h' : limits'.identityHash sha = .ok digest) :
    Polaris.stored limits.callLimit = Polaris.stored limits'.callLimit ∧
    Polaris.stored limits.tokenLimit = Polaris.stored limits'.tokenLimit ∧
    Polaris.stored limits.microUsdLimit = Polaris.stored limits'.microUsdLimit ∧
    Polaris.stored limits.wallSecondsLimit = Polaris.stored limits'.wallSecondsLimit := by
  have hstored := lookup_of_stored_eq (hsha.stored_eq h h')
  refine ⟨?_, ?_, ?_, ?_⟩
  · simpa [lastOf, lookup] using hstored "call_limit"
  · simpa [lastOf, lookup] using hstored "token_limit"
  · simpa [lastOf, lookup] using hstored "micro_usd_limit"
  · simpa [lastOf, lookup] using hstored "wall_seconds_limit"

/-- Limits with one digest are the same limits. -/
theorem Valid.eq_of_identityHash (hsha : sha.CollisionFree) (hlimits : limits.Valid)
    (hlimits' : limits'.Valid) (h : limits.identityHash sha = .ok digest)
    (h' : limits'.identityHash sha = .ok digest) : limits = limits' := by
  obtain ⟨hcalls, htokens, hmicroUsd, hwallSeconds⟩ := identityHash_stored hsha h h'
  rw [← hlimits.calls, ← hlimits'.calls, stored_optInt, stored_optInt, hlimits.calls,
    hlimits'.calls] at hcalls
  rw [← hlimits.tokens, ← hlimits'.tokens, stored_optInt, stored_optInt, hlimits.tokens,
    hlimits'.tokens] at htokens
  rw [← hlimits.microUsd, ← hlimits'.microUsd, stored_optInt, stored_optInt, hlimits.microUsd,
    hlimits'.microUsd] at hmicroUsd
  rw [hlimits.wallSeconds.stored, hlimits'.wallSeconds.stored] at hwallSeconds
  cases limits
  cases limits'
  simp_all

/-- Only a number of seconds that is not finite has no digest. -/
theorem identityHash_of_finite (hvalid : limits.Valid)
    (h : ∀ x, limits.wallSecondsLimit = .float x → ∃ literal, x = .finite literal) :
    ∃ digest, limits.identityHash sha = .ok digest := by
  have hfinite : limits.identity.allFinite = true := by
    obtain ⟨hcalls, htokens, hmicroUsd, hwallSeconds⟩ := hvalid
    have hinteger : ∀ n : Option ℤ, (optInt n).allFinite = true := fun n => by cases n <;> rfl
    have hseconds : limits.wallSecondsLimit.allFinite = true := by
      generalize limits.wallSecondsLimit = v at h hwallSeconds
      cases hwallSeconds with
      | null => rfl
      | int n => rfl
      | float x =>
          obtain ⟨literal, rfl⟩ := h x rfl
          rfl
    rw [identity, ← hcalls, ← htokens, ← hmicroUsd]
    simp [dict, allFinite, entriesFinite, hinteger, hseconds]
  obtain ⟨column, hcolumn⟩ : ∃ column, canonicalJson limits.identity = .ok column := by
    have hdumps : dumps limits.identity = some (String.ofList (text limits.identity.normal)) := by
      rw [dumps, if_pos hfinite]
    unfold canonicalJson
    split
    · exact ⟨_, rfl⟩
    · rename_i hnone
      simp [hdumps] at hnone
  exact ⟨_, by rw [identityHash, sha256Hex, hcolumn]; rfl⟩

theorem finite_of_identityHash (h : limits.identityHash sha = .ok digest) {x : PyFloat}
    (hx : limits.wallSecondsLimit = .float x) : ∃ literal, x = .finite literal := by
  obtain ⟨column, hcolumn, -⟩ := sha256Hex_eq_ok h
  have hfinite := (canonicalJson_eq_ok hcolumn).1
  rw [identity] at hfinite
  cases x with
  | finite literal => exact ⟨literal, rfl⟩
  | _ => simp [dict, allFinite, entriesFinite, hx] at hfinite

/-! What the row gives back. -/

theorem stored_limits (hvalid : limits.Valid) (hkept : limits.Kept) :
    (limits.stored column).limits = limits := by
  obtain ⟨hcalls, htokens, hmicroUsd, -⟩ := hvalid
  have hseconds : ((column.stored limits.wallSecondsLimit).elim .null .float : PyVal) =
      limits.wallSecondsLimit := by
    rcases hkept with hnull | ⟨x, hx, hsign⟩
    · simp [hnull, RealColumn.stored]
    · simp [hx, RealColumn.stored, hsign]
  rw [StoredLimits.limits, stored, hcalls, htokens, hmicroUsd, hseconds]

theorem stored_valid : (limits.stored column).limits.Valid := by
  have hinteger : ∀ n : Option ℤ, optInt (integerOf (optInt n)) = optInt n := fun n => by
    cases n <;> rfl
  refine ⟨hinteger _, hinteger _, hinteger _, ?_⟩
  simp only [StoredLimits.limits, stored]
  cases column.stored limits.wallSecondsLimit with
  | none => exact .null
  | some x => exact .float x

/-- What is read from the row differs from what was given, unless the column keeps it. -/
theorem kept_of_stored (hvalid : limits.Valid) (hfinite : ∀ x, limits.wallSecondsLimit = .float x →
    ∃ literal, x = .finite literal) (h : (limits.stored column).limits = limits) : limits.Kept := by
  obtain ⟨-, -, -, hwallSeconds⟩ := hvalid
  have hseconds := congrArg BudgetLimits.wallSecondsLimit h
  simp only [StoredLimits.limits, stored] at hseconds
  unfold Kept
  generalize limits.wallSecondsLimit = v at *
  cases hwallSeconds with
  | null => exact .inl rfl
  | int n => simp [RealColumn.stored] at hseconds
  | float x =>
      obtain ⟨literal, rfl⟩ := hfinite x rfl
      refine .inr ⟨literal, rfl, ?_⟩
      by_contra hsign
      rw [Bool.not_eq_false] at hsign
      obtain rfl : zeroLiteral = literal := by simpa [RealColumn.stored, hsign] using hseconds
      exact absurd hsign (by decide)

end BudgetLimits

theorem identityHash_row : (∃ digest, row.limits.identityHash sha = .ok digest) ↔ row.Finite := by
  have hvalid : row.limits.Valid := by
    have hinteger : ∀ n : Option ℤ, optInt (integerOf (optInt n)) = optInt n := fun n => by
      cases n <;> rfl
    refine ⟨hinteger _, hinteger _, hinteger _, ?_⟩
    simp only [StoredLimits.limits]
    cases row.wallSecondsLimit with
    | none => exact .null
    | some x => exact .float x
  have hseconds : ∀ x, row.limits.wallSecondsLimit = .float x ↔ x ∈ row.wallSecondsLimit := by
    intro x
    simp only [StoredLimits.limits]
    cases row.wallSecondsLimit <;> simp [eq_comm]
  constructor
  · rintro ⟨digest, h⟩ x hx
    exact BudgetLimits.finite_of_identityHash h ((hseconds x).2 hx)
  · intro h
    exact BudgetLimits.identityHash_of_finite hvalid fun x hx => h x ((hseconds x).1 hx)

/-! The rows that the migration writes. -/

theorem updateKeys_finite {rows : List (KeyRow × RunRow)} {keys : List MigratedKey} :
    (∃ keys', updateKeys sha rows keys = .ok keys') ↔ ∀ row ∈ rows, row.2.limits.Finite := by
  induction rows generalizing keys with
  | nil => simp [updateKeys]
  | cons existing rows ih =>
      obtain ⟨existing, run⟩ := existing
      rw [List.forall_mem_cons, ← @identityHash_row sha]
      simp only [updateKeys, bind_eq_ok]
      constructor
      · rintro ⟨keys', digest, hdigest, h⟩
        exact ⟨⟨digest, hdigest⟩, ih.1 ⟨keys', h⟩⟩
      · rintro ⟨⟨digest, hdigest⟩, h⟩
        obtain ⟨keys', hkeys⟩ := ih.2 h
        exact ⟨keys', digest, hdigest, hkeys⟩

theorem find_updateKeys {rows : List (KeyRow × RunRow)} {keys keys' : List MigratedKey}
    {migrated : MigratedKey} (hdigest : run.limits.limits.identityHash sha = .ok digest)
    (hrows : ∀ row ∈ rows, row.1.externalKey = externalKey → row.2 = run)
    (hfind : Table.find (fun key : MigratedKey => key.externalKey) externalKey keys = some migrated)
    (h : updateKeys sha rows keys = .ok keys') :
    Table.find (fun key : MigratedKey => key.externalKey) externalKey keys' =
      some (if ∃ row ∈ rows, row.1.externalKey = externalKey then
        migrated.identified digest run.parentRunId else migrated) := by
  induction rows generalizing keys migrated with
  | nil =>
      obtain rfl := Except.ok.inj h
      simpa using hfind
  | cons existing rows ih =>
      obtain ⟨existing, other⟩ := existing
      obtain ⟨hfirst, hrest⟩ := List.forall_mem_cons.1 hrows
      obtain ⟨digest', hdigest', h⟩ := bind_eq_ok.1 h
      have hkey : migrated.externalKey = externalKey := by simpa using List.find?_some hfind
      have hupdated := @Table.find_updateWhere MigratedKey String _
        (fun key => key.externalKey) keys externalKey
        (fun key => key.externalKey = existing.externalKey)
        (.identified digest' other.parentRunId) fun _ => rfl
      rw [hfind, Option.map_some, hkey] at hupdated
      by_cases hsame : existing.externalKey = externalKey
      · have hhead : ∃ row ∈ (existing, other) :: rows, row.1.externalKey = externalKey :=
          ⟨(existing, other), List.mem_cons_self, hsame⟩
        rw [if_pos hhead]
        obtain rfl : other = run := hfirst hsame
        obtain rfl := Except.ok.inj (hdigest.symm.trans hdigest')
        rw [if_pos (by simpa using hsame.symm)] at hupdated
        rw [ih hrest hupdated h]
        split <;> rfl
      · rw [if_neg (by simpa using Ne.symm hsame)] at hupdated
        rw [ih hrest hupdated h]
        simp only [List.mem_cons, exists_eq_or_imp, hsame, false_or]

namespace JournalV2
variable {j : JournalV2} {j' : JournalV3}

theorem mem_joined {key : KeyRow} : (key, run) ∈ j.joined ↔
    key ∈ j.keys ∧ run ∈ j.runs ∧ run.id = key.runId := by
  simp only [joined, List.mem_flatMap, List.mem_map, List.mem_filter, Prod.mk.injEq,
    decide_eq_true_eq]
  constructor
  · rintro ⟨key', hkey, run', ⟨hrun, hid⟩, rfl, rfl⟩
    exact ⟨hkey, hrun, hid⟩
  · rintro ⟨hkey, hrun, hid⟩
    exact ⟨key, hkey, run, ⟨hrun, hid⟩, rfl, rfl⟩

theorem migrate_finite :
    (∃ j', j.migrate sha = .ok j') ↔ ∀ row ∈ j.joined, row.2.limits.Finite := by
  rw [← @updateKeys_finite sha _ (j.keys.map KeyRow.widened)]
  simp only [migrate, bind_eq_ok, pure_eq_ok]
  constructor
  · rintro ⟨j', keys, hkeys, -⟩
    exact ⟨keys, hkeys⟩
  · rintro ⟨keys, hkeys⟩
    exact ⟨_, keys, hkeys, rfl⟩

/-- The migrated row of a key has the digest of the limits that the run's row is read as. -/
theorem migrate_externalRun (hkey : key ∈ j.keys) (hrun : run ∈ j.runs) (hid : key.runId = run.id)
    (hdigest : run.limits.limits.identityHash sha = .ok digest) (h : j.migrate sha = .ok j') :
    j'.externalRun key.externalKey =
      some (key.widened.identified digest run.parentRunId, run) := by
  obtain ⟨keys, hkeys, h⟩ := bind_eq_ok.1 h
  obtain rfl := Except.ok.inj h
  have hwidened : Table.find (fun key : MigratedKey => key.externalKey) key.externalKey
      (j.keys.map KeyRow.widened) = some key.widened := by
    have hkeyed : Table.Keyed (fun key : MigratedKey => key.externalKey)
        (j.keys.map KeyRow.widened) := by
      have hsame : (j.keys.map KeyRow.widened).map (fun key : MigratedKey => key.externalKey) =
          j.keys.map KeyRow.externalKey := by rw [List.map_map]; rfl
      rw [Table.Keyed, hsame]
      exact j.keysKeyed
    exact hkeyed.find (List.mem_map_of_mem hkey)
  have hjoined : ∀ row ∈ j.joined, row.1.externalKey = key.externalKey → row.2 = run := by
    rintro ⟨key', run'⟩ hrow hsame
    obtain ⟨hkey', hrun', hid'⟩ := mem_joined.1 hrow
    obtain rfl := j.keysKeyed.eq_of_key hkey' hkey hsame
    exact j.runsKeyed.eq_of_key hrun' hrun (hid'.trans hid)
  have hfound := find_updateKeys hdigest hjoined hwidened hkeys
  rw [if_pos ⟨_, mem_joined.2 ⟨hkey, hrun, hid.symm⟩, rfl⟩] at hfound
  have hfindRun : JournalV3.findRun key.runId ⟨j.runs, keys⟩ = some run := by
    rw [hid]
    exact j.runsKeyed.find hrun
  rw [JournalV3.externalRun, hfound]
  exact congrArg (fun found : Option RunRow => found.bind fun run' =>
    some (key.widened.identified digest run.parentRunId, run')) hfindRun

end JournalV2

/-! The creation that finds a row. -/

namespace JournalV3
variable {j : JournalV3} {a : Ambient} {existing : MigratedKey}

theorem createRun_found {modeHash requestHash configHash : String} (hmode : args.mode ≠ "")
    (hkey : isBlankText externalKey = false)
    (hbudget : (args.budgetLimits.isNone || args.budget.isNone) = true)
    (hlimits : BudgetLimits.fromInput args.input = .ok limits)
    (hmodeHash : sha256Hex sha (.str args.mode) = .ok modeHash)
    (hrequestHash : sha256Hex sha args.request = .ok requestHash)
    (hconfigHash : sha256Hex sha args.config = .ok configHash)
    (hdigest : limits.identityHash sha = .ok digest)
    (hfound : j.externalRun externalKey = some (existing, run)) :
    j.createRun sha column a args (some externalKey) =
      (require (existing.modeHash = modeHash && existing.requestHash = requestHash &&
        existing.configHash = configHash && existing.budgetHash = some digest &&
        existing.parentRunId = args.parentRunId) (keyConflict externalKey)).map fun _ => (run, j) := by
  obtain ⟨requestJson, hrequest, -⟩ := sha256Hex_eq_ok hrequestHash
  obtain ⟨configJson, hconfig, -⟩ := sha256Hex_eq_ok hconfigHash
  have hgiven : (some externalKey).all (!isBlankText ·) = true := by simp [hkey]
  simp only [createRun, require, hmode, ne_eq, not_false_eq_true, decide_true, if_true, hgiven,
    hbudget, hlimits, hrequest, hconfig, hmodeHash, hrequestHash, hconfigHash, hdigest,
    Option.bind_some, hfound, bind, Except.bind]
  generalize (decide (existing.modeHash = modeHash) && decide (existing.requestHash = requestHash) &&
    decide (existing.configHash = configHash) && decide (existing.budgetHash = some digest) &&
    decide (existing.parentRunId = args.parentRunId)) = same
  cases same <;> rfl

end JournalV3

namespace CreatedFrom
variable {j : JournalV2} {j' : JournalV3}

/-- The migrated row compares the digest of what the run's row gave back. -/
theorem createRun_eq (h : CreatedFrom sha column args limits key run) (hkey : key ∈ j.keys)
    (hrun : run ∈ j.runs) {rowDigest : String}
    (hrow : run.limits.limits.identityHash sha = .ok rowDigest) (hmigrate : j.migrate sha = .ok j')
    (a : Ambient) {args' : RunArguments} (hmode : args'.mode = args.mode)
    (hrequest : args'.request = args.request) (hconfig : args'.config = args.config)
    (hparent : args'.parentRunId = args.parentRunId)
    (hbudget : (args'.budgetLimits.isNone || args'.budget.isNone) = true)
    (hlimits : BudgetLimits.fromInput args'.input = .ok limits')
    (hdigest : limits'.identityHash sha = .ok digest) :
    j'.createRun sha column a args' (some key.externalKey) =
      if rowDigest = digest then .ok (run, j') else .error (JournalV3.keyConflict key.externalKey) := by
  have hfound := JournalV2.migrate_externalRun hkey hrun h.runId hrow hmigrate
  rw [JournalV3.createRun_found (hmode ▸ h.mode) h.keyGiven hbudget hlimits (hmode ▸ h.modeHash)
    (hrequest ▸ h.requestHash) (hconfig ▸ h.configHash) hdigest hfound]
  have hsame : (key.widened.identified rowDigest run.parentRunId).parentRunId = args'.parentRunId :=
    h.parent.trans hparent.symm
  by_cases hdigests : rowDigest = digest
  · simp [JournalV3.require, MigratedKey.identified, KeyRow.widened, hdigests, h.parent, hparent,
      Except.map]
  · simp [JournalV3.require, MigratedKey.identified, KeyRow.widened, hdigests, Except.map]

theorem keepsSubmission (hsha : sha.CollisionFree) (h : CreatedFrom sha column args limits key run)
    (hkey : key ∈ j.keys) (hrun : run ∈ j.runs) (hfinite : ∀ row ∈ j.joined, row.2.limits.Finite)
    (hkept : limits.Kept) : KeepsSubmission sha column j args limits key.externalKey run := by
  obtain ⟨j', hmigrate⟩ := JournalV2.migrate_finite.2 hfinite
  have hvalid := BudgetLimits.fromInput_valid h.fromInput
  obtain ⟨rowDigest, hrow⟩ := identityHash_row.2
    (hfinite _ (JournalV2.mem_joined.2 ⟨hkey, hrun, h.runId.symm⟩))
  have hdigest : limits.identityHash sha = .ok rowDigest := by
    rwa [h.limits, BudgetLimits.stored_limits hvalid hkept] at hrow
  refine ⟨j', hmigrate, fun a => ?_, fun a input limits' haccepted hdiffer => ?_⟩
  · rw [h.createRun_eq hkey hrun hrow hmigrate a rfl rfl rfl rfl h.oneBudget h.fromInput hdigest,
      if_pos rfl]
  · obtain ⟨hinput, ⟨digest', hdigest'⟩, -⟩ := haccepted
    have hdigests : rowDigest ≠ digest' := by
      rintro rfl
      exact hdiffer ((BudgetLimits.fromInput_valid hinput).eq_of_identityHash hsha hvalid hdigest'
        hdigest)
    have hmode : { args with budgetLimits := input, budget := .none }.mode = args.mode := rfl
    rw [h.createRun_eq hkey hrun hrow hmigrate a hmode rfl rfl rfl (by simp [BudgetInput.isNone])
      hinput hdigest', if_neg hdigests]

theorem kept_of_keepsSubmission (hsha : sha.CollisionFree)
    (h : CreatedFrom sha column args limits key run) (hkey : key ∈ j.keys) (hrun : run ∈ j.runs)
    (hkeeps : KeepsSubmission sha column j args limits key.externalKey run) :
    (∀ row ∈ j.joined, row.2.limits.Finite) ∧ limits.Kept := by
  obtain ⟨j', hmigrate, hreturns, -⟩ := hkeeps
  have hfinite := JournalV2.migrate_finite.1 ⟨j', hmigrate⟩
  have hvalid := BudgetLimits.fromInput_valid h.fromInput
  refine ⟨hfinite, ?_⟩
  obtain ⟨rowDigest, hrow⟩ := identityHash_row.2
    (hfinite _ (JournalV2.mem_joined.2 ⟨hkey, hrun, h.runId.symm⟩))
  obtain ⟨digest, hdigest⟩ : ∃ digest, limits.identityHash sha = .ok digest := by
    have hcreated := hreturns ⟨0, 0, 0, ""⟩
    simp only [JournalV3.createRun, bind_eq_ok] at hcreated
    obtain ⟨-, -, -, -, -, -, limits', hlimits, -, -, -, -, -, -, -, -, -, -, digest, hdigest, -⟩ :=
      hcreated
    obtain rfl := Except.ok.inj (h.fromInput.symm.trans hlimits)
    exact ⟨digest, hdigest⟩
  have hcreated := hreturns ⟨0, 0, 0, ""⟩
  rw [h.createRun_eq hkey hrun hrow hmigrate _ rfl rfl rfl rfl h.oneBudget h.fromInput hdigest]
    at hcreated
  have hdigests : rowDigest = digest := by
    by_contra hdigests
    simp [hdigests] at hcreated
  have hsame : (limits.stored column).limits = limits :=
    BudgetLimits.stored_valid.eq_of_identityHash hsha hvalid (by rw [← h.limits, hrow]) (hdigests ▸ hdigest)
  exact BudgetLimits.kept_of_stored hvalid
    (fun x hx => BudgetLimits.finite_of_identityHash hdigest hx) hsame

end CreatedFrom

/-- The submission is known again exactly when the column keeps its limit of seconds, and the
migration comes to its end. -/
theorem migration_keeps_iff (hsha : sha.CollisionFree) (j : JournalV2)
    (h : CreatedFrom sha column args limits key run) (hkey : key ∈ j.keys) (hrun : run ∈ j.runs) :
    KeepsSubmission sha column j args limits key.externalKey run ↔
      (∀ row ∈ j.joined, row.2.limits.Finite) ∧ limits.Kept :=
  ⟨h.kept_of_keepsSubmission hsha hkey hrun,
    fun ⟨hfinite, hkept⟩ => h.keepsSubmission hsha hkey hrun hfinite hkept⟩

end

namespace MigrationSample

def sha : Sha256 := .ofTable [
  ("\x7b\x7d", "44136fa355b3678a1146ad16f7e8649e94fb4fc21fe77e8310c060f61caaff8a"),
  ("\"single\"", "0fff5f85e4fa1de522cb860c8f414693642420ddf27f55e3f9975a17728b7469"),
  ("\x7b\"call_limit\":null,\"micro_usd_limit\":null,\"token_limit\":null," ++
    "\"wall_seconds_limit\":60\x7d",
    "cdfdf4a5750246cf21c337d3f092d9b9df7a1fd944f9c181abb300733ccf1e44"),
  ("\x7b\"call_limit\":null,\"micro_usd_limit\":null,\"token_limit\":null," ++
    "\"wall_seconds_limit\":60.0\x7d",
    "cc7b0c2f1634167a58f709f2a095ee77a42e6c57542582a555d7b8336769379e")]

def sixty : FloatLiteral := ⟨"60.0".toList, by decide⟩

def column : RealColumn := ⟨fun n => if n = 60 then sixty else zeroLiteral⟩

def args (wallSeconds : PyVal) : RunArguments :=
  ⟨"single", dict [], dict [], .mapping [("wall_seconds", wallSeconds)], none, .none⟩

def limits (wallSeconds : PyVal) : BudgetLimits := ⟨.null, .null, .null, wallSeconds⟩

def emptyObject : JsonColumn := ⟨"\x7b\x7d", .map .proxy [], by decide +kernel⟩

def run (wallSeconds : PyVal) : RunRow :=
  ⟨"run_55555555555555555555555555555555", "single", emptyObject, emptyObject, .created, none,
    (limits wallSeconds).stored column, .zero, .zero, 1, 1⟩

def key : KeyRow :=
  ⟨"slack:event:E1", "run_55555555555555555555555555555555",
    "0fff5f85e4fa1de522cb860c8f414693642420ddf27f55e3f9975a17728b7469",
    "44136fa355b3678a1146ad16f7e8649e94fb4fc21fe77e8310c060f61caaff8a",
    "44136fa355b3678a1146ad16f7e8649e94fb4fc21fe77e8310c060f61caaff8a", 1⟩

def journal (wallSeconds : PyVal) : JournalV2 :=
  ⟨[run wallSeconds], [key], List.nodup_singleton _, List.nodup_singleton _⟩

theorem sha_collisionFree : sha.CollisionFree :=
  Sha256.ofTable_collisionFree (by decide +kernel) (by decide +kernel)

theorem created {wallSeconds : PyVal}
    (hlimits : BudgetLimits.fromInput (args wallSeconds).input = .ok (limits wallSeconds))
    (hbinds : (limits wallSeconds).bind = .ok ()) :
    CreatedFrom sha column (args wallSeconds) (limits wallSeconds) key (run wallSeconds) where
  mode := (by decide : "single" ≠ "")
  keyGiven := by decide
  oneBudget := rfl
  fromInput := hlimits
  binds := hbinds
  modeHash := (by decide +kernel : sha256Hex sha (.str "single") = .ok key.modeHash)
  requestHash := (by decide +kernel : sha256Hex sha (dict []) = .ok key.requestHash)
  configHash := (by decide +kernel : sha256Hex sha (dict []) = .ok key.configHash)
  runId := rfl
  parent := rfl
  limits := rfl

end MigrationSample

open MigrationSample in
theorem migration_keeps_sixty :
    KeepsSubmission sha column (journal (.float (.finite sixty))) (args (.float (.finite sixty)))
      (limits (.float (.finite sixty))) "slack:event:E1" (run (.float (.finite sixty))) := by
  have hcreated := @created (.float (.finite sixty)) (by decide +kernel) (by decide +kernel)
  refine (migration_keeps_iff sha_collisionFree (journal (.float (.finite sixty))) hcreated
    (List.mem_singleton.2 rfl) (List.mem_singleton.2 rfl)).2 ⟨?_, .inr ⟨sixty, rfl, by decide⟩⟩
  rintro ⟨key', run'⟩ hrow
  obtain ⟨-, hrun, -⟩ := JournalV2.mem_joined.1 hrow
  obtain rfl := List.mem_singleton.1 hrun
  rintro x hx
  exact ⟨sixty, (Option.some.inj hx).symm⟩

open MigrationSample in
/-- Sixty seconds as an integer come back as a float, under another digest. -/
theorem integer_seconds_lost :
    ¬∀ (sha : Sha256) (column : RealColumn) (j : JournalV2) (args : RunArguments)
      (limits : BudgetLimits) (key : KeyRow) (run : RunRow), sha.CollisionFree →
      CreatedFrom sha column args limits key run → key ∈ j.keys → run ∈ j.runs →
      KeepsSubmission sha column j args limits key.externalKey run := by
  intro h
  have hcreated := @created (.int 60) (by decide +kernel) (by decide +kernel)
  have hkeeps := h sha column (journal (.int 60)) _ _ _ _ sha_collisionFree hcreated
    (List.mem_singleton.2 rfl) (List.mem_singleton.2 rfl)
  obtain ⟨-, hnull | ⟨x, hx, -⟩⟩ := hcreated.kept_of_keepsSubmission sha_collisionFree
    (List.mem_singleton.2 rfl) (List.mem_singleton.2 rfl) hkeeps
  · simp [limits] at hnull
  · simp [limits] at hx

end Polaris
