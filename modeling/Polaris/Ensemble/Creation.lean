import Mathlib.Data.Rat.Lemmas
import Mathlib.Algebra.Order.Field.Basic
import Mathlib.Algebra.Order.Ring.Rat
import Mathlib.Tactic.NormNum
import Polaris.Ensemble.Models

namespace Polaris
open PyJson SortedDict

def evidenceContract : String :=
  "Return a non-empty research memo. For every factual assertion,\n" ++
  "include explicit evidence records using stable source_id values, source URL/title when\n" ++
  "available, an exact supporting quote, and the lowercase SHA-256 content_hash of the\n" ++
  "quoted/source content. Clearly identify uncertainty and disagreement. Never invent evidence."

structure ProviderConfig where
  model : String
  timeoutSeconds : PyVal

structure ResearchConfig where
  maxWorkers : ℕ
  workerBudget : BudgetSpec
  outputLanguage : NonEmpty

structure EnsembleResearchEngine where
  providers : List (String × ProviderConfig)
  maxWorkers : Option ℕ
  config : Option ResearchConfig

def valueError (message : String) : PyError := ⟨.valueError, message⟩

def ensembleError (message : String) : PyError := ⟨.other "EnsembleResearchError", message⟩

structure Allocation where
  worker : BudgetSpec
  verifier : BudgetSpec
  synthesizer : BudgetSpec

def allocateBudget (budget : BudgetSpec) (workerCount : ℕ) : Except PyError Allocation :=
  let slots := workerCount + 2
  if budget.callLimit.any (· < slots) then
    .error ⟨.budgetExceededError, "call budget requires at least " ++ toString slots ++
      " calls for workers, verifier, synthesizer"⟩
  else
    let slot : BudgetSpec :=
      ⟨budget.callLimit.map (· / slots), budget.tokenLimit.map (· / slots),
        budget.microUsdLimit.map (· / slots), budget.wallSecondsLimit.map (· / slots), by
          have h := budget.wallNonnegative
          cases hw : budget.wallSecondsLimit with
          | none => simp
          | some seconds =>
              simp only [hw, Option.getD_some] at h
              exact div_nonneg h (Nat.cast_nonneg _)⟩
    .ok ⟨slot, slot, slot⟩

def capLimit {α : Type} [LT α] [DecidableLT α] : Option α → Option α → Option α
  | none, value => value
  | some maximum, none => some maximum
  | some maximum, some value => if maximum < value then some maximum else some value

theorem capLimit_nonneg {cap value : Option ℚ} (hcap : 0 ≤ cap.getD 0) (hvalue : 0 ≤ value.getD 0) :
    0 ≤ (capLimit cap value).getD 0 := by
  cases cap with
  | none => exact hvalue
  | some maximum =>
      cases value with
      | none => exact hcap
      | some value =>
          by_cases h : maximum < value
          · simpa [capLimit, h] using hcap
          · simpa [capLimit, h] using hvalue

namespace EnsembleResearchEngine
variable (engine : EnsembleResearchEngine)

def applyWorkerCap (allocated : BudgetSpec) : BudgetSpec :=
  match engine.config with
  | none => allocated
  | some config =>
      let cap := config.workerBudget
      ⟨capLimit cap.callLimit allocated.callLimit, capLimit cap.tokenLimit allocated.tokenLimit,
        capLimit cap.microUsdLimit allocated.microUsdLimit,
        capLimit cap.wallSecondsLimit allocated.wallSecondsLimit,
        capLimit_nonneg cap.wallNonnegative allocated.wallNonnegative⟩

def workerLimit : ℕ := engine.maxWorkers.getD (engine.config.elim 4 ResearchConfig.maxWorkers)

def provider (name : String) : Except PyError ProviderConfig :=
  match lookup name engine.providers with
  | some config => .ok config
  | none => .error (ensembleError ("provider " ++ Journal.pyRepr name ++ " is not configured"))

def runtimeConfig (worker : WorkerSpec) (budget : BudgetSpec) : RuntimeConfig where
  systemPrompt := "You are the " ++ worker.role ++ " research worker. " ++ worker.instructions
  maxIterations := 24
  leaseSeconds := 30
  workerId := "ensemble-worker-" ++ worker.id
  approvalPolicy := defaultApprovalPolicy [] []
  reservationTokens := budget.tokenLimit.elim 4096 (min 4096)
  reservationCalls := 1
  reservationMicroUsd := budget.microUsdLimit.elim 0 (min 0)
  noProgressThreshold := 3
  memoryContext := none
  iterationsPositive := RuntimeConfig.iterations_positive
  leasePositive := RuntimeConfig.lease_positive
  workerNamed h := absurd (congrArg String.length h) (by simp)
  thresholdPositive := RuntimeConfig.threshold_positive

end EnsembleResearchEngine

/-- What a fan-out run and its workers are created with. -/
structure FanOut where
  question : String
  workers : List WorkerSpec
  verifier : String
  synthesizer : String
  budget : BudgetSpec
  allocation : Allocation
  providerLease : List (String × ProviderConfig)
  sized : 1 ≤ workers.length ∧ workers.length ≤ 8
  distinct : (workers.map WorkerSpec.id).Nodup

namespace FanOut
variable (engine : EnsembleResearchEngine) (plan : FanOut)

def workerAllocation : BudgetSpec := engine.applyWorkerCap plan.allocation.worker

def allocationDict : PyVal :=
  dict [("workers", dict (plan.workers.map fun w =>
      (w.id.1, (plan.workerAllocation engine).toDict))),
    ("verifier", plan.allocation.verifier.toDict),
    ("synthesizer", plan.allocation.synthesizer.toDict)]

def persistedConfig : PyVal :=
  dict [("version", .int 1), ("max_workers", .int (min engine.workerLimit plan.workers.length)),
    ("workers", .seq .list (plan.workers.map WorkerSpec.toDict)),
    ("verifier", .str plan.verifier), ("synthesizer", .str plan.synthesizer),
    ("provider_lease_seconds",
      dict (plan.providerLease.map fun e => (e.1, e.2.timeoutSeconds))),
    ("output_language", .str (engine.config.elim "English" fun c => c.outputLanguage)),
    ("requested_budget", plan.budget.toDict), ("allocation", plan.allocationDict engine)]

def childConfig (worker : WorkerSpec) (provider : ProviderConfig) : PyVal :=
  let config := EnsembleResearchEngine.runtimeConfig worker (plan.workerAllocation engine)
  dict [("provider", .str worker.providerName), ("model", .str provider.model),
    ("system_prompt", .str config.systemPrompt), ("max_iterations", .int config.maxIterations),
    ("lease_seconds", exactSeconds config.leaseSeconds),
    ("reservation_tokens", .int config.reservationTokens),
    ("reservation_calls", .int config.reservationCalls),
    ("reservation_micro_usd", .int config.reservationMicroUsd),
    ("no_progress_threshold", .int config.noProgressThreshold),
    ("ensemble_worker", worker.toDict)]

def workerPrompt (worker : WorkerSpec) : String :=
  "Research question:\n" ++ pyStrip plan.question ++ "\n\nYour distinct role: " ++ worker.role ++
    "\nInstructions: " ++ worker.instructions ++ "\n\nEvidence contract:\n" ++ evidenceContract

end FanOut

namespace EnsembleResearchEngine
open Agent
variable (engine : EnsembleResearchEngine)

def plan (question : String) (workers : List WorkerSpec) (verifier synthesizer : String)
    (budget : BudgetSpec) : Except PyError FanOut :=
  if isBlankText question then .error (valueError "question must not be empty")
  else if hsized : 1 ≤ workers.length ∧ workers.length ≤ 8 then
    if hdistinct : (workers.map WorkerSpec.id).Nodup then
      if verifier = "" ∨ synthesizer = "" then
        .error (valueError "verifier and synthesizer provider names must not be empty")
      else do
        let allocation ← allocateBudget budget workers.length
        let leases ← [verifier, synthesizer].dedup.mapM fun name => do
          return (name, ← engine.provider name)
        return ⟨question, workers, verifier, synthesizer, budget, allocation, leases, hsized,
          hdistinct⟩
    else .error (valueError "worker ids must be unique")
  else .error (valueError "workers must contain between 1 and 8 WorkerSpec values")

def createChildren (plan : FanOut) (parentId : String) : List WorkerSpec → Agent Unit
  | [] => return ()
  | worker :: workers => do
      let provider ← .ofExcept (engine.provider worker.providerName)
      let child ← journal (.createRun "single" (dict [("prompt", .str (plan.workerPrompt worker))])
        (plan.childConfig engine worker provider) (plan.workerAllocation engine).journalBudget
        (some parentId) none)
      let _ ← appendEvent parentId "ensemble.child_created"
        (dict [("worker_id", .str worker.id), ("child_run_id", .str child.id)]) none
      createChildren plan parentId workers

def createRun (question : String) (workers : List WorkerSpec) (verifier synthesizer : String)
    (budget : BudgetSpec) : Agent RunRecord := do
  let plan ← .ofExcept (engine.plan question workers verifier synthesizer budget)
  let parent ← journal (.createRun "fan-out" (dict [("question", .str (pyStrip question))])
    (plan.persistedConfig engine) budget.journalBudget none none)
  createChildren engine plan parent.id workers
  let _ ← appendEvent parent.id "ensemble.budget_allocated"
    (dict [("policy", .str ("fixed equal slots at create time; verifier and synthesizer reserve " ++
        "one slot each and workers share the remaining slots")),
      ("allocation", plan.allocationDict engine)]) none
  return parent

end EnsembleResearchEngine

end Polaris
