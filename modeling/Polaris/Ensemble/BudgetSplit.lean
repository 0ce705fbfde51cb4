import Mathlib.Algebra.BigOperators.Group.List.Basic
import Mathlib.Data.List.Dedup
import Mathlib.Data.Nat.Cast.Order.Field
import Mathlib.Tactic.Linarith
import Polaris.Ensemble.Submission

namespace Polaris
open PyJson PyVal SortedDict Journal Agent Program

/-! Limits, where `none` is no limit. -/

section
variable {α : Type} [LinearOrder α]

def AtMost (limit bound : Option α) : Prop := ∀ b, bound = some b → ∃ a, limit = some a ∧ a ≤ b

theorem AtMost.refl (limit : Option α) : AtMost limit limit := fun b h => ⟨b, h, le_rfl⟩

theorem capLimit_le_value (cap value : Option α) : AtMost (capLimit cap value) value := by
  intro v hv
  subst hv
  cases cap with
  | none => exact ⟨v, rfl, le_rfl⟩
  | some maximum =>
      rcases lt_or_ge maximum v with hlt | hge
      · exact ⟨maximum, if_pos hlt, hlt.le⟩
      · exact ⟨v, if_neg hge.not_gt, le_rfl⟩

theorem capLimit_le_cap (cap value : Option α) : AtMost (capLimit cap value) cap := by
  intro maximum hcap
  subst hcap
  cases value with
  | none => exact ⟨maximum, rfl, le_rfl⟩
  | some v =>
      rcases lt_or_ge maximum v with hlt | hge
      · exact ⟨maximum, if_pos hlt, le_rfl⟩
      · exact ⟨v, if_neg hge.not_gt, hge⟩

theorem capLimit_map {β : Type} [LinearOrder β] {f : α → β} (hf : StrictMono f)
    (cap value : Option α) : (capLimit cap value).map f = capLimit (cap.map f) (value.map f) := by
  cases cap with
  | none => rfl
  | some maximum =>
      cases value with
      | none => rfl
      | some v =>
          simp only [capLimit, Option.map_some, hf.lt_iff_lt]
          split <;> rfl

end

/-- What limited slots add up to. -/
theorem AtMost.sum {bound : ℚ} {limits : List (Option ℚ)}
    (h : ∀ limit ∈ limits, AtMost limit (some bound)) :
    ∃ amounts : List ℚ, limits = amounts.map some ∧ amounts.sum ≤ limits.length * bound := by
  induction limits with
  | nil => exact ⟨[], rfl, by simp⟩
  | cons limit limits ih =>
      obtain ⟨hlimit, hrest⟩ := List.forall_mem_cons.1 h
      obtain ⟨amount, rfl, hle⟩ := hlimit bound rfl
      obtain ⟨amounts, rfl, hsum⟩ := ih hrest
      refine ⟨amount :: amounts, rfl, ?_⟩
      simp only [List.sum_cons, List.length_cons, List.length_map, Nat.cast_succ] at hsum ⊢
      linarith

namespace BudgetSpec

def limit (b : BudgetSpec) (resource : Resource) : Option ℚ := b.journalBudget.limit resource

/-- The call limit is below one call for each worker, the verifier and the synthesizer. -/
def TooFewCalls (b : BudgetSpec) (workerCount : ℕ) : Prop :=
  ∃ calls, b.callLimit = some calls ∧ calls < workerCount + 2

end BudgetSpec

/-- The slot of everyone when `budget` is split into equal ones. -/
structure BudgetSpec.IsShare (slot budget : BudgetSpec) (slots : ℕ) : Prop where
  calls : slot.callLimit = budget.callLimit.map (· / slots)
  tokens : slot.tokenLimit = budget.tokenLimit.map (· / slots)
  microUsd : slot.microUsdLimit = budget.microUsdLimit.map (· / slots)
  wallSeconds : slot.wallSecondsLimit = budget.wallSecondsLimit.map (· / (slots : ℚ))

theorem share_limit {slots : ℕ} {limit : Option ℕ} {requested : ℚ}
    (h : ((limit.map fun n : ℕ => (n : ℤ)).map fun n : ℤ => (n : ℚ)) = some requested) :
    ∃ amount, (((limit.map (· / slots)).map fun n : ℕ => (n : ℤ)).map fun n : ℤ => (n : ℚ)) =
      some amount ∧ slots * amount ≤ requested := by
  obtain ⟨_, hlimit, rfl⟩ := Option.map_eq_some_iff.1 h
  obtain ⟨n, rfl, rfl⟩ := Option.map_eq_some_iff.1 hlimit
  refine ⟨((n / slots : ℕ) : ℚ), congrArg some (Int.cast_natCast _), ?_⟩
  have hle : ((slots * (n / slots) : ℕ) : ℚ) ≤ (n : ℕ) := Nat.cast_le.2 (Nat.mul_div_le n slots)
  simpa using hle

theorem BudgetSpec.IsShare.limit {slot budget : BudgetSpec} {slots : ℕ} (h : slot.IsShare budget slots)
    (hslots : 0 < slots) {resource : Resource} {requested : ℚ}
    (hrequested : budget.limit resource = some requested) :
    ∃ amount, slot.limit resource = some amount ∧ slots * amount ≤ requested := by
  obtain ⟨hcalls, htokens, hmoney, hseconds⟩ := h
  cases resource with
  | calls => simpa [BudgetSpec.limit, Budget.limit, journalBudget, hcalls] using share_limit hrequested
  | tokens => simpa [BudgetSpec.limit, Budget.limit, journalBudget, htokens] using share_limit hrequested
  | microUsd => simpa [BudgetSpec.limit, Budget.limit, journalBudget, hmoney] using share_limit hrequested
  | wallSeconds =>
      have hlimit : budget.wallSecondsLimit = some requested := hrequested
      have hne : (slots : ℚ) ≠ 0 := by exact_mod_cast hslots.ne'
      refine ⟨requested / slots, ?_, (mul_div_cancel₀ requested hne).le⟩
      simp [BudgetSpec.limit, Budget.limit, journalBudget, hseconds, hlimit]

theorem BudgetSpec.IsShare.allows_call {slot budget : BudgetSpec} {slots : ℕ}
    (h : slot.IsShare budget slots) (hslots : 0 < slots)
    (henough : ∀ calls, budget.callLimit = some calls → slots ≤ calls) :
    ∀ calls, slot.callLimit = some calls → 1 ≤ calls := by
  intro share hshare
  rw [h.calls] at hshare
  obtain ⟨calls, hcalls, rfl⟩ := Option.map_eq_some_iff.1 hshare
  exact Nat.div_pos (henough calls hcalls) hslots

/-! What `_allocate_budget` and `_apply_worker_cap` return. -/

theorem allocateBudget_ok {budget : BudgetSpec} {workerCount : ℕ} {allocation : Allocation}
    (h : allocateBudget budget workerCount = .ok allocation) :
    ¬ budget.TooFewCalls workerCount ∧ allocation.worker.IsShare budget (workerCount + 2) ∧
      allocation.verifier = allocation.worker ∧ allocation.synthesizer = allocation.worker := by
  unfold allocateBudget at h
  dsimp only at h
  split at h
  · simp at h
  next hcalls =>
    obtain rfl := Except.ok.inj h
    refine ⟨?_, ⟨rfl, rfl, rfl, rfl⟩, rfl, rfl⟩
    rintro ⟨calls, hlimit, hlt⟩
    exact hcalls (by simp [hlimit, hlt])

theorem allocateBudget_error_iff {budget : BudgetSpec} {workerCount : ℕ} :
    (∃ e, allocateBudget budget workerCount = .error e) ↔ budget.TooFewCalls workerCount := by
  constructor
  · rintro ⟨e, h⟩
    unfold allocateBudget at h
    dsimp only at h
    split at h
    next hcalls => simpa [BudgetSpec.TooFewCalls, Option.any_eq_true] using hcalls
    · simp at h
  · rintro ⟨calls, hlimit, hlt⟩
    exact ⟨_, if_pos (by simp [hlimit, hlt])⟩

namespace EnsembleResearchEngine
variable {engine : EnsembleResearchEngine}

def workerCap (engine : EnsembleResearchEngine) (resource : Resource) : Option ℚ :=
  engine.config.bind fun config => config.workerBudget.limit resource

theorem capLimit_cast (cap value : Option ℕ) :
    (((capLimit cap value).map fun n : ℕ => (n : ℤ)).map fun n : ℤ => (n : ℚ)) =
      capLimit ((cap.map fun n : ℕ => (n : ℤ)).map fun n : ℤ => (n : ℚ))
        ((value.map fun n : ℕ => (n : ℤ)).map fun n : ℤ => (n : ℚ)) := by
  rw [capLimit_map Int.natCast_strictMono, capLimit_map Int.cast_strictMono]

theorem applyWorkerCap_limit (allocated : BudgetSpec) (resource : Resource) :
    (engine.applyWorkerCap allocated).limit resource =
      capLimit (engine.workerCap resource) (allocated.limit resource) := by
  unfold applyWorkerCap workerCap
  cases engine.config with
  | none => rfl
  | some config =>
      cases resource with
      | calls => exact capLimit_cast _ _
      | tokens => exact capLimit_cast _ _
      | microUsd => exact capLimit_cast _ _
      | wallSeconds => rfl

theorem capped_within {allocated : BudgetSpec} (resource : Resource) :
    AtMost ((engine.applyWorkerCap allocated).limit resource) (allocated.limit resource) ∧
      AtMost ((engine.applyWorkerCap allocated).limit resource) (engine.workerCap resource) := by
  rw [applyWorkerCap_limit]
  exact ⟨capLimit_le_value _ _, capLimit_le_cap _ _⟩

theorem uncapped_kept {allocated : BudgetSpec} {resource : Resource}
    (h : engine.workerCap resource = none) :
    (engine.applyWorkerCap allocated).limit resource = allocated.limit resource := by
  rw [applyWorkerCap_limit, h]
  rfl

end EnsembleResearchEngine

namespace FanOut

/-- The slots of the workers, the verifier and the synthesizer. -/
def slots (engine : EnsembleResearchEngine) (plan : FanOut) : List BudgetSpec :=
  plan.workers.map (fun _ => plan.workerAllocation engine) ++
    [plan.allocation.verifier, plan.allocation.synthesizer]

/-- No more is given out than was requested, and caps only lower what a worker is given. -/
structure WithinBudget (engine : EnsembleResearchEngine) (plan : FanOut) : Prop where
  sums : ∀ resource requested, plan.budget.limit resource = some requested →
    ∃ amounts : List ℚ, (plan.slots engine).map (BudgetSpec.limit · resource) = amounts.map some ∧
      amounts.sum ≤ requested
  calls : ∀ slot ∈ [plan.allocation.worker, plan.allocation.verifier, plan.allocation.synthesizer],
    ∀ calls, slot.callLimit = some calls → 1 ≤ calls
  uncapped : ∀ resource, engine.workerCap resource = none →
    (plan.workerAllocation engine).limit resource = plan.allocation.worker.limit resource
  lowered : ∀ resource,
    AtMost ((plan.workerAllocation engine).limit resource) (plan.allocation.worker.limit resource)
  capped : ∀ resource,
    AtMost ((plan.workerAllocation engine).limit resource) (engine.workerCap resource)

end FanOut

namespace EnsembleResearchEngine
variable {engine : EnsembleResearchEngine} {plan : FanOut} {question verifier synthesizer : String}
  {workers : List WorkerSpec} {budget : BudgetSpec}

theorem withinBudget_of_split
    (h : allocateBudget plan.budget plan.workers.length = .ok plan.allocation) :
    plan.WithinBudget engine := by
  obtain ⟨henough, hshare, hverifier, hsynthesizer⟩ := allocateBudget_ok h
  have hpositive : 0 < plan.workers.length + 2 := by omega
  refine ⟨?_, ?_, fun resource => uncapped_kept, fun resource => (capped_within resource).1,
    fun resource => (capped_within resource).2⟩
  · intro resource requested hrequested
    obtain ⟨share, hlimit, hle⟩ := hshare.limit hpositive hrequested
    have hall : ∀ limit ∈ (plan.slots engine).map (BudgetSpec.limit · resource),
        AtMost limit (some share) := by
      intro limit hmem
      obtain ⟨slot, hslot, rfl⟩ := List.mem_map.1 hmem
      rcases List.mem_append.1 hslot with hworker | hlast
      · obtain ⟨worker, -, rfl⟩ := List.mem_map.1 hworker
        rw [← hlimit]
        exact (capped_within resource).1
      · have heq : slot = plan.allocation.worker := by
          rcases List.mem_pair.1 hlast with rfl | rfl
          · exact hverifier
          · exact hsynthesizer
        rw [heq, hlimit]
        exact .refl _
    obtain ⟨amounts, hamounts, hsum⟩ := AtMost.sum hall
    refine ⟨amounts, hamounts, hsum.trans ?_⟩
    simpa [FanOut.slots] using hle
  · intro slot hslot
    have heq : slot = plan.allocation.worker := by
      simpa [hverifier, hsynthesizer] using hslot
    rw [heq]
    refine hshare.allows_call hpositive fun calls hcalls => ?_
    by_contra hlt
    exact henough ⟨calls, hcalls, by omega⟩

/-- What `create_run` asks of its arguments, the budget apart. -/
structure Accepts (engine : EnsembleResearchEngine) (question : String) (workers : List WorkerSpec)
    (verifier synthesizer : String) : Prop where
  question : isBlankText question = false
  sized : 1 ≤ workers.length ∧ workers.length ≤ 8
  distinct : (workers.map WorkerSpec.id).Nodup
  named : verifier ≠ "" ∧ synthesizer ≠ ""
  leased : ∀ name ∈ [verifier, synthesizer], ∃ config, engine.provider name = .ok config ∧
    config.timeoutSeconds.allFinite = true
  configured : engine.Configured workers

/-- The providers of the verifier and the synthesizer with their configurations. -/
def leases (engine : EnsembleResearchEngine) (names : List String) :
    Except PyError (List (String × ProviderConfig)) :=
  names.mapM fun name => do return (name, ← engine.provider name)

theorem leases_ok {names : List String}
    (h : ∀ name ∈ names, ∃ config, engine.provider name = .ok config ∧
      config.timeoutSeconds.allFinite = true) :
    ∃ leased, engine.leases names = .ok leased ∧
      ∀ e ∈ leased, e.2.timeoutSeconds.allFinite = true := by
  induction names with
  | nil => exact ⟨[], rfl, by simp⟩
  | cons name names ih =>
      obtain ⟨⟨config, hconfig, hfinite⟩, hrest⟩ := List.forall_mem_cons.1 h
      obtain ⟨leased, hleased, hall⟩ := ih hrest
      refine ⟨(name, config) :: leased, ?_, List.forall_mem_cons.2 ⟨hfinite, hall⟩⟩
      unfold leases at hleased ⊢
      rw [List.mapM_cons, hleased, hconfig]
      rfl

theorem plan_split (h : engine.plan question workers verifier synthesizer budget = .ok plan) :
    allocateBudget plan.budget plan.workers.length = .ok plan.allocation ∧
      engine.leases [verifier, synthesizer].dedup = .ok plan.providerLease := by
  unfold EnsembleResearchEngine.plan at h
  split at h
  · simp at h
  · split at h
    · split at h
      · split at h
        · simp at h
        · simp only [bind_eq_ok, pure_eq_ok] at h
          obtain ⟨allocation, hsplit, leased, hleased, rfl⟩ := h
          exact ⟨hsplit, hleased⟩
      · simp at h
    · simp at h

theorem Accepts.leases_ok (haccepts : engine.Accepts question workers verifier synthesizer) :
    ∃ leased, engine.leases [verifier, synthesizer].dedup = .ok leased ∧
      ∀ e ∈ leased, e.2.timeoutSeconds.allFinite = true :=
  EnsembleResearchEngine.leases_ok fun name hname => haccepts.leased name (List.mem_dedup.1 hname)

theorem Accepts.plan_error_iff (haccepts : engine.Accepts question workers verifier synthesizer) :
    (∃ e, engine.plan question workers verifier synthesizer budget = .error e) ↔
      budget.TooFewCalls workers.length := by
  obtain ⟨leased, hleased, -⟩ := haccepts.leases_ok
  have hnamed : ¬ (verifier = "" ∨ synthesizer = "") := not_or.2 haccepts.named
  rw [← allocateBudget_error_iff]
  unfold EnsembleResearchEngine.plan
  rw [if_neg (by simp [haccepts.question]), dif_pos haccepts.sized, dif_pos haccepts.distinct,
    if_neg hnamed]
  unfold leases at hleased
  rw [hleased]
  cases allocateBudget budget workers.length with
  | error e => exact iff_of_true ⟨e, rfl⟩ ⟨e, rfl⟩
  | ok allocation => exact iff_of_false (fun ⟨_, h⟩ => nomatch h) (fun ⟨_, h⟩ => nomatch h)

theorem Accepts.plan_finite (haccepts : engine.Accepts question workers verifier synthesizer)
    (h : engine.plan question workers verifier synthesizer budget = .ok plan) :
    (plan.persistedConfig engine).allFinite = true := by
  obtain ⟨leased, hleased, hall⟩ := haccepts.leases_ok
  obtain rfl : plan.providerLease = leased := by
    simpa [hleased] using (plan_split h).2.symm
  have hworkers : ∀ specs : List WorkerSpec, itemsFinite (specs.map WorkerSpec.toDict) = true := by
    intro specs
    induction specs with
    | nil => rfl
    | cons spec specs ih => simp [itemsFinite, ih, WorkerSpec.toDict, dict, allFinite, entriesFinite]
  have hleases : ∀ leased : List (String × ProviderConfig),
      (∀ e ∈ leased, e.2.timeoutSeconds.allFinite = true) →
        entriesFinite (leased.map fun e => (e.1, e.2.timeoutSeconds)) = true := by
    intro leased hall
    induction leased with
    | nil => rfl
    | cons e leased ih =>
        obtain ⟨he, hrest⟩ := List.forall_mem_cons.1 hall
        simp [entriesFinite, he, ih hrest]
  simp [FanOut.persistedConfig, dict, allFinite, entriesFinite, plan.allocationDict_allFinite,
    BudgetSpec.toDict_allFinite, hworkers, hleases _ hall]

/-- How `create_run` splits the budget it is given. -/
structure SplitsBudget (engine : EnsembleResearchEngine) (question : String)
    (workers : List WorkerSpec) (verifier synthesizer : String) (budget : BudgetSpec) : Prop where
  within : ∀ plan, engine.plan question workers verifier synthesizer budget = .ok plan →
    plan.workers = workers ∧ plan.budget = budget ∧ plan.WithinBudget engine
  recorded : ∀ (sha : Sha256) (w w' : World) (parent : RunRecord),
    Runs (drawing sha) (engine.createRun question workers verifier synthesizer budget) w (.ok parent)
      w' → ∃ plan, engine.plan question workers verifier synthesizer budget = .ok plan ∧
        Begun engine plan parent workers w.journal w'.journal
  refused : ∀ (sha : Sha256) (w w' : World) (r : Except PyError RunRecord),
    engine.Accepts question workers verifier synthesizer →
    Runs (drawing sha) (engine.createRun question workers verifier synthesizer budget) w r w' →
      ((∃ e, r = .error e) ↔ budget.TooFewCalls workers.length)

end EnsembleResearchEngine

end Polaris
