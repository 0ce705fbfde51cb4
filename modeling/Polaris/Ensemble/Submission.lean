import Mathlib.Algebra.Order.BigOperators.Group.List
import Mathlib.Data.List.Forall2
import Polaris.Journal.Families
import Polaris.Ensemble.Group
import Polaris.Service.ProviderCheck

namespace Polaris
open PyJson PyVal SortedDict Journal Agent Program

namespace EnsembleResearchEngine

/-- `create_run` once its checks are done. -/
def createPlanned (engine : EnsembleResearchEngine) (plan : FanOut) : Agent RunRecord := do
  let parent ← journal (.createRun "fan-out" (dict [("question", .str (pyStrip plan.question))])
    (plan.persistedConfig engine) plan.budget.journalBudget none none)
  createChildren engine plan parent.id plan.workers
  let _ ← appendEvent parent.id "ensemble.budget_allocated"
    (dict [("policy", .str ("fixed equal slots at create time; verifier and synthesizer reserve " ++
        "one slot each and workers share the remaining slots")),
      ("allocation", plan.allocationDict engine)]) none
  return parent

def foundryRouterWorker (providerName : String) : Except PyError WorkerSpec :=
  WorkerSpec.modelValidate [("id", .str "foundry-router"), ("provider_name", .str providerName),
    ("role", .str "evidence-first researcher"),
    ("instructions", .str ("Research broadly, cite exact source evidence, and surface uncertainty. " ++
      "Do not choose or request an underlying model; the Foundry deployment owns routing."))]

def createFoundryRouterRun (engine : EnsembleResearchEngine) (question providerName : String)
    (budget : BudgetSpec) : Agent RunRecord := do
  let worker ← .ofExcept (foundryRouterWorker providerName)
  let parent ← engine.createRun question [worker] providerName providerName budget
  let _ ← appendEvent parent.id "ensemble.strategy_selected"
    (dict [("strategy", .str "foundry_model_router"), ("provider", .str providerName),
      ("routing_owner", .str "microsoft_foundry")]) none
  return parent

section
variable {engine : EnsembleResearchEngine} {plan : FanOut} {question verifier synthesizer : String}
  {workers : List WorkerSpec} {budget : BudgetSpec}

theorem plan_ok (h : engine.plan question workers verifier synthesizer budget = .ok plan) :
    plan.question = question ∧ plan.workers = workers ∧ plan.budget = budget := by
  unfold EnsembleResearchEngine.plan at h
  split at h
  · simp at h
  · split at h
    · split at h
      · split at h
        · simp at h
        · simp only [bind_eq_ok, pure_eq_ok] at h
          obtain ⟨allocation, -, leases, -, rfl⟩ := h
          exact ⟨rfl, rfl, rfl⟩
      · simp at h
    · simp at h

theorem createRun_eq : engine.createRun question workers verifier synthesizer budget =
    (do createPlanned engine (← .ofExcept
      (engine.plan question workers verifier synthesizer budget))) := by
  cases hplan : engine.plan question workers verifier synthesizer budget with
  | error e => simp [createRun, hplan]
  | ok plan =>
      obtain ⟨rfl, rfl, rfl⟩ := plan_ok hplan
      simp [createRun, hplan, createPlanned]

end

end EnsembleResearchEngine

/-- Calls that nobody comes between; the uuid that a call of the journal draws is not the one of a
run. -/
def AgentCall.execFresh (sha : Sha256) {β : Type} :
    AgentCall β → World → Except PyError β → World → Prop
  | .journal op, w, r, w' => ∃ a, w.journal.findRun ("run_" ++ a.uuid) = none ∧
      op.perform sha a w.journal = (r, w'.journal) ∧ w'.executions = w.executions
  | e, w, r, w' => e.exec sha w r w'

def drawing (sha : Sha256) : System AgentCall PyError World := ⟨AgentCall.execFresh sha, Eq⟩

theorem exists_fresh (j : Journal) : ∃ uuid, j.findRun ("run_" ++ uuid) = none := by
  let lengths := j.runs.map fun run => run.id.length
  refine ⟨String.ofList (List.replicate lengths.sum 'f'), List.find?_eq_none.2 fun run hrun hid => ?_⟩
  have hle : run.id.length ≤ lengths.sum :=
    List.le_sum_of_mem (List.mem_map_of_mem hrun)
  have hlength : run.id.length = 4 + lengths.sum := by
    simp only [decide_eq_true_eq] at hid
    have hprefix : "run_".length = 4 := rfl
    simp [hid, hprefix]
  omega

/-! What is created for a worker. -/

namespace BudgetSpec

theorem toDict_allFinite (b : BudgetSpec) : b.toDict.allFinite = true := by
  obtain ⟨calls, tokens, money, wall, -⟩ := b
  cases calls <;> cases tokens <;> cases money <;> cases wall <;> rfl

theorem journalBudget_nonnegative (b : BudgetSpec) : LimitsNonnegative b.journalBudget := by
  obtain ⟨calls, tokens, money, wall, hwall⟩ := b
  refine ⟨?_, ?_, ?_, hwall⟩
  · cases calls <;> simp [BudgetSpec.journalBudget]
  · cases tokens <;> simp [BudgetSpec.journalBudget]
  · cases money <;> simp [BudgetSpec.journalBudget]

end BudgetSpec

namespace FanOut

structure ChildOf (engine : EnsembleResearchEngine) (plan : FanOut) (parentId : String)
    (child : RunRecord) (worker : WorkerSpec) : Prop where
  parent : child.parentRunId = some parentId
  limits : child.limits = (plan.workerAllocation engine).journalBudget
  config : ∃ provider, child.config.value = stored (plan.childConfig engine worker provider)

variable {engine : EnsembleResearchEngine} {plan : FanOut}

theorem childConfig_allFinite (worker : WorkerSpec) (provider : ProviderConfig) :
    (plan.childConfig engine worker provider).allFinite = true := by
  simp [childConfig, dict, allFinite, entriesFinite, exactSeconds, WorkerSpec.toDict]

theorem allocationDict_allFinite : (plan.allocationDict engine).allFinite = true := by
  have hworkers : ∀ ws : List WorkerSpec, entriesFinite (ws.map fun w =>
      (w.id.1, (plan.workerAllocation engine).toDict)) = true := by
    intro ws
    induction ws with
    | nil => rfl
    | cons w ws ih => simp [entriesFinite, BudgetSpec.toDict_allFinite, ih]
  simp [allocationDict, dict, allFinite, entriesFinite, BudgetSpec.toDict_allFinite, hworkers]

end FanOut

namespace EnsembleResearchEngine
variable {sha : Sha256} {engine : EnsembleResearchEngine} {plan : FanOut} {w w' : World}
  {parentId : String} {workers : List WorkerSpec}

def Configured (engine : EnsembleResearchEngine) (workers : List WorkerSpec) : Prop :=
  ∀ worker ∈ workers, ∃ config, engine.provider worker.providerName = .ok config

theorem createRun_drawn {mode : String} {request config : PyVal} {limits : Budget}
    {parentRunId : Option String} {r : Except PyError RunRecord}
    (h : (drawing sha).exec (.journal (.createRun mode request config limits parentRunId none)) w r
      w') :
    (∃ e, r = .error e ∧ w' = w) ∨
      ∃ run a, r = .ok run ∧ CreatedRun a mode config limits parentRunId run ∧
        w.journal.findRun run.id = none ∧ w'.journal.runs = w.journal.runs ++ [run] := by
  obtain ⟨a, -, hperform, hexecutions⟩ := h
  cases r with
  | error e =>
      have hsame := (JournalCall.createRun mode request config limits parentRunId none).perform_atomic
        sha a w.journal e (by rw [hperform])
      rw [hperform] at hsame
      refine .inl ⟨e, rfl, ?_⟩
      cases w
      cases w'
      simp_all
  | ok run =>
      obtain ⟨hcreated, hnew, hruns⟩ := createRun_created hperform
      exact .inr ⟨run, a, rfl, hcreated, hnew, hruns⟩

theorem child_drawn {worker : WorkerSpec} {provider : ProviderConfig} {r : Except PyError RunRecord}
    (hfound : (w.journal.findRun parentId).isSome)
    (h : (drawing sha).exec (.journal (.createRun "single"
      (dict [("prompt", .str (plan.workerPrompt worker))]) (plan.childConfig engine worker provider)
      (plan.workerAllocation engine).journalBudget (some parentId) none)) w r w') :
    ∃ child, r = .ok child ∧ plan.ChildOf engine parentId child worker ∧
      w'.journal.runs = w.journal.runs ++ [child] := by
  rcases createRun_drawn h with ⟨e, rfl, -⟩ | ⟨child, a, rfl, hcreated, -, hruns⟩
  · obtain ⟨a, hnew, hperform, -⟩ := h
    obtain ⟨run, j, hcreate⟩ := @createRun_returns sha a w.journal "single"
      (dict [("prompt", .str (plan.workerPrompt worker))]) (plan.childConfig engine worker provider)
      _ (some parentId) (by simp) (plan.workerAllocation engine).journalBudget_nonnegative rfl
      (FanOut.childConfig_allFinite worker provider) (by simpa using hfound) hnew
    simp [JournalCall.perform, hcreate] at hperform
  · exact ⟨child, rfl, ⟨hcreated.parent, hcreated.limits, provider, hcreated.config⟩, hruns⟩

theorem event_drawn {runId eventType : String} {payload : PyVal} {r : Except PyError EventRecord}
    (htype : eventType ≠ "") (hfinite : payload.allFinite = true)
    (hfound : (w.journal.findRun runId).isSome)
    (h : (drawing sha).exec (.journal (.appendEvent runId eventType payload none)) w r w') :
    (∃ event, r = .ok event) ∧ w'.journal.runs = w.journal.runs := by
  obtain ⟨a, -, hperform, -⟩ := h
  obtain ⟨event, hevent⟩ := appendEvent_returns (a := a) htype hfound hfinite
  obtain ⟨rfl, hjournal⟩ := Prod.mk.inj (hperform.symm.trans hevent)
  exact ⟨⟨event, rfl⟩, by rw [hjournal]; rfl⟩

theorem findRun_isSome_append {runs : List RunRecord} (hruns : w'.journal.runs = w.journal.runs ++ runs)
    (hfound : (w.journal.findRun parentId).isSome) : (w'.journal.findRun parentId).isSome := by
  obtain ⟨run, hrun⟩ := Option.isSome_iff_exists.1 hfound
  have hkept : w'.journal.findRun parentId = some run := by
    rw [findRun, hruns]
    exact Table.find_append_of_some hrun
  simp [hkept]

/-- Children of the first workers, in the order of the workers. -/
def Made (engine : EnsembleResearchEngine) (plan : FanOut) (parentId : String)
    (workers : List WorkerSpec) (j j' : Journal) : Prop :=
  ∃ children, j'.runs = j.runs ++ children ∧
    List.Forall₂ (plan.ChildOf engine parentId) children workers

theorem Made.cons {worker : WorkerSpec} {child : RunRecord} {j j₁ j' : Journal}
    (hchild : plan.ChildOf engine parentId child worker) (hruns : j₁.runs = j.runs ++ [child])
    (h : Made engine plan parentId workers j₁ j') :
    Made engine plan parentId (worker :: workers) j j' := by
  obtain ⟨children, hrest, hall⟩ := h
  exact ⟨child :: children, by simp [hrest, hruns], .cons hchild hall⟩

theorem Made.nil {j j' : Journal} (h : j'.runs = j.runs) : Made engine plan parentId [] j j' :=
  ⟨[], by simp [h], .nil⟩

/-- The calls for one worker whose provider is configured. -/
theorem createChild_runs {worker : WorkerSpec} {provider : ProviderConfig} {α : Type}
    {rest : Agent α} {r : Except PyError α} (hfound : (w.journal.findRun parentId).isSome)
    (h : Runs (drawing sha) (do
      let child ← journal (.createRun "single" (dict [("prompt", .str (plan.workerPrompt worker))])
        (plan.childConfig engine worker provider) (plan.workerAllocation engine).journalBudget
        (some parentId) none)
      let _ ← appendEvent parentId "ensemble.child_created"
        (dict [("worker_id", .str worker.id), ("child_run_id", .str child.id)]) none
      rest) w r w') :
    ∃ child v, plan.ChildOf engine parentId child worker ∧
      v.journal.runs = w.journal.runs ++ [child] ∧ Runs (drawing sha) rest v r w' := by
  rcases runs_bind.1 h with ⟨child, u, hcreate, h⟩ | ⟨e, rfl, hcreate⟩
  · obtain ⟨_, hok, hchild, hruns⟩ := child_drawn hfound (runs_perform.1 hcreate)
    obtain rfl := Except.ok.inj hok
    have hstill := findRun_isSome_append hruns hfound
    rcases runs_bind.1 h with ⟨event, v, hevent, h⟩ | ⟨e, rfl, hevent⟩
    · obtain ⟨-, hsame⟩ := event_drawn (by simp) rfl hstill (runs_perform.1 hevent)
      exact ⟨child, v, hchild, hsame.trans hruns, h⟩
    · obtain ⟨⟨event, hok⟩, -⟩ := event_drawn (by simp) rfl hstill (runs_perform.1 hevent)
      simp at hok
  · obtain ⟨_, hok, -⟩ := child_drawn hfound (runs_perform.1 hcreate)
    simp at hok

theorem createChildren_runs {r : Except PyError Unit} (hfound : (w.journal.findRun parentId).isSome)
    (h : Runs (drawing sha) (createChildren engine plan parentId workers) w r w') :
    r = .ok () ∧ engine.Configured workers ∧ Made engine plan parentId workers w.journal w'.journal ∨
      (∃ e, r = .error e) ∧ ¬ engine.Configured workers := by
  induction workers generalizing w with
  | nil =>
      obtain ⟨rfl, rfl⟩ := runs_done.1 h
      exact .inl ⟨rfl, by simp [Configured], .nil rfl⟩
  | cons worker workers ih =>
      unfold createChildren at h
      cases hprovider : engine.provider worker.providerName with
      | error e =>
          rw [hprovider, ofExcept_error_bind, runs_done] at h
          obtain ⟨rfl, rfl⟩ := h
          exact .inr ⟨⟨e, rfl⟩, fun hall => by simpa [hprovider] using hall worker (by simp)⟩
      | ok provider =>
          rw [hprovider, ofExcept_ok_bind] at h
          obtain ⟨child, v, hchild, hruns, h⟩ := createChild_runs hfound h
          have hcons : engine.Configured (worker :: workers) ↔ engine.Configured workers := by
            simp [Configured, hprovider]
          rcases ih (findRun_isSome_append hruns hfound) h with ⟨rfl, hall, hmade⟩ | ⟨he, hmissing⟩
          · exact .inl ⟨rfl, hcons.2 hall, hmade.cons hchild hruns⟩
          · exact .inr ⟨he, fun hall => hmissing (hcons.1 hall)⟩

theorem createChildren_halts (hfound : (w.journal.findRun parentId).isSome)
    (h : Halts (drawing sha) (createChildren engine plan parentId workers) w w') :
    ∃ made, made <+: workers ∧ Made engine plan parentId made w.journal w'.journal := by
  induction workers generalizing w with
  | nil =>
      obtain rfl := halts_done.1 h
      exact ⟨[], List.nil_prefix, .nil rfl⟩
  | cons worker workers ih =>
      unfold createChildren at h
      cases hprovider : engine.provider worker.providerName with
      | error e =>
          rw [hprovider, ofExcept_error_bind, halts_done] at h
          exact ⟨[], List.nil_prefix, .nil (by rw [h])⟩
      | ok provider =>
          rw [hprovider, ofExcept_ok_bind] at h
          rcases halts_bind.1 h with hcreate | ⟨child, u, hcreate, h⟩
          · rcases halts_perform.1 hcreate with rfl | ⟨r, hcreate⟩
            · exact ⟨[], List.nil_prefix, .nil rfl⟩
            · obtain ⟨child, -, hchild, hruns⟩ := child_drawn hfound hcreate
              exact ⟨[worker], by simp, (Made.nil rfl).cons hchild hruns⟩
          · obtain ⟨_, hok, hchild, hruns⟩ := child_drawn hfound (runs_perform.1 hcreate)
            obtain rfl := Except.ok.inj hok
            have hstill := findRun_isSome_append hruns hfound
            rcases halts_bind.1 h with hevent | ⟨event, v, hevent, h⟩
            · rcases halts_perform.1 hevent with rfl | ⟨r, hevent⟩
              · exact ⟨[worker], by simp, (Made.nil rfl).cons hchild hruns⟩
              · obtain ⟨-, hsame⟩ := event_drawn (by simp) rfl hstill hevent
                exact ⟨[worker], by simp, (Made.nil hsame).cons hchild hruns⟩
            · obtain ⟨-, hsame⟩ := event_drawn (by simp) rfl hstill (runs_perform.1 hevent)
              obtain ⟨made, hmade, hchildren⟩ :=
                ih (findRun_isSome_append (hsame.trans hruns) hfound) h
              exact ⟨worker :: made, List.cons_prefix_cons.2 ⟨rfl, hmade⟩,
                hchildren.cons hchild (hsame.trans hruns)⟩

/-- The parent was created, and children for the workers in `made`. -/
structure Begun (engine : EnsembleResearchEngine) (plan : FanOut) (parent : RunRecord)
    (made : List WorkerSpec) (j j' : Journal) : Prop where
  created : ∃ a, CreatedRun a "fan-out" (plan.persistedConfig engine) plan.budget.journalBudget none
    parent
  new : j.findRun parent.id = none
  runs : ∃ children, j'.runs = j.runs ++ parent :: children ∧
    List.Forall₂ (plan.ChildOf engine parent.id) children made

theorem Begun.of_made {parent : RunRecord} {made : List WorkerSpec} {a : Ambient} {j j₁ j' : Journal}
    (hcreated : CreatedRun a "fan-out" (plan.persistedConfig engine) plan.budget.journalBudget none
      parent) (hnew : j.findRun parent.id = none) (hruns : j₁.runs = j.runs ++ [parent])
    (h : Made engine plan parent.id made j₁ j') : Begun engine plan parent made j j' := by
  obtain ⟨children, hchildren, hall⟩ := h
  exact ⟨⟨a, hcreated⟩, hnew, children, by simp [hchildren, hruns], hall⟩

theorem Begun.of_runs {parent : RunRecord} {made : List WorkerSpec} {j j' j'' : Journal}
    (h : Begun engine plan parent made j j') (hruns : j''.runs = j'.runs) :
    Begun engine plan parent made j j'' := ⟨h.created, h.new, hruns ▸ h.runs⟩

theorem Begun.found {parent : RunRecord} {made : List WorkerSpec} {j j' : Journal}
    (h : Begun engine plan parent made j j') : j'.findRun parent.id = some parent := by
  obtain ⟨children, hruns, -⟩ := h.runs
  rw [findRun, hruns, Table.find_append_of_none h.new]
  simp [Table.find]

theorem parent_drawn {r : Except PyError RunRecord}
    (h : (drawing sha).exec (.journal (.createRun "fan-out"
      (dict [("question", .str (pyStrip plan.question))]) (plan.persistedConfig engine)
      plan.budget.journalBudget none none)) w r w') :
    (∃ e, r = .error e) ∧ w' = w ∧ (plan.persistedConfig engine).allFinite = false ∨
      (plan.persistedConfig engine).allFinite = true ∧ ∃ parent a, r = .ok parent ∧
        CreatedRun a "fan-out" (plan.persistedConfig engine) plan.budget.journalBudget none parent ∧
        w.journal.findRun parent.id = none ∧ w'.journal.runs = w.journal.runs ++ [parent] := by
  rcases createRun_drawn h with ⟨e, rfl, hsame⟩ | ⟨parent, a, hr, hcreated, hnew, hruns⟩
  · refine .inl ⟨⟨e, rfl⟩, hsame, Bool.eq_false_iff.2 fun hfinite => ?_⟩
    obtain ⟨a, hnew, hperform, -⟩ := h
    obtain ⟨run, j, hcreate⟩ := @createRun_returns sha a w.journal "fan-out"
      (dict [("question", .str (pyStrip plan.question))]) (plan.persistedConfig engine) _ none
      (by simp) plan.budget.journalBudget_nonnegative rfl hfinite (by simp) hnew
    simp [JournalCall.perform, hcreate] at hperform
  · exact .inr ⟨hcreated.finite, parent, a, hr, hcreated, hnew, hruns⟩

theorem createPlanned_runs {r : Except PyError RunRecord}
    (h : Runs (drawing sha) (createPlanned engine plan) w r w') :
    (∃ e, r = .error e) ∧ w' = w ∧ (plan.persistedConfig engine).allFinite = false ∨
      (plan.persistedConfig engine).allFinite = true ∧ ∃ parent made, made <+: plan.workers ∧
        Begun engine plan parent made w.journal w'.journal ∧
        (r = .ok parent ∧ engine.Configured plan.workers ∧ made = plan.workers ∨
          (∃ e, r = .error e) ∧ ¬ engine.Configured plan.workers) := by
  rcases runs_bind.1 h with ⟨parent, u, hparent, h⟩ | ⟨e, rfl, hparent⟩
  · rcases parent_drawn (runs_perform.1 hparent) with
      ⟨⟨e, he⟩, -⟩ | ⟨hfinite, _, a, hok, hcreated, hnew, hruns⟩
    · simp at he
    obtain rfl := Except.ok.inj hok
    have hfound : (u.journal.findRun parent.id).isSome := by
      have hbegun : Begun engine plan parent [] w.journal u.journal :=
        .of_made hcreated hnew hruns (.nil rfl)
      simp [hbegun.found]
    rcases runs_bind.1 h with ⟨_, v, hchildren, h⟩ | ⟨e, rfl, hchildren⟩
    · rcases createChildren_runs hfound hchildren with ⟨-, hall, hmade⟩ | ⟨⟨e, he⟩, -⟩
      · have hbegun := Begun.of_made hcreated hnew hruns hmade
        have hstill : (v.journal.findRun parent.id).isSome := by simp [hbegun.found]
        rcases runs_bind.1 h with ⟨event, x, hevent, h⟩ | ⟨e, rfl, hevent⟩
        · obtain ⟨rfl, rfl⟩ := runs_done.1 h
          obtain ⟨-, hsame⟩ := event_drawn (by simp) (by
            simp [dict, allFinite, entriesFinite, plan.allocationDict_allFinite]) hstill
            (runs_perform.1 hevent)
          exact .inr ⟨hfinite, parent, _, List.prefix_rfl, hbegun.of_runs hsame, .inl ⟨rfl, hall, rfl⟩⟩
        · obtain ⟨⟨event, hok⟩, -⟩ := event_drawn (by simp) (by
            simp [dict, allFinite, entriesFinite, plan.allocationDict_allFinite]) hstill
            (runs_perform.1 hevent)
          simp at hok
      · simp at he
    · rcases createChildren_runs hfound hchildren with ⟨he, -⟩ | ⟨-, hmissing⟩
      · simp at he
      · obtain ⟨made, hprefix, hmade⟩ := createChildren_halts hfound hchildren.halts
        exact .inr ⟨hfinite, parent, made, hprefix, .of_made hcreated hnew hruns hmade,
          .inr ⟨⟨e, rfl⟩, hmissing⟩⟩
  · rcases parent_drawn (runs_perform.1 hparent) with ⟨he, hsame⟩ | ⟨-, _, _, he, -⟩
    · exact .inl ⟨he, hsame⟩
    · simp at he

theorem createPlanned_halts (h : Halts (drawing sha) (createPlanned engine plan) w w') :
    w' = w ∨ ∃ parent made, made <+: plan.workers ∧
      Begun engine plan parent made w.journal w'.journal := by
  rcases halts_bind.1 h with hparent | ⟨parent, u, hparent, h⟩
  · rcases halts_perform.1 hparent with rfl | ⟨r, hparent⟩
    · exact .inl rfl
    · rcases parent_drawn hparent with ⟨-, hsame, -⟩ | ⟨-, parent, a, -, hcreated, hnew, hruns⟩
      · exact .inl hsame
      · exact .inr ⟨parent, [], List.nil_prefix, .of_made hcreated hnew hruns (.nil rfl)⟩
  · rcases parent_drawn (runs_perform.1 hparent) with
      ⟨⟨e, he⟩, -⟩ | ⟨-, _, a, hok, hcreated, hnew, hruns⟩
    · simp at he
    obtain rfl := Except.ok.inj hok
    have hfound : (u.journal.findRun parent.id).isSome := by
      have hbegun : Begun engine plan parent [] w.journal u.journal :=
        .of_made hcreated hnew hruns (.nil rfl)
      simp [hbegun.found]
    refine .inr ⟨parent, ?_⟩
    rcases halts_bind.1 h with hchildren | ⟨_, v, hchildren, h⟩
    · obtain ⟨made, hprefix, hmade⟩ := createChildren_halts hfound hchildren
      exact ⟨made, hprefix, .of_made hcreated hnew hruns hmade⟩
    · obtain ⟨made, hprefix, hmade⟩ := createChildren_halts hfound hchildren.halts
      have hbegun := Begun.of_made hcreated hnew hruns hmade
      have hstill : (v.journal.findRun parent.id).isSome := by simp [hbegun.found]
      refine ⟨made, hprefix, hbegun.of_runs ?_⟩
      rcases halts_bind.1 h with hevent | ⟨event, x, hevent, h⟩
      · rcases halts_perform.1 hevent with rfl | ⟨r, hevent⟩
        · rfl
        · exact (event_drawn (by simp) (by
            simp [dict, allFinite, entriesFinite, plan.allocationDict_allFinite]) hstill hevent).2
      · obtain rfl := halts_done.1 h
        exact (event_drawn (by simp) (by
          simp [dict, allFinite, entriesFinite, plan.allocationDict_allFinite]) hstill
          (runs_perform.1 hevent)).2

end EnsembleResearchEngine

end Polaris
