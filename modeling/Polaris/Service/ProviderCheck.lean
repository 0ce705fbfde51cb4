import Polaris.Ensemble.Execution
import Polaris.Service.Startup

namespace Polaris
open PyJson SortedDict Journal Agent

/-- What runs are created with: by the runtime, and by the ensemble for itself and its workers. -/
inductive RunConfig where
  | single (creator : RunCreator)
  | worker (engine : EnsembleResearchEngine) (plan : FanOut) (spec : WorkerSpec)
      (provider : ProviderConfig)
  | fanOut (engine : EnsembleResearchEngine) (plan : FanOut)

namespace RunConfig

def mode : RunConfig → String
  | .fanOut .. => "fan-out"
  | _ => "single"

def persisted : RunConfig → PyVal
  | .single creator => creator.persistedConfig
  | .worker engine plan spec provider => plan.childConfig engine spec provider
  | .fanOut engine plan => plan.persistedConfig engine

end RunConfig

namespace AgentService

/-- The provider that a single run is executed with. -/
def recordedProvider (run : RunRecord) : Except PyError String :=
  match getIfMapping "provider" .null run.config.value with
  | .str name => .ok name
  | _ => .error (providerConfigurationError "run does not record a provider")

/-- The providers that the execution of a run calls. -/
def calledProviders (py : PyBuiltins) (run : RunRecord) : Except PyError (List String) :=
  if run.mode = "single" then do
    return [← recordedProvider run]
  else if run.mode = "fan-out" then do
    let workers ← EnsembleResearchEngine.workers run
    let verifier ← subscript "verifier" run.config.value
    let synthesizer ← subscript "synthesizer" run.config.value
    return workers.map (·.providerName.1) ++ [py.strOf verifier, py.strOf synthesizer]
  else .error (valueError ("unsupported run mode: " ++ Journal.pyRepr run.mode))

variable {svc : AgentService} {run : RunRecord}

theorem workers_stored {engine : EnsembleResearchEngine} {plan : FanOut}
    (h : run.config.value = stored (plan.persistedConfig engine)) :
    EnsembleResearchEngine.workers run = .ok plan.workers := by
  have hread : ∀ ws : List WorkerSpec,
      (ws.map fun w => stored w.toDict).mapM EnsembleResearchEngine.readWorker = .ok ws := by
    intro ws
    induction ws with
    | nil => rfl
    | cons w ws ih =>
        obtain ⟨es, hes, hvalid⟩ := w.modelValidate_stored
        simp [List.mapM_cons, hes, EnsembleResearchEngine.readWorker, hvalid, ih, bind, Except.bind,
          pure, Except.pure]
  have hworkers : subscript "workers" run.config.value =
      .ok (.seq .tuple (plan.workers.map fun w => stored w.toDict)) := by
    rw [h]
    simp [FanOut.persistedConfig, dict, subscript, getItem, lookup_storedEntries, lastOf, lookup,
      Function.comp_def]
  simp [EnsembleResearchEngine.workers, hworkers, hread, bind, Except.bind]

theorem calledProviders_fanOut {engine : EnsembleResearchEngine} {plan : FanOut}
    (hmode : run.mode = "fan-out") (h : run.config.value = stored (plan.persistedConfig engine)) :
    calledProviders svc.py run =
      .ok (plan.workers.map (·.providerName.1) ++ [plan.verifier, plan.synthesizer]) := by
  have hverifier : subscript "verifier" run.config.value = .ok (.str plan.verifier) := by
    rw [h]
    simp [FanOut.persistedConfig, dict, subscript, getItem, lookup_storedEntries, lastOf, lookup]
  have hsynthesizer : subscript "synthesizer" run.config.value = .ok (.str plan.synthesizer) := by
    rw [h]
    simp [FanOut.persistedConfig, dict, subscript, getItem, lookup_storedEntries, lastOf, lookup]
  simp [calledProviders, hmode, workers_stored h, hverifier, hsynthesizer, PyBuiltins.strOf, bind,
    Except.bind, pure, Except.pure]

/-- The workers are stored as an array, which is read back as a tuple and passed over. -/
theorem providersAvailable_fanOut {engine : EnsembleResearchEngine} {plan : FanOut}
    (hmode : run.mode = "fan-out") (h : run.config.value = stored (plan.persistedConfig engine)) :
    svc.providersAvailable run = .ok (svc.configured plan.verifier && svc.configured plan.synthesizer) := by
  have hvalue : run.config.value = .map .proxy (storedEntries [("version", .int 1),
      ("max_workers", .int (min engine.workerLimit plan.workers.length)),
      ("workers", .seq .list (plan.workers.map WorkerSpec.toDict)),
      ("verifier", .str plan.verifier), ("synthesizer", .str plan.synthesizer),
      ("provider_lease_seconds", dict (plan.providerLease.map fun e => (e.1, e.2.timeoutSeconds))),
      ("output_language", .str (engine.config.elim "English" fun c => c.outputLanguage)),
      ("requested_budget", plan.budget.toDict), ("allocation", plan.allocationDict engine)]) := by
    rw [h]
    simp [FanOut.persistedConfig, dict]
  simp [providersAvailable, hvalue, hmode, fanOutNames, getOrNone, lookup_storedEntries, lastOf,
    lookup, requireHashable, unhashable, isConfigured, bind, Except.bind, pure, Except.pure]

theorem single_provider {name : String}
    (h : ∃ es, run.config.value = .map .proxy es ∧ getOrNone "provider" es = .str name)
    (hmode : run.mode = "single") :
    svc.providersAvailable run = .ok (svc.configured name) ∧
      calledProviders svc.py run = .ok [name] := by
  obtain ⟨es, hvalue, hname⟩ := h
  constructor
  · simp [providersAvailable, hvalue, hmode, hname, isConfigured]
  · simp [calledProviders, recordedProvider, hvalue, hmode, getIfMapping, hname, bind, Except.bind,
      pure, Except.pure]

end AgentService

namespace RunConfig

structure Creation where
  request : PyVal
  limits : Budget
  parentRunId : Option String
  externalKey : Option String
  ambient : Ambient

def creation (cfg : RunConfig) (c : Creation) : HonestCall :=
  ⟨⟨.createRun cfg.mode c.request cfg.persisted c.limits c.parentRunId c.externalKey, c.ambient⟩,
    trivial⟩

/-- A run of the configuration, read back from a journal some time after its creation. -/
structure ReadBack (sha : Sha256) (cfg : RunConfig) (c : Creation) (before after : List HonestCall)
    (run : RunRecord) : Prop where
  created : ∃ created : RunRecord, ((cfg.creation c).1.outcome sha (history sha before)).1 = .ok created ∧
    (history sha before).findRun created.id = none ∧ created.id = run.id
  found : (history sha (before ++ cfg.creation c :: after)).findRun run.id = some run

variable {sha : Sha256} {cfg : RunConfig} {c : Creation} {before after : List HonestCall}
  {run : RunRecord}

theorem ReadBack.persisted (h : cfg.ReadBack sha c before after run) :
    run.mode = cfg.mode ∧ run.config.value = stored cfg.persisted := by
  obtain ⟨created, hok, hnew, hid⟩ := h.created
  have hcreated : Journal.createRun sha c.ambient cfg.mode c.request cfg.persisted c.limits
      c.parentRunId c.externalKey (history sha before) =
      (.ok created, history sha (before ++ [cfg.creation c])) := by
    rw [history_concat]
    exact Prod.ext hok rfl
  obtain ⟨-, ⟨-, hmem⟩ | ⟨requestJson, configJson, column, t, hrun, -, hconfig, -, ht, hj⟩⟩ :=
    createRun_ok hcreated
  · exact absurd rfl (Table.find_none hnew created hmem)
  · have hfind : (history sha (before ++ [cfg.creation c])).findRun created.id = some created := by
      have happend : ∀ runs : List RunRecord, Table.find RunRecord.id created.id runs = none →
          Table.find RunRecord.id created.id (runs ++ [created]) = some created := by
        intro runs hnone
        rw [Table.find_append_of_none hnone]
        simp [Table.find]
      rw [hj]
      obtain rfl | ⟨k, rfl⟩ := ht <;> exact happend _ hnew
    have hlater := @later_runCalls sha _ (history_invariant sha (before ++ [cfg.creation c])).keyed
      after
    rw [← history_append, List.append_assoc, List.singleton_append] at hlater
    obtain ⟨run', hrun', horigin⟩ := hlater.runs _ _ hfind
    obtain rfl : run' = run := Option.some.inj (hrun'.symm.trans (hid ▸ h.found))
    simp only [RunRecord.origin, Prod.mk.injEq] at horigin
    obtain ⟨-, hmode, -, hsame, -⟩ := horigin
    rw [hmode, hsame, hrun]
    exact ⟨rfl, (canonicalJson_eq_ok hconfig).2.1⟩

/-- The workers of a fan-out run are passed over by the check of its providers. -/
def WorkersAvailable (svc : AgentService) : RunConfig → Prop
  | .fanOut _ plan => svc.configured plan.verifier = true → svc.configured plan.synthesizer = true →
      ∀ worker ∈ plan.workers, svc.configured worker.providerName = true
  | _ => True

end RunConfig

namespace AgentService
variable {svc : AgentService} {run : RunRecord}

/-- The check says what it should of the run, in whatever journal the run is found. -/
structure ChecksProviders (svc : AgentService) (run : RunRecord) (names : List String) : Prop where
  called : calledProviders svc.py run = .ok names
  exact : svc.providersAvailable run = .ok true ↔ ∀ name ∈ names, svc.configured name = true
  resume : ∀ s, s.journal.findRun run.id = some run → (∃ name ∈ names, svc.configured name = false) →
    ∀ r s', svc.resume run.id s ≠ (.ok r, s')
  startup : ∀ s calls, s.journal = history svc.memory.sha calls → s.journal.findRun run.id = some run →
    (∃ name ∈ names, svc.configured name = false) →
    ∀ resumed s', svc.startup s = (.ok resumed, s') → run.id ∉ resumed

theorem checksProviders_of_exact {names : List String} (hcalled : calledProviders svc.py run = .ok names)
    (hexact : svc.providersAvailable run = .ok true ↔ ∀ name ∈ names, svc.configured name = true) :
    svc.ChecksProviders run names where
  called := hcalled
  exact := hexact
  resume s hrun hmissing r s' h := by
    obtain ⟨name, hname, hnone⟩ := hmissing
    obtain ⟨hfound, hresumes⟩ := resume_ok h
    obtain rfl := Option.some.inj (hrun.symm.trans hfound)
    simp [hexact.1 hresumes.available name hname] at hnone
  startup s calls hj hrun hmissing resumed s' h hmem := by
    obtain ⟨name, hname, hnone⟩ := hmissing
    obtain ⟨rows, j, hreclaim, -, -, hresumed⟩ := startup_ok h
    obtain ⟨row, hrow, -, hid, hrecovers⟩ := (hresumed run.id).1 hmem
    have hkeyed : s.journal.StepsKeyed := hj ▸ (history_invariant _ calls).keyed
    have hsame : j.runs = s.journal.runs :=
      same_of_perform (p := .runs) hkeyed hreclaim (by simp [JournalCall.writes])
    have hruns : Table.Keyed RunRecord.id s.journal.runs := hj ▸ (history_ledger _ calls).runsKeyed
    obtain rfl := hruns.eq_of_key (hsame ▸ hrow) (Table.find_mem hrun) hid
    simp [hexact.1 hrecovers.available name hname] at hnone

theorem providers_checked_iff {cfg : RunConfig} {c : RunConfig.Creation}
    {before after : List HonestCall} (h : cfg.ReadBack svc.memory.sha c before after run) :
    (∃ names, svc.ChecksProviders run names) ↔ cfg.WorkersAvailable svc := by
  obtain ⟨hmode, hconfig⟩ := h.persisted
  have hsingle : ∀ {es : List (String × PyVal)} (name : String), cfg.persisted = dict es →
      lastOf "provider" es = some (.str name) → cfg.mode = "single" →
      ∃ names, svc.ChecksProviders run names := by
    intro es name hes hname hcfg
    have hstored : ∃ stored, run.config.value = .map .proxy stored ∧ getOrNone "provider" stored = .str name :=
      ⟨storedEntries es, by rw [hconfig, hes]; rfl, by simp [getOrNone, lookup_storedEntries, hname]⟩
    obtain ⟨havailable, hcalled⟩ := single_provider hstored (hmode.trans hcfg)
    exact ⟨[name], checksProviders_of_exact hcalled (by simp [havailable])⟩
  cases cfg with
  | single creator =>
      exact iff_of_true (hsingle creator.runtime.providerName rfl (by simp [lastOf, lookup]) rfl) trivial
  | worker engine plan spec provider =>
      exact iff_of_true (hsingle spec.providerName rfl (by simp [lastOf, lookup]) rfl) trivial
  | fanOut engine plan =>
      have hcalled := @calledProviders_fanOut svc _ _ _ hmode hconfig
      have havailable := @providersAvailable_fanOut svc _ _ _ hmode hconfig
      constructor
      · rintro ⟨names, hchecks⟩ hverifier hsynthesizer worker hworker
        obtain rfl := Except.ok.inj (hcalled.symm.trans hchecks.called)
        refine hchecks.exact.1 (by simp [havailable, hverifier, hsynthesizer]) _ ?_
        exact List.mem_append_left _ (List.mem_map.2 ⟨worker, hworker, rfl⟩)
      · intro hworkers
        refine ⟨_, checksProviders_of_exact hcalled ?_⟩
        simp only [havailable, Except.ok.injEq, Bool.and_eq_true, List.mem_append, List.mem_map,
          List.mem_cons, List.not_mem_nil, or_false]
        constructor
        · rintro ⟨hverifier, hsynthesizer⟩ name (⟨worker, hworker, rfl⟩ | rfl | rfl)
          · exact hworkers hverifier hsynthesizer worker hworker
          · exact hverifier
          · exact hsynthesizer
        · exact fun hall => ⟨hall _ (.inr (.inl rfl)), hall _ (.inr (.inr rfl))⟩

/-! A fan-out run whose only worker has a provider that the service does not have. -/

namespace Unprovided

def sha : Sha256 := .ofTable []

def clock (t : Timestamp) : Ambient := ⟨t, t, t, "55555555555555555555555555555555"⟩

def model : ProviderConfig := ⟨"model", .int 60⟩

def service : AgentService where
  py := ⟨fun _ => "", fun _ => "", fun _ => .error (typeError "int"), fun _ _ => false⟩
  memory := ⟨sha, ⟨⟨fun _ _ => false, fun _ _ text => text⟩, []⟩⟩
  providers := [("checker", model), ("writer", model)]
  tools := ⟨[], []⟩
  config := ⟨["checker", "writer"], ⟨false, .defaultProfile, 4000⟩⟩

def unlimited : BudgetSpec := ⟨none, none, none, none, by simp⟩

def reader : WorkerSpec :=
  ⟨⟨"reader", by decide⟩, ⟨"local", by decide⟩, ⟨"reader", by decide⟩, ⟨"Read.", by decide⟩, by decide⟩

def engine : EnsembleResearchEngine :=
  ⟨[("local", model), ("checker", model), ("writer", model)], none, none⟩

def fanOut : FanOut :=
  ⟨"Why?", [reader], "checker", "writer", unlimited, ⟨unlimited, unlimited, unlimited⟩,
    [("checker", model), ("writer", model)], by decide, by decide⟩

def creation : RunConfig.Creation :=
  ⟨dict [("question", .str "Why?")], ⟨none, none, none, none⟩, none, none, clock 1⟩

theorem planned : engine.plan "Why?" [reader] "checker" "writer" unlimited = .ok fanOut := by
  rfl

theorem readBack : ∃ run, (RunConfig.fanOut engine fanOut).ReadBack sha creation [] [] run := by
  have hcreated : (((RunConfig.fanOut engine fanOut).creation creation).1.outcome sha
      (history sha [])).1.toOption.any
        (fun run => run.id = "run_55555555555555555555555555555555") = true := by decide +kernel
  have hfound : ((history sha ([] ++ (RunConfig.fanOut engine fanOut).creation creation :: [])).findRun
      "run_55555555555555555555555555555555").isSome = true := by decide +kernel
  obtain ⟨created, hok, hid⟩ := (Option.any_eq_true _ _).1 hcreated
  obtain ⟨run, hrun⟩ := Option.isSome_iff_exists.1 hfound
  have hkey : run.id = "run_55555555555555555555555555555555" := Table.find_key hrun
  refine ⟨run, ⟨created, ?_, rfl, ?_⟩, ?_⟩
  · cases hresult : (((RunConfig.fanOut engine fanOut).creation creation).1.outcome sha
      (history sha [])).1 with
    | ok row => simp_all [Except.toOption]
    | error e => simp [hresult, Except.toOption] at hok
  · rw [of_decide_eq_true hid, hkey]
  · rw [hkey]
    exact hrun

end Unprovided

theorem providers_checked_iff_unprovided : ∃ run,
    (RunConfig.fanOut Unprovided.engine Unprovided.fanOut).ReadBack Unprovided.sha
      Unprovided.creation [] [] run ∧
    ((∃ names, Unprovided.service.ChecksProviders run names) ↔
      (RunConfig.fanOut Unprovided.engine Unprovided.fanOut).WorkersAvailable Unprovided.service) := by
  obtain ⟨run, h⟩ := Unprovided.readBack
  exact ⟨run, h, providers_checked_iff h⟩

theorem not_providers_checked : ¬ ∀ (svc : AgentService) (cfg : RunConfig) (c : RunConfig.Creation)
    (before after : List HonestCall) (run : RunRecord),
    cfg.ReadBack svc.memory.sha c before after run → ∃ names, svc.ChecksProviders run names := by
  intro h
  obtain ⟨run, hread⟩ := Unprovided.readBack
  obtain ⟨names, hchecks⟩ := h Unprovided.service _ _ _ _ run hread
  obtain ⟨hmode, hconfig⟩ := hread.persisted
  obtain rfl := Except.ok.inj ((calledProviders_fanOut hmode hconfig).symm.trans hchecks.called)
  have hmissing : Unprovided.service.configured "local" = true :=
    hchecks.exact.1 (by rw [providersAvailable_fanOut hmode hconfig]; rfl) "local" (by decide)
  exact absurd hmissing (by decide)

end AgentService

end Polaris
