import Polaris.Journal.Later
import Polaris.Service.Recovery

namespace Polaris
open PyJson SortedDict Journal

namespace AgentService
variable {svc : AgentService} {s s' : ServiceState}

@[simp] theorem onJournal_ok {β : Type} {c : JournalCall β} {b : β} :
    svc.onJournal c s = (.ok b, s') ↔
      ∃ j, c.perform svc.memory.sha (s.clock s.ticks) s.journal = (.ok b, j) ∧
        s' = s.withJournal j := by
  unfold onJournal
  rcases c.perform svc.memory.sha (s.clock s.ticks) s.journal with ⟨_ | r, j⟩
  · simp
  · simp only [Prod.mk.injEq, Except.ok.injEq]
    exact ⟨fun ⟨hr, hs⟩ => ⟨j, ⟨hr, rfl⟩, hs.symm⟩, fun ⟨_, ⟨hr, hj⟩, hs⟩ => ⟨hr, by rw [hs, hj]⟩⟩

@[simp] theorem listRuns_ok {statuses : Option (List RunStatus)} {runs : List RunRecord} :
    listRuns statuses s = (.ok runs, s') ↔
      runs = (s.journal.runs.filter fun r => statuses.all (r.status ∈ ·)).insertionSort
        (fun a b => a.listedBefore b) ∧ s = s' := by
  simp only [listRuns, Journal.listRuns, Txn.read, Prod.mk.injEq, Except.ok.injEq]
  exact and_congr_left fun _ => eq_comm

/-- What a method of the service changes when it reads, reports events and schedules. -/
structure Reports (s s' : ServiceState) : Prop where
  steps : s'.journal.steps = s.journal.steps
  runs : s'.journal.runs = s.journal.runs

theorem Reports.refl (s : ServiceState) : Reports s s := ⟨rfl, rfl⟩

theorem Reports.trans {t : ServiceState} (h : Reports s s') (h' : Reports s' t) : Reports s t :=
  ⟨h'.steps.trans h.steps, h'.runs.trans h.runs⟩

theorem schedule_ok {runId : String} {task : ℕ} (h : schedule runId s = (.ok task, s')) :
    s.closed = false ∧
      ((lookup runId s.tasks = some task ∧ s.done task = false ∧ s' = s) ∨
        (∀ existing, lookup runId s.tasks = some existing → s.done existing = true) ∧
          task = s.loop.length ∧ s' = s.createTask runId) := by
  simp only [schedule, Txn.bind_ok, Txn.read_ok, Txn.require_ok] at h
  obtain ⟨closed, _, ⟨rfl, rfl⟩, _, _, ⟨hopen, rfl⟩, existing, _, ⟨hexisting, rfl⟩, h⟩ := h
  refine ⟨by simpa using hopen, ?_⟩
  cases existing with
  | some old =>
      simp only [Txn.pure_ok] at h
      obtain ⟨rfl, rfl⟩ := h
      simp only [Option.filter_eq_some_iff, Bool.not_eq_true'] at hexisting
      exact .inl ⟨hexisting.1, hexisting.2, rfl⟩
  | none =>
      simp only [Txn.bind_ok, Txn.read_ok, Txn.write_ok, Txn.pure_ok] at h
      obtain ⟨_, _, ⟨rfl, rfl⟩, _, _, rfl, rfl, rfl⟩ := h
      refine .inr ⟨fun old hold => ?_, rfl, rfl⟩
      simpa [hold, Option.filter] using hexisting

theorem schedule_reports {runId : String} {task : ℕ} (h : schedule runId s = (.ok task, s')) :
    Reports s s' := by
  obtain ⟨-, ⟨-, -, rfl⟩ | ⟨-, -, rfl⟩⟩ := schedule_ok h
  · exact .refl _
  · exact ⟨rfl, rfl⟩

end AgentService

namespace Journal

def HasActiveLease (j : Journal) (runId : String) : Prop :=
  ∃ step ∈ j.steps, step.runId = runId ∧ (step.status = .leased ∨ step.status = .executing)

def HasUncertainOpaqueStep (j : Journal) (runId : String) : Prop :=
  ∃ step ∈ j.steps, step.runId = runId ∧ step.status = .uncertain ∧
    step.safety = .opaqueSideEffect

theorem mem_orderedSteps {j : Journal} {runId : String} {step : StepRecord} :
    step ∈ orderedSteps runId none j ↔ step ∈ j.steps ∧ step.runId = runId := by
  simp [orderedSteps]

theorem listSteps_none_ok {j j' : Journal} {runId : String} {steps : List StepRecord}
    (h : listSteps runId none j = (.ok steps, j')) :
    steps = orderedSteps runId none j ∧ j' = j ∧ (j.findRun runId).isSome := by
  simp only [listSteps, Txn.ite_ok, Txn.bind_ok, requireRun_ok, Txn.read_ok, reduceCtorEq,
    false_and, not_false_eq_true, true_and, false_or] at h
  obtain ⟨run, _, ⟨hrun, rfl⟩, rfl, rfl⟩ := h
  exact ⟨rfl, rfl, by simp [hrun]⟩

theorem listSteps_found {j : Journal} {runId : String} (hfound : (j.findRun runId).isSome) :
    listSteps runId none j = (.ok (orderedSteps runId none j), j) := by
  obtain ⟨run, hrun⟩ := Option.isSome_iff_exists.1 hfound
  simp only [listSteps, Txn.ite_ok, Txn.bind_ok, requireRun_ok, Txn.read_ok, reduceCtorEq, false_and,
    not_false_eq_true, true_and, false_or]
  exact ⟨run, j, ⟨hrun, rfl⟩, rfl, rfl⟩

end Journal

namespace AgentService
variable {svc : AgentService} {s s' : ServiceState}

theorem hasActiveLease_ok {runId : String} {b : Bool}
    (h : svc.hasActiveLease runId s = (.ok b, s')) :
    (b = true ↔ s.journal.HasActiveLease runId) ∧ Reports s s' := by
  simp only [hasActiveLease, Txn.bind_ok, onJournal_ok, Txn.pure_ok] at h
  obtain ⟨steps, _, ⟨j, hsteps, rfl⟩, rfl, rfl⟩ := h
  obtain ⟨rfl, rfl, -⟩ := listSteps_none_ok hsteps
  refine ⟨?_, rfl, rfl⟩
  simp [HasActiveLease, mem_orderedSteps, and_assoc]

theorem hasUncertainOpaqueStep_ok {runId : String} {b : Bool}
    (h : svc.hasUncertainOpaqueStep runId s = (.ok b, s')) :
    (b = true ↔ s.journal.HasUncertainOpaqueStep runId) ∧ Reports s s' := by
  simp only [hasUncertainOpaqueStep, Txn.bind_ok, onJournal_ok, Txn.pure_ok] at h
  obtain ⟨steps, _, ⟨j, hsteps, rfl⟩, rfl, rfl⟩ := h
  obtain ⟨rfl, rfl, -⟩ := listSteps_none_ok hsteps
  refine ⟨?_, rfl, rfl⟩
  simp [HasUncertainOpaqueStep, mem_orderedSteps, and_assoc]

theorem skipRecovery_ok {runId reason : String} {b : Bool}
    (h : svc.skipRecovery runId reason s = (.ok b, s')) : b = false ∧ Reports s s' := by
  simp only [skipRecovery, Txn.bind_ok, onJournal_ok, Txn.pure_ok] at h
  obtain ⟨_, _, ⟨j, hevent, rfl⟩, rfl, rfl⟩ := h
  obtain ⟨column, -, rfl⟩ := appendEvent_ok hevent
  exact ⟨rfl, rfl, rfl⟩

/-- When startup schedules a run that it lists. -/
structure Recovers (svc : AgentService) (parentIds : List String) (j : Journal) (run : RunRecord) :
    Prop where
  top : ∀ parent ∈ run.parentRunId, parent ∉ parentIds
  unleased : ¬ j.HasActiveLease run.id
  settled : ¬ j.HasUncertainOpaqueStep run.id
  available : svc.providersAvailable run = .ok true

theorem recoverRun_ok {parentIds : List String} {run : RunRecord} {b : Bool}
    (h : svc.recoverRun parentIds run s = (.ok b, s')) :
    (b = true ↔ svc.Recovers parentIds s.journal run) ∧ Reports s s' := by
  simp only [recoverRun, Txn.ite_ok, Txn.pure_ok, Txn.bind_ok, Txn.lift_ok] at h
  rcases h with ⟨hparent, rfl, rfl⟩ | ⟨hparent, leased, t, hleased, h⟩
  · refine ⟨⟨by simp, fun hr => ?_⟩, .refl _⟩
    obtain ⟨parent, hmem, hin⟩ : ∃ parent, run.parentRunId = some parent ∧ parent ∈ parentIds := by
      simpa [Option.any_eq_true] using hparent
    exact absurd hin (hr.top parent hmem)
  · have htop : ∀ parent ∈ run.parentRunId, parent ∉ parentIds := by
      simpa [Option.any_eq_true] using hparent
    obtain ⟨hactive, hreports⟩ := hasActiveLease_ok hleased
    rcases h with ⟨rfl, h⟩ | ⟨hfree, doubtful, t', hopaque, h⟩
    · obtain ⟨rfl, hreports'⟩ := skipRecovery_ok h
      exact ⟨⟨by simp, fun hr => absurd (hactive.1 rfl) hr.unleased⟩, hreports.trans hreports'⟩
    · obtain ⟨hdoubt, hreports'⟩ := hasUncertainOpaqueStep_ok hopaque
      have hsame := hreports.trans hreports'
      rw [HasUncertainOpaqueStep, hreports.steps] at hdoubt
      rcases h with ⟨rfl, h⟩ | ⟨hsettled, available, t'', ⟨havailable, rfl⟩, h⟩
      · obtain ⟨rfl, hreports''⟩ := skipRecovery_ok h
        exact ⟨⟨by simp, fun hr => absurd (hdoubt.1 rfl) hr.settled⟩, hsame.trans hreports''⟩
      · rcases h with ⟨hnone, h⟩ | ⟨havail, task, t'', hschedule, rfl, rfl⟩
        · obtain ⟨rfl, hreports''⟩ := skipRecovery_ok h
          refine ⟨⟨by simp, fun hr => ?_⟩, hsame.trans hreports''⟩
          have := havailable.symm.trans hr.available
          simp_all
        · refine ⟨⟨fun _ => ⟨htop, fun hl => hfree (hactive.2 hl), fun hd => hsettled (hdoubt.2 hd),
            ?_⟩, fun _ => rfl⟩, hsame.trans (schedule_reports hschedule)⟩
          simpa [havailable] using havail

/-- The providers of the run can be checked, if startup gets as far as that. -/
def Answerable (svc : AgentService) (parentIds : List String) (j : Journal) (run : RunRecord) : Prop :=
  (∀ parent ∈ run.parentRunId, parent ∉ parentIds) → ¬ j.HasActiveLease run.id →
    ¬ j.HasUncertainOpaqueStep run.id → ∃ b, svc.providersAvailable run = .ok b

theorem recoverRun_answerable {parentIds : List String} {run : RunRecord} {b : Bool}
    (h : svc.recoverRun parentIds run s = (.ok b, s')) : svc.Answerable parentIds s.journal run := by
  intro htop hunleased hsettled
  simp only [recoverRun, Txn.ite_ok, Txn.pure_ok, Txn.bind_ok, Txn.lift_ok] at h
  rcases h with ⟨hparent, -⟩ | ⟨-, leased, t, hleased, h⟩
  · obtain ⟨parent, hmem, hin⟩ : ∃ parent, run.parentRunId = some parent ∧ parent ∈ parentIds := by
      simpa [Option.any_eq_true] using hparent
    exact absurd hin (htop parent hmem)
  · obtain ⟨hactive, hreports⟩ := hasActiveLease_ok hleased
    rcases h with ⟨rfl, -⟩ | ⟨-, doubtful, t', hopaque, h⟩
    · exact absurd (hactive.1 rfl) hunleased
    · obtain ⟨hdoubt, -⟩ := hasUncertainOpaqueStep_ok hopaque
      rw [HasUncertainOpaqueStep, hreports.steps] at hdoubt
      rcases h with ⟨rfl, -⟩ | ⟨-, available, _, ⟨havailable, -⟩, -⟩
      · exact absurd (hdoubt.1 rfl) hsettled
      · exact ⟨available, havailable⟩

theorem Answerable.congr {parentIds : List String} {j j' : Journal} {run : RunRecord}
    (h : j'.steps = j.steps) (ha : svc.Answerable parentIds j run) :
    svc.Answerable parentIds j' run := by
  intro htop hunleased hsettled
  rw [HasActiveLease, h] at hunleased
  rw [HasUncertainOpaqueStep, h] at hsettled
  exact ha htop hunleased hsettled

theorem recoverRuns_answerable {parentIds : List String} {runs : List RunRecord}
    {resumed : List String} (h : svc.recoverRuns parentIds runs s = (.ok resumed, s')) :
    ∀ run ∈ runs, svc.Answerable parentIds s.journal run := by
  induction runs generalizing s resumed with
  | nil => simp
  | cons run runs ih =>
      simp only [recoverRuns, Txn.bind_ok, Txn.pure_ok] at h
      obtain ⟨scheduled, t, hrun, rest, _, hrest, -, rfl⟩ := h
      intro r hr
      rcases List.mem_cons.1 hr with rfl | hr
      · exact recoverRun_answerable hrun
      · exact (ih hrest r hr).congr (recoverRun_ok hrun).2.steps.symm

theorem Recovers.congr {parentIds : List String} {j j' : Journal} {run : RunRecord}
    (h : j'.steps = j.steps) : svc.Recovers parentIds j' run ↔ svc.Recovers parentIds j run := by
  constructor
  · rintro ⟨htop, hleased, hsettled, havailable⟩
    rw [HasActiveLease, h] at hleased
    rw [HasUncertainOpaqueStep, h] at hsettled
    exact ⟨htop, hleased, hsettled, havailable⟩
  · rintro ⟨htop, hleased, hsettled, havailable⟩
    refine ⟨htop, ?_, ?_, havailable⟩
    · rwa [HasActiveLease, h]
    · rwa [HasUncertainOpaqueStep, h]

theorem recoverRuns_ok {parentIds : List String} {runs : List RunRecord} {resumed : List String}
    (h : svc.recoverRuns parentIds runs s = (.ok resumed, s')) :
    (∀ id, id ∈ resumed ↔ ∃ run ∈ runs, run.id = id ∧ svc.Recovers parentIds s.journal run) ∧
      Reports s s' := by
  induction runs generalizing s resumed with
  | nil =>
      simp only [recoverRuns, Txn.pure_ok] at h
      obtain ⟨rfl, rfl⟩ := h
      exact ⟨by simp, .refl _⟩
  | cons run runs ih =>
      simp only [recoverRuns, Txn.bind_ok, Txn.pure_ok] at h
      obtain ⟨scheduled, t, hrun, rest, t', hrest, rfl, rfl⟩ := h
      obtain ⟨hscheduled, hreports⟩ := recoverRun_ok hrun
      obtain ⟨hrest, hreports'⟩ := ih hrest
      refine ⟨fun id => ?_, hreports.trans hreports'⟩
      simp only [Recovers.congr hreports.steps] at hrest
      cases scheduled with
      | true => simp [hrest, ← hscheduled, eq_comm]
      | false =>
          have hnot : ¬ svc.Recovers parentIds s.journal run := by simp [← hscheduled]
          simp [hrest, hnot]

/-- The parents that startup takes for unfinished. -/
def listedParents (j : Journal) : List String :=
  (((j.runs.filter fun r => decide (r.status ∈ [RunStatus.created, .running])).insertionSort
    fun a b => a.listedBefore b).filterMap RunRecord.parentRunId).filter (· ≠ "")

theorem startup_ok {resumed : List String} (h : svc.startup s = (.ok resumed, s')) :
    ∃ rows j, (JournalCall.reclaimExpiredLeases none).perform svc.memory.sha (s.clock s.ticks)
        s.journal = (.ok rows, j) ∧ s'.journal.steps = j.steps ∧ s'.journal.runs = j.runs ∧
      ∀ id, id ∈ resumed ↔ ∃ run ∈ j.runs, (run.status = .created ∨ run.status = .running) ∧
        run.id = id ∧ svc.Recovers (listedParents j) j run := by
  simp only [startup, Txn.bind_ok, onJournal_ok, listRuns_ok] at h
  obtain ⟨rows, _, ⟨j, hreclaim, rfl⟩, runs, _, ⟨rfl, rfl⟩, h⟩ := h
  obtain ⟨hresumed, hreports⟩ := recoverRuns_ok h
  refine ⟨rows, j, hreclaim, hreports.steps, hreports.runs, fun id => ?_⟩
  rw [hresumed]
  simp [listedParents, and_assoc]

theorem startup_answerable {resumed : List String} {rows : List StepRecord} {j : Journal}
    {run : RunRecord} (h : svc.startup s = (.ok resumed, s'))
    (hreclaim : (JournalCall.reclaimExpiredLeases none).perform svc.memory.sha (s.clock s.ticks)
      s.journal = (.ok rows, j)) (hrun : run ∈ j.runs)
    (hlisted : run.status = .created ∨ run.status = .running) :
    svc.Answerable (listedParents j) j run := by
  simp only [startup, Txn.bind_ok, onJournal_ok, listRuns_ok] at h
  obtain ⟨rows', _, ⟨j', hreclaim', rfl⟩, runs, _, ⟨rfl, rfl⟩, h⟩ := h
  obtain ⟨-, rfl⟩ := Prod.mk.inj (hreclaim.symm.trans hreclaim')
  exact recoverRuns_answerable h run (by simp [hrun, hlisted])

/-- When a plain resume accepts a run. -/
structure Resumes (svc : AgentService) (j : Journal) (run : RunRecord) : Prop where
  unfinished : run.status.isTerminal = false
  settled : ¬ j.HasUncertainOpaqueStep run.id
  available : svc.providersAvailable run = .ok true

theorem resume_ok {runId : String} {run : RunRecord} (h : svc.resume runId s = (.ok run, s')) :
    s.journal.findRun runId = some run ∧ svc.Resumes s.journal run := by
  simp only [resume, Txn.ite_ok, Txn.pure_ok, Txn.bind_ok, Txn.lift_ok, Txn.fail_ok, and_false,
    false_or, onJournal_ok] at h
  obtain ⟨row, _, ⟨j, hrun, rfl⟩, hopen, b, t, hopaque, hsettled, available, _,
    ⟨havailable, rfl⟩, havail, task, _, hschedule, rfl, rfl⟩ := h
  obtain ⟨hfound, rfl⟩ := requireRun_ok.1 hrun
  obtain ⟨hdoubt, -⟩ := hasUncertainOpaqueStep_ok hopaque
  have hid : row.id = runId := Table.find_key hfound
  exact ⟨hfound, by simpa using hopen, fun hd => hsettled (hdoubt.2 (hid ▸ hd)), by
    simpa [havailable] using havail⟩

end AgentService

end Polaris
