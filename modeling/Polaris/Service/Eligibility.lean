import Polaris.Journal.Reclaim
import Polaris.Runtime.Answered
import Polaris.Runtime.Lineage
import Polaris.Runtime.Resumption
import Polaris.Service.Startup

namespace Polaris
open PyJson SortedDict Journal Agent

/-! What startup and resume do where nothing stands against it. -/

namespace AgentService
variable {svc : AgentService} {s : ServiceState}

theorem schedule_returns (runId : String) (hopen : s.closed = false) :
    ∃ task s', schedule runId s = (.ok task, s') := by
  cases hexisting : (lookup runId s.tasks).filter fun task => !s.done task with
  | some existing =>
      refine ⟨existing, s, ?_⟩
      simp only [schedule, Txn.bind_ok, Txn.read_ok, Txn.require_ok]
      exact ⟨_, _, ⟨rfl, rfl⟩, (), _, ⟨by simp [hopen], rfl⟩, _, _, ⟨hexisting, rfl⟩, rfl⟩
  | none =>
      refine ⟨s.loop.length, s.createTask runId, ?_⟩
      simp only [schedule, Txn.bind_ok, Txn.read_ok, Txn.require_ok]
      exact ⟨_, _, ⟨rfl, rfl⟩, (), _, ⟨by simp [hopen], rfl⟩, _, _, ⟨hexisting, rfl⟩, rfl⟩

/-- The runs of the state can be read as `j` has them, and the service is open. -/
structure Serves (j : Journal) (s : ServiceState) : Prop where
  steps : s.journal.steps = j.steps
  runs : s.journal.runs = j.runs
  opened : s.closed = false

variable {j : Journal} {runId : String} {run : RunRecord}

theorem Serves.find (h : Serves j s) : s.journal.findRun runId = j.findRun runId := by
  rw [findRun, h.runs, findRun]

theorem listSteps_returns (h : Serves j s) (hrun : (j.findRun runId).isSome) :
    ∃ s', svc.onJournal (.listSteps runId none) s = (.ok (orderedSteps runId none j), s') ∧
      Serves j s' := by
  have hlist := listSteps_found (j := s.journal) (h.find ▸ hrun)
  refine ⟨s.withJournal s.journal, onJournal_ok.2 ⟨s.journal, hlist.trans ?_, rfl⟩,
    ⟨h.steps, h.runs, h.opened⟩⟩
  simp [orderedSteps, h.steps]

theorem skipRecovery_returns (reason : String) (h : Serves j s) (hrun : (j.findRun runId).isSome) :
    ∃ s', svc.skipRecovery runId reason s = (.ok false, s') ∧ Serves j s' := by
  obtain ⟨run, hfound⟩ := Option.isSome_iff_exists.1 hrun
  obtain ⟨event, hevent⟩ := @appendEventRow_returns s.journal ((s.clock s.ticks).now) runId
    "service.recovery_skipped" (dict [("reason", .str reason)]) none rfl
  refine ⟨s.withJournal (s.journal.addEvent event), ?_, ⟨h.steps, h.runs, h.opened⟩⟩
  simp only [skipRecovery, Txn.bind_ok, onJournal_ok, Txn.pure_ok]
  refine ⟨event, _, ⟨s.journal.addEvent event, ?_, rfl⟩, trivial, rfl⟩
  simp only [JournalCall.perform, Journal.appendEvent, Txn.bind_ok, Txn.require_ok, Txn.atomically_ok,
    requireRun_ok]
  exact ⟨(), _, ⟨by simp, rfl⟩, run, _, ⟨h.find.trans hfound, rfl⟩, (), _, rfl, hevent⟩

theorem recoverRun_returns (parentIds : List String) (h : Serves j s)
    (hrun : (j.findRun run.id).isSome) (hanswers : svc.Answerable parentIds j run) :
    ∃ b s', svc.recoverRun parentIds run s = (.ok b, s') ∧ Serves j s' := by
  simp only [recoverRun, Txn.ite_ok, Txn.pure_ok, Txn.bind_ok, Txn.lift_ok, hasActiveLease,
    hasUncertainOpaqueStep]
  by_cases hparent : run.parentRunId.any (· ∈ parentIds) = true
  · exact ⟨false, s, .inl ⟨hparent, rfl, rfl⟩, h⟩
  · obtain ⟨t, hsteps, ht⟩ := @listSteps_returns svc _ _ _ h hrun
    by_cases hleased : ((orderedSteps run.id none j).any fun step =>
        step.status = .leased || step.status = .executing) = true
    · obtain ⟨s', hskip, hs'⟩ := @skipRecovery_returns svc _ _ _
        "run still has an active step lease" ht hrun
      exact ⟨false, s', .inr ⟨hparent, _, t, ⟨_, t, hsteps, rfl, rfl⟩, .inl ⟨hleased, hskip⟩⟩, hs'⟩
    · obtain ⟨t', hsteps', ht'⟩ := @listSteps_returns svc _ _ _ ht hrun
      by_cases hdoubt : ((orderedSteps run.id none j).any fun step =>
          step.status = .uncertain && step.safety = .opaqueSideEffect) = true
      · obtain ⟨s', hskip, hs'⟩ := @skipRecovery_returns svc _ _ _
          "uncertain opaque side effect requires operator decision" ht' hrun
        exact ⟨false, s', .inr ⟨hparent, _, t, ⟨_, t, hsteps, rfl, rfl⟩, .inr ⟨hleased, _, t',
          ⟨_, t', hsteps', rfl, rfl⟩, .inl ⟨hdoubt, hskip⟩⟩⟩, hs'⟩
      · obtain ⟨available, havailable⟩ := hanswers (by simpa [Option.any_eq_true] using hparent)
          (by simpa [HasActiveLease, mem_orderedSteps, and_assoc] using hleased)
          (by simpa [HasUncertainOpaqueStep, mem_orderedSteps, and_assoc] using hdoubt)
        cases available with
        | false =>
            obtain ⟨s', hskip, hs'⟩ := @skipRecovery_returns svc _ _ _
              "provider configuration unavailable" ht' hrun
            exact ⟨false, s', .inr ⟨hparent, _, t, ⟨_, t, hsteps, rfl, rfl⟩, .inr ⟨hleased, _, t',
              ⟨_, t', hsteps', rfl, rfl⟩, .inr ⟨hdoubt, false, t', ⟨havailable, rfl⟩,
                .inl ⟨rfl, hskip⟩⟩⟩⟩, hs'⟩
        | true =>
            obtain ⟨task, s', hschedule⟩ := schedule_returns run.id ht'.opened
            refine ⟨true, s', .inr ⟨hparent, _, t, ⟨_, t, hsteps, rfl, rfl⟩, .inr ⟨hleased, _, t',
              ⟨_, t', hsteps', rfl, rfl⟩, .inr ⟨hdoubt, true, t', ⟨havailable, rfl⟩,
                .inr ⟨by simp, task, s', hschedule, rfl, rfl⟩⟩⟩⟩, ?_⟩
            have hsame := schedule_reports hschedule
            refine ⟨hsame.steps.trans ht'.steps, hsame.runs.trans ht'.runs, ?_⟩
            obtain ⟨-, ⟨-, -, rfl⟩ | ⟨-, -, rfl⟩⟩ := schedule_ok hschedule <;> exact ht'.opened

theorem recoverRuns_returns (parentIds : List String) (runs : List RunRecord) (h : Serves j s)
    (hruns : ∀ run ∈ runs, (j.findRun run.id).isSome ∧ svc.Answerable parentIds j run) :
    ∃ resumed s', svc.recoverRuns parentIds runs s = (.ok resumed, s') := by
  induction runs generalizing s with
  | nil => exact ⟨[], s, rfl⟩
  | cons run runs ih =>
      obtain ⟨hrun, hanswers⟩ := hruns run (by simp)
      obtain ⟨scheduled, t, hrecover, ht⟩ := recoverRun_returns parentIds h hrun hanswers
      obtain ⟨resumed, s', hrest⟩ := ih ht fun r hr => hruns r (List.mem_cons_of_mem _ hr)
      refine ⟨if scheduled then run.id :: resumed else resumed, s', ?_⟩
      simp only [recoverRuns, Txn.bind_ok, Txn.pure_ok]
      exact ⟨scheduled, t, hrecover, resumed, s', hrest, rfl, rfl⟩

theorem startup_returns (hopen : s.closed = false)
    (hanswers : ∀ rows j, (JournalCall.reclaimExpiredLeases none).perform svc.memory.sha
      (s.clock s.ticks) s.journal = (.ok rows, j) → ∀ run ∈ j.runs,
        run.status = .created ∨ run.status = .running → svc.Answerable (listedParents j) j run) :
    ∃ resumed s', svc.startup s = (.ok resumed, s') := by
  obtain ⟨out, j, hreclaim⟩ := reclaim_returns (s.clock s.ticks) none s.journal
  let runs := (j.runs.filter fun r => decide (r.status ∈ [RunStatus.created, .running])).insertionSort
    fun a b => a.listedBefore b
  obtain ⟨resumed, s', hrecover⟩ := @recoverRuns_returns svc (s.withJournal j) j
    ((runs.filterMap RunRecord.parentRunId).filter (· ≠ "")) runs ⟨rfl, rfl, hopen⟩ (fun run hrun => by
      have hlisted := List.mem_filter.1 ((List.mem_insertionSort _).1 hrun)
      refine ⟨?_, hanswers out j hreclaim run hlisted.1 (by simpa using hlisted.2)⟩
      rw [findRun, Option.isSome_iff_ne_none]
      exact fun hnone => Table.find_none hnone run hlisted.1 rfl)
  refine ⟨resumed, s', ?_⟩
  simp only [startup, Txn.bind_ok, onJournal_ok, listRuns_ok]
  exact ⟨out, _, ⟨j, hreclaim, rfl⟩, _, _, ⟨rfl, rfl⟩, hrecover⟩

theorem resume_returns (hfound : s.journal.findRun run.id = some run) (hopen : s.closed = false)
    (h : svc.Resumes s.journal run) : ∃ s', svc.resume run.id s = (.ok run, s') := by
  have hserves : Serves s.journal (s.withJournal s.journal) := ⟨rfl, rfl, hopen⟩
  obtain ⟨t, hsteps, ht⟩ := @listSteps_returns svc _ _ run.id hserves
    (by rw [hfound]; rfl)
  obtain ⟨task, s', hschedule⟩ := schedule_returns run.id ht.opened
  refine ⟨s', ?_⟩
  simp only [resume, Txn.ite_ok, Txn.pure_ok, Txn.bind_ok, Txn.lift_ok, Txn.fail_ok, and_false,
    false_or, onJournal_ok]
  refine ⟨run, _, ⟨s.journal, requireRun_ok.2 ⟨hfound, rfl⟩, rfl⟩, by simp [h.unfinished], false, t,
    ?_, by simp, true, t, ⟨h.available, rfl⟩, by simp, task, s', hschedule, rfl, rfl⟩
  simp only [hasUncertainOpaqueStep, Txn.bind_ok, Txn.pure_ok]
  refine ⟨_, t, hsteps, ?_, rfl⟩
  rw [Bool.eq_false_iff]
  intro hdoubt
  refine h.settled ?_
  simpa [HasUncertainOpaqueStep, mem_orderedSteps, and_assoc] using hdoubt

/-- The part of `execute` that deals with what is in doubt. -/
def passUncertainty (rt : AgentRuntime) (runId : String) : Agent Bool := do
  let _ ← Agent.journal (.reclaimExpiredLeases none)
  handleApprovalsAndUncertainty rt runId

/-- The journal that startup reads. -/
def reclaimed (s : ServiceState) : Journal :=
  (reclaimExpiredLeases (s.clock s.ticks) none s.journal).2

/-- Each doubt of the run was decided, and an execution gets past all of them. -/
structure Undoubted (svc : AgentService) (rt : AgentRuntime) (s : ServiceState) (run : RunRecord) :
    Prop where
  reached : ∃ calls, s.journal = history svc.memory.sha calls
  found : s.journal.findRun run.id = some run
  unfinished : run.status.isTerminal = false
  decided : ∀ step ∈ s.journal.steps, step.runId = run.id → step.status = .uncertain →
    step.safety = .opaqueSideEffect → Decided run.id step s.journal
  answered : ∀ approval ∈ s.journal.approvals, approval.runId = run.id → approval.status ≠ .pending
  passes : ∃ w, Program.Runs (agentSystem svc.memory.sha run.id) (passUncertainty rt run.id)
    ⟨s.journal, []⟩ (.ok false) w
  available : svc.providersAvailable run = .ok true
  readable : ∀ other ∈ s.journal.runs, ∃ b, svc.providersAvailable other = .ok b
  opened : s.closed = false

def StartupLists (s : ServiceState) (run : RunRecord) : Prop :=
  (run.status = .created ∨ run.status = .running) ∧ ¬ (reclaimed s).HasActiveLease run.id

/-- Startup schedules the run, and resume accepts it. -/
structure TakenUp (svc : AgentService) (s : ServiceState) (run : RunRecord) : Prop where
  startup : StartupLists s run →
    ∃ resumed s', svc.startup s = (.ok resumed, s') ∧ run.id ∈ resumed
  resume : ∃ s', svc.resume run.id s = (.ok run, s')

structure FreeOfDoubt (s : ServiceState) (run : RunRecord) : Prop where
  startup : StartupLists s run →
    run.parentRunId.getD "" = "" ∧ ¬ (reclaimed s).HasUncertainOpaqueStep run.id
  resume : ¬ s.journal.HasUncertainOpaqueStep run.id

theorem top_iff {j : Journal} (hrun : run ∈ j.runs)
    (hlisted : run.status = .created ∨ run.status = .running) :
    (∀ parent ∈ run.parentRunId, parent ∉ listedParents j) ↔ run.parentRunId.getD "" = "" := by
  cases hparent : run.parentRunId with
  | none => simp
  | some parent =>
      have hmem : parent ∈ listedParents j ↔ parent ≠ "" := by
        simp only [listedParents, List.mem_filter, List.mem_filterMap, List.mem_insertionSort]
        constructor
        · exact fun h => by simpa using h.2
        · exact fun h => ⟨⟨run, ⟨hrun, by simpa using hlisted⟩, hparent⟩, by simpa using h⟩
      simp [hmem]

theorem taken_up_iff {rt : AgentRuntime} (h : Undoubted svc rt s run) :
    TakenUp svc s run ↔ FreeOfDoubt s run := by
  obtain ⟨calls, hcalls⟩ := h.reached
  have hkeyed : s.journal.StepsKeyed := hcalls ▸ (history_invariant _ calls).keyed
  have hruns : Table.Keyed RunRecord.id s.journal.runs := hcalls ▸ (history_ledger _ calls).runsKeyed
  have hstartup : ∀ resumed s', svc.startup s = (.ok resumed, s') →
      (run.status = .created ∨ run.status = .running) →
      (run.id ∈ resumed ↔ svc.Recovers (listedParents (reclaimed s)) (reclaimed s) run) ∧
        run ∈ (reclaimed s).runs := by
    intro resumed s' hs hlisted
    obtain ⟨rows, j, hreclaim, -, -, hresumed⟩ := startup_ok hs
    obtain rfl : reclaimed s = j := congrArg Prod.snd hreclaim
    have hsame : (reclaimed s).runs = s.journal.runs :=
      same_of_perform (p := .runs) hkeyed hreclaim (by simp [JournalCall.writes])
    have hmem : run ∈ (reclaimed s).runs := hsame ▸ Table.find_mem h.found
    refine ⟨(hresumed run.id).trans ⟨?_, fun hrecovers => ⟨run, hmem, hlisted, rfl, hrecovers⟩⟩, hmem⟩
    rintro ⟨other, hother, -, hid, hrecovers⟩
    rwa [hruns.eq_of_key (hsame ▸ hother) (hsame ▸ hmem) hid] at hrecovers
  constructor
  · rintro ⟨hscheduled, s', hresumed⟩
    refine ⟨fun hlists => ?_, (resume_ok hresumed).2.settled⟩
    obtain ⟨resumed, s'', hs, hmem⟩ := hscheduled hlists
    obtain ⟨hiff, hrun⟩ := hstartup resumed s'' hs hlists.1
    have hrecovers := hiff.1 hmem
    exact ⟨(top_iff hrun hlists.1).1 hrecovers.top, hrecovers.settled⟩
  · rintro ⟨hstart, hresume⟩
    refine ⟨fun hlists => ?_, resume_returns h.found h.opened ⟨h.unfinished, hresume, h.available⟩⟩
    obtain ⟨resumed, s', hs⟩ := @startup_returns svc _ h.opened fun rows j hreclaim other hother
        _ _ _ _ => by
      have hsame : j.runs = s.journal.runs := same_of_perform (p := .runs) hkeyed hreclaim
        (by simp [JournalCall.writes])
      exact h.readable other (hsame ▸ hother)
    obtain ⟨hiff, hrun⟩ := hstartup resumed s' hs hlists.1
    obtain ⟨htop, hsettled⟩ := hstart hlists
    exact ⟨resumed, s', hs,
      hiff.2 ⟨(top_iff hrun hlists.1).2 htop, hlists.2, hsettled, h.available⟩⟩

end AgentService

namespace AgentService

/-! An effect in doubt whose retry was approved and committed. -/

namespace Retried

def runId : String := "run_55555555555555555555555555555555"

def original : String := "step_d5b85b8aa0684a6b3e45b98dd0508d33a2527d12e87e15b8485663deefc03095"

def replacement : String := "step_89ee1a36600feef8ed1be193f832137eaf4aee3c72f49d1165616289697696c4"

def sha : Sha256 := .ofTable [
  ("\x7b\"arguments\":\x7b\x7d,\"call_index\":0,\"iteration\":0,\"tool_call\":" ++
      "\x7b\"arguments\":\x7b\x7d,\"id\":\"call-1\",\"name\":\"send\"\x7d\x7d",
    "99c579c3e70c8527871f9a28d72c0beb7a967fec3c8c388ce390345f81fb51df"),
  ("\x7b\"input_hash\":\"99c579c3e70c8527871f9a28d72c0beb7a967fec3c8c388ce390345f81fb51df\"," ++
      "\"kind\":\"tool\",\"name\":\"send\",\"safety\":\"opaque_side_effect\",\"sequence\":1\x7d",
    "2a81136ff235fbec64291d687a6d8994e915d9835473dff14c5badf1a48f31dd"),
  ("\x7b\"key\":\"2a81136ff235fbec64291d687a6d8994e915d9835473dff14c5badf1a48f31dd\"," ++
      "\"run_id\":\"run_55555555555555555555555555555555\"\x7d",
    "d5b85b8aa0684a6b3e45b98dd0508d33a2527d12e87e15b8485663deefc03095"),
  ("\x7b\"arguments\":\x7b\x7d,\"call_index\":0,\"iteration\":0,\"recovery_of\":" ++
      "\"step_d5b85b8aa0684a6b3e45b98dd0508d33a2527d12e87e15b8485663deefc03095\",\"tool_call\":" ++
      "\x7b\"arguments\":\x7b\x7d,\"id\":\"call-1\",\"name\":\"send\"\x7d\x7d",
    "f2efc5128a514081a2bf06805fae78ba037841312580762064daa7a50483e978"),
  ("\x7b\"input_hash\":\"f2efc5128a514081a2bf06805fae78ba037841312580762064daa7a50483e978\"," ++
      "\"kind\":\"tool\",\"name\":\"send\",\"safety\":\"opaque_side_effect\",\"sequence\":601\x7d",
    "69dcf94f031fdaedf1afb01022a021afd982e792cdef37e2162cbbc1160fcef9"),
  ("\x7b\"key\":\"69dcf94f031fdaedf1afb01022a021afd982e792cdef37e2162cbbc1160fcef9\"," ++
      "\"run_id\":\"run_55555555555555555555555555555555\"\x7d",
    "89ee1a36600feef8ed1be193f832137eaf4aee3c72f49d1165616289697696c4")]

def clock (t : Timestamp) : Ambient := ⟨t, t, t, "55555555555555555555555555555555"⟩

def sendName : NonBlank := ⟨"send", rfl⟩

def send : ToolEntry := ⟨sendName, .empty, "", .opaqueSideEffect⟩

def sendCall : ToolCall := ⟨⟨"call-1", rfl⟩, sendName, .empty⟩

def runtime : AgentRuntime where
  py := ⟨fun _ => "", fun _ => "", fun _ => .error (typeError "int"), fun _ _ => false⟩
  providerName := "local"
  providerModel := "model"
  tools := ⟨[("send", send)], []⟩
  config :=
    { ModelStep.Listing.runtime.config with
      approvalPolicy := defaultApprovalPolicy ["send"] [] }
  estimatesCost := false
  providerNamed := ModelStep.Listing.runtime.providerNamed

def creator : RunCreator := ⟨runtime, "DefaultApprovalPolicy", ["send"], none, none⟩

def recoveryInput : PyVal :=
  dict [("iteration", .int 0), ("call_index", .int 0), ("tool_call", serializeToolCall sendCall),
    ("arguments", dict []), ("recovery_of", .str original)]

/-- The lease of the effect runs out; the operator approves a retry, which is committed. -/
def calls : List HonestCall := [
  ⟨⟨creator.createRun "go" "single" ⟨none, none, none, none⟩ none, clock 1⟩, trivial⟩,
  ⟨⟨.markRunStatus runId .running, clock 2⟩, trivial⟩,
  ⟨⟨.createStep runId "tool" "send" (toolInput 0 0 sendCall) "opaque_side_effect" (some 1), clock 3⟩,
    trivial⟩,
  ⟨⟨.claimReadyStep "worker" 60 (some runId), clock 4⟩, trivial⟩,
  ⟨⟨.markExecuting original "worker", clock 5⟩, trivial⟩,
  ⟨⟨.reclaimExpiredLeases none, clock 60000004⟩, trivial⟩,
  ⟨⟨.requestApproval runId (some original) (dict []) "uncertain_outcome", clock 60000005⟩, trivial⟩,
  ⟨⟨.decideApproval "approval_55555555555555555555555555555555" .approved "operator" none,
    clock 60000006⟩, trivial⟩,
  ⟨⟨.createStep runId "tool" "send" recoveryInput "opaque_side_effect" (some 601),
    clock 60000007⟩, trivial⟩,
  ⟨⟨.claimReadyStep "worker" 60 (some runId), clock 60000008⟩, trivial⟩,
  ⟨⟨.markExecuting replacement "worker", clock 60000009⟩, trivial⟩,
  ⟨⟨.commitStep replacement "worker" (toolOutput sendCall (.str "sent")) none, clock 60000010⟩,
    trivial⟩]

def model : ProviderConfig := ⟨"model", .int 60⟩

def service : AgentService where
  py := runtime.py
  memory := ⟨sha, ⟨⟨fun _ _ => false, fun _ _ text => text⟩, []⟩⟩
  providers := [("local", model)]
  tools := runtime.tools
  config := ⟨["local"], ⟨false, .defaultProfile, 4000⟩⟩

def state : ServiceState where
  journal := history sha calls
  memory := ⟨[], 0, []⟩
  loop := []
  tasks := []
  taskFailures := []
  closed := false
  clock n := clock (60000011 + n)
  ticks := 0

def answers : Answers :=
  ⟨fun n => clock (60000011 + n), fun _ _ => .ok .null, fun _ _ => .ok .null,
    fun _ => .error (typeError "complete"), []⟩

def isPlain (run : RunRecord) : Bool :=
  run.id = runId && run.status = .running && run.parentRunId = none &&
    (service.providersAvailable run).toOption = some true

def isDecided (approvals : List ApprovalRecord) (step : StepRecord) : Bool :=
  step.status = .committed || step.status = .uncertain && step.safety = .opaqueSideEffect &&
    step.runId = runId && approvals.any fun a => a.runId = runId && a.stepId = some step.id &&
      a.kind = "uncertain_outcome" && a.status = .approved

theorem rows : (history sha calls).runs.length = 1 ∧ (history sha calls).runs.all isPlain = true ∧
    (history sha calls).steps.all (isDecided (history sha calls).approvals) = true ∧
    (history sha calls).steps.any (fun step => step.status = .uncertain) = true ∧
    (history sha calls).approvals.all (fun a => a.status = .approved) = true ∧
    (answered sha answers (passUncertainty runtime runId) ⟨history sha calls, []⟩).1.toOption =
      some false := by
  decide +kernel

theorem undoubted : ∃ run, Undoubted service runtime state run ∧ run.parentRunId = none ∧
    StartupLists state run ∧ state.journal.HasUncertainOpaqueStep run.id := by
  obtain ⟨hone, hplain, hdecided, hdoubt, happroved, hpassed⟩ := rows
  obtain ⟨run, hruns⟩ := List.length_eq_one_iff.1 hone
  simp only [hruns, List.all_cons, List.all_nil, Bool.and_true, isPlain, Bool.and_eq_true,
    decide_eq_true_eq] at hplain
  obtain ⟨⟨⟨hid, hrunning⟩, hparent⟩, havailable⟩ := hplain
  have hok : service.providersAvailable run = .ok true := by
    cases hresult : service.providersAvailable run with
    | ok b => simpa [hresult, Except.toOption] using havailable
    | error e => simp [hresult, Except.toOption] at havailable
  have hsteps : ∀ step ∈ (history sha calls).steps, step.status = .committed ∨
      step.status = .uncertain ∧ step.safety = .opaqueSideEffect ∧ step.runId = run.id ∧
        Decided run.id step (history sha calls) := by
    intro step hstep
    have hrow := List.all_eq_true.1 hdecided step hstep
    simp only [isDecided, Bool.or_eq_true, Bool.and_eq_true, decide_eq_true_eq, List.any_eq_true]
      at hrow
    rw [hid]
    rcases hrow with hrow | ⟨⟨⟨hstatus, hsafety⟩, hrun⟩, a, ha, ⟨⟨harun, hastep⟩, hkind⟩, hastatus⟩
    · exact .inl hrow
    · exact .inr ⟨hstatus, hsafety, hrun, a, ha, harun, hastep, hkind, hastatus⟩
  refine ⟨run, ⟨⟨calls, rfl⟩, ?_, by simp [hrunning, RunStatus.isTerminal], ?_, ?_, ?_, hok, ?_, rfl⟩,
    hparent, ⟨.inr hrunning, ?_⟩, ?_⟩
  · simp [state, findRun, Table.find, hruns]
  · intro step hstep _ hstatus _
    rcases hsteps step hstep with hcommitted | ⟨-, -, -, h⟩
    · simp [hcommitted] at hstatus
    · exact h
  · intro approval happroval _
    have := List.all_eq_true.1 happroved approval happroval
    simp_all
  · rw [← hid] at hpassed
    exact runs_of_answered hpassed
  · intro other hother
    obtain rfl : other = run := by simpa [state, hruns] using hother
    exact ⟨true, hok⟩
  · obtain ⟨rows, j, hreclaim⟩ := reclaim_returns (state.clock state.ticks) none state.journal
    rintro ⟨step, hstep, -, hactive⟩
    rw [reclaimed, hreclaim, reclaim_steps (history_invariant sha calls).keyed hreclaim] at hstep
    obtain ⟨row, hrow, rfl⟩ := List.mem_map.1 hstep
    have hidle : expiredAt ((none : Option Timestamp).getD (state.clock state.ticks).now) row = false := by
      rcases hsteps row hrow with hstatus | ⟨hstatus, -⟩ <;> simp [expiredAt, hstatus]
    rw [if_neg (Bool.eq_false_iff.1 hidle)] at hactive
    rcases hsteps row hrow with hstatus | ⟨hstatus, -⟩ <;> simp [hstatus] at hactive
  · obtain ⟨step, hstep, hstatus⟩ := List.any_eq_true.1 hdoubt
    have hstatus : step.status = .uncertain := of_decide_eq_true hstatus
    rcases hsteps step hstep with hcommitted | ⟨-, hsafety, hrun, -⟩
    · simp [hcommitted] at hstatus
    · exact ⟨step, hstep, hrun, hstatus, hsafety⟩

end Retried

theorem taken_up_iff_retried : ∃ run, Undoubted Retried.service Retried.runtime Retried.state run ∧
    (TakenUp Retried.service Retried.state run ↔ FreeOfDoubt Retried.state run) := by
  obtain ⟨run, h, -⟩ := Retried.undoubted
  exact ⟨run, h, taken_up_iff h⟩

theorem not_every_undoubted_run_taken_up : ¬ ∀ (svc : AgentService) (rt : AgentRuntime)
    (s : ServiceState) (run : RunRecord), Undoubted svc rt s run → TakenUp svc s run := by
  intro h
  obtain ⟨run, hundoubted, -, -, hdoubt⟩ := Retried.undoubted
  obtain ⟨s', hresumed⟩ := (h _ _ _ run hundoubted).resume
  exact (resume_ok hresumed).2.settled hdoubt

end AgentService

end Polaris
