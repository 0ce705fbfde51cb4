import Polaris.Ensemble.Group
import Polaris.Runtime.Yielding
import Polaris.Service.Cancellation

namespace Polaris
open PyJson SortedDict Journal Relation

namespace Journal

/-- A step of the run holds a lease that has not expired. -/
def HoldsLease (now : Timestamp) (runId : String) (j : Journal) : Prop :=
  ∃ step ∈ j.steps, step.runId = runId ∧ (step.status = .leased ∨ step.status = .executing) ∧
    ∃ expiry, step.leaseExpiresAt = some expiry ∧ now < expiry

def IsWorkerOf (run child : RunRecord) : Prop :=
  run.mode = "fan-out" ∧ child.parentRunId = some run.id

/-- A step of the run, or of a worker of the run, holds a lease that has not expired. -/
def IsLeased (now : Timestamp) (j : Journal) (run : RunRecord) : Prop :=
  j.HoldsLease now run.id ∨ ∃ child ∈ j.runs, IsWorkerOf run child ∧ j.HoldsLease now child.id

end Journal

namespace AgentService
variable {svc : AgentService} {s s' : ServiceState} {run : RunRecord}

/-- The time at which startup reclaims. -/
def startTime (s : ServiceState) : Timestamp := (s.clock s.ticks).now

theorem reclaimed_leased (hreached : ∃ calls, s.journal = history svc.memory.sha calls)
    (runId : String) :
    (reclaimed s).HasActiveLease runId ↔ s.journal.HoldsLease (startTime s) runId := by
  obtain ⟨calls, hcalls⟩ := hreached
  have hinvariant : s.journal.Invariant := hcalls ▸ history_invariant _ calls
  obtain ⟨rows, j, hreclaim⟩ := reclaim_returns (s.clock s.ticks) none s.journal
  have hsteps : (reclaimed s).steps = Table.updateWhere (expiredAt (startTime s))
      (StepRecord.reclaim (startTime s)) s.journal.steps := by
    rw [reclaimed, hreclaim]
    exact reclaim_steps hinvariant.keyed hreclaim
  simp only [HasActiveLease, hsteps]
  constructor
  · rintro ⟨step, hstep, hrun, hactive⟩
    obtain ⟨row, hrow, rfl⟩ := List.mem_map.1 hstep
    split at hactive
    · cases hsafety : row.safety <;> simp [StepRecord.reclaim, reclaimTarget, hsafety] at hactive
    · rename_i hlive
      rw [if_neg hlive] at hrun
      obtain ⟨expiry, hexpiry⟩ :=
        Option.isSome_iff_exists.1 ((hinvariant.rows row hrow).shape.expiry.2 hactive)
      refine ⟨row, hrow, hrun, hactive, expiry, hexpiry, ?_⟩
      exact lt_of_not_ge fun hle => hlive (by simpa [expiredAt, hexpiry, hle] using hactive)
  · rintro ⟨row, hrow, hrun, hactive, expiry, hexpiry, hlater⟩
    have hlive : ¬ expiredAt (startTime s) row = true := by
      simp [expiredAt, hexpiry, hlater]
    exact ⟨row, List.mem_map.2 ⟨row, hrow, if_neg hlive⟩, hrun, hactive⟩

theorem startup_spares_iff {resumed : List String}
    (hreached : ∃ calls, s.journal = history svc.memory.sha calls)
    (h : svc.startup s = (.ok resumed, s')) :
    (∀ run ∈ s.journal.runs, run.id ∈ resumed → ¬ IsLeased (startTime s) s.journal run) ↔
      ∀ run ∈ s.journal.runs, (run.status = .created ∨ run.status = .running) →
        svc.Recovers (listedParents (reclaimed s)) (reclaimed s) run →
        ∀ child ∈ s.journal.runs, IsWorkerOf run child → ¬ s.journal.HoldsLease (startTime s) child.id := by
  have hkeyed : s.journal.StepsKeyed := by
    obtain ⟨calls, hcalls⟩ := hreached
    exact hcalls ▸ (history_invariant _ calls).keyed
  have hruns : Table.Keyed RunRecord.id s.journal.runs := by
    obtain ⟨calls, hcalls⟩ := hreached
    exact hcalls ▸ (history_ledger _ calls).runsKeyed
  obtain ⟨rows, j, hreclaim, -, -, hresumed⟩ := startup_ok h
  obtain rfl : reclaimed s = j := congrArg Prod.snd hreclaim
  have hsame : (reclaimed s).runs = s.journal.runs :=
    same_of_perform (p := .runs) hkeyed hreclaim (by simp [JournalCall.writes])
  constructor
  · intro hspares run hrun hlisted hrecovers child hchild hworker hleased
    refine hspares run hrun ((hresumed run.id).2 ⟨run, hsame ▸ hrun, hlisted, rfl, hrecovers⟩) ?_
    exact .inr ⟨child, hchild, hworker, hleased⟩
  · rintro hfree run hrun hmem (hleased | ⟨child, hchild, hworker, hleased⟩)
    all_goals obtain ⟨other, hother, hlisted, hid, hrecovers⟩ := (hresumed run.id).1 hmem
    all_goals obtain rfl := hruns.eq_of_key (hsame ▸ hother) hrun hid
    · exact hrecovers.unleased ((reclaimed_leased hreached other.id).2 hleased)
    · exact hfree other hrun hlisted hrecovers child hchild hworker hleased

open EnsembleResearchEngine in
/-- No run is resumed, and no execution of a run fails, while a lease stands in its way. -/
structure Spared (svc : AgentService) (s : ServiceState)
    (b : EnsembleResearchEngine.Stage × World) : Prop where
  startup : ∀ resumed s', svc.startup s = (.ok resumed, s') → ∀ run ∈ s.journal.runs,
    run.id ∈ resumed → ¬ IsLeased (startTime s) s.journal run
  execution : b.1 ≠ .failed true
  single : ∀ rt runId, Agent.GivesWay rt runId

open EnsembleResearchEngine in
/-- Startup takes up no run whose worker holds a lease, and the execution meets none. -/
structure Unleased (svc : AgentService) (x : Research) (s : ServiceState) (run : RunRecord)
    (a b : EnsembleResearchEngine.Stage × World) : Prop where
  startup : ∀ resumed s', svc.startup s = (.ok resumed, s') → ∀ run ∈ s.journal.runs,
    (run.status = .created ∨ run.status = .running) →
    svc.Recovers (listedParents (reclaimed s)) (reclaimed s) run →
    ∀ child ∈ s.journal.runs, IsWorkerOf run child → ¬ s.journal.HoldsLease (startTime s) child.id
  execution : ∀ c d, ReflTransGen (Step svc.memory.sha x run) a c → Step svc.memory.sha x run c d →
    ReflTransGen (Step svc.memory.sha x run) d b → ¬ MeetsLease svc.memory.sha x run c d

open EnsembleResearchEngine in
theorem spared_iff {x : Research} {w : World} {b : EnsembleResearchEngine.Stage × World}
    (hreached : ∃ calls, s.journal = history svc.memory.sha calls)
    (hrun : ReflTransGen (Step svc.memory.sha x run) (opened svc.py run w.journal, w) b)
    (hover : b.1.IsOver) :
    Spared svc s b ↔ Unleased svc x s run (opened svc.py run w.journal, w) b := by
  have hopened : ¬ (opened svc.py run w.journal).ForLease := by
    unfold opened
    split <;> simp [EnsembleResearchEngine.Stage.ForLease, Progress.isTurnedAway]
  have hblames : b.1 = .failed true ↔ b.1.ForLease := by
    cases hstage : b.1 <;>
      simp_all [EnsembleResearchEngine.Stage.IsOver, EnsembleResearchEngine.Stage.ForLease]
  have hmeets := forLease_iff hrun hopened
  constructor
  · rintro ⟨hstartup, hexecution, -⟩
    refine ⟨fun resumed s' h => (startup_spares_iff hreached h).1 (hstartup resumed s' h), ?_⟩
    intro c d hac hcd hdb hmet
    exact hexecution (hblames.2 (hmeets.2 ⟨c, d, hac, hcd, hmet, hdb⟩))
  · rintro ⟨hstartup, hexecution⟩
    refine ⟨fun resumed s' h => (startup_spares_iff hreached h).2 (hstartup resumed s' h), ?_,
      Agent.givesWay⟩
    intro hfailed
    obtain ⟨c, d, hac, hcd, hmet, hdb⟩ := hmeets.1 (hblames.1 hfailed)
    exact hexecution c d hac hcd hdb hmet

/-! The service restarts while the lease of a worker still runs. -/

namespace Leased
open EnsembleResearchEngine Agent

def parentId : String := Detached.parentId

def childId : String := Detached.childId

def calls : List HonestCall := [
  ⟨⟨.createRun "fan-out" (dict [("question", .str "why")])
    (dict [("max_workers", .int 1), ("workers", .seq .list [Unprovided.reader.toDict]),
      ("verifier", .str "local"), ("synthesizer", .str "local")]) ⟨none, none, none, none⟩ none none,
    Detached.clock 1⟩, trivial⟩,
  ⟨⟨.createRun "single" (dict [("prompt", .str "go")])
    (dict [("provider", .str "local"), ("ensemble_worker", Unprovided.reader.toDict)])
    ⟨none, none, none, none⟩ (some parentId) none,
    ⟨2, 2, 2, "88888888888888888888888888888888"⟩⟩, trivial⟩,
  ⟨⟨.markRunStatus parentId .running, Detached.clock 3⟩, trivial⟩,
  ⟨⟨.markRunStatus childId .running, Detached.clock 4⟩, trivial⟩,
  ⟨⟨.createStep childId "tool" "send" (toolInput 0 0 Retried.sendCall) "reconcilable" (some 1),
    Detached.clock 5⟩, trivial⟩,
  ⟨⟨.claimReadyStep "worker" 60 (some childId), Detached.clock 6⟩, trivial⟩]

def state : ServiceState :=
  { Detached.start with
    journal := history Detached.sha calls
    clock := fun n => Detached.clock (7 + n) }

def research : Research where
  toPhases := Detached.execution.toPhases
  complete _ _ _ := return ()
  writeOutputs _ := return ()

def isParent (run : RunRecord) : Bool :=
  run.id = parentId && run.mode = "fan-out" && run.status = .running &&
    match openGroup Detached.service.py run state.journal with
    | .ok (slots, [m]) => slots = 1 && m.2.id = childId && m.2.status = .running
    | _ => false

def isLeasedStep (step : StepRecord) : Bool :=
  step.runId = childId && step.status = .leased && step.leaseExpiresAt.any (startTime state < ·)

theorem checked : (history Detached.sha calls).runs.any isParent = true ∧
    ((history Detached.sha calls).findRun childId).isSome = true ∧
    (history Detached.sha calls).steps.any isLeasedStep = true := by
  decide +kernel

theorem reached : ∃ calls, state.journal = history Detached.service.memory.sha calls := ⟨calls, rfl⟩

/-- The worker is turned away, and its parent's run is marked as failed. -/
theorem fails : ∃ run ∈ state.journal.runs, run.id = parentId ∧ ∃ w',
    ReflTransGen (Step Detached.service.memory.sha research run)
      (opened Detached.service.py run state.journal, ⟨state.journal, []⟩) (.failed true, w') := by
  obtain ⟨hparent, hfound, hleased⟩ := checked
  obtain ⟨run, hrun, hparent⟩ := List.any_eq_true.1 hparent
  obtain ⟨step, hstep, hleased⟩ := List.any_eq_true.1 hleased
  simp only [isParent, Bool.and_eq_true, decide_eq_true_eq] at hparent
  simp only [isLeasedStep, Bool.and_eq_true, decide_eq_true_eq] at hleased
  obtain ⟨⟨⟨hid, -⟩, -⟩, hopens⟩ := hparent
  obtain ⟨slots, m, hgroup, rfl, hchild, hstatus⟩ : ∃ slots m,
      openGroup Detached.service.py run state.journal = .ok (slots, [m]) ∧ slots = 1 ∧
        m.2.id = childId ∧ m.2.status = .running := by
    split at hopens
    · rename_i slots m hgroup
      simp only [Bool.and_eq_true, decide_eq_true_eq] at hopens
      exact ⟨slots, m, hgroup, hopens.1.1, hopens.1.2, hopens.2⟩
    · simp at hopens
  have hopened : opened Detached.service.py run state.journal = .group 1 [⟨m.1, m.2, .waiting⟩] := by
    simp [opened, hgroup]
  have haway : beginWorker research.toPhases m.1 m.2 state.journal = .turnedAway := by
    refine beginWorker_turnedAway.2 ⟨by simp [hstatus], by simp [hstatus],
      hchild ▸ hfound, step, hstep, hchild ▸ hleased.1.1, .inl hleased.1.2⟩
  let left : Member := ⟨m.1, m.2, .turnedAway⟩
  obtain ⟨r, w', hcloses⟩ : ∃ r w', Program.Runs (uninterrupted Detached.service.memory.sha)
      (closeExecution run.id (groupError [leaseRefusal m.1])) ⟨state.journal, []⟩ r w' :=
    ⟨_, _, Program.Runs.mono (S := agentSystem Detached.service.memory.sha run.id) (fun h => h)
      (@Agent.runs_answered _ _ Detached.others _ _ _)⟩
  refine ⟨run, hrun, hid, w', ?_⟩
  rw [hopened]
  refine .head (b := (.group 1 [left], ⟨state.journal, []⟩)) ?_
    (.head (b := (.raised true (groupError [leaseRefusal m.1]), ⟨state.journal, []⟩)) ?_
      (.single (.closes hcloses)))
  · have hbegins := @Step.begins Detached.service.memory.sha research run 1 [⟨m.1, m.2, .waiting⟩] 0
      ⟨m.1, m.2, .waiting⟩ ⟨state.journal, []⟩ rfl rfl (by simp [Progress.holdsSlot])
    rw [haway] at hbegins
    exact hbegins
  · exact @Step.gaveUp Detached.service.memory.sha research run 1 [left] ⟨state.journal, []⟩
      (by simp [left, Progress.isOpen]) ⟨left, by simp, rfl⟩

end Leased

open EnsembleResearchEngine Leased in
theorem spared_iff_leased : ∃ run b, ReflTransGen (Step Detached.service.memory.sha research run)
    (opened Detached.service.py run state.journal, ⟨state.journal, []⟩) b ∧
      (Spared Detached.service state b ↔ Unleased Detached.service research state run
        (opened Detached.service.py run state.journal, ⟨state.journal, []⟩) b) := by
  obtain ⟨run, -, -, w', hfails⟩ := fails
  exact ⟨run, _, hfails, spared_iff (w := ⟨state.journal, []⟩) reached hfails trivial⟩

open EnsembleResearchEngine Leased in
theorem not_every_leased_run_spared : ¬ ∀ (svc : AgentService) (x : Research) (s : ServiceState)
    (run : RunRecord) (w : World) (b : EnsembleResearchEngine.Stage × World),
    (∃ calls, s.journal = history svc.memory.sha calls) →
    ReflTransGen (Step svc.memory.sha x run) (opened svc.py run w.journal, w) b → b.1.IsOver →
    Spared svc s b := by
  intro h
  obtain ⟨run, -, -, w', hfails⟩ := fails
  exact (h _ _ _ _ ⟨state.journal, []⟩ _ reached hfails trivial).execution rfl

end AgentService

end Polaris
