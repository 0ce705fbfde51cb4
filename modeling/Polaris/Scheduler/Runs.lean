import Polaris.Scheduler.Calls

namespace Polaris
open PyJson SchedulerStore Txn

namespace SchedulerStore
variable {store : SchedulerStore} {a : Draws} {t t' : SchedulerTables} {β γ : Type}
  {c : SchedulerCall γ} {p : JobRun → Bool} {f : JobRun → JobRun}

theorem RunsWrite.elim {x : Op β} (hkeyed : RunsKeyed t) (h : CommitsAt (RunsWrite c t) x t) :
    RunsWrite c t (x t).2 := by
  rcases h with hsame | hwritten
  · exact runsWrite_of_eq hkeyed (congrArg SchedulerTables.runs hsame)
  · exact hwritten

/-- A transaction, and what its operation answers after it. -/
theorem commitsAt_then {α : Type} {W : SchedulerTables → Prop} {x : Op α} {k : α → Op β}
    (hk : ∀ v, ReadOnly (k v)) (h : ∀ v t', x t = (.ok v, t') → W t') :
    CommitsAt W (atomically x >>= k) t := (commitsAt_atomically h).bind_readOnly hk

theorem updateJobs_runs (p : Job → Bool) (f : Job → Job) (t : SchedulerTables) :
    (updateJobs p f t).runs = t.runs := rfl

theorem updateOneJob_keeps {p : Job → Bool} {f : Job → Job} {e : PyError} :
    Keeps SchedulerTables.runs (updateOneJob p f e) :=
  (read_readOnly _).keeps.bind fun _ =>
    keeps_write_bind (updateJobs_runs p f) fun _ => (require_readOnly _ _).keeps

theorem runsWrite_of_keeps {x : Op β} (hkeyed : RunsKeyed t)
    (h : Keeps SchedulerTables.runs x) : RunsWrite c t (x t).2 := runsWrite_of_eq hkeyed (h t)

/-! Jobs. -/

theorem createJob_keeps {schedule : ScheduleSpec} {payload : JobPayload} {options : JobOptions}
    {now : Option Timestamp} :
    Keeps SchedulerTables.runs (createJob store schedule payload options now a) := by
  refine (lift_readOnly _).keeps.bind fun _ => (lift_readOnly _).keeps.bind fun _ =>
    (lift_readOnly _).keeps.bind fun _ => (lift_readOnly _).keeps.bind fun _ =>
      (require_readOnly _ _).keeps.bind fun _ => Keeps.bind (Keeps.atomically ?_) fun _ =>
        (getJob_readOnly _).keeps
  exact (read_readOnly _).keeps.bind fun _ => (require_readOnly _ _).keeps.bind fun _ =>
    keeps_write fun _ => rfl

theorem updateJobRead_readOnly {jobId : String} {changes : JobChanges} {now : Option Timestamp} :
    ReadOnly (updateJobRead store jobId changes now a) := by
  exact (lift_readOnly _).bind fun _ => (getJob_readOnly _).bind fun _ =>
    (require_readOnly _ _).bind fun _ => (lift_readOnly _).bind fun _ =>
      (lift_readOnly _).bind fun _ => (lift_readOnly _).bind fun _ => pure_readOnly _

theorem updateJobWrite_keeps {jobId : String} {columns : JobColumns} :
    Keeps SchedulerTables.runs (updateJobWrite jobId columns) :=
  updateOneJob_keeps.atomically

theorem setJobState_keeps {jobId : String} {state fromState : JobState} {now : Option Timestamp} :
    Keeps SchedulerTables.runs (setJobState jobId state fromState now a) := by
  refine Keeps.bind (Keeps.atomically ?_) fun _ => (getJob_readOnly _).keeps
  exact (read_readOnly _).keeps.bind fun _ => (read_readOnly _).keeps.bind fun _ =>
    keeps_write_bind (updateJobs_runs _ _) fun _ => (require_readOnly _ _).keeps.bind fun _ =>
      (require_readOnly _ _).keeps

theorem resumeJob_keeps {jobId : String} {now : Option Timestamp} :
    Keeps SchedulerTables.runs (resumeJob store jobId now a) := by
  refine Keeps.bind (Keeps.atomically ?_) fun _ => (getJob_readOnly _).keeps
  exact (getJob_readOnly _).keeps.bind fun _ => (require_readOnly _ _).keeps.bind fun _ =>
    (lift_readOnly _).keeps.bind fun _ => updateOneJob_keeps

/-! Claims. -/

/-- The run under an id is as it was, or it is new. -/
def Claimed (id : String) (r r' : Option JobRun) : Prop :=
  r' = r ∨ r = none ∧ ∃ job owner scheduledFor expires now,
    r' = some (claimedRun job id owner scheduledFor expires now)

theorem Claimed.trans {id : String} {r r' r'' : Option JobRun} (h : Claimed id r r')
    (h' : Claimed id r' r'') : Claimed id r r'' := by
  rcases h with rfl | ⟨hnone, hnew⟩
  · exact h'
  · rcases h' with rfl | ⟨hnone', -⟩
    · exact .inr ⟨hnone, hnew⟩
    · obtain ⟨job, owner, scheduledFor, expires, now, hrun⟩ := hnew
      simp [hnone'] at hrun

theorem Claimed.written {id : String} {r r' : Option JobRun} (h : Claimed id r r') :
    Written c id r r' := by
  rcases h with rfl | ⟨rfl, job, owner, scheduledFor, expires, now, rfl⟩
  · exact .same _
  · exact .claimed

/-- Runs are only added. -/
def RunsClaimed (t t' : SchedulerTables) : Prop :=
  Table.Moves JobRun.id Claimed t.runs t'.runs ∧ RunsKeyed t'

theorem RunsClaimed.refl (h : RunsKeyed t) : RunsClaimed t t := ⟨.refl fun _ _ => .inl rfl, h⟩

theorem RunsClaimed.trans {t'' : SchedulerTables} (h : RunsClaimed t t') (h' : RunsClaimed t' t'') :
    RunsClaimed t t'' :=
  ⟨h.1.trans h'.1 fun _ _ _ _ hfirst hrest => hfirst.trans hrest, h'.2⟩

theorem RunsClaimed.written (h : RunsClaimed t t') : RunsWrite c t t' :=
  ⟨h.1.mono fun _ _ _ hclaimed => hclaimed.written, h.2⟩

theorem insertRun_claimed {c : Claim} {job : Job} {scheduledFor expires : Timestamp}
    (h : RunsKeyed t) : RunsClaimed t (insertRun
      (claimedRun job (c.runId job.id scheduledFor) c.owner scheduledFor expires c.now) t) := by
  unfold insertRun
  split
  · exact .refl h
  · rename_i hheld
    have hfree : ∀ other ∈ t.runs, other.id ≠ c.runId job.id scheduledFor ∧
        (other.jobId = job.id → other.scheduledFor ≠ scheduledFor) := by
      intro other hother
      have hother := fun hsame => hheld (List.any_eq_true.2 ⟨other, hother, hsame⟩)
      simp only [Bool.or_eq_true, Bool.and_eq_true, decide_eq_true_eq] at hother
      exact ⟨fun hid => hother (.inl hid), fun hjob htime => hother (.inr ⟨hjob, htime⟩)⟩
    refine ⟨Table.moves_concat (fun _ _ => .inl rfl) ?_ (.inr ⟨rfl, job, c.owner, scheduledFor,
      expires, c.now, rfl⟩), h.ids.append ?_, h.occurrences.append ?_⟩
    · rw [Table.find, List.find?_eq_none]
      intro other hother hsame
      exact (hfree other hother).1 (of_decide_eq_true hsame)
    · rw [Table.find, List.find?_eq_none]
      intro other hother hsame
      exact (hfree other hother).1 (of_decide_eq_true hsame)
    · rw [Table.find, List.find?_eq_none]
      intro other hother hsame
      have hsame := Prod.mk.inj (of_decide_eq_true hsame)
      exact (hfree other hother).2 hsame.1 hsame.2

theorem claimOccurrences_claimed {c : Claim} {job : Job} {occurrences : List Timestamp}
    {ids ids' : List String} (hkeyed : RunsKeyed t)
    (h : claimOccurrences c job occurrences ids t = (.ok ids', t')) :
    RunsClaimed t t' ∧ t'.jobs = t.jobs := by
  induction occurrences generalizing t ids with
  | nil =>
      obtain ⟨-, rfl⟩ := pure_ok.1 h
      exact ⟨.refl hkeyed, rfl⟩
  | cons scheduledFor occurrences ih =>
      simp only [claimOccurrences, bind_ok, lift_ok, read_ok, write_ok] at h
      obtain ⟨expires, _, ⟨-, rfl⟩, held, _, ⟨-, rfl⟩, _, _, rfl, h⟩ := h
      have hinserted := @insertRun_claimed _ c job scheduledFor expires hkeyed
      obtain ⟨hclaimed, hjobs⟩ := ih hinserted.2 h
      refine ⟨hinserted.trans hclaimed, hjobs.trans ?_⟩
      unfold insertRun
      split <;> rfl

theorem claimJob_claimed {c : Claim} {job : Job} {ids ids' : List String} (hkeyed : RunsKeyed t)
    (h : claimJob store c job ids t = (.ok ids', t')) : RunsClaimed t t' := by
  simp only [claimJob, bind_ok, lift_ok, write_ok, pure_ok] at h
  obtain ⟨occurrences, _, ⟨-, rfl⟩, _, t₁, hclaim, next, _, ⟨-, rfl⟩, _, _, rfl, -, rfl⟩ := h
  have hclaimed := (claimOccurrences_claimed hkeyed hclaim).1
  exact ⟨hclaimed.1, hclaimed.2.ids, hclaimed.2.occurrences⟩

theorem claimJobs_claimed {c : Claim} {jobs : List Job} {ids ids' : List String}
    (hkeyed : RunsKeyed t) (h : claimJobs store c jobs ids t = (.ok ids', t')) :
    RunsClaimed t t' := by
  induction jobs generalizing t ids with
  | nil =>
      obtain ⟨-, rfl⟩ := pure_ok.1 h
      exact .refl hkeyed
  | cons job jobs ih =>
      rw [claimJobs] at h
      split at h
      · obtain ⟨-, rfl⟩ := pure_ok.1 h
        exact .refl hkeyed
      · obtain ⟨more, t₁, hjob, h⟩ := bind_ok.1 h
        have hclaimed := claimJob_claimed hkeyed hjob
        exact hclaimed.trans (ih hclaimed.2 h)

theorem claimDueRuns_writes {now : Timestamp} {owner : String} {lease : LeaseTime} {batch : ℤ}
    {startupCap jitterSeed : Option ℤ} (hkeyed : RunsKeyed t) : CommitsAt (RunsWrite c t)
      (claimDueRuns store now owner lease batch startupCap jitterSeed a) t := by
  refine (lift_readOnly _).commitsAt_bind fun _ _ => (require_readOnly _ _).commitsAt_bind
    fun _ _ => (require_readOnly _ _).commitsAt_bind fun _ _ =>
      (require_readOnly _ _).commitsAt_bind fun _ _ => (require_readOnly _ _).commitsAt_bind
        fun _ _ => commitsAt_then getRuns_readOnly fun ids t' h => ?_
  simp only [bind_ok, read_ok] at h
  obtain ⟨due, _, ⟨-, rfl⟩, h⟩ := h
  exact (claimJobs_claimed hkeyed h).written

/-! Runs. -/

theorem isActive_iff {status : JobRunStatus} :
    status.isActive = true ↔ status = .claimed ∨ status = .running := by
  cases status <;> simp [JobRunStatus.isActive]

theorem cancelJob_writes {jobId : String} {now : Option Timestamp} (hkeyed : RunsKeyed t) :
    CommitsAt (RunsWrite (.cancelJob jobId now) t) (cancelJob jobId now a) t := by
  refine commitsAt_then (fun _ => getJob_readOnly _) fun u t' h => ?_
  obtain ⟨current, _, hget, h⟩ := bind_ok.1 h
  obtain ⟨-, rfl⟩ := getJob_ok hget
  rcases ite_ok.1 h with ⟨-, h⟩ | ⟨-, h⟩
  · obtain ⟨-, rfl⟩ := pure_ok.1 h
    exact runsWrite_of_eq hkeyed rfl
  · -- the jobs may change first; the two updates of the runs meet different ones
    have hrest : ∀ {t₁ : SchedulerTables}, t₁.runs = t.runs →
        RunsWrite (.cancelJob jobId now) t (updateRuns (fun run => run.jobId = jobId && run.status = .succeeded &&
          run.deliveryStatus = .pending) (JobRun.suppress (now.getD a.clock))
          (updateRuns (fun run => run.jobId = jobId && run.status.isActive)
            (JobRun.requestCancel (now.getD a.clock)) t₁)) := by
      intro t₁ hruns
      have hkeyed₁ : RunsKeyed t₁ := ⟨hruns ▸ hkeyed.ids, hruns ▸ hkeyed.occurrences⟩
      have hcancel : KeepsOccurrence (JobRun.requestCancel (now.getD a.clock)) := fun _ =>
        ⟨rfl, rfl, rfl⟩
      have hsuppress : KeepsOccurrence (JobRun.suppress (now.getD a.clock)) := fun _ =>
        ⟨rfl, rfl, rfl⟩
      refine ⟨fun runId => ?_, (hkeyed₁.update hcancel).update hsuppress⟩
      change Written (.cancelJob jobId now) runId (Table.find JobRun.id runId t.runs) (SchedulerTables.findRun _ runId)
      rw [← hruns, find_updateRuns hsuppress, find_updateRuns hcancel]
      change Written (.cancelJob jobId now) runId (t₁.findRun runId) _
      cases hrun : t₁.findRun runId with
      | none => exact .same none
      | some run =>
          obtain rfl : run.id = runId := Table.find_key hrun
          simp only [Option.map_some]
          by_cases hactive : run.jobId = jobId ∧ run.status.isActive = true
          · have hcancel : Written (.cancelJob jobId now) run.id (some run)
                (some (run.requestCancel (now.getD a.clock))) :=
              .wrote (hactive.1 ▸ .cancelRequested hactive.2)
            rcases isActive_iff.1 hactive.2 with hstatus | hstatus <;>
              simpa [hactive.1, JobRun.requestCancel, JobRunStatus.isActive, hstatus] using hcancel
          · have hfirst : (run.jobId = jobId && run.status.isActive) = false := by
              simpa using hactive
            rw [hfirst]
            by_cases hpending : run.status = .succeeded ∧ run.deliveryStatus = .pending
            · by_cases hjob : run.jobId = jobId
              · have hsuppress : Written (.cancelJob jobId now) run.id (some run)
                    (some (run.suppress (now.getD a.clock))) :=
                  .wrote (hjob ▸ .suppressed hpending.1 hpending.2)
                simpa [hjob, hpending] using hsuppress
              · simpa [hjob] using Written.same (some run)
            · have hsecond : (run.jobId = jobId && run.status = .succeeded &&
                  run.deliveryStatus = .pending) = false := by
                simp only [Bool.and_assoc, Bool.and_eq_false_iff, decide_eq_false_iff_not]
                tauto
              simpa [hsecond] using Written.same (some run)
    have hjobs : ∃ t₁ : SchedulerTables, t₁.runs = t.runs ∧ (do
        write (updateRuns (fun run => run.jobId = jobId && run.status.isActive)
          (JobRun.requestCancel (now.getD a.clock)))
        write (updateRuns (fun run => run.jobId = jobId && run.status = .succeeded &&
          run.deliveryStatus = .pending) (JobRun.suppress (now.getD a.clock))) : Op Unit) t₁ =
            (.ok u, t') := by
      rcases ite_ok.1 h with ⟨-, h⟩ | ⟨-, h⟩
      · exact ⟨t, rfl, h⟩
      · obtain ⟨_, t₁, hone, h⟩ := bind_ok.1 h
        have hkeeps := @updateOneJob_keeps (fun job => job.id = jobId &&
          (job.state = .scheduled || job.state = .paused)) (Job.setState .cancelled
            (now.getD a.clock)) (conflictError "job state changed while cancellation was requested") t
        rw [hone] at hkeeps
        exact ⟨t₁, hkeeps, h⟩
    obtain ⟨t₁, hruns, h⟩ := hjobs
    simp only [bind_ok, write_ok] at h
    obtain ⟨_, _, rfl, rfl⟩ := h
    exact hrest hruns

theorem markRunning_writes {runId owner : String} {now : Option Timestamp}
    {polarisRunId : Option String} (hkeyed : RunsKeyed t) :
    CommitsAt (RunsWrite (.markRunning runId owner now polarisRunId) t)
      (markRunning runId owner now polarisRunId a) t := by
  refine commitsAt_then (fun _ => getRun_readOnly _) fun u t' h => ?_
  obtain ⟨row, _, hget, h⟩ := bind_ok.1 h
  obtain ⟨-, rfl⟩ := getRun_ok hget
  obtain ⟨_, _, hclaimed, h⟩ := bind_ok.1 h
  obtain ⟨-, rfl⟩ := require_ok.1 hclaimed
  obtain ⟨_, _, hlease, h⟩ := bind_ok.1 h
  obtain ⟨-, rfl⟩ := requireActiveLease_ok hlease
  have hclaimed : ∀ {r : JobRun}, (r.id = runId && r.status = .claimed && r.owner = some owner) =
      true → r.id = runId ∧ r.status = .claimed := by
    intro r hr
    simp only [Bool.and_eq_true, decide_eq_true_eq] at hr
    exact hr.1
  rcases ite_ok.1 h with ⟨-, h⟩ | ⟨-, h⟩
  · obtain rfl := write_ok.1 h
    refine runsWrite_update hkeyed (fun _ => ⟨rfl, rfl, rfl⟩) fun _ _ hp => ?_
    obtain ⟨rfl, hstatus⟩ := hclaimed hp
    exact .startCancelled hstatus
  · obtain ⟨-, rfl⟩ := updateOneRun_ok h
    refine runsWrite_update hkeyed (fun _ => ⟨rfl, rfl, rfl⟩) fun _ _ hp => ?_
    obtain ⟨rfl, hstatus⟩ := hclaimed hp
    exact .started hstatus

theorem setPolarisRunId_writes {runId owner polarisRunId : String} {now : Option Timestamp}
    (hkeyed : RunsKeyed t) :
    CommitsAt (RunsWrite (.setPolarisRunId runId owner polarisRunId now) t)
      (setPolarisRunId runId owner polarisRunId now a) t := by
  refine (require_readOnly _ _).commitsAt_bind fun _ _ =>
    commitsAt_then (fun _ => getRun_readOnly _) fun u t' h => ?_
  obtain ⟨-, rfl⟩ := updateOneRun_ok h
  refine runsWrite_update hkeyed (fun _ => ⟨rfl, rfl, rfl⟩) fun r _ hp => ?_
  simp only [Bool.and_eq_true, decide_eq_true_eq] at hp
  obtain ⟨⟨rfl, -⟩, hactive⟩ := hp
  exact .attached hactive

theorem heartbeatRead_readOnly {runId owner : String} {lease : LeaseTime}
    {now : Option Timestamp} : ReadOnly (heartbeatRead runId owner lease now a) :=
  (lift_readOnly _).bind fun _ => (require_readOnly _ _).bind fun _ => (getRun_readOnly _).bind
    fun _ => (require_readOnly _ _).bind fun _ => (requireActiveLease_readOnly _ _ _).bind fun _ =>
      lift_readOnly _

theorem heartbeatWrite_writes {runId owner : String} {lease : LeaseTime} {now : Option Timestamp}
    {expires stamp : Timestamp} (hkeyed : RunsKeyed t) :
    CommitsAt (RunsWrite (.heartbeat runId owner lease now) t) (heartbeatWrite runId owner expires stamp) t := by
  refine commitsAt_write (runsWrite_update hkeyed (fun _ => ⟨rfl, rfl, rfl⟩) fun r _ hp => ?_)
  simp only [Bool.and_eq_true, decide_eq_true_eq] at hp
  obtain ⟨rfl, howner⟩ := hp
  exact .extended howner

theorem requestCancelRead_readOnly (runId : String) : ReadOnly (requestCancelRead runId) :=
  (getRun_readOnly _).bind fun _ => pure_readOnly _

theorem requestCancelWrite_writes {runId : String} {now : Option Timestamp} {stamp : Timestamp}
    (hkeyed : RunsKeyed t) :
    CommitsAt (RunsWrite (.requestCancel runId now) t) (requestCancelWrite runId stamp) t :=
  commitsAt_write (runsWrite_update hkeyed (fun _ => ⟨rfl, rfl, rfl⟩) fun _ _ hp =>
    of_decide_eq_true hp ▸ .cancelAsked)

theorem requestCancel_writes {runId : String} {now : Option Timestamp} (hkeyed : RunsKeyed t) :
    CommitsAt (RunsWrite (.requestCancel runId now) t) (requestCancel runId now a) t := by
  refine (requestCancelRead_readOnly runId).commitsAt_bind fun goesOn _ => ?_
  cases goesOn with
  | false => exact ((pure_readOnly ()).bind fun _ => getRun_readOnly runId).commitsAt
  | true => exact (requestCancelWrite_writes hkeyed).bind_readOnly fun _ => getRun_readOnly runId

theorem cancel_writes {runId : String} {owner : Option String} {now : Option Timestamp}
    (hkeyed : RunsKeyed t) : CommitsAt (RunsWrite (.cancel runId owner now) t)
      (SchedulerStore.cancel runId owner now a) t := by
  refine commitsAt_then (fun _ => getRun_readOnly _) fun u t' h => ?_
  obtain ⟨row, _, hget, h⟩ := bind_ok.1 h
  obtain ⟨-, rfl⟩ := getRun_ok hget
  rcases ite_ok.1 h with ⟨-, h⟩ | ⟨-, h⟩
  · obtain ⟨_, _, howner, h⟩ := bind_ok.1 h
    obtain ⟨-, rfl⟩ := require_ok.1 howner
    obtain ⟨-, rfl⟩ := updateOneRun_ok h
    refine runsWrite_update hkeyed (fun _ => ⟨rfl, rfl, rfl⟩) fun r _ hp => ?_
    simp only [Bool.and_eq_true, decide_eq_true_eq] at hp
    obtain ⟨rfl, hactive⟩ := hp
    exact .cancelled hactive
  · obtain ⟨-, rfl⟩ := pure_ok.1 h
    exact runsWrite_of_eq hkeyed rfl

theorem complete_writes {runId owner : String} {terminal : JobRunStatus}
    {error polarisRunId : Option String} {now : Option Timestamp} (hkeyed : RunsKeyed t) :
    CommitsAt (RunsWrite (.complete runId owner terminal error polarisRunId now) t)
      (complete runId owner terminal error polarisRunId now a) t := by
  refine (require_readOnly _ _).commitsAt_bind fun _ hterminal =>
    commitsAt_then (fun _ => getRun_readOnly _) fun u t' h => ?_
  obtain ⟨hterminal, -⟩ := require_ok.1 hterminal
  simp only [Bool.or_eq_true, decide_eq_true_eq, or_assoc] at hterminal
  obtain ⟨row, _, hget, h⟩ := bind_ok.1 h
  obtain ⟨hrow, rfl⟩ := getRun_ok hget
  obtain ⟨_, _, hguard, h⟩ := bind_ok.1 h
  obtain ⟨hactive, rfl⟩ := require_ok.1 hguard
  obtain ⟨_, _, hlease, h⟩ := bind_ok.1 h
  obtain ⟨-, rfl⟩ := requireActiveLease_ok hlease
  obtain rfl := write_ok.1 h
  refine runsWrite_update hkeyed (fun _ => ⟨rfl, rfl, rfl⟩) fun r hr hp => ?_
  -- the run that is written is the one that was read
  simp only [Bool.and_eq_true, decide_eq_true_eq] at hp
  obtain ⟨rfl, -⟩ := hp
  have hfound := hkeyed.find hr
  rw [hrow] at hfound
  obtain rfl := Option.some.inj hfound
  exact .completed hactive (by simpa using hterminal)

theorem recordDelivery_writes {runId : String} {status : DeliveryStatus} {error : Option String}
    {now : Option Timestamp} (hkeyed : RunsKeyed t) :
    CommitsAt (RunsWrite (.recordDelivery runId status error now) t)
      (recordDelivery runId status error now a) t := by
  refine (require_readOnly _ _).commitsAt_bind fun _ hterminal =>
    commitsAt_then (fun _ => getRun_readOnly _) fun u t' h => ?_
  obtain ⟨hterminal, -⟩ := require_ok.1 hterminal
  simp only [Bool.or_eq_true, decide_eq_true_eq, or_assoc] at hterminal
  obtain ⟨row, _, hget, h⟩ := bind_ok.1 h
  obtain ⟨-, rfl⟩ := getRun_ok hget
  obtain ⟨_, _, hsucceeded, h⟩ := bind_ok.1 h
  obtain ⟨-, rfl⟩ := require_ok.1 hsucceeded
  rcases ite_ok.1 h with ⟨-, h⟩ | ⟨-, h⟩
  · obtain rfl := write_ok.1 h
    refine runsWrite_update hkeyed (fun _ => ⟨rfl, rfl, rfl⟩) fun r _ hp => ?_
    simp only [Bool.and_eq_true, decide_eq_true_eq] at hp
    obtain ⟨⟨rfl, hsucceeded⟩, hpending⟩ := hp
    exact .delivered hsucceeded hpending (by simpa using hterminal)
  · obtain ⟨-, rfl⟩ := pure_ok.1 h
    exact runsWrite_of_eq hkeyed rfl

theorem recoverStaleRuns_writes {now : Option Timestamp} (hkeyed : RunsKeyed t) :
    CommitsAt (RunsWrite (.recoverStaleRuns now) t) (recoverStaleRuns now a) t := by
  refine commitsAt_then getRuns_readOnly fun ids t' h => ?_
  simp only [bind_ok, read_ok, write_ok, pure_ok] at h
  obtain ⟨_, _, ⟨rfl, rfl⟩, _, _, rfl, -, rfl⟩ := h
  refine runsWrite_update hkeyed (fun _ => ⟨rfl, rfl, rfl⟩) fun r hr hp => .interrupted ?_
  simp only [decide_eq_true_eq, List.mem_map, List.mem_insertionSort, List.mem_filter] at hp
  obtain ⟨stale, ⟨hstale, hexpired⟩, hid⟩ := hp
  obtain rfl := hkeyed.ids.eq_of_key hstale hr hid
  simp only [JobRun.isStale, Bool.and_eq_true] at hexpired
  exact hexpired.1

theorem retry_keeps {owner : String} {expires stamp : Timestamp} :
    KeepsOccurrence (JobRun.retry owner expires stamp) := fun _ => ⟨rfl, rfl, rfl⟩

/-- A retry that answers has claimed the run again; one that fails has changed nothing. -/
theorem createRetry_cases {runId owner : String} {lease : LeaseTime} {approved : Bool}
    {now : Option Timestamp} {r : Except PyError JobRun}
    (h : createRetry runId owner lease approved now a t = (r, t')) :
    (∃ e, r = .error e ∧ t' = t) ∨ ∃ run run' expires, r = .ok run' ∧
      t.findRun runId = some run ∧ run.isRetryable = true ∧
      run' = run.retry owner expires (now.getD a.clock) ∧
      t' = updateRuns (fun run => run.id = runId && run.isRetryable)
        (JobRun.retry owner expires (now.getD a.clock)) t ∧
      t'.findRun runId = some run' := by
  cases r with
  | error e =>
      refine .inl ⟨e, rfl, ?_⟩
      rcases bind_error.1 h with h | ⟨_, _, hok, h⟩
      · exact (require_readOnly _ _).state h
      obtain ⟨-, rfl⟩ := require_ok.1 hok
      rcases bind_error.1 h with h | ⟨_, _, hok, h⟩
      · exact (lift_readOnly _).state h
      obtain ⟨-, rfl⟩ := lift_ok.1 hok
      rcases bind_error.1 h with h | ⟨_, _, hok, h⟩
      · exact (require_readOnly _ _).state h
      obtain ⟨-, rfl⟩ := require_ok.1 hok
      rcases bind_error.1 h with h | ⟨_, t₁, hok, h⟩
      · exact (atomically_atomic _).state h
      -- the run that has been claimed is found again
      simp only [atomically_ok, bind_ok, require_ok, lift_ok] at hok
      obtain ⟨row, _, hget, _, _, ⟨-, rfl⟩, expires, _, ⟨-, rfl⟩, hone⟩ := hok
      obtain ⟨hrow, rfl⟩ := getRun_ok hget
      obtain ⟨-, rfl⟩ := updateOneRun_ok hone
      simp only [getRun, bind_error, read_ok] at h
      rcases h with h | ⟨found, _, ⟨rfl, rfl⟩, h⟩
      · cases (Prod.mk.inj h).1
      · rw [find_updateRuns retry_keeps, hrow] at h
        simp only [Option.map_some, getOr, Option.elim_some] at h
        cases (Prod.mk.inj h).1
  | ok run' =>
      simp only [createRetry, bind_ok, require_ok, lift_ok, atomically_ok] at h
      obtain ⟨_, _, ⟨-, rfl⟩, leaseDelta, _, ⟨-, rfl⟩, _, _, ⟨-, rfl⟩, _, t₁,
        ⟨row, _, hget, _, _, ⟨hretryable, rfl⟩, expires, _, ⟨-, rfl⟩, hone⟩, hanswer⟩ := h
      obtain ⟨hrow, rfl⟩ := getRun_ok hget
      obtain ⟨-, rfl⟩ := updateOneRun_ok hone
      obtain ⟨hfound, rfl⟩ := getRun_ok hanswer
      refine .inr ⟨row, run', expires, rfl, hrow, hretryable, ?_, rfl, hfound⟩
      obtain rfl : row.id = runId := Table.find_key hrow
      have hmet : (decide (row.id = row.id) && row.isRetryable) = true := by simp [hretryable]
      rw [find_updateRuns retry_keeps, hrow, Option.map_some, if_pos hmet] at hfound
      exact (Option.some.inj hfound).symm

end SchedulerStore

def SchedulerCall.isRetry {β : Type} : SchedulerCall β → Bool
  | .createRetry .. => true
  | _ => false

namespace SchedulerCall
variable {store : SchedulerStore} {a : Draws} {t t' : SchedulerTables} {β : Type}
  {r : Except PyError β}

/-- What a call writes to the runs, unless it is a retry. -/
theorem perform_writes {c : SchedulerCall β} (hkeyed : RunsKeyed t) (hc : c.isRetry = false)
    (h : c.perform store a t = (r, t')) : RunsWrite c t t' := by
  have hstate : RunsWrite c t (c.perform store a t).2 := by
    cases c with
    | createJob => exact runsWrite_of_keeps hkeyed createJob_keeps
    | updateJob =>
        exact runsWrite_of_keeps hkeyed (updateJobRead_readOnly.keeps.bind fun _ =>
          updateJobWrite_keeps.bind fun _ => (getJob_readOnly _).keeps)
    | pauseJob => exact runsWrite_of_keeps hkeyed setJobState_keeps
    | resumeJob => exact runsWrite_of_keeps hkeyed resumeJob_keeps
    | cancelJob => exact RunsWrite.elim hkeyed (cancelJob_writes hkeyed)
    | claimDueRuns => exact RunsWrite.elim hkeyed (claimDueRuns_writes hkeyed)
    | markRunning => exact RunsWrite.elim hkeyed (markRunning_writes hkeyed)
    | setPolarisRunId => exact RunsWrite.elim hkeyed (setPolarisRunId_writes hkeyed)
    | heartbeat =>
        exact RunsWrite.elim hkeyed (heartbeatRead_readOnly.commitsAt_bind fun _ _ =>
          (heartbeatWrite_writes hkeyed).bind_readOnly fun _ => getRun_readOnly _)
    | requestCancel => exact RunsWrite.elim hkeyed (requestCancel_writes hkeyed)
    | cancel => exact RunsWrite.elim hkeyed (cancel_writes hkeyed)
    | complete => exact RunsWrite.elim hkeyed (complete_writes hkeyed)
    | recordDelivery => exact RunsWrite.elim hkeyed (recordDelivery_writes hkeyed)
    | recoverStaleRuns => exact RunsWrite.elim hkeyed (recoverStaleRuns_writes hkeyed)
    | createRetry => simp [isRetry] at hc
  rwa [h] at hstate

theorem perform_runs {c : SchedulerCall β} (hkeyed : RunsKeyed t) (hc : c.isRetry = false)
    (h : c.perform store a t = (r, t')) : RunsMove t t' := (perform_writes hkeyed hc h).moves

end SchedulerCall

/-- A call with the second half of which the write agrees, as far as the runs go. -/
def PendingWrite.call : PendingWrite → (β : Type) × SchedulerCall β
  | .updateJob jobId _ => ⟨Job, .updateJob jobId ⟨none, none, none, none, none, none⟩ none⟩
  | .heartbeat runId owner _ stamp => ⟨JobRun, .heartbeat runId owner (.timedelta 0) (some stamp)⟩
  | .requestCancel runId stamp => ⟨JobRun, .requestCancel runId (some stamp)⟩

theorem PendingWrite.land_writes {w : PendingWrite} {t : SchedulerTables} (hkeyed : RunsKeyed t) :
    RunsWrite w.call.2 t (w.land t).2 := by
  cases w with
  | updateJob => exact runsWrite_of_keeps hkeyed updateJobWrite_keeps
  | heartbeat => exact RunsWrite.elim hkeyed (heartbeatWrite_writes hkeyed)
  | requestCancel => exact RunsWrite.elim hkeyed (requestCancelWrite_writes hkeyed)

/-- What the second half of an operation makes of the runs. -/
theorem PendingWrite.land_runs {w : PendingWrite} {t : SchedulerTables} (hkeyed : RunsKeyed t) :
    RunsMove t (w.land t).2 := (land_writes hkeyed).moves

end Polaris
