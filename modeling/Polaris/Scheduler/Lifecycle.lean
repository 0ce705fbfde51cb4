import Polaris.Scheduler.Caps

namespace Polaris
open PyJson SchedulerStore

/-- A job that is not cancelled is completed exactly when it has no next run. -/
def Job.Paired (job : Job) : Prop :=
  job.state ≠ .cancelled → (job.state = .completed ↔ job.nextRunAt = none)

namespace SchedulerStore
open Txn
variable {store : SchedulerStore} {a : Draws} {t t' : SchedulerTables} {β : Type}

/-- What a claim makes of a job that it reaches: each of the last occurrences that are due has a run,
and the job moves to the next one. -/
structure ClaimedBy (store : SchedulerStore) (now : Timestamp) (t' : SchedulerTables) (job : Job) :
    Prop where
  held : ∃ occurrences room, dueOccurrences store.zones job now = .ok occurrences ∧ 0 < room ∧
    ∀ o ∈ lastOf room occurrences, t'.Held job.id o
  moved : ∃ nextRun, advanceAfterNow store.zones job now = .ok nextRun ∧
    job.setNextRun nextRun (if nextRun.isSome then .scheduled else .completed) now ∈ t'.jobs

/-- The runs of a claim leave no room, and are all of the jobs that come first. -/
def Exhausts (k : ClaimCall) (runs : List JobRun) (before : List Job) : Prop :=
  k.limit ≤ runs.length ∧ ∀ run ∈ runs, run.jobId ∈ before.map Job.id

/-- What holds of the jobs of a store. -/
structure JobsFinish (store : SchedulerStore) (t : SchedulerTables) : Prop where
  paired : ∀ job ∈ t.jobs, job.Paired
  shows : ∀ job ∈ t.jobs, job.state ≠ .cancelled → job.nextRunAt.isSome = true →
    job.state = .scheduled ∨ job.state = .paused
  claimed : ∀ job ∈ t.jobs, ∀ next, job.state = .scheduled → job.nextRunAt = some next →
    ∀ now, next ≤ now → ∀ (k : ClaimCall) runs t', Drawn k.draws.runId t →
    k.perform store now t = (.ok runs, t') →
    ∃ before after, claimOrder store now k.jitterSeed t = before ++ job :: after ∧
      (Exhausts k runs before ∨ ClaimedBy store now t' job)

/-- The call does not give a new schedule to a job that is completed. -/
def LeavesCompleted (t : SchedulerTables) : SchedulerCall β → Prop
  | .updateJob jobId changes _ => changes.schedule.isSome = true →
      ∀ job, t.findJob jobId = some job → job.state ≠ .completed
  | _ => True

/-- Calls on a new store, one after the other. -/
inductive JobReach (store : SchedulerStore)
    (C : ∀ {β : Type}, SchedulerTables → SchedulerCall β → Prop) : SchedulerTables → Prop
  | start : JobReach store C ⟨[], []⟩
  | calls {t t' : SchedulerTables} {β : Type} {c : SchedulerCall β} {a : Draws}
      {r : Except PyError β} : JobReach store C t → C t c → c.perform store a t = (r, t') →
      JobReach store C t'

/-! What the calls make of the jobs. -/

/-- No id is that of two jobs, and each job is paired. -/
structure Settled (t : SchedulerTables) : Prop where
  keyed : JobsKeyed t
  paired : ∀ job ∈ t.jobs, job.Paired

theorem Settled.of_jobs (h : Settled t) (hjobs : t'.jobs = t.jobs) : Settled t' where
  keyed := by
    rw [JobsKeyed, hjobs]
    exact h.keyed
  paired := by
    rw [hjobs]
    exact h.paired

theorem Settled.update {p : Job → Bool} {f : Job → Job} (h : Settled t) (hid : ∀ r, (f r).id = r.id)
    (hf : ∀ r ∈ t.jobs, p r = true → (f r).Paired) : Settled (updateJobs p f t) where
  keyed := h.keyed.updateWhere hid
  paired job hjob := by
    obtain ⟨r, hr, rfl⟩ := List.mem_map.1 hjob
    by_cases hp : p r = true
    · rw [if_pos hp]
      exact hf r hr hp
    · rw [if_neg hp]
      exact h.paired r hr

theorem Settled.find (h : Settled t) {job : Job} (hjob : job ∈ t.jobs) :
    t.findJob job.id = some job := Table.Keyed.find h.keyed hjob

theorem Settled.elim {x : Op β} (h : Settled t) (hx : CommitsAt Settled x t) : Settled (x t).2 := by
  rcases hx with hsame | hsettled
  · rw [hsame]
    exact h
  · exact hsettled

theorem settled_of_keeps {x : Op β} (h : Settled t) (hx : Keeps SchedulerTables.jobs x) :
    CommitsAt Settled x t := .inr (h.of_jobs (hx t))

theorem updateOneJob_ok {p : Job → Bool} {f : Job → Job} {e : PyError} {u : Unit}
    (h : updateOneJob p f e t = (.ok u, t')) : t.jobs.countP p = 1 ∧ t' = updateJobs p f t := by
  simp only [updateOneJob, bind_ok, read_ok, write_ok, require_ok] at h
  obtain ⟨n, _, ⟨rfl, rfl⟩, _, _, rfl, hn, rfl⟩ := h
  exact ⟨by simpa using hn, rfl⟩

theorem computeNextRun_isSome {zones : ZoneInfos} {schedule : ScheduleSpec} {after : Timestamp}
    {nextRun : Option Timestamp} (hkind : ∀ onceAt, schedule.kind ≠ .once onceAt)
    (h : computeNextRun zones schedule after = .ok nextRun) : nextRun.isSome = true := by
  unfold computeNextRun at h
  cases hschedule : schedule.kind with
  | once onceAt => exact absurd hschedule (hkind onceAt)
  | interval intervalSeconds startAt =>
      have hanchored : ∃ anchor : Timestamp, (if after < anchor then pure (some anchor)
          else do
            let quotient ← intervalIndex (after - anchor) intervalSeconds
            let occurrence ← intervalAt anchor (quotient + 1) intervalSeconds
            return some occurrence : Except PyError (Option Timestamp)) = .ok nextRun := by
        cases startAt with
        | none =>
            simp only [hschedule, bind_eq_ok] at h
            obtain ⟨anchor, -, h⟩ := h
            exact ⟨anchor, h⟩
        | some value =>
            simp only [hschedule, bind_eq_ok] at h
            obtain ⟨anchor, -, h⟩ := h
            exact ⟨anchor, h⟩
      obtain ⟨anchor, h⟩ := hanchored
      split at h
      · obtain rfl := pure_eq_ok.1 h
        rfl
      · simp only [bind_eq_ok, pure_eq_ok] at h
        obtain ⟨_, -, occurrence, -, rfl⟩ := h
        rfl
  | cron cron =>
      simp only [hschedule, bind_eq_ok, pure_eq_ok] at h
      obtain ⟨_, -, _, -, occurrence, -, rfl⟩ := h
      rfl

theorem initialRun_isSome {zones : ZoneInfos} {schedule : ScheduleSpec} {now : Timestamp}
    {nextRun : Option Timestamp} (h : initialRun zones schedule now = .ok nextRun) :
    nextRun.isSome = true := by
  unfold initialRun at h
  cases hschedule : schedule.kind with
  | once onceAt =>
      simp only [hschedule, bind_eq_ok, pure_eq_ok] at h
      obtain ⟨occurrence, -, rfl⟩ := h
      rfl
  | interval intervalSeconds startAt =>
      cases startAt with
      | none => simp [hschedule] at h
      | some value =>
          simp only [hschedule] at h
          obtain ⟨anchor, -, h⟩ := bind_eq_ok.1 h
          split at h
          · obtain rfl := pure_eq_ok.1 h
            rfl
          · exact computeNextRun_isSome (by simp [hschedule]) h
  | cron cron =>
      simp only [hschedule] at h
      exact computeNextRun_isSome (by simp [hschedule]) h

theorem createJob_settles {schedule : ScheduleSpec} {payload : JobPayload} {options : JobOptions}
    {now : Option Timestamp} (h : Settled t) :
    CommitsAt Settled (createJob store schedule payload options now a) t := by
  refine (lift_readOnly _).commitsAt_bind fun _ _ => (lift_readOnly _).commitsAt_bind fun _ _ =>
    (lift_readOnly _).commitsAt_bind fun _ _ => (lift_readOnly _).commitsAt_bind fun nextRun hfirst =>
      (require_readOnly _ _).commitsAt_bind fun _ _ =>
        commitsAt_then (fun _ => getJob_readOnly _) fun _ t' hcreate => ?_
  obtain ⟨hfirst, -⟩ := lift_ok.1 hfirst
  simp only [bind_ok, read_ok, require_ok, write_ok, Bool.not_eq_true'] at hcreate
  obtain ⟨_, _, ⟨rfl, rfl⟩, _, _, ⟨hfree, rfl⟩, rfl⟩ := hcreate
  refine ⟨h.keyed.append (Option.isNone_iff_eq_none.1 (Option.isSome_eq_false_iff.1 hfree)),
    fun job hjob => ?_⟩
  rcases List.mem_append.1 hjob with hjob | hjob
  · exact h.paired job hjob
  · obtain rfl := List.mem_singleton.1 hjob
    obtain ⟨next, rfl⟩ := Option.isSome_iff_exists.1 (initialRun_isSome hfirst)
    simp [Job.Paired]

/-- What an update is going to write, when it has read the job. -/
theorem updateJobRead_ok {jobId : String} {changes : JobChanges} {now : Option Timestamp}
    {columns : JobColumns} (h : updateJobRead store jobId changes now a t = (.ok columns, t')) :
    ∃ current policy schedule nextRun, t.findJob jobId = some current ∧
      validateJobOptions (changes.catchupPolicy.getD current.catchupPolicy.value)
        (changes.maxCatchup.getD current.maxCatchup)
        (changes.graceSeconds.getD current.graceSeconds) = .ok policy ∧
      anchored (changes.schedule.getD current.schedule) (now.getD a.clock) = .ok schedule ∧
      (if changes.schedule.isSome then initialRun store.zones schedule (now.getD a.clock)
        else .ok current.nextRunAt) = .ok nextRun ∧
      columns = ⟨(changes.name.map pyStrip).getD current.name, schedule,
        changes.payload.getD current.payload, policy, changes.maxCatchup.getD current.maxCatchup,
        changes.graceSeconds.getD current.graceSeconds, nextRun, now.getD a.clock⟩ := by
  simp only [updateJobRead, bind_ok, lift_ok, require_ok, pure_ok] at h
  obtain ⟨_, _, ⟨-, rfl⟩, current, _, hget, _, _, ⟨-, rfl⟩, policy, _, ⟨hpolicy, rfl⟩, schedule, _,
    ⟨hschedule, rfl⟩, nextRun, _, ⟨hnext, rfl⟩, rfl, -⟩ := h
  obtain ⟨hcurrent, rfl⟩ := getJob_ok hget
  exact ⟨current, policy, schedule, nextRun, hcurrent, hpolicy, hschedule, hnext, rfl⟩

theorem updateJobRead_nextRun {jobId : String} {changes : JobChanges} {now : Option Timestamp}
    {columns : JobColumns} (h : updateJobRead store jobId changes now a t = (.ok columns, t')) :
    ∃ current, t.findJob jobId = some current ∧
      (changes.schedule.isSome = true → columns.nextRunAt.isSome = true) ∧
      (changes.schedule.isSome = false → columns.nextRunAt = current.nextRunAt) := by
  obtain ⟨current, policy, schedule, nextRun, hcurrent, -, -, hnext, rfl⟩ := updateJobRead_ok h
  refine ⟨current, hcurrent, fun hsome => ?_, fun hnone => ?_⟩
  · rw [if_pos hsome] at hnext
    exact initialRun_isSome hnext
  · rw [hnone, if_neg Bool.false_ne_true] at hnext
    exact (Except.ok.inj hnext).symm

theorem updateJob_settles {jobId : String} {changes : JobChanges} {now : Option Timestamp}
    (h : Settled t) (hleaves : LeavesCompleted t (.updateJob jobId changes now)) :
    CommitsAt Settled (updateJob store jobId changes now a) t := by
  refine updateJobRead_readOnly.commitsAt_bind fun columns hread =>
    commitsAt_then (fun _ => getJob_readOnly _) fun _ t' hwrite => ?_
  obtain ⟨current, hcurrent, hgiven, hkept⟩ := updateJobRead_nextRun hread
  obtain ⟨-, rfl⟩ := updateOneJob_ok hwrite
  refine h.update (fun _ => rfl) fun job hjob hid => ?_
  obtain rfl : job.id = jobId := of_decide_eq_true hid
  rw [h.find hjob] at hcurrent
  obtain rfl := Option.some.inj hcurrent
  cases hschedule : changes.schedule.isSome with
  | true =>
      have hopen := hleaves hschedule job (h.find hjob)
      obtain ⟨next, hnext⟩ := Option.isSome_iff_exists.1 (hgiven hschedule)
      simp [Job.Paired, Job.update, hopen, hnext]
  | false =>
      intro hstate
      have hpaired := h.paired job hjob hstate
      rwa [← hkept hschedule] at hpaired

theorem pauseJob_settles {jobId : String} {now : Option Timestamp} (h : Settled t) :
    CommitsAt Settled (pauseJob jobId now a) t := by
  refine commitsAt_then (fun _ => getJob_readOnly _) fun _ t' hpause => ?_
  simp only [bind_ok, read_ok, write_ok, require_ok] at hpause
  obtain ⟨_, _, ⟨-, rfl⟩, _, _, ⟨-, rfl⟩, _, _, rfl, _, _, ⟨-, rfl⟩, -, rfl⟩ := hpause
  refine h.update (fun _ => rfl) fun job hjob hmet => ?_
  simp only [Bool.and_eq_true, decide_eq_true_eq] at hmet
  have hpaired := h.paired job hjob
  simpa [Job.Paired, Job.setState, hmet.2] using hpaired

theorem resumeJob_settles {jobId : String} {now : Option Timestamp} (h : Settled t) :
    CommitsAt Settled (resumeJob store jobId now a) t := by
  refine commitsAt_then (fun _ => getJob_readOnly _) fun _ t' hresume => ?_
  simp only [bind_ok, require_ok, lift_ok] at hresume
  obtain ⟨current, _, hget, _, _, ⟨-, rfl⟩, nextRun, _, ⟨hnext, rfl⟩, hone⟩ := hresume
  obtain ⟨-, rfl⟩ := getJob_ok hget
  obtain ⟨-, rfl⟩ := updateOneJob_ok hone
  have hsome : nextRun.isSome = true := by
    split at hnext
    · obtain rfl := Except.ok.inj hnext
      rfl
    · exact initialRun_isSome hnext
  obtain ⟨next, rfl⟩ := Option.isSome_iff_exists.1 hsome
  refine h.update (fun _ => rfl) fun job hjob hmet => ?_
  simp [Job.Paired, Job.setNextRun]

theorem cancelJob_settles {jobId : String} {now : Option Timestamp} (h : Settled t) :
    CommitsAt Settled (cancelJob jobId now a) t := by
  refine commitsAt_then (fun _ => getJob_readOnly _) fun _ t' hcancel => ?_
  obtain ⟨current, _, hget, hcancel⟩ := bind_ok.1 hcancel
  obtain ⟨-, rfl⟩ := getJob_ok hget
  rcases ite_ok.1 hcancel with ⟨-, hcancel⟩ | ⟨-, hcancel⟩
  · obtain ⟨-, rfl⟩ := pure_ok.1 hcancel
    exact h
  · rcases ite_ok.1 hcancel with ⟨-, hcancel⟩ | ⟨-, hcancel⟩
    · simp only [bind_ok, write_ok] at hcancel
      obtain ⟨_, _, rfl, rfl⟩ := hcancel
      exact h.of_jobs rfl
    · simp only [bind_ok, write_ok] at hcancel
      obtain ⟨_, _, hone, _, _, rfl, rfl⟩ := hcancel
      obtain ⟨-, rfl⟩ := updateOneJob_ok hone
      have hcancelled : Settled (updateJobs (fun job => job.id = jobId &&
          (job.state = .scheduled || job.state = .paused))
          (Job.setState .cancelled (now.getD a.clock)) t) := by
        refine h.update (fun _ => rfl) fun job _ _ => ?_
        simp [Job.Paired, Job.setState]
      exact hcancelled.of_jobs rfl

theorem claimOccurrences_jobs {c : Claim} {job : Job} {occurrences : List Timestamp}
    {ids : List String} : Keeps SchedulerTables.jobs (claimOccurrences c job occurrences ids) := by
  induction occurrences generalizing ids with
  | nil => exact (pure_readOnly _).keeps
  | cons o occurrences ih =>
      exact (lift_readOnly _).keeps.bind fun _ => (read_readOnly _).keeps.bind fun _ =>
        keeps_write_bind (insertRun_jobs _) fun _ => ih

theorem claimJobs_settles {c : Claim} {jobs : List Job} {ids : List String} {ids' : List String}
    (h : Settled t) (hclaim : claimJobs store c jobs ids t = (.ok ids', t')) : Settled t' := by
  induction jobs generalizing t ids with
  | nil =>
      obtain ⟨-, rfl⟩ := pure_ok.1 hclaim
      exact h
  | cons job jobs ih =>
      rw [claimJobs] at hclaim
      split at hclaim
      · obtain ⟨-, rfl⟩ := pure_ok.1 hclaim
        exact h
      · obtain ⟨more, t₁, hjob, hclaim⟩ := bind_ok.1 hclaim
        refine ih ?_ hclaim
        simp only [claimJob, bind_ok, lift_ok, write_ok, pure_ok] at hjob
        obtain ⟨occurrences, _, ⟨-, rfl⟩, _, t₂, hoccurrences, nextRun, _, ⟨-, rfl⟩, _, _, rfl, -,
          rfl⟩ := hjob
        have hkept := @claimOccurrences_jobs c job (lastOf (c.limit - ids.length) occurrences) ids t
        rw [hoccurrences] at hkept
        -- the state of a job is written together with its next run
        refine (h.of_jobs hkept).update (fun _ => rfl) fun other _ _ => ?_
        cases nextRun <;> simp [Job.Paired, Job.setNextRun]

theorem claimDueRuns_settles {now : Timestamp} {owner : String} {lease : LeaseTime} {batch : ℤ}
    {startupCap jitterSeed : Option ℤ} (h : Settled t) : CommitsAt Settled
      (claimDueRuns store now owner lease batch startupCap jitterSeed a) t := by
  refine (lift_readOnly _).commitsAt_bind fun _ _ => (require_readOnly _ _).commitsAt_bind
    fun _ _ => (require_readOnly _ _).commitsAt_bind fun _ _ =>
      (require_readOnly _ _).commitsAt_bind fun _ _ => (require_readOnly _ _).commitsAt_bind
        fun _ _ => commitsAt_then getRuns_readOnly fun ids t' hclaim => ?_
  simp only [bind_ok, read_ok] at hclaim
  obtain ⟨due, _, ⟨-, rfl⟩, hclaim⟩ := hclaim
  exact claimJobs_settles h hclaim

theorem updateOneRun_jobs {p : JobRun → Bool} {f : JobRun → JobRun} {e : PyError} :
    Keeps SchedulerTables.jobs (updateOneRun p f e) :=
  (read_readOnly _).keeps.bind fun _ =>
    keeps_write_bind (fun _ => rfl) fun _ => (require_readOnly _ _).keeps

theorem markRunning_jobs {runId owner : String} {now : Option Timestamp}
    {polarisRunId : Option String} :
    Keeps SchedulerTables.jobs (markRunning runId owner now polarisRunId a) := by
  refine Keeps.bind (Keeps.atomically ?_) fun _ => (getRun_readOnly _).keeps
  refine (getRun_readOnly _).keeps.bind fun row => (require_readOnly _ _).keeps.bind fun _ =>
    (requireActiveLease_readOnly _ _ _).keeps.bind fun _ => ?_
  split
  · exact keeps_write fun _ => rfl
  · exact updateOneRun_jobs

theorem requestCancel_jobs {runId : String} {now : Option Timestamp} :
    Keeps SchedulerTables.jobs (requestCancel runId now a) := by
  refine (requestCancelRead_readOnly _).keeps.bind fun goesOn => ?_
  split
  · exact keeps_write_bind (fun _ => rfl) fun _ => (getRun_readOnly _).keeps
  · exact ((pure_readOnly ()).bind fun _ => getRun_readOnly runId).keeps

theorem cancel_jobs {runId : String} {owner : Option String} {now : Option Timestamp} :
    Keeps SchedulerTables.jobs (SchedulerStore.cancel runId owner now a) := by
  refine Keeps.bind (Keeps.atomically ?_) fun _ => (getRun_readOnly _).keeps
  refine (getRun_readOnly _).keeps.bind fun row => ?_
  split
  · exact (require_readOnly _ _).keeps.bind fun _ => updateOneRun_jobs
  · exact (pure_readOnly _).keeps

theorem complete_jobs {runId owner : String} {terminal : JobRunStatus}
    {error polarisRunId : Option String} {now : Option Timestamp} :
    Keeps SchedulerTables.jobs (complete runId owner terminal error polarisRunId now a) := by
  refine (require_readOnly _ _).keeps.bind fun _ =>
    Keeps.bind (Keeps.atomically ?_) fun _ => (getRun_readOnly _).keeps
  exact (getRun_readOnly _).keeps.bind fun _ => (require_readOnly _ _).keeps.bind fun _ =>
    (requireActiveLease_readOnly _ _ _).keeps.bind fun _ => keeps_write fun _ => rfl

theorem recordDelivery_jobs {runId : String} {status : DeliveryStatus} {error : Option String}
    {now : Option Timestamp} :
    Keeps SchedulerTables.jobs (recordDelivery runId status error now a) := by
  refine (require_readOnly _ _).keeps.bind fun _ =>
    Keeps.bind (Keeps.atomically ?_) fun _ => (getRun_readOnly _).keeps
  refine (getRun_readOnly _).keeps.bind fun row => (require_readOnly _ _).keeps.bind fun _ => ?_
  split
  · exact keeps_write fun _ => rfl
  · exact (pure_readOnly _).keeps

theorem recoverStaleRuns_jobs {now : Option Timestamp} :
    Keeps SchedulerTables.jobs (recoverStaleRuns now a) := by
  refine Keeps.bind (Keeps.atomically ?_) fun _ => (getRuns_readOnly _).keeps
  exact (read_readOnly _).keeps.bind fun _ =>
    keeps_write_bind (fun _ => rfl) fun _ => (pure_readOnly _).keeps

theorem createRetry_jobs {runId owner : String} {lease : LeaseTime} {approved : Bool}
    {now : Option Timestamp} :
    Keeps SchedulerTables.jobs (createRetry runId owner lease approved now a) := by
  refine (require_readOnly _ _).keeps.bind fun _ => (lift_readOnly _).keeps.bind fun _ =>
    (require_readOnly _ _).keeps.bind fun _ => Keeps.bind (Keeps.atomically ?_) fun _ =>
      (getRun_readOnly _).keeps
  exact (getRun_readOnly _).keeps.bind fun _ => (require_readOnly _ _).keeps.bind fun _ =>
    (lift_readOnly _).keeps.bind fun _ => updateOneRun_jobs

end SchedulerStore

open Txn in
theorem SchedulerCall.perform_settles {store : SchedulerStore} {a : Draws} {t t' : SchedulerTables}
    {β : Type} {c : SchedulerCall β} {r : Except PyError β} (h : Settled t)
    (hleaves : LeavesCompleted t c) (hperform : c.perform store a t = (r, t')) : Settled t' := by
  have hstate : CommitsAt Settled (c.perform store a) t := by
    cases c with
    | createJob => exact createJob_settles h
    | updateJob => exact updateJob_settles h hleaves
    | pauseJob => exact pauseJob_settles h
    | resumeJob => exact resumeJob_settles h
    | cancelJob => exact cancelJob_settles h
    | claimDueRuns => exact claimDueRuns_settles h
    | markRunning => exact settled_of_keeps h markRunning_jobs
    | setPolarisRunId =>
        exact settled_of_keeps h ((require_readOnly _ _).keeps.bind fun _ =>
          Keeps.bind updateOneRun_jobs.atomically fun _ => (getRun_readOnly _).keeps)
    | heartbeat =>
        exact settled_of_keeps h (heartbeatRead_readOnly.keeps.bind fun _ =>
          keeps_write_bind (fun _ => rfl) fun _ => (getRun_readOnly _).keeps)
    | requestCancel => exact settled_of_keeps h requestCancel_jobs
    | cancel => exact settled_of_keeps h cancel_jobs
    | complete => exact settled_of_keeps h complete_jobs
    | recordDelivery => exact settled_of_keeps h recordDelivery_jobs
    | recoverStaleRuns => exact settled_of_keeps h recoverStaleRuns_jobs
    | createRetry => exact settled_of_keeps h createRetry_jobs
  have hsettled := h.elim hstate
  rwa [hperform] at hsettled

namespace SchedulerStore
open Txn
variable {store : SchedulerStore} {a : Draws} {t t' : SchedulerTables} {β : Type}

theorem Settled.reach (h : JobReach store LeavesCompleted t) : Settled t := by
  induction h with
  | start => exact ⟨List.nodup_nil, by simp⟩
  | calls _ hleaves hperform ih => exact SchedulerCall.perform_settles ih hleaves hperform

/-! What a claim makes of the jobs that it reaches. -/

theorem claimOccurrences_ids {c : Claim} {job : Job} {occurrences : List Timestamp}
    {ids ids' : List String} (h : claimOccurrences c job occurrences ids t = (.ok ids', t')) :
    ∀ id ∈ ids', id ∈ ids ∨ ∃ o, id = c.runId job.id o := by
  induction occurrences generalizing t ids with
  | nil =>
      obtain ⟨rfl, -⟩ := pure_ok.1 h
      exact fun id hid => .inl hid
  | cons o occurrences ih =>
      simp only [claimOccurrences, bind_ok, lift_ok, read_ok, write_ok] at h
      obtain ⟨expires, _, ⟨-, rfl⟩, held, _, ⟨-, rfl⟩, _, _, rfl, h⟩ := h
      intro id hid
      rcases ih h id hid with hid | hnew
      · split at hid
        · exact .inl hid
        · rcases List.mem_append.1 hid with hid | hid
          · exact .inl hid
          · exact .inr ⟨o, List.mem_singleton.1 hid⟩
      · exact .inr hnew

theorem claimJob_ids {c : Claim} {job : Job} {ids ids' : List String}
    (h : claimJob store c job ids t = (.ok ids', t')) :
    ∀ id ∈ ids', id ∈ ids ∨ ∃ o, id = c.runId job.id o := by
  simp only [claimJob, bind_ok, lift_ok, write_ok, pure_ok] at h
  obtain ⟨occurrences, _, ⟨-, rfl⟩, _, t₁, hclaim, nextRun, _, ⟨-, rfl⟩, _, _, rfl, rfl, rfl⟩ := h
  exact claimOccurrences_ids hclaim

/-- A job stays as a claim has made it while the claim goes on to others. -/
theorem ClaimedBy.mono {now : Timestamp} {job : Job} (h : ClaimedBy store now t job)
    (hheld : ∀ o, t.Held job.id o → t'.Held job.id o)
    (hjobs : ∀ row ∈ t.jobs, row.id = job.id → row ∈ t'.jobs) : ClaimedBy store now t' job := by
  obtain ⟨⟨occurrences, room, hdue, hroom, hall⟩, nextRun, hnext, hrow⟩ := h
  exact ⟨⟨occurrences, room, hdue, hroom, fun o ho => hheld o (hall o ho)⟩, nextRun, hnext,
    hjobs _ hrow rfl⟩

theorem claimJobs_claim {c : Claim} {jobs : List Job} {ids ids' : List String}
    (hdrawn : Drawn c.runId t) (hids : (jobs.map Job.id).Nodup) (hrows : ∀ job ∈ jobs, job ∈ t.jobs)
    (h : claimJobs store c jobs ids t = (.ok ids', t')) :
    Drawn c.runId t' ∧ (∀ jobId o, t.Held jobId o → t'.Held jobId o) ∧
      (∀ row ∈ t.jobs, row.id ∉ jobs.map Job.id → row ∈ t'.jobs) ∧
      ∃ done rest, jobs = done ++ rest ∧ (rest = [] ∨ c.limit ≤ ids'.length) ∧
        (∀ id ∈ ids', id ∈ ids ∨ ∃ job ∈ done, ∃ o, id = c.runId job.id o) ∧
        ∀ job ∈ done, ClaimedBy store c.now t' job := by
  induction jobs generalizing t ids with
  | nil =>
      obtain ⟨rfl, rfl⟩ := pure_ok.1 h
      exact ⟨hdrawn, fun _ _ ho => ho, fun _ hrow _ => hrow, [], [], rfl, .inl rfl,
        fun _ hid => .inl hid, by simp⟩
  | cons job jobs ih =>
      rw [claimJobs] at h
      split at h
      · rename_i hfull
        obtain ⟨rfl, rfl⟩ := pure_ok.1 h
        exact ⟨hdrawn, fun _ _ ho => ho, fun _ hrow _ => hrow, [], job :: jobs, rfl, .inr hfull,
          fun _ hid => .inl hid, by simp⟩
      · rename_i hroom
        obtain ⟨more, t₁, hjob, h⟩ := bind_ok.1 h
        have hmore := claimJob_ids hjob
        obtain ⟨occurrences, nextRun, hoccurrences, hnext, hdrawn₁, hheld, hjobs, -⟩ :=
          claimJob_spec hdrawn hjob
        rw [List.map_cons, List.nodup_cons] at hids
        have hothers : ∀ row ∈ t.jobs, row.id ≠ job.id → row ∈ t₁.jobs := by
          intro row hrow hne
          rw [hjobs, Table.updateWhere, List.mem_map]
          exact ⟨row, hrow, by simp [hne]⟩
        have hclaimed : ClaimedBy store c.now t₁ job := by
          refine ⟨⟨occurrences, c.limit - ids.length, hoccurrences, by omega, fun o ho => ?_⟩,
            nextRun, hnext, ?_⟩
          · exact (hheld _ _).2 (.inr ⟨rfl, ho⟩)
          · rw [hjobs, Table.updateWhere, List.mem_map]
            exact ⟨job, hrows job List.mem_cons_self, by simp⟩
        have hrows₁ : ∀ other ∈ jobs, other ∈ t₁.jobs := fun other hother =>
          hothers other (hrows other (List.mem_cons_of_mem _ hother)) fun hsame =>
            hids.1 (hsame ▸ List.mem_map_of_mem hother)
        obtain ⟨hdrawn', hkept, hrest, done, rest, rfl, hend, hnew, hdone⟩ :=
          ih hdrawn₁ hids.2 hrows₁ h
        refine ⟨hdrawn', fun jobId o ho => hkept jobId o ((hheld jobId o).2 (.inl ho)),
          fun row hrow hnot => ?_, job :: done, rest, rfl, hend, fun id hid => ?_,
          fun other hother => ?_⟩
        · rw [List.map_cons, List.mem_cons, not_or] at hnot
          exact hrest row (hothers row hrow hnot.1) hnot.2
        · rcases hnew id hid with hid | ⟨other, hother, o, rfl⟩
          · rcases hmore id hid with hid | ⟨o, rfl⟩
            · exact .inl hid
            · exact .inr ⟨job, List.mem_cons_self, o, rfl⟩
          · exact .inr ⟨other, List.mem_cons_of_mem _ hother, o, rfl⟩
        · rcases List.mem_cons.1 hother with rfl | hother
          · refine hclaimed.mono (fun o ho => hkept _ o ho) fun row hrow hsame => ?_
            exact hrest row hrow (hsame ▸ hids.1)
          · exact hdone other hother

/-- A claim that answers has claimed each job that is due, unless the jobs before it have left no
room. -/
theorem claimDueRuns_claims {now : Timestamp} {k : ClaimCall} {runs : List JobRun} {job : Job}
    (hkeyed : JobsKeyed t) (hdrawn : Drawn k.draws.runId t) (hjob : job ∈ dueJobs now t)
    (h : k.perform store now t = (.ok runs, t')) :
    ∃ before after, claimOrder store now k.jitterSeed t = before ++ job :: after ∧
      (Exhausts k runs before ∨ ClaimedBy store now t' job) := by
  obtain ⟨leaseDelta, ids, hclaim, hruns⟩ := claimDueRuns_ok h
  obtain ⟨-, hids, hfound⟩ := getRuns_ok hruns
  have hperm := @claimOrder_perm store t now k.jitterSeed
  obtain ⟨hdrawn', -, -, done, rest, horder, hend, hnew, hdone⟩ := claimJobs_claim hdrawn
    (((hperm.map Job.id).nodup_iff).2 (dueJobs_nodup hkeyed))
    (fun other hother => (mem_dueJobs.1 (hperm.mem_iff.1 hother)).1) hclaim
  have hmem := hperm.mem_iff.2 hjob
  rw [horder] at hmem ⊢
  rcases List.mem_append.1 hmem with hmem | hmem
  · obtain ⟨before, after, rfl⟩ := List.append_of_mem hmem
    exact ⟨before, after ++ rest, by simp, .inr (hdone job hmem)⟩
  · obtain ⟨before, after, rfl⟩ := List.append_of_mem hmem
    refine ⟨done ++ before, after, by simp, .inl ⟨?_, fun run hrun => ?_⟩⟩
    · rw [← List.length_map JobRun.id, hids]
      exact hend.resolve_left (by simp)
    · have hid : run.id ∈ ids := hids ▸ List.mem_map_of_mem hrun
      rcases hnew run.id hid with hnone | ⟨other, hother, o, hdraw⟩
      · simp at hnone
      · obtain ⟨hsame, -⟩ := hdrawn'.owned run (Table.find_mem (hfound run hrun)) other.id o hdraw
        rw [hsame, List.map_append]
        exact List.mem_append_left _ (List.mem_map_of_mem hother)

theorem Settled.finish (h : Settled t) : JobsFinish store t where
  paired := h.paired
  shows job hjob hstate hshown := by
    have hpaired := h.paired job hjob hstate
    cases hcase : job.state with
    | scheduled => exact .inl rfl
    | paused => exact .inr rfl
    | completed => simp [hpaired.1 hcase] at hshown
    | cancelled => exact absurd hcase hstate
  claimed job hjob next hstate hnext now hnow k runs t' hdrawn hclaim := by
    refine claimDueRuns_claims h.keyed hdrawn (mem_dueJobs.2 ⟨hjob, ?_⟩) hclaim
    simp [isDue, hstate, hnext, hnow]

/-- A new schedule for a completed job gives it a next run, and leaves it completed. -/
theorem updateJob_breaks {jobId : String} {changes : JobChanges} {now : Option Timestamp}
    {job v : Job} (hschedule : changes.schedule.isSome = true) (hjob : t.findJob jobId = some job)
    (hstate : job.state = .completed)
    (h : updateJob store jobId changes now a t = (.ok v, t')) : ¬JobsFinish store t' := by
  simp only [updateJob, bind_ok] at h
  obtain ⟨columns, t₁, hread, _, _, hwrite, hget⟩ := h
  obtain ⟨-, rfl⟩ := getJob_ok hget
  obtain rfl := updateJobRead_readOnly.state hread
  obtain ⟨-, -, hgiven, -⟩ := updateJobRead_nextRun hread
  obtain ⟨-, rfl⟩ := updateOneJob_ok (atomically_ok.1 hwrite)
  intro hfinish
  have hid : job.id = jobId := Table.find_key hjob
  have hrow : job.update columns ∈ (updateJobs (fun job => job.id = jobId)
      (Job.update columns) t₁).jobs :=
    List.mem_map.2 ⟨job, Table.find_mem hjob, by simp [hid]⟩
  have hpaired := hfinish.paired _ hrow (by simp [Job.update, hstate])
  have hnone : columns.nextRunAt = none := hpaired.1 hstate
  have hgiven := hgiven hschedule
  simp [hnone] at hgiven

end SchedulerStore

open SchedulerStore in
/-- The jobs finish as long as no completed job is given a new schedule, and a call that answers keeps
it so exactly when it does not do that. -/
theorem jobs_finish {store : SchedulerStore} {t : SchedulerTables}
    (h : JobReach store LeavesCompleted t) : JobsFinish store t ∧
      ∀ {β : Type} {c : SchedulerCall β} {a : Draws} {v : β} {t' : SchedulerTables},
        c.perform store a t = (.ok v, t') → (JobsFinish store t' ↔ LeavesCompleted t c) := by
  have hsettled := Settled.reach h
  refine ⟨hsettled.finish, fun {β c a v t'} hperform => ⟨fun hfinish => ?_, fun hleaves => ?_⟩⟩
  · cases c with
    | updateJob jobId changes now =>
        intro hschedule job hjob hstate
        exact updateJob_breaks hschedule hjob hstate hperform hfinish
    | _ => trivial
  · exact (SchedulerCall.perform_settles hsettled hleaves hperform).finish

/-! A job that runs once, is completed, and is given a new time. -/

namespace Nightly

def reschedule : SchedulerCall Job :=
  .updateJob "job" ⟨none, some ⟨.once (.aware 50), "UTC"⟩, none, none, none, none⟩ (some 20)

def done : SchedulerTables := (claim.perform store draws created).2

def rescheduled : SchedulerTables := (reschedule.perform store draws done).2

theorem reach_done {C : ∀ {β : Type}, SchedulerTables → SchedulerCall β → Prop}
    (hcreate : C ⟨[], []⟩ create) (hclaim : C created claim) : JobReach store C done := by
  have hcreated : JobReach store C created := .calls (a := draws) .start hcreate rfl
  exact hcreated.calls (a := draws) hclaim rfl

theorem done_job : (done.findJob "job").any (fun job => job.state = .completed) = true := by
  decide +kernel

end Nightly

theorem jobs_finish_done : ∃ job ∈ Nightly.done.jobs, job.state = .completed ∧
    JobsFinish Nightly.store Nightly.done := by
  obtain ⟨job, hjob, hstate⟩ := (Option.any_eq_true _ _).1 Nightly.done_job
  refine ⟨job, Table.find_mem hjob, of_decide_eq_true hstate, (jobs_finish ?_).1⟩
  exact Nightly.reach_done trivial trivial

theorem rescheduled_stays_completed : ∃ t,
    JobReach Nightly.store (fun _ _ => True) t ∧ ¬JobsFinish Nightly.store t := by
  have hreach : JobReach Nightly.store (fun _ _ => True) Nightly.rescheduled :=
    .calls (c := Nightly.reschedule) (a := Nightly.draws) (Nightly.reach_done trivial trivial) trivial rfl
  refine ⟨Nightly.rescheduled, hreach, ?_⟩
  intro hfinish
  have hrow : (Nightly.rescheduled.findJob "job").any (fun job =>
      job.state = .completed && job.nextRunAt = some 50) = true := by decide +kernel
  obtain ⟨job, hjob, hrow⟩ := (Option.any_eq_true _ _).1 hrow
  simp only [Bool.and_eq_true, decide_eq_true_eq] at hrow
  have hpaired := hfinish.paired job (Table.find_mem hjob) (by simp [hrow.1])
  simp [hpaired.1 hrow.1] at hrow

end Polaris
