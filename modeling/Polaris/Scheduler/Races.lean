import Polaris.Scheduler.Lifecycle

namespace Polaris
open PyJson SchedulerStore

/-- An interval has its start. -/
def ScheduleSpec.Anchored (schedule : ScheduleSpec) : Prop :=
  ∀ intervalSeconds, schedule.kind ≠ .interval intervalSeconds none

namespace SchedulerStore
open Txn
variable {store : SchedulerStore} {a : Draws} {t t' : SchedulerTables} {β : Type}

/-- The fields that an update is not given are the same, and without a schedule the next run is. -/
structure JobChanges.Spares (changes : JobChanges) (job job' : Job) : Prop where
  name : changes.name = none → job'.name = job.name
  schedule : changes.schedule = none → job'.schedule = job.schedule
  payload : changes.payload = none → job'.payload = job.payload
  catchupPolicy : changes.catchupPolicy = none → job'.catchupPolicy = job.catchupPolicy
  maxCatchup : changes.maxCatchup = none → job'.maxCatchup = job.maxCatchup
  graceSeconds : changes.graceSeconds = none → job'.graceSeconds = job.graceSeconds
  nextRunAt : changes.schedule = none → job'.nextRunAt = job.nextRunAt

/-- Each field that the other changes give is one of these. -/
structure JobChanges.Covers (changes other : JobChanges) : Prop where
  name : changes.name = none → other.name = none
  schedule : changes.schedule = none → other.schedule = none
  payload : changes.payload = none → other.payload = none
  catchupPolicy : changes.catchupPolicy = none → other.catchupPolicy = none
  maxCatchup : changes.maxCatchup = none → other.maxCatchup = none
  graceSeconds : changes.graceSeconds = none → other.graceSeconds = none

/-- The job is updated in no more than the fields that the update is given. -/
structure UpdatedOnly (changes : JobChanges) (job job' : Job) : Prop where
  spares : changes.Spares job job'
  state : job'.state = job.state
  createdAt : job'.createdAt = job.createdAt

/-- An operation on the same job at the same time. -/
inductive Rival where
  | claimDueRuns (now : Timestamp) (k : ClaimCall)
  | pauseJob (now : Option Timestamp)
  | resumeJob (now : Option Timestamp)
  | updateJob (changes : JobChanges) (now : Option Timestamp)

/-- What the operation makes of a store in one transaction; an update takes two halves. -/
def Rival.act (store : SchedulerStore) (jobId : String) (a : Draws) (t : SchedulerTables) :
    Rival → Option SchedulerTables
  | .claimDueRuns now k => some (k.perform store now t).2
  | .pauseJob now => some (SchedulerStore.pauseJob jobId now a t).2
  | .resumeJob now => some (SchedulerStore.resumeJob store jobId now a t).2
  | .updateJob _ _ => none

/-- The operation is going to leave the fields that an update is not given as they are. -/
def Rival.Harmless (changes : JobChanges) (job : Job) : Rival → Prop
  | .claimDueRuns now _ => changes.schedule.isSome = true ∨ isDue now job = false
  | .pauseJob _ => True
  | .resumeJob _ => changes.schedule.isSome = true ∨ job.nextRunAt.isSome = true
  | .updateJob other _ => changes.Covers other

/-- How far an update has come. -/
inductive UpdatePhase where
  | waiting
  | holds (columns : JobColumns)
  | ended

def UpdatePhase.isHolding : UpdatePhase → Bool
  | .holds _ => true
  | _ => false

/-- An update and its rival: the job as the update has read it, the job as the rival has left it, and
whether that was between the two halves of the update. -/
structure Race where
  tables : SchedulerTables
  update : UpdatePhase
  rival : UpdatePhase
  read : Option Job
  left : Option Job
  overtaken : Bool

namespace Race

def start (t : SchedulerTables) : Race := ⟨t, .waiting, .waiting, none, none, false⟩

def leaves (jobId : String) (t : SchedulerTables) (s : Race) : Race :=
  { s with
    tables := t
    rival := .ended
    left := t.findJob jobId
    overtaken := s.update.isHolding }

end Race

inductive RaceStep (store : SchedulerStore) (jobId : String) (changes : JobChanges) (rival : Rival)
    (s : Race) : Race → Prop
  | reads {now : Option Timestamp} {a : Draws} {columns : JobColumns} {t : SchedulerTables} :
      s.update = .waiting → updateJobRead store jobId changes now a s.tables = (.ok columns, t) →
      RaceStep store jobId changes rival s
        { s with update := .holds columns, read := s.tables.findJob jobId }
  | writes {columns : JobColumns} {u : Unit} {t : SchedulerTables} : s.update = .holds columns →
      updateJobWrite jobId columns s.tables = (.ok u, t) →
      RaceStep store jobId changes rival s { s with tables := t, update := .ended }
  | rivalActs {a : Draws} {t : SchedulerTables} : s.rival = .waiting →
      rival.act store jobId a s.tables = some t →
      RaceStep store jobId changes rival s (s.leaves jobId t)
  | rivalReads {other : JobChanges} {now : Option Timestamp} {a : Draws} {columns : JobColumns}
      {t : SchedulerTables} : rival = .updateJob other now → s.rival = .waiting →
      updateJobRead store jobId other now a s.tables = (.ok columns, t) →
      RaceStep store jobId changes rival s { s with rival := .holds columns }
  | rivalFails {other : JobChanges} {now : Option Timestamp} {a : Draws} {e : PyError}
      {t : SchedulerTables} : rival = .updateJob other now → s.rival = .waiting →
      updateJobRead store jobId other now a s.tables = (.error e, t) →
      RaceStep store jobId changes rival s (s.leaves jobId s.tables)
  | rivalWrites {columns : JobColumns} {r : Except PyError Unit} {t : SchedulerTables} :
      s.rival = .holds columns → updateJobWrite jobId columns s.tables = (r, t) →
      RaceStep store jobId changes rival s (s.leaves jobId t)

/-- The orders of the two operations, from any state that the callers of a store can reach. -/
inductive RaceReach (store : SchedulerStore) (jobId : String) (changes : JobChanges)
    (rival : Rival) : Race → Prop
  | start {s : Scheduling} : SchedulingReach store s →
      RaceReach store jobId changes rival (.start s.tables)
  | step {s s' : Race} : RaceReach store jobId changes rival s →
      RaceStep store jobId changes rival s s' → RaceReach store jobId changes rival s'

/-! The jobs of a store that its callers reach. -/

def schedules (t : SchedulerTables) : List (String × ScheduleSpec) :=
  t.jobs.map fun job => (job.id, job.schedule)

/-- No id is that of two jobs, and each interval has its start. -/
structure JobsStored (t : SchedulerTables) : Prop where
  keyed : JobsKeyed t
  anchored : ∀ job ∈ t.jobs, job.schedule.Anchored

theorem JobsStored.of_schedules (h : JobsStored t) (hsame : schedules t' = schedules t) :
    JobsStored t' where
  keyed := by
    have hids : ∀ t : SchedulerTables, t.jobs.map Job.id = (schedules t).map Prod.fst := fun t => by
      rw [schedules, List.map_map]
      rfl
    rw [JobsKeyed, Table.Keyed, hids, hsame, ← hids]
    exact h.keyed
  anchored job hjob := by
    have hmem : (job.id, job.schedule) ∈ schedules t' := List.mem_map.2 ⟨job, hjob, rfl⟩
    rw [hsame] at hmem
    obtain ⟨before, hbefore, heq⟩ := List.mem_map.1 hmem
    exact (Prod.mk.inj heq).2 ▸ h.anchored before hbefore

theorem schedules_of_jobs {x : Op β} (h : Keeps SchedulerTables.jobs x) : Keeps schedules x :=
  fun t => congrArg (List.map fun job : Job => (job.id, job.schedule)) (h t)

theorem schedules_update {p : Job → Bool} {f : Job → Job}
    (h : ∀ r, (f r).id = r.id ∧ (f r).schedule = r.schedule) (t : SchedulerTables) :
    schedules (updateJobs p f t) = schedules t := by
  simp only [schedules, updateJobs, Table.updateWhere, List.map_map]
  refine List.map_congr_left fun r _ => ?_
  simp only [Function.comp_apply]
  split
  · rw [(h r).1, (h r).2]
  · rfl

theorem updateOneJob_schedules {p : Job → Bool} {f : Job → Job} {e : PyError}
    (h : ∀ r, (f r).id = r.id ∧ (f r).schedule = r.schedule) :
    Keeps schedules (updateOneJob p f e) :=
  (read_readOnly _).keeps.bind fun _ =>
    keeps_write_bind (schedules_update h) fun _ => (require_readOnly _ _).keeps

theorem setJobState_schedules {jobId : String} {state fromState : JobState}
    {now : Option Timestamp} : Keeps schedules (setJobState jobId state fromState now a) := by
  refine Keeps.bind (Keeps.atomically ?_) fun _ => (getJob_readOnly _).keeps
  exact (read_readOnly _).keeps.bind fun _ => (read_readOnly _).keeps.bind fun _ =>
    keeps_write_bind (schedules_update fun _ => ⟨rfl, rfl⟩) fun _ =>
      (require_readOnly _ _).keeps.bind fun _ => (require_readOnly _ _).keeps

theorem resumeJob_schedules {jobId : String} {now : Option Timestamp} :
    Keeps schedules (resumeJob store jobId now a) := by
  refine Keeps.bind (Keeps.atomically ?_) fun _ => (getJob_readOnly _).keeps
  exact (getJob_readOnly _).keeps.bind fun _ => (require_readOnly _ _).keeps.bind fun _ =>
    (lift_readOnly _).keeps.bind fun _ => updateOneJob_schedules fun _ => ⟨rfl, rfl⟩

theorem cancelJob_schedules {jobId : String} {now : Option Timestamp} :
    Keeps schedules (cancelJob jobId now a) := by
  refine Keeps.bind (Keeps.atomically ?_) fun _ => (getJob_readOnly _).keeps
  refine (getJob_readOnly _).keeps.bind fun current => ?_
  have hruns : Keeps schedules (do
      write (updateRuns (fun run => run.jobId = jobId && run.status.isActive)
        (JobRun.requestCancel (now.getD a.clock)))
      write (updateRuns (fun run => run.jobId = jobId && run.status = .succeeded &&
        run.deliveryStatus = .pending) (JobRun.suppress (now.getD a.clock))) : Op Unit) :=
    keeps_write_bind (fun _ => rfl) fun _ => keeps_write fun _ => rfl
  split
  · exact (pure_readOnly _).keeps
  · split
    · exact hruns
    · exact (@updateOneJob_schedules _ (Job.setState .cancelled (now.getD a.clock)) _
        fun _ => ⟨rfl, rfl⟩).bind fun _ => hruns

theorem claimJobs_schedules {c : Claim} {jobs : List Job} {ids : List String} :
    Keeps schedules (claimJobs store c jobs ids) := by
  induction jobs generalizing ids with
  | nil => exact (pure_readOnly _).keeps
  | cons job jobs ih =>
      rw [claimJobs]
      split
      · exact (pure_readOnly _).keeps
      · refine Keeps.bind ?_ fun _ => ih
        exact (lift_readOnly _).keeps.bind fun _ =>
          (schedules_of_jobs claimOccurrences_jobs).bind fun _ => (lift_readOnly _).keeps.bind
            fun _ => keeps_write_bind (schedules_update fun _ => ⟨rfl, rfl⟩) fun _ =>
              (pure_readOnly _).keeps

theorem claimDueRuns_schedules {now : Timestamp} {owner : String} {lease : LeaseTime} {batch : ℤ}
    {startupCap jitterSeed : Option ℤ} :
    Keeps schedules (claimDueRuns store now owner lease batch startupCap jitterSeed a) :=
  (lift_readOnly _).keeps.bind fun _ => (require_readOnly _ _).keeps.bind fun _ =>
    (require_readOnly _ _).keeps.bind fun _ => (require_readOnly _ _).keeps.bind fun _ =>
      (require_readOnly _ _).keeps.bind fun _ =>
        Keeps.bind (Keeps.atomically ((read_readOnly _).keeps.bind fun _ => claimJobs_schedules))
          fun _ => (getRuns_readOnly _).keeps

theorem anchored_ok {schedule schedule' : ScheduleSpec} {now : Timestamp}
    (h : anchored schedule now = .ok schedule') :
    schedule'.Anchored ∧ (schedule.Anchored → schedule' = schedule) := by
  unfold anchored at h
  split at h
  · rename_i intervalSeconds hkind
    simp only [bind_eq_ok, pure_eq_ok] at h
    obtain ⟨delta, -, startAt, -, rfl⟩ := h
    exact ⟨fun _ => by simp, fun hanchored => absurd hkind (hanchored intervalSeconds)⟩
  · rename_i hkind
    obtain rfl := Except.ok.inj h
    exact ⟨fun intervalSeconds hsame => hkind intervalSeconds hsame, fun _ => rfl⟩

theorem storesWrite {jobId : String} {columns : JobColumns} (h : JobsStored t)
    (hcolumns : columns.schedule.Anchored) : CommitsAt JobsStored (updateJobWrite jobId columns) t := by
  refine commitsAt_atomically fun _ t' hwrite => ?_
  obtain ⟨-, rfl⟩ := updateOneJob_ok hwrite
  refine ⟨h.keyed.updateWhere fun _ => rfl, fun job hjob => ?_⟩
  obtain ⟨before, hbefore, rfl⟩ := List.mem_map.1 hjob
  split
  · exact hcolumns
  · exact h.anchored before hbefore

theorem updateJobRead_anchored {jobId : String} {changes : JobChanges} {now : Option Timestamp}
    {columns : JobColumns} (h : updateJobRead store jobId changes now a t = (.ok columns, t')) :
    columns.schedule.Anchored := by
  obtain ⟨current, policy, schedule, nextRun, -, -, hschedule, -, rfl⟩ := updateJobRead_ok h
  exact (anchored_ok hschedule).1

theorem createJob_stores {schedule : ScheduleSpec} {payload : JobPayload} {options : JobOptions}
    {now : Option Timestamp} (h : JobsStored t) :
    CommitsAt JobsStored (createJob store schedule payload options now a) t := by
  refine (lift_readOnly _).commitsAt_bind fun _ _ => (lift_readOnly _).commitsAt_bind fun _ _ =>
    (lift_readOnly _).commitsAt_bind fun schedule hschedule =>
      (lift_readOnly _).commitsAt_bind fun _ _ => (require_readOnly _ _).commitsAt_bind fun _ _ =>
        commitsAt_then (fun _ => getJob_readOnly _) fun _ t' hcreate => ?_
  obtain ⟨hschedule, -⟩ := lift_ok.1 hschedule
  simp only [bind_ok, read_ok, require_ok, write_ok, Bool.not_eq_true'] at hcreate
  obtain ⟨_, _, ⟨rfl, rfl⟩, _, _, ⟨hfree, rfl⟩, rfl⟩ := hcreate
  refine ⟨h.keyed.append (Option.isNone_iff_eq_none.1 (Option.isSome_eq_false_iff.1 hfree)),
    fun job hjob => ?_⟩
  rcases List.mem_append.1 hjob with hjob | hjob
  · exact h.anchored job hjob
  · obtain rfl := List.mem_singleton.1 hjob
    exact (anchored_ok hschedule).1

theorem JobsStored.elim {x : Op β} (h : JobsStored t) (hx : CommitsAt JobsStored x t) :
    JobsStored (x t).2 := by
  rcases hx with hsame | hstored
  · rw [hsame]
    exact h
  · exact hstored

theorem JobsStored.perform (h : JobsStored t) (c : SchedulerCall β) :
    JobsStored (c.perform store a t).2 := by
  have hkept : ∀ {x : Op β}, Keeps schedules x → JobsStored (x t).2 := fun hx =>
    h.of_schedules (hx t)
  cases c with
  | createJob => exact h.elim (createJob_stores h)
  | updateJob =>
      exact h.elim (updateJobRead_readOnly.commitsAt_bind fun columns hread =>
        (storesWrite h (updateJobRead_anchored hread)).bind_readOnly fun _ => getJob_readOnly _)
  | pauseJob => exact hkept setJobState_schedules
  | resumeJob => exact hkept resumeJob_schedules
  | cancelJob => exact hkept cancelJob_schedules
  | claimDueRuns => exact hkept claimDueRuns_schedules
  | markRunning => exact hkept (schedules_of_jobs markRunning_jobs)
  | setPolarisRunId =>
      exact hkept (schedules_of_jobs ((require_readOnly _ _).keeps.bind fun _ =>
        Keeps.bind updateOneRun_jobs.atomically fun _ => (getRun_readOnly _).keeps))
  | heartbeat =>
      exact hkept (schedules_of_jobs (heartbeatRead_readOnly.keeps.bind fun _ =>
        keeps_write_bind (fun _ => rfl) fun _ => (getRun_readOnly _).keeps))
  | requestCancel => exact hkept (schedules_of_jobs requestCancel_jobs)
  | cancel => exact hkept (schedules_of_jobs cancel_jobs)
  | complete => exact hkept (schedules_of_jobs complete_jobs)
  | recordDelivery => exact hkept (schedules_of_jobs recordDelivery_jobs)
  | recoverStaleRuns => exact hkept (schedules_of_jobs recoverStaleRuns_jobs)
  | createRetry => exact hkept (schedules_of_jobs createRetry_jobs)

/-- Also the columns that updates have still to write have their starts. -/
structure SchedulingStored (s : Scheduling) : Prop where
  stored : JobsStored s.tables
  pending : ∀ jobId columns, PendingWrite.updateJob jobId columns ∈ s.pending →
    columns.schedule.Anchored

theorem SchedulingStored.of_pending {s : Scheduling} (h : SchedulingStored s)
    (hstored : JobsStored t) : SchedulingStored (s.after t) := ⟨hstored, h.pending⟩

theorem SchedulingStored.step {s s' : Scheduling} {retried : Option String} (h : SchedulingStored s)
    (hstep : SchedulingStep store s retried s') : SchedulingStored s' := by
  cases hstep with
  | @calls β c a r t hc hperform =>
      have hstored := @JobsStored.perform store a _ β h.stored c
      rw [hperform] at hstored
      exact h.of_pending hstored
  | @retries runId owner lease approved now a run t hretry =>
      have hstored := @JobsStored.perform store a _ _ h.stored
        (.createRetry runId owner lease approved now)
      change JobsStored (createRetry runId owner lease approved now a s.tables).2 at hstored
      rw [hretry] at hstored
      exact ⟨hstored, h.pending⟩
  | @retryFails runId owner lease approved now a e t hretry =>
      have hstored := @JobsStored.perform store a _ _ h.stored
        (.createRetry runId owner lease approved now)
      change JobsStored (createRetry runId owner lease approved now a s.tables).2 at hstored
      rw [hretry] at hstored
      exact h.of_pending hstored
  | readsUpdate hread =>
      refine ⟨h.stored, fun jobId columns hmem => ?_⟩
      rcases List.mem_append.1 hmem with hmem | hmem
      · exact h.pending jobId columns hmem
      · cases List.mem_singleton.1 hmem
        exact updateJobRead_anchored hread
  | readsHeartbeat | readsCancel =>
      refine ⟨h.stored, fun jobId columns hmem => ?_⟩
      rcases List.mem_append.1 hmem with hmem | hmem
      · exact h.pending jobId columns hmem
      · cases List.mem_singleton.1 hmem
  | @lands n w hw =>
      refine ⟨?_, fun jobId columns hmem => h.pending jobId columns (List.mem_of_mem_eraseIdx hmem)⟩
      cases w with
      | updateJob jobId columns =>
          exact h.stored.elim (storesWrite h.stored
            (h.pending jobId columns (List.mem_of_getElem? hw)))
      | heartbeat => exact h.stored.of_schedules rfl
      | requestCancel => exact h.stored.of_schedules rfl

theorem SchedulingStored.reach {s : Scheduling} (h : SchedulingReach store s) :
    SchedulingStored s := by
  induction h with
  | start => exact ⟨⟨List.nodup_nil, by simp⟩, by simp⟩
  | step _ hstep ih => exact ih.step hstep

/-! What the halves of an update and its rivals make of the job. -/

section
variable {changes other : JobChanges} {job job' left : Job} {columns : JobColumns} {jobId : String}

theorem JobChanges.Spares.refl (changes : JobChanges) (job : Job) : changes.Spares job job :=
  ⟨fun _ => rfl, fun _ => rfl, fun _ => rfl, fun _ => rfl, fun _ => rfl, fun _ => rfl, fun _ => rfl⟩

theorem UpdatedOnly.refl (changes : JobChanges) (job : Job) : UpdatedOnly changes job job :=
  ⟨.refl _ _, rfl, rfl⟩

theorem JobChanges.Spares.of_covers (h : other.Spares job job') (hcovers : changes.Covers other) :
    changes.Spares job job' where
  name hnone := h.name (hcovers.name hnone)
  schedule hnone := h.schedule (hcovers.schedule hnone)
  payload hnone := h.payload (hcovers.payload hnone)
  catchupPolicy hnone := h.catchupPolicy (hcovers.catchupPolicy hnone)
  maxCatchup hnone := h.maxCatchup (hcovers.maxCatchup hnone)
  graceSeconds hnone := h.graceSeconds (hcovers.graceSeconds hnone)
  nextRunAt hnone := h.nextRunAt (hcovers.schedule hnone)

/-- Columns that spare the fields of one job spare those of another exactly where the two agree. -/
theorem JobChanges.Spares.lands_iff (h : changes.Spares job (job.update columns)) :
    changes.Spares left (left.update columns) ↔ changes.Spares job left := by
  constructor
  · intro hleft
    exact ⟨fun hnone => (hleft.name hnone).symm.trans (h.name hnone),
      fun hnone => (hleft.schedule hnone).symm.trans (h.schedule hnone),
      fun hnone => (hleft.payload hnone).symm.trans (h.payload hnone),
      fun hnone => (hleft.catchupPolicy hnone).symm.trans (h.catchupPolicy hnone),
      fun hnone => (hleft.maxCatchup hnone).symm.trans (h.maxCatchup hnone),
      fun hnone => (hleft.graceSeconds hnone).symm.trans (h.graceSeconds hnone),
      fun hnone => (hleft.nextRunAt hnone).symm.trans (h.nextRunAt hnone)⟩
  · intro hleft
    exact ⟨fun hnone => (h.name hnone).trans (hleft.name hnone).symm,
      fun hnone => (h.schedule hnone).trans (hleft.schedule hnone).symm,
      fun hnone => (h.payload hnone).trans (hleft.payload hnone).symm,
      fun hnone => (h.catchupPolicy hnone).trans (hleft.catchupPolicy hnone).symm,
      fun hnone => (h.maxCatchup hnone).trans (hleft.maxCatchup hnone).symm,
      fun hnone => (h.graceSeconds hnone).trans (hleft.graceSeconds hnone).symm,
      fun hnone => (h.nextRunAt hnone).trans (hleft.nextRunAt hnone).symm⟩

theorem policyOf_value (policy : CatchupPolicy) : policyOf policy.value = .ok policy := by
  cases policy <;> rfl

theorem validateJobOptions_policy {catchupPolicy : String} {maxCatchup : ℤ} {graceSeconds : ℚ}
    {policy : CatchupPolicy}
    (h : validateJobOptions catchupPolicy maxCatchup graceSeconds = .ok policy) :
    policyOf catchupPolicy = .ok policy := by
  obtain ⟨found, hfound, h⟩ := bind_eq_ok.1 h
  split at h
  · cases h
  · split at h
    · cases h
    · split at h
      · cases h
      · rw [hfound, pure_eq_ok.1 h]

theorem updateJobRead_spares {now : Option Timestamp} (hstored : JobsStored t)
    (h : updateJobRead store jobId changes now a t = (.ok columns, t')) :
    ∃ job, t.findJob jobId = some job ∧ changes.Spares job (job.update columns) := by
  obtain ⟨job, policy, schedule, nextRun, hjob, hpolicy, hschedule, hnext, rfl⟩ := updateJobRead_ok h
  refine ⟨job, hjob, ⟨fun hnone => ?_, fun hnone => ?_, fun hnone => ?_, fun hnone => ?_,
    fun hnone => ?_, fun hnone => ?_, fun hnone => ?_⟩⟩
  · simp [Job.update, hnone]
  · rw [hnone, Option.getD_none] at hschedule
    exact (anchored_ok hschedule).2 (hstored.anchored job (Table.find_mem hjob))
  · simp [Job.update, hnone]
  · rw [hnone, Option.getD_none] at hpolicy
    have hsame := validateJobOptions_policy hpolicy
    rw [policyOf_value] at hsame
    exact (Except.ok.inj hsame).symm
  · simp [Job.update, hnone]
  · simp [Job.update, hnone]
  · rw [hnone, Option.isSome_none, if_neg Bool.false_ne_true] at hnext
    exact (Except.ok.inj hnext).symm

/-- Only the columns that move a job along have changed. -/
def Rescheduled (job job' : Job) : Prop :=
  ∃ nextRunAt state stamp version, job' =
    { job with nextRunAt := nextRunAt, state := state, updatedAt := stamp, version := version }

theorem Rescheduled.refl (job : Job) : Rescheduled job job :=
  ⟨job.nextRunAt, job.state, job.updatedAt, job.version, rfl⟩

theorem Rescheduled.trans {job'' : Job} (h : Rescheduled job job') (h' : Rescheduled job' job'') :
    Rescheduled job job'' := by
  obtain ⟨_, _, _, _, rfl⟩ := h
  obtain ⟨nextRunAt, state, stamp, version, rfl⟩ := h'
  exact ⟨nextRunAt, state, stamp, version, rfl⟩

theorem Rescheduled.spares (h : Rescheduled job job')
    (hnext : changes.schedule.isSome = true ∨ job'.nextRunAt = job.nextRunAt) :
    changes.Spares job job' := by
  obtain ⟨nextRunAt, state, stamp, version, rfl⟩ := h
  refine ⟨fun _ => rfl, fun _ => rfl, fun _ => rfl, fun _ => rfl, fun _ => rfl, fun _ => rfl,
    fun hnone => ?_⟩
  rcases hnext with hgiven | hsame
  · simp [hnone] at hgiven
  · exact hsame

theorem findJob_update {p : Job → Bool} {f : Job → Job} (hf : ∀ r, (f r).id = r.id)
    (hjob : t.findJob jobId = some job) :
    (updateJobs p f t).findJob jobId = some (if p job then f job else job) := by
  have hfind : (updateJobs p f t).findJob jobId =
      (t.findJob jobId).map fun r => if p r then f r else r := Table.find_updateWhere hf
  rw [hfind, hjob, Option.map_some]

theorem findJob_write (hjob : t.findJob jobId = some job) :
    (updateJobs (fun job => job.id = jobId) (Job.update columns) t).findJob jobId =
      some (job.update columns) := by
  have hfind := @findJob_update t job jobId (fun job => job.id = jobId) (Job.update columns)
    (fun _ => rfl) hjob
  have hid : job.id = jobId := Table.find_key hjob
  rwa [if_pos (by simpa using hid)] at hfind

theorem row_of_commitsAt {x : Op β} {R : Job → Prop} (hjob : t.findJob jobId = some job) (hR : R job)
    (h : CommitsAt (fun t' => ∃ left, t'.findJob jobId = some left ∧ R left) x t) :
    ∃ left, (x t).2.findJob jobId = some left ∧ R left := by
  rcases h with hsame | hrow
  · rw [hsame]
    exact ⟨job, hjob, hR⟩
  · exact hrow

theorem claimJobs_row {c : Claim} {jobs : List Job} {ids ids' : List String}
    (hjob : t.findJob jobId = some job) (h : claimJobs store c jobs ids t = (.ok ids', t')) :
    ∃ left, t'.findJob jobId = some left ∧ Rescheduled job left ∧
      (jobId ∉ jobs.map Job.id → left = job) := by
  induction jobs generalizing t ids job with
  | nil =>
      obtain ⟨-, rfl⟩ := pure_ok.1 h
      exact ⟨job, hjob, .refl job, fun _ => rfl⟩
  | cons first jobs ih =>
      rw [claimJobs] at h
      split at h
      · obtain ⟨-, rfl⟩ := pure_ok.1 h
        exact ⟨job, hjob, .refl job, fun _ => rfl⟩
      · obtain ⟨more, t₁, hfirst, h⟩ := bind_ok.1 h
        simp only [claimJob, bind_ok, lift_ok, write_ok, pure_ok] at hfirst
        obtain ⟨occurrences, _, ⟨-, rfl⟩, _, t₂, hoccurrences, nextRun, _, ⟨-, rfl⟩, _, _, rfl, -,
          rfl⟩ := hfirst
        have hkept := @claimOccurrences_jobs c first (lastOf (c.limit - ids.length) occurrences) ids t
        rw [hoccurrences] at hkept
        have hjob₂ : t₂.findJob jobId = some job := by
          rw [SchedulerTables.findJob, hkept]
          exact hjob
        have hid : job.id = jobId := Table.find_key hjob
        have hclaimed := @findJob_update t₂ job jobId (fun other => other.id = first.id)
          (Job.setNextRun nextRun (if nextRun.isSome then .scheduled else .completed) c.now)
          (fun _ => rfl) hjob₂
        obtain ⟨left, hleft, hmoved, hsame⟩ := ih hclaimed h
        refine ⟨left, hleft, Rescheduled.trans ?_ hmoved, fun hnot => ?_⟩
        · split
          · exact ⟨_, _, _, _, rfl⟩
          · exact .refl job
        · rw [List.map_cons, List.mem_cons, not_or] at hnot
          rw [hsame hnot.2, if_neg]
          simpa [hid] using hnot.1

/-- A job that a claim does not find due stays as it is. -/
theorem claimDueRuns_row {now : Timestamp} {k : ClaimCall} (hkeyed : JobsKeyed t)
    (hjob : t.findJob jobId = some job) :
    ∃ left, (k.perform store now t).2.findJob jobId = some left ∧ Rescheduled job left ∧
      (isDue now job = false → left = job) := by
  refine row_of_commitsAt hjob ⟨.refl job, fun _ => rfl⟩ ?_
  refine (lift_readOnly _).commitsAt_bind fun _ _ => (require_readOnly _ _).commitsAt_bind
    fun _ _ => (require_readOnly _ _).commitsAt_bind fun _ _ =>
      (require_readOnly _ _).commitsAt_bind fun _ _ => (require_readOnly _ _).commitsAt_bind
        fun _ _ => commitsAt_then getRuns_readOnly fun ids t' hclaim => ?_
  simp only [bind_ok, read_ok] at hclaim
  obtain ⟨_, _, ⟨rfl, rfl⟩, hclaim⟩ := hclaim
  obtain ⟨left, hleft, hmoved, hsame⟩ := claimJobs_row hjob hclaim
  refine ⟨left, hleft, hmoved, fun hnot => hsame fun hmem => ?_⟩
  obtain ⟨due, hdue, hid⟩ := List.mem_map.1 hmem
  have hdue := (@claimOrder_perm store t now k.jitterSeed).mem_iff.1 hdue
  obtain ⟨hrow, hisDue⟩ := mem_dueJobs.1 hdue
  obtain rfl := Table.Keyed.eq_of_key hkeyed hrow (Table.find_mem hjob)
    (hid.trans (Table.find_key hjob).symm)
  simp [hisDue] at hnot

theorem pauseJob_row {now : Option Timestamp} (hjob : t.findJob jobId = some job) :
    ∃ left, (pauseJob jobId now a t).2.findJob jobId = some left ∧ Rescheduled job left ∧
      left.nextRunAt = job.nextRunAt := by
  refine row_of_commitsAt hjob ⟨.refl job, rfl⟩ ?_
  refine commitsAt_then (fun _ => getJob_readOnly _) fun _ t' hpause => ?_
  simp only [bind_ok, read_ok, write_ok, require_ok] at hpause
  obtain ⟨_, _, ⟨-, rfl⟩, _, _, ⟨-, rfl⟩, _, _, rfl, _, _, ⟨-, rfl⟩, -, rfl⟩ := hpause
  refine ⟨_, findJob_update (fun _ => rfl) hjob, ?_⟩
  split
  · exact ⟨⟨_, _, _, _, rfl⟩, rfl⟩
  · exact ⟨.refl job, rfl⟩

theorem resumeJob_row {now : Option Timestamp} (hjob : t.findJob jobId = some job) :
    ∃ left, (resumeJob store jobId now a t).2.findJob jobId = some left ∧ Rescheduled job left ∧
      (job.nextRunAt.isSome = true → left.nextRunAt = job.nextRunAt) := by
  refine row_of_commitsAt hjob ⟨.refl job, fun _ => rfl⟩ ?_
  refine commitsAt_then (fun _ => getJob_readOnly _) fun _ t' hresume => ?_
  simp only [bind_ok, require_ok, lift_ok] at hresume
  obtain ⟨current, _, hget, _, _, ⟨-, rfl⟩, nextRun, _, ⟨hnext, rfl⟩, hone⟩ := hresume
  obtain ⟨hcurrent, rfl⟩ := getJob_ok hget
  obtain ⟨-, rfl⟩ := updateOneJob_ok hone
  rw [hjob] at hcurrent
  obtain rfl := Option.some.inj hcurrent
  refine ⟨_, findJob_update (fun _ => rfl) hjob, ?_⟩
  split
  · refine ⟨⟨_, _, _, _, rfl⟩, fun hsome => ?_⟩
    obtain ⟨next, hsome⟩ := Option.isSome_iff_exists.1 hsome
    simp only [hsome] at hnext ⊢
    exact (Except.ok.inj hnext).symm
  · exact ⟨.refl job, fun _ => rfl⟩

theorem Rival.act_job {rival : Rival} (hkeyed : JobsKeyed t) (hjob : t.findJob jobId = some job)
    (h : rival.act store jobId a t = some t') :
    ∃ left, t'.findJob jobId = some left ∧
      (rival.Harmless changes job → changes.Spares job left) := by
  cases rival with
  | claimDueRuns now k =>
      obtain rfl := Option.some.inj h
      obtain ⟨left, hleft, hmoved, hsame⟩ := @claimDueRuns_row store t job jobId now k hkeyed hjob
      exact ⟨left, hleft, fun hharmless => hmoved.spares
        (hharmless.imp id fun hnot => congrArg Job.nextRunAt (hsame hnot))⟩
  | pauseJob now =>
      obtain rfl := Option.some.inj h
      obtain ⟨left, hleft, hmoved, hsame⟩ := @pauseJob_row a t job jobId now hjob
      exact ⟨left, hleft, fun _ => hmoved.spares (.inr hsame)⟩
  | resumeJob now =>
      obtain rfl := Option.some.inj h
      obtain ⟨left, hleft, hmoved, hsame⟩ := @resumeJob_row store a t job jobId now hjob
      exact ⟨left, hleft, fun hharmless => hmoved.spares (hharmless.imp id hsame)⟩
  | updateJob changes now => cases h

end

namespace Race
variable {jobId : String} {changes : JobChanges} {rival : Rival} {s s' : Race}

/-- What the two operations have made of the job, once the update has written. -/
def Settles (jobId : String) (changes : JobChanges) (rival : Rival) (s : Race) : Prop :=
  ∃ job left final, s.read = some job ∧ s.left = some left ∧
    s.tables.findJob jobId = some final ∧
    (UpdatedOnly changes left final ↔ (s.overtaken = true → changes.Spares job left)) ∧
    (rival.Harmless changes job → UpdatedOnly changes left final)

structure Inv (jobId : String) (changes : JobChanges) (rival : Rival) (s : Race) : Prop where
  stored : JobsStored s.tables
  behind : s.rival ≠ .ended → s.overtaken = false
  waiting : s.update = .waiting → s.overtaken = false ∧
    (s.rival = .ended → s.left = s.tables.findJob jobId)
  holds : ∀ columns, s.update = .holds columns → columns.schedule.Anchored ∧
    ∃ job, s.read = some job ∧ changes.Spares job (job.update columns) ∧
      (s.rival ≠ .ended → s.tables.findJob jobId = some job) ∧
      (s.rival = .ended → ∃ left, s.left = some left ∧ s.tables.findJob jobId = some left ∧
        (s.overtaken = false → left = job) ∧ (rival.Harmless changes job → changes.Spares job left))
  ended : s.update = .ended → (∃ job final, s.read = some job ∧ s.tables.findJob jobId = some final) ∧
    (s.rival = .ended → s.Settles jobId changes rival)
  rivalHolds : ∀ columns, s.rival = .holds columns → columns.schedule.Anchored ∧
    ∃ other now, rival = .updateJob other now ∧ (s.update ≠ .ended →
      ∃ job, s.tables.findJob jobId = some job ∧ other.Spares job (job.update columns))

theorem Inv.start {t : SchedulerTables} (h : JobsStored t) : Inv jobId changes rival (.start t) where
  stored := h
  behind _ := rfl
  waiting _ := ⟨rfl, nofun⟩
  holds _ := nofun
  ended := nofun
  rivalHolds _ := nofun

/-- The rival has written, or has failed. -/
theorem Inv.leaves (h : Inv jobId changes rival s) {t : SchedulerTables} (hstored : JobsStored t)
    (hopen : s.rival ≠ .ended) (hrow : ∀ job, s.tables.findJob jobId = some job →
      ∃ left, t.findJob jobId = some left ∧
        (s.update ≠ .ended → rival.Harmless changes job → changes.Spares job left)) :
    Inv jobId changes rival (s.leaves jobId t) where
  stored := hstored
  behind hnot := absurd rfl hnot
  waiting hwaiting := by
    have hwaiting : s.update = .waiting := hwaiting
    refine ⟨?_, fun _ => rfl⟩
    simp [Race.leaves, hwaiting, UpdatePhase.isHolding]
  holds columns hholds := by
    have hholds : s.update = .holds columns := hholds
    obtain ⟨hanchored, job, hread, hspares, hfound, -⟩ := h.holds columns hholds
    obtain ⟨left, hleft, hharmless⟩ := hrow job (hfound hopen)
    refine ⟨hanchored, job, hread, hspares, fun hnot => absurd rfl hnot, fun _ =>
      ⟨left, hleft, hleft, fun hovertaken => ?_, hharmless (by simp [hholds])⟩⟩
    simp [Race.leaves, hholds, UpdatePhase.isHolding] at hovertaken
  ended hended := by
    have hended : s.update = .ended := hended
    obtain ⟨⟨job, before, hread, hbefore⟩, -⟩ := h.ended hended
    obtain ⟨left, hleft, -⟩ := hrow before hbefore
    refine ⟨⟨job, left, hread, hleft⟩, fun _ => ⟨job, left, left, hread, hleft, hleft, ?_,
      fun _ => .refl changes left⟩⟩
    simp [Race.leaves, hended, UpdatePhase.isHolding, UpdatedOnly.refl]
  rivalHolds _ := nofun

theorem Inv.step (h : Inv jobId changes rival s)
    (hstep : RaceStep store jobId changes rival s s') : Inv jobId changes rival s' := by
  cases hstep with
  | reads hwaiting hread =>
      obtain ⟨job, hjob, hspares⟩ := updateJobRead_spares h.stored hread
      obtain ⟨hahead, hleft⟩ := h.waiting hwaiting
      refine ⟨h.stored, h.behind, nofun, fun columns hholds => ?_,
        nofun, fun columns hholds => ?_⟩
      · cases hholds
        refine ⟨updateJobRead_anchored hread, job, hjob, hspares, fun _ => hjob, fun hended =>
          ⟨job, ?_, hjob, fun _ => rfl, fun _ => .refl changes job⟩⟩
        rw [← hjob]
        exact hleft hended
      · obtain ⟨hanchored, other, now, hrival, hfound⟩ := h.rivalHolds columns hholds
        exact ⟨hanchored, other, now, hrival, fun _ => hfound (by simp [hwaiting])⟩
  | @writes columns u t hholds hwrite =>
      obtain ⟨hanchored, job, hread, hspares, hopen, hended⟩ := h.holds columns hholds
      have hstored := h.stored.elim (@storesWrite _ jobId columns h.stored hanchored)
      rw [hwrite] at hstored
      obtain ⟨-, htables⟩ := updateOneJob_ok (atomically_ok.1 hwrite)
      have hfinal : ∀ before, s.tables.findJob jobId = some before →
          t.findJob jobId = some (before.update columns) := by
        intro before hbefore
        rw [htables]
        exact findJob_write hbefore
      refine ⟨hstored, h.behind, nofun, fun _ => nofun,
        fun _ => ⟨?_, fun hrival => ?_⟩, fun other hother => ?_⟩
      · by_cases hrival : s.rival = .ended
        · obtain ⟨left, -, hleft, -⟩ := hended hrival
          exact ⟨job, _, hread, hfinal left hleft⟩
        · exact ⟨job, _, hread, hfinal job (hopen hrival)⟩
      · obtain ⟨left, hleft, hfound, hsame, hharmless⟩ := hended hrival
        have hlands : UpdatedOnly changes left (left.update columns) ↔ changes.Spares job left :=
          ⟨fun honly => hspares.lands_iff.1 honly.spares,
            fun hagree => ⟨hspares.lands_iff.2 hagree, rfl, rfl⟩⟩
        refine ⟨job, left, _, hread, hleft, hfinal left hfound, ?_, fun hspared =>
          hlands.2 (hharmless hspared)⟩
        rw [hlands]
        refine ⟨fun hagree _ => hagree, fun himp => ?_⟩
        cases hovertaken : s.overtaken with
        | true => exact himp hovertaken
        | false => exact hsame hovertaken ▸ .refl changes job
      · obtain ⟨hanchored, theirs, now, hrival, -⟩ := h.rivalHolds other hother
        exact ⟨hanchored, theirs, now, hrival, fun hnot => absurd rfl hnot⟩
  | @rivalActs a t hwaiting hact =>
      refine h.leaves ?_ (by simp [hwaiting]) fun job hjob => ?_
      · cases rival with
        | claimDueRuns now k =>
            obtain rfl := Option.some.inj hact
            exact h.stored.of_schedules (claimDueRuns_schedules s.tables)
        | pauseJob now =>
            obtain rfl := Option.some.inj hact
            exact h.stored.of_schedules (setJobState_schedules s.tables)
        | resumeJob now =>
            obtain rfl := Option.some.inj hact
            exact h.stored.of_schedules (resumeJob_schedules s.tables)
        | updateJob other now => cases hact
      · obtain ⟨left, hleft, hharmless⟩ := Rival.act_job h.stored.keyed hjob hact
        exact ⟨left, hleft, fun _ => hharmless⟩
  | @rivalReads other now a columns t hrival hwaiting hread =>
      obtain ⟨job, hjob, hspares⟩ := updateJobRead_spares h.stored hread
      have hopen : s.rival ≠ .ended := by simp [hwaiting]
      refine ⟨h.stored, fun _ => h.behind hopen, fun hupdate => ⟨(h.waiting hupdate).1,
        nofun⟩, fun mine hholds => ?_, fun hended =>
          ⟨(h.ended hended).1, nofun⟩, fun theirs hholds => ?_⟩
      · obtain ⟨hanchored, before, hbefore, hmine, hfound, -⟩ := h.holds mine hholds
        exact ⟨hanchored, before, hbefore, hmine, fun _ => hfound hopen,
          nofun⟩
      · cases hholds
        exact ⟨updateJobRead_anchored hread, other, now, hrival, fun _ => ⟨job, hjob, hspares⟩⟩
  | rivalFails hrival hwaiting hread =>
      exact h.leaves h.stored (by simp [hwaiting]) fun job hjob =>
        ⟨job, hjob, fun _ _ => .refl changes job⟩
  | @rivalWrites columns r t hholds hwrite =>
      obtain ⟨hanchored, other, now, hrival, hfound⟩ := h.rivalHolds columns hholds
      have hstored := h.stored.elim (@storesWrite _ jobId columns h.stored hanchored)
      rw [hwrite] at hstored
      refine h.leaves hstored (by simp [hholds]) fun job hjob => ?_
      rcases r with e | u
      · obtain rfl := (atomically_atomic _).state hwrite
        exact ⟨job, hjob, fun _ _ => .refl changes job⟩
      · obtain ⟨-, htables⟩ := updateOneJob_ok (atomically_ok.1 hwrite)
        refine ⟨job.update columns, ?_, fun hopen hcovers => ?_⟩
        · rw [htables]
          exact findJob_write hjob
        · obtain ⟨before, hbefore, hspares⟩ := hfound hopen
          rw [hjob] at hbefore
          obtain rfl := Option.some.inj hbefore
          rw [hrival] at hcovers
          exact hspares.of_covers hcovers

theorem Inv.reach (h : RaceReach store jobId changes rival s) : Inv jobId changes rival s := by
  induction h with
  | start hreach => exact .start (SchedulingStored.reach hreach).stored
  | step _ hstep ih => exact ih.step hstep

end Race

end SchedulerStore

open SchedulerStore in
/-- When both operations have ended, the update has changed no more than it was given exactly when the
rival has not changed any other field between the two halves of the update; a harmless rival does not. -/
theorem update_changes_only {store : SchedulerStore} {jobId : String} {changes : JobChanges}
    {rival : Rival} {s : Race} (h : RaceReach store jobId changes rival s)
    (hupdate : s.update = .ended) (hrival : s.rival = .ended) : s.Settles jobId changes rival :=
  ((Race.Inv.reach h).ended hupdate).2 hrival

/-! A claim between the two halves of an update of a job's name. -/

namespace Backlog
open SchedulerStore

def rename : JobChanges := ⟨some "renamed", none, none, none, none, none⟩

def readOp : Op JobColumns := updateJobRead Nightly.store "job" rename (some 2000000) draws

def rival : Rival := .claimDueRuns 3000000 (claim 3)

theorem rename_overtaken : ∃ s job left final, RaceReach Nightly.store "job" rename rival s ∧
    s.update = .ended ∧ s.rival = .ended ∧ s.read = some job ∧ s.left = some left ∧
    s.tables.findJob "job" = some final ∧ job.nextRunAt = some 1000000 ∧
    left.nextRunAt = some 4000000 ∧ final.nextRunAt = some 1000000 := by
  obtain ⟨columns, hread, hnext⟩ := Nightly.ok_of_check (x := readOp) (t := missed)
    (p := fun columns => columns.nextRunAt = some 1000000) (by decide +kernel)
  obtain ⟨job, hjob, hjobNext⟩ := (Option.any_eq_true (fun job : Job =>
    job.nextRunAt = some 1000000) (missed.findJob "job")).1 (by decide +kernel)
  obtain ⟨left, hleft, hleftNext⟩ := (Option.any_eq_true (fun job : Job =>
    job.nextRunAt = some 4000000) ((claimed 3).findJob "job")).1 (by decide +kernel)
  have hcount : (claimed 3).jobs.countP (fun job => job.id = "job") = 1 := by decide +kernel
  have hwrite : updateJobWrite "job" columns (claimed 3) =
      (.ok (), updateJobs (fun job => job.id = "job") (Job.update columns) (claimed 3)) := by
    simp only [updateJobWrite, updateOneJob, Txn.atomically_ok, Txn.bind_ok, Txn.read_ok, Txn.write_ok,
      Txn.require_ok]
    exact ⟨_, _, ⟨rfl, rfl⟩, (), _, rfl, by simpa using hcount, rfl⟩
  have hmissed : RaceReach Nightly.store "job" rename rival (.start missed) :=
    .start (SchedulingReach.start.step (.calls (c := .createJob ⟨.interval 1 (some (.aware 1000000)),
      "UTC"⟩ ⟨"single", [], none⟩ ⟨"", none, "bounded", 3, 0⟩ (some 0)) (a := draws) rfl rfl))
  have hdone := ((hmissed.step (.reads rfl hread)).step (.rivalActs (a := draws) rfl rfl)).step
    (.writes rfl hwrite)
  refine ⟨_, job, left, left.update columns, hdone, rfl, rfl, hjob, hleft, findJob_write hleft,
    of_decide_eq_true hjobNext, of_decide_eq_true hleftNext, of_decide_eq_true hnext⟩

end Backlog

theorem update_changes_only_overtaken : ∃ s : SchedulerStore.Race, s.update = .ended ∧
    s.rival = .ended ∧ s.Settles "job" Backlog.rename Backlog.rival := by
  obtain ⟨s, job, left, final, hreach, hupdate, hrival, -⟩ := Backlog.rename_overtaken
  exact ⟨s, hupdate, hrival, update_changes_only hreach hupdate hrival⟩

/-- The claim has moved the job on, and the update moves it back to occurrences that are claimed. -/
theorem window_reopened : ∃ (s : SchedulerStore.Race) (left final : Job),
    SchedulerStore.RaceReach Nightly.store "job" Backlog.rename Backlog.rival s ∧
      s.update = .ended ∧ s.rival = .ended ∧ s.left = some left ∧
      s.tables.findJob "job" = some final ∧
      ¬SchedulerStore.UpdatedOnly Backlog.rename left final := by
  obtain ⟨s, job, left, final, hreach, hupdate, hrival, -, hleft, hfinal, -, hmoved, hback⟩ :=
    Backlog.rename_overtaken
  refine ⟨s, left, final, hreach, hupdate, hrival, hleft, hfinal, fun honly => ?_⟩
  have hsame := honly.spares.nextRunAt rfl
  simp [hmoved, hback] at hsame

end Polaris
