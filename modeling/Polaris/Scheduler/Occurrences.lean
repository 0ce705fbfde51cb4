import Mathlib.Logic.Function.Basic
import Polaris.Scheduler.Runs

namespace Polaris
open PyJson SchedulerStore

/-- What the columns of a run say together. -/
structure JobRun.Coherent (run : JobRun) : Prop where
  owned : run.owner.isSome = run.status.isActive
  leased : run.leaseExpiresAt.isSome = run.status.isActive
  ended : run.completedAt.isSome = !run.status.isActive
  delivered : run.deliveryStatus = .succeeded ∨ run.deliveryStatus = .failed →
    run.status = .succeeded
  suppressed : run.status = .succeeded → run.cancelRequested = true → run.deliveryStatus ≠ .pending

def DeliveryStatus.isDecided : DeliveryStatus → Bool
  | .succeeded | .failed | .suppressed => true
  | _ => false

/-- What stays of a run until it is retried. -/
structure JobRun.Precedes (run run' : JobRun) : Prop where
  id : run'.id = run.id
  jobId : run'.jobId = run.jobId
  scheduledFor : run'.scheduledFor = run.scheduledFor
  payload : run'.payload = run.payload
  attempt : run'.attempt = run.attempt
  status : run.status.isActive = false → run'.status = run.status
  delivery : run.deliveryStatus.isDecided = true → run'.deliveryStatus = run.deliveryStatus

namespace JobRun
variable {run : JobRun} {stamp expires : Timestamp}

theorem Coherent.active_of_owner (h : run.Coherent) {owner : String} (howner : run.owner = some owner) :
    run.status.isActive = true := by
  rw [← h.owned, howner]
  rfl

theorem not_succeeded_of_active (h : run.status.isActive = true) : run.status ≠ .succeeded := by
  intro hstatus
  simp [hstatus, JobRunStatus.isActive] at h

/-- A run that is active has nothing delivered. -/
theorem Coherent.undelivered (h : run.Coherent) (hactive : run.status.isActive = true) :
    run.deliveryStatus ≠ .succeeded ∧ run.deliveryStatus ≠ .failed :=
  ⟨fun hd => not_succeeded_of_active hactive (h.delivered (.inl hd)),
    fun hd => not_succeeded_of_active hactive (h.delivered (.inr hd))⟩

theorem suppressPending_cases (status : DeliveryStatus) :
    status.suppressPending ≠ .pending ∧ (status.isDecided = true → status.suppressPending = status) ∧
      (status.suppressPending = .succeeded ∨ status.suppressPending = .failed →
        status = .succeeded ∨ status = .failed) := by
  cases status <;> simp [DeliveryStatus.suppressPending, DeliveryStatus.isDecided]

end JobRun

open JobRun in
/-- Each move keeps a run coherent, and only a run that is still open changes its status. -/
theorem RunMove.preserves {runId : String} {run : JobRun} {r' : Option JobRun}
    (h : RunMove runId (some run) r') (hrun : run.Coherent) :
    ∃ run', r' = some run' ∧ run'.Coherent ∧ run.Precedes run' := by
  cases h with
  | same => exact ⟨run, rfl, hrun, ⟨rfl, rfl, rfl, rfl, rfl, fun _ => rfl, fun _ => rfl⟩⟩
  | cancelRequested hactive =>
      refine ⟨_, rfl, ⟨hrun.owned, hrun.leased, hrun.ended, hrun.delivered, fun hstatus => ?_⟩,
        ⟨rfl, rfl, rfl, rfl, rfl, fun _ => rfl, fun _ => rfl⟩⟩
      exact absurd hstatus (not_succeeded_of_active hactive)
  | suppressed hstatus hpending =>
      refine ⟨_, rfl, ⟨hrun.owned, hrun.leased, hrun.ended, ?_, ?_⟩,
        ⟨rfl, rfl, rfl, rfl, rfl, fun _ => rfl, fun hdecided => ?_⟩⟩
      · simp [JobRun.suppress]
      · simp [JobRun.suppress]
      · simp [hpending, DeliveryStatus.isDecided] at hdecided
  | startCancelled hclaimed =>
      have hactive : run.status.isActive = true := by rw [hclaimed]; rfl
      obtain ⟨-, hkeeps, hdelivered⟩ := suppressPending_cases run.deliveryStatus
      refine ⟨_, rfl, ⟨rfl, rfl, rfl, fun hd => ?_, fun hstatus => ?_⟩,
        ⟨rfl, rfl, rfl, rfl, rfl, fun hended => ?_, hkeeps⟩⟩
      · obtain ⟨hs, hf⟩ := hrun.undelivered hactive
        rcases hdelivered hd with hd | hd
        · exact absurd hd hs
        · exact absurd hd hf
      · simp [JobRun.cancelClaimed] at hstatus
      · simp [hactive] at hended
  | started hclaimed =>
      have hactive : run.status.isActive = true := by rw [hclaimed]; rfl
      refine ⟨_, rfl, ⟨?_, ?_, ?_, fun hd => ?_, fun hstatus => ?_⟩,
        ⟨rfl, rfl, rfl, rfl, rfl, fun hended => ?_, fun _ => rfl⟩⟩
      · exact hrun.owned.trans hactive
      · exact hrun.leased.trans hactive
      · exact hrun.ended.trans (by rw [hactive]; rfl)
      · obtain ⟨hs, hf⟩ := hrun.undelivered hactive
        rcases hd with hd | hd
        · exact absurd hd hs
        · exact absurd hd hf
      · simp [JobRun.start] at hstatus
      · simp [hactive] at hended
  | attached hactive =>
      exact ⟨_, rfl, ⟨hrun.owned, hrun.leased, hrun.ended, hrun.delivered, hrun.suppressed⟩,
        ⟨rfl, rfl, rfl, rfl, rfl, fun _ => rfl, fun _ => rfl⟩⟩
  | extended howner =>
      have hactive := hrun.active_of_owner howner
      exact ⟨_, rfl, ⟨hrun.owned, hactive.symm, hrun.ended, hrun.delivered, hrun.suppressed⟩,
        ⟨rfl, rfl, rfl, rfl, rfl, fun _ => rfl, fun _ => rfl⟩⟩
  | cancelAsked =>
      refine ⟨_, rfl, ⟨hrun.owned, hrun.leased, hrun.ended, fun hd => ?_, fun hstatus _ => ?_⟩,
        ⟨rfl, rfl, rfl, rfl, rfl, fun _ => rfl, fun hdecided => ?_⟩⟩
      · simp only [JobRun.cancelRequest] at hd ⊢
        split at hd
        · simp at hd
        · exact hrun.delivered hd
      · simp only [JobRun.cancelRequest] at hstatus ⊢
        by_cases hpending : run.deliveryStatus = .pending <;> simp [hstatus, hpending]
      · have hpending : run.deliveryStatus ≠ .pending := by
          intro hpending
          simp [hpending, DeliveryStatus.isDecided] at hdecided
        simp [JobRun.cancelRequest, hpending]
  | cancelled hactive =>
      obtain ⟨-, hkeeps, hdelivered⟩ := suppressPending_cases run.deliveryStatus
      refine ⟨_, rfl, ⟨rfl, rfl, rfl, fun hd => ?_, fun hstatus => ?_⟩,
        ⟨rfl, rfl, rfl, rfl, rfl, fun hended => ?_, hkeeps⟩⟩
      · obtain ⟨hs, hf⟩ := hrun.undelivered hactive
        rcases hdelivered hd with hd | hd
        · exact absurd hd hs
        · exact absurd hd hf
      · simp [JobRun.cancel] at hstatus
      · simp [hactive] at hended
  | @completed effective error polarisRunId stamp run hactive heffective hcancel =>
      obtain ⟨-, hkeeps, hdelivered⟩ := suppressPending_cases run.deliveryStatus
      obtain ⟨hs, hf⟩ := hrun.undelivered hactive
      have hended : effective.isActive = false := by
        simp only [List.mem_cons, List.not_mem_nil, or_false] at heffective
        rcases heffective with rfl | rfl | rfl <;> rfl
      refine ⟨_, rfl, ⟨hended.symm, hended.symm, ?_, fun hd => ?_, fun hstatus hrequested => ?_⟩,
        ⟨rfl, rfl, rfl, rfl, rfl, fun hended => ?_, fun hdecided => ?_⟩⟩
      · simp [JobRun.complete, hended]
      · simp only [JobRun.complete] at hd
        split at hd
        · rcases hdelivered hd with hd | hd
          · exact absurd hd hs
          · exact absurd hd hf
        · rcases hd with hd | hd
          · exact absurd hd hs
          · exact absurd hd hf
      · exact absurd hrequested (by simp [JobRun.complete, hcancel hstatus])
      · simp [hactive] at hended
      · simp only [JobRun.complete]
        split
        · exact hkeeps hdecided
        · rfl
  | @delivered status error stamp run hstatus hpending hdecided =>
      refine ⟨_, rfl, ⟨hrun.owned, hrun.leased, hrun.ended, fun _ => hstatus, fun _ _ => ?_⟩,
        ⟨rfl, rfl, rfl, rfl, rfl, fun _ => rfl, fun hdecided => ?_⟩⟩
      · intro hd
        have hd : status = .pending := hd
        simp [hd] at hdecided
      · simp [hpending, DeliveryStatus.isDecided] at hdecided
  | interrupted hactive =>
      obtain ⟨hs, hf⟩ := hrun.undelivered hactive
      refine ⟨_, rfl, ⟨rfl, rfl, rfl, fun hd => ?_, fun hstatus => ?_⟩,
        ⟨rfl, rfl, rfl, rfl, rfl, fun hended => ?_, fun _ => rfl⟩⟩
      · rcases hd with hd | hd
        · exact absurd hd hs
        · exact absurd hd hf
      · simp [JobRun.interrupt] at hstatus
      · simp [hactive] at hended

theorem JobRun.initialDelivery_cases (payload : JobPayload) :
    JobRun.initialDelivery payload ≠ .succeeded ∧ JobRun.initialDelivery payload ≠ .failed := by
  unfold JobRun.initialDelivery
  split <;> simp

theorem claimedRun_coherent (job : Job) (runId owner : String) (scheduledFor expires now : Timestamp) :
    (claimedRun job runId owner scheduledFor expires now).Coherent := by
  obtain ⟨hs, hf⟩ := JobRun.initialDelivery_cases job.payload
  refine ⟨rfl, rfl, rfl, fun hd => ?_, fun hstatus => ?_⟩
  · rcases hd with hd | hd
    · exact absurd hd hs
    · exact absurd hd hf
  · simp [claimedRun] at hstatus

theorem JobRun.retry_coherent (run : JobRun) (owner : String) (expires stamp : Timestamp) :
    (run.retry owner expires stamp).Coherent := by
  obtain ⟨hs, hf⟩ := JobRun.initialDelivery_cases run.payload
  refine ⟨rfl, rfl, rfl, fun hd => ?_, fun hstatus => ?_⟩
  · rcases hd with hd | hd
    · exact absurd hd hs
    · exact absurd hd hf
  · simp [JobRun.retry] at hstatus

/-- A store, the writes that operations have still to make, and the retries of each run. -/
structure Scheduling where
  tables : SchedulerTables
  pending : List PendingWrite
  retries : String → ℕ

namespace Scheduling

def after (s : Scheduling) (t : SchedulerTables) : Scheduling := { s with tables := t }

def defers (s : Scheduling) (w : PendingWrite) : Scheduling :=
  { s with pending := s.pending ++ [w] }

def countRetry (s : Scheduling) (runId : String) (t : SchedulerTables) : Scheduling :=
  { s with
    tables := t
    retries := Function.update s.retries runId (s.retries runId + 1) }

end Scheduling

/-- One step of any of the callers of a store, and the run that it retries. -/
inductive SchedulingStep (store : SchedulerStore) (s : Scheduling) : Option String → Scheduling → Prop
  | calls {β : Type} {c : SchedulerCall β} {a : Draws} {r : Except PyError β}
      {t : SchedulerTables} : c.isRetry = false → c.perform store a s.tables = (r, t) →
      SchedulingStep store s none (s.after t)
  | retries {runId owner : String} {lease : LeaseTime} {approved : Bool} {now : Option Timestamp}
      {a : Draws} {run : JobRun} {t : SchedulerTables} :
      createRetry runId owner lease approved now a s.tables = (.ok run, t) →
      SchedulingStep store s (some runId) (s.countRetry runId t)
  | retryFails {runId owner : String} {lease : LeaseTime} {approved : Bool}
      {now : Option Timestamp} {a : Draws} {e : PyError} {t : SchedulerTables} :
      createRetry runId owner lease approved now a s.tables = (.error e, t) →
      SchedulingStep store s none (s.after t)
  | readsUpdate {jobId : String} {changes : JobChanges} {now : Option Timestamp} {a : Draws}
      {columns : JobColumns} {t : SchedulerTables} :
      updateJobRead store jobId changes now a s.tables = (.ok columns, t) →
      SchedulingStep store s none (s.defers (.updateJob jobId columns))
  | readsHeartbeat {runId owner : String} {lease : LeaseTime} {now : Option Timestamp} {a : Draws}
      {expires : Timestamp} {t : SchedulerTables} :
      heartbeatRead runId owner lease now a s.tables = (.ok expires, t) →
      SchedulingStep store s none (s.defers (.heartbeat runId owner expires (now.getD a.clock)))
  | readsCancel {runId : String} {now : Option Timestamp} {a : Draws} {t : SchedulerTables} :
      requestCancelRead runId s.tables = (.ok true, t) →
      SchedulingStep store s none (s.defers (.requestCancel runId (now.getD a.clock)))
  | lands {n : ℕ} {w : PendingWrite} : s.pending[n]? = some w →
      SchedulingStep store s none
        { s with tables := (w.land s.tables).2, pending := s.pending.eraseIdx n }

inductive SchedulingReach (store : SchedulerStore) : Scheduling → Prop
  | start : SchedulingReach store ⟨⟨[], []⟩, [], fun _ => 0⟩
  | step {s s' : Scheduling} {retried : Option String} : SchedulingReach store s →
      SchedulingStep store s retried s' → SchedulingReach store s'

/-- What holds of the occurrences of a store. -/
structure OccurrenceMachine (store : SchedulerStore) (s : Scheduling) : Prop where
  coherent : ∀ run ∈ s.tables.runs, run.Coherent
  attempts : ∀ run ∈ s.tables.runs, run.attempt = 1 + s.retries run.id
  single : (s.tables.runs.map fun run => (run.jobId, run.scheduledFor)).Nodup
  follows : ∀ retried s', SchedulingStep store s retried s' → ∀ run ∈ s.tables.runs,
    ∃ run' ∈ s'.tables.runs, run'.id = run.id ∧ run'.jobId = run.jobId ∧
      run'.scheduledFor = run.scheduledFor ∧ run'.payload = run.payload ∧
      (retried ≠ some run.id → run.Precedes run') ∧
      (retried = some run.id → run.isRetryable = true)

namespace Scheduling
variable {store : SchedulerStore} {s s' : Scheduling} {retried : Option String}

structure Inv (s : Scheduling) : Prop where
  keyed : RunsKeyed s.tables
  coherent : ∀ runId run, s.tables.findRun runId = some run → run.Coherent
  attempts : ∀ runId run, s.tables.findRun runId = some run → run.attempt = 1 + s.retries runId
  unused : ∀ runId, s.tables.findRun runId = none → s.retries runId = 0

/-- What a step makes of the runs: either each moves, or one is retried. -/
theorem step_runs (h : SchedulingStep store s retried s') (hkeyed : RunsKeyed s.tables) :
    (retried = none ∧ RunsMove s.tables s'.tables ∧ s'.retries = s.retries) ∨
    ∃ runId run owner expires stamp, retried = some runId ∧ s.tables.findRun runId = some run ∧
      run.isRetryable = true ∧
      s'.tables = updateRuns (fun run => run.id = runId && run.isRetryable)
        (JobRun.retry owner expires stamp) s.tables ∧
      s'.retries = Function.update s.retries runId (s.retries runId + 1) := by
  cases h with
  | calls hc hperform => exact .inl ⟨rfl, SchedulerCall.perform_runs hkeyed hc hperform, rfl⟩
  | retries hretry =>
      rcases createRetry_cases hretry with ⟨e, he, -⟩ |
        ⟨run, run', expires, -, hrun, hretryable, -, rfl, -⟩
      · simp at he
      · exact .inr ⟨_, run, _, expires, _, rfl, hrun, hretryable, rfl, rfl⟩
  | retryFails hretry =>
      rcases createRetry_cases hretry with ⟨e, -, rfl⟩ | ⟨run, run', expires, hok, -⟩
      · exact .inl ⟨rfl, runsMove_refl hkeyed, rfl⟩
      · simp at hok
  | readsUpdate => exact .inl ⟨rfl, runsMove_refl hkeyed, rfl⟩
  | readsHeartbeat => exact .inl ⟨rfl, runsMove_refl hkeyed, rfl⟩
  | readsCancel => exact .inl ⟨rfl, runsMove_refl hkeyed, rfl⟩
  | lands => exact .inl ⟨rfl, PendingWrite.land_runs hkeyed, rfl⟩

/-- The run under an id that a run that is retried has, and the others. -/
theorem find_retry {runId id owner : String} {expires stamp : Timestamp} {t : SchedulerTables} :
    (updateRuns (fun run => run.id = runId && run.isRetryable) (JobRun.retry owner expires stamp)
      t).findRun id =
    (t.findRun id).map fun run => if run.id = runId && run.isRetryable then
      run.retry owner expires stamp else run :=
  find_updateRuns retry_keeps id

theorem Inv.step (h : Inv s) (hstep : SchedulingStep store s retried s') : Inv s' := by
  rcases step_runs hstep h.keyed with ⟨-, ⟨hmoves, hkeyed⟩, hretries⟩ |
    ⟨runId, run, owner, expires, stamp, -, hrun, hretryable, htables, hretries⟩
  · refine ⟨hkeyed, fun id run' hrun' => ?_, fun id run' hrun' => ?_, fun id hnone => ?_⟩
    · have hmove := hmoves id
      change RunMove id (s.tables.findRun id) (s'.tables.findRun id) at hmove
      cases hrun : s.tables.findRun id with
      | none =>
          rw [hrun, hrun'] at hmove
          cases hmove with
          | claimed => exact claimedRun_coherent _ _ _ _ _ _
      | some run =>
          rw [hrun] at hmove
          obtain ⟨run₁, hrun₁, hcoherent, -⟩ := hmove.preserves (h.coherent id run hrun)
          obtain rfl : run₁ = run' := Option.some.inj (hrun₁.symm.trans hrun')
          exact hcoherent
    · have hmove := hmoves id
      change RunMove id (s.tables.findRun id) (s'.tables.findRun id) at hmove
      rw [hretries]
      cases hrun : s.tables.findRun id with
      | none =>
          rw [hrun, hrun'] at hmove
          cases hmove with
          | claimed => rw [h.unused id hrun]; rfl
      | some run =>
          rw [hrun] at hmove
          obtain ⟨run₁, hrun₁, -, hprecedes⟩ := hmove.preserves (h.coherent id run hrun)
          obtain rfl : run₁ = run' := Option.some.inj (hrun₁.symm.trans hrun')
          rw [hprecedes.attempt, h.attempts id run hrun]
    · rw [hretries]
      refine h.unused id ?_
      cases hrun : s.tables.findRun id with
      | none => rfl
      | some run =>
          have hmove := hmoves id
          change RunMove id (s.tables.findRun id) (s'.tables.findRun id) at hmove
          rw [hrun] at hmove
          obtain ⟨run₁, hrun₁, -⟩ := hmove.preserves (h.coherent id run hrun)
          rw [hnone] at hrun₁
          simp at hrun₁
  · have hkeyed : RunsKeyed s'.tables := htables ▸ h.keyed.update retry_keeps
    -- under the id of the run that is retried there is the retry, under the others what there was
    have hfind : ∀ id, s'.tables.findRun id =
        if id = runId then some (run.retry owner expires stamp) else s.tables.findRun id := by
      intro id
      rw [htables, find_retry]
      by_cases hid : id = runId
      · obtain rfl : run.id = runId := Table.find_key hrun
        simp [hid, hrun, hretryable]
      · cases hother : s.tables.findRun id with
        | none => simp [hid]
        | some other =>
            obtain rfl : other.id = id := Table.find_key hother
            simp [hid]
    refine ⟨hkeyed, fun id run' hrun' => ?_, fun id run' hrun' => ?_, fun id hnone => ?_⟩
    · rw [hfind] at hrun'
      split at hrun'
      · obtain rfl := Option.some.inj hrun'
        exact run.retry_coherent owner expires stamp
      · exact h.coherent id run' hrun'
    · rw [hfind] at hrun'
      rw [hretries]
      split at hrun'
      · rename_i hid
        obtain rfl := Option.some.inj hrun'
        have hattempt := h.attempts runId run hrun
        simp only [hid, Function.update_self, JobRun.retry]
        omega
      · rename_i hid
        rw [Function.update_of_ne hid]
        exact h.attempts id run' hrun'
    · rw [hfind] at hnone
      split at hnone
      · simp at hnone
      · rename_i hid
        rw [hretries, Function.update_of_ne hid]
        exact h.unused id hnone

theorem Inv.reach (h : SchedulingReach store s) : Inv s := by
  induction h with
  | start =>
      refine ⟨⟨List.nodup_nil, List.nodup_nil⟩, ?_, ?_, fun _ _ => rfl⟩ <;>
        simp [SchedulerTables.findRun, Table.find]
  | step _ hstep ih => exact ih.step hstep

end Scheduling

theorem occurrence_machine {store : SchedulerStore} {s : Scheduling}
    (h : SchedulingReach store s) : OccurrenceMachine store s where
  coherent run hrun :=
    (Scheduling.Inv.reach h).coherent run.id run ((Scheduling.Inv.reach h).keyed.find hrun)
  attempts run hrun :=
    (Scheduling.Inv.reach h).attempts run.id run ((Scheduling.Inv.reach h).keyed.find hrun)
  single := (Scheduling.Inv.reach h).keyed.occurrences
  follows retried s' hstep run hrun := by
    have hinv := Scheduling.Inv.reach h
    have hfind := hinv.keyed.find hrun
    rcases Scheduling.step_runs hstep hinv.keyed with ⟨rfl, ⟨hmoves, -⟩, -⟩ |
      ⟨runId, retriedRun, owner, expires, stamp, rfl, hretried, hretryable, htables, -⟩
    · have hmove := hmoves run.id
      change RunMove run.id (s.tables.findRun run.id) (s'.tables.findRun run.id) at hmove
      rw [hfind] at hmove
      obtain ⟨run', hrun', -, hprecedes⟩ := hmove.preserves (hinv.coherent run.id run hfind)
      exact ⟨run', Table.find_mem hrun', hprecedes.id, hprecedes.jobId, hprecedes.scheduledFor,
        hprecedes.payload, fun _ => hprecedes, by simp⟩
    · have hfind' : s'.tables.findRun run.id = some (if run.id = runId && run.isRetryable then
          run.retry owner expires stamp else run) := by
        rw [htables, Scheduling.find_retry, hfind, Option.map_some]
      refine ⟨_, Table.find_mem hfind', ?_⟩
      by_cases hid : run.id = runId
      · obtain rfl : run = retriedRun := by
          rw [hid, hretried] at hfind
          exact (Option.some.inj hfind).symm
        simp only [hid, hretryable, decide_true, Bool.and_self, if_true]
        exact ⟨hid, rfl, rfl, rfl, fun hne => absurd rfl hne, fun _ => trivial⟩
      · simp only [hid, decide_false, Bool.false_and]
        exact ⟨rfl, rfl, rfl, rfl,
          fun _ => ⟨rfl, rfl, rfl, rfl, rfl, fun _ => rfl, fun _ => rfl⟩,
          fun hsame => absurd (Option.some.inj hsame).symm hid⟩

/-! A job that runs once, fails and is retried. -/

namespace Nightly

def utc : ZoneInfo := ⟨fun t => ⟨t, false⟩, fun _ => 0⟩

def store : SchedulerStore where
  zones := fun name => if name = "UTC" then some utc else none
  shuffle := fun _ jobs => jobs
  shuffle_perm := fun _ jobs => .refl jobs

def draws : Draws := ⟨0, "job", fun _ _ => "run"⟩

def create : SchedulerCall Job :=
  .createJob ⟨.once (.aware 5), "UTC"⟩ ⟨"single", [], none⟩ ⟨"", none, "fire_once", 1, 0⟩ (some 1)

def claim : SchedulerCall (List JobRun) :=
  .claimDueRuns 10 "engine" (.timedelta 60) 32 none none

def fail : SchedulerCall JobRun := .complete "run" "engine" .failed (some "boom") none (some 11)

def failed : SchedulerTables :=
  (fail.perform store draws (claim.perform store draws (create.perform store draws ⟨[], []⟩).2).2).2

theorem reach_call {β : Type} (c : SchedulerCall β) (hc : c.isRetry = false) {s : Scheduling}
    (h : SchedulingReach store s) :
    SchedulingReach store (s.after (c.perform store draws s.tables).2) :=
  h.step (.calls (c := c) (a := draws) hc rfl)

theorem reach_failed : ∃ s, SchedulingReach store s ∧ s.tables = failed :=
  ⟨_, reach_call fail rfl (reach_call claim rfl (reach_call create rfl .start)), rfl⟩

theorem retries : (createRetry "run" "engine" (.timedelta 60) true (some 20) draws
    failed).1.toOption.any (fun run => run.id = "run" && run.attempt = 2) = true := by
  decide +kernel

end Nightly

theorem occurrence_machine_retried : ∃ (s : Scheduling) (run : JobRun), run ∈ s.tables.runs ∧
    run.attempt = 2 ∧ OccurrenceMachine Nightly.store s := by
  have hretries := Nightly.retries
  obtain ⟨s, hreach, htables⟩ := Nightly.reach_failed
  rcases hretry : createRetry "run" "engine" (.timedelta 60) true (some 20) Nightly.draws
    Nightly.failed with ⟨e | run, t⟩
  · simp [hretry, Except.toOption] at hretries
  · simp only [hretry, Except.toOption, Option.any_some, Bool.and_eq_true, decide_eq_true_eq]
      at hretries
    rcases createRetry_cases hretry with ⟨e, he, -⟩ | ⟨_, run', _, hok, -, -, -, -, hfound⟩
    · simp at he
    · obtain rfl := Except.ok.inj hok
      rw [← htables] at hretry
      have hstep := hreach.step (.retries hretry)
      refine ⟨_, run, ?_, hretries.2, occurrence_machine hstep⟩
      exact Table.find_mem hfound

end Polaris
