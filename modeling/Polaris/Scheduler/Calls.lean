import Polaris.Library.Moves
import Polaris.Scheduler.Store

namespace Polaris
open PyJson SchedulerStore

inductive SchedulerCall : Type → Type where
  | createJob (schedule : ScheduleSpec) (payload : JobPayload) (options : JobOptions)
      (now : Option Timestamp) : SchedulerCall Job
  | updateJob (jobId : String) (changes : JobChanges) (now : Option Timestamp) : SchedulerCall Job
  | pauseJob (jobId : String) (now : Option Timestamp) : SchedulerCall Job
  | resumeJob (jobId : String) (now : Option Timestamp) : SchedulerCall Job
  | cancelJob (jobId : String) (now : Option Timestamp) : SchedulerCall Job
  | claimDueRuns (now : Timestamp) (owner : String) (lease : LeaseTime) (batch : ℤ)
      (startupCap jitterSeed : Option ℤ) : SchedulerCall (List JobRun)
  | markRunning (runId owner : String) (now : Option Timestamp) (polarisRunId : Option String) :
      SchedulerCall JobRun
  | setPolarisRunId (runId owner polarisRunId : String) (now : Option Timestamp) :
      SchedulerCall JobRun
  | heartbeat (runId owner : String) (lease : LeaseTime) (now : Option Timestamp) :
      SchedulerCall JobRun
  | requestCancel (runId : String) (now : Option Timestamp) : SchedulerCall JobRun
  | cancel (runId : String) (owner : Option String) (now : Option Timestamp) : SchedulerCall JobRun
  | complete (runId owner : String) (terminal : JobRunStatus) (error polarisRunId : Option String)
      (now : Option Timestamp) : SchedulerCall JobRun
  | recordDelivery (runId : String) (status : DeliveryStatus) (error : Option String)
      (now : Option Timestamp) : SchedulerCall JobRun
  | recoverStaleRuns (now : Option Timestamp) : SchedulerCall (List JobRun)
  | createRetry (runId owner : String) (lease : LeaseTime) (approved : Bool)
      (now : Option Timestamp) : SchedulerCall JobRun

namespace SchedulerCall
variable {β : Type}

def perform (store : SchedulerStore) (a : Draws) : SchedulerCall β → Op β
  | .createJob schedule payload options now =>
      SchedulerStore.createJob store schedule payload options now a
  | .updateJob jobId changes now => SchedulerStore.updateJob store jobId changes now a
  | .pauseJob jobId now => SchedulerStore.pauseJob jobId now a
  | .resumeJob jobId now => SchedulerStore.resumeJob store jobId now a
  | .cancelJob jobId now => SchedulerStore.cancelJob jobId now a
  | .claimDueRuns now owner lease batch startupCap jitterSeed =>
      SchedulerStore.claimDueRuns store now owner lease batch startupCap jitterSeed a
  | .markRunning runId owner now polarisRunId =>
      SchedulerStore.markRunning runId owner now polarisRunId a
  | .setPolarisRunId runId owner polarisRunId now =>
      SchedulerStore.setPolarisRunId runId owner polarisRunId now a
  | .heartbeat runId owner lease now => SchedulerStore.heartbeat runId owner lease now a
  | .requestCancel runId now => SchedulerStore.requestCancel runId now a
  | .cancel runId owner now => SchedulerStore.cancel runId owner now a
  | .complete runId owner terminal error polarisRunId now =>
      SchedulerStore.complete runId owner terminal error polarisRunId now a
  | .recordDelivery runId status error now =>
      SchedulerStore.recordDelivery runId status error now a
  | .recoverStaleRuns now => SchedulerStore.recoverStaleRuns now a
  | .createRetry runId owner lease approved now =>
      SchedulerStore.createRetry runId owner lease approved now a

end SchedulerCall

/-- The second half of an operation that reads before its transaction. -/
inductive PendingWrite where
  | updateJob (jobId : String) (columns : JobColumns)
  | heartbeat (runId owner : String) (expires stamp : Timestamp)
  | requestCancel (runId : String) (stamp : Timestamp)

def PendingWrite.land : PendingWrite → Op Unit
  | .updateJob jobId columns => updateJobWrite jobId columns
  | .heartbeat runId owner expires stamp => heartbeatWrite runId owner expires stamp
  | .requestCancel runId stamp => requestCancelWrite runId stamp

/-- What the operations other than a retry can make of the run under an id. -/
inductive RunMove : String → Option JobRun → Option JobRun → Prop
  | same {id : String} (r : Option JobRun) : RunMove id r r
  | claimed {id owner : String} {job : Job} {scheduledFor expires now : Timestamp} :
      RunMove id none (some (claimedRun job id owner scheduledFor expires now))
  | cancelRequested {stamp : Timestamp} {run : JobRun} : run.status.isActive = true →
      RunMove run.id (some run) (some (run.requestCancel stamp))
  | suppressed {stamp : Timestamp} {run : JobRun} : run.status = .succeeded →
      run.deliveryStatus = .pending → RunMove run.id (some run) (some (run.suppress stamp))
  | startCancelled {polarisRunId : Option String} {stamp : Timestamp} {run : JobRun} :
      run.status = .claimed →
      RunMove run.id (some run) (some (run.cancelClaimed polarisRunId stamp))
  | started {polarisRunId : Option String} {stamp : Timestamp} {run : JobRun} :
      run.status = .claimed → RunMove run.id (some run) (some (run.start polarisRunId stamp))
  | attached {polarisRunId : String} {stamp : Timestamp} {run : JobRun} :
      run.status.isActive = true → RunMove run.id (some run) (some (run.attach polarisRunId stamp))
  | extended {owner : String} {expires stamp : Timestamp} {run : JobRun} :
      run.owner = some owner → RunMove run.id (some run) (some (run.extend expires stamp))
  | cancelAsked {stamp : Timestamp} {run : JobRun} :
      RunMove run.id (some run) (some (run.cancelRequest stamp))
  | cancelled {stamp : Timestamp} {run : JobRun} : run.status.isActive = true →
      RunMove run.id (some run) (some (run.cancel stamp))
  | completed {effective : JobRunStatus} {error polarisRunId : Option String} {stamp : Timestamp}
      {run : JobRun} : run.status.isActive = true →
      effective ∈ [JobRunStatus.succeeded, .failed, .cancelled] →
      (effective = .succeeded → run.cancelRequested = false) →
      RunMove run.id (some run) (some (run.complete effective error polarisRunId stamp))
  | delivered {status : DeliveryStatus} {error : Option String} {stamp : Timestamp} {run : JobRun} :
      run.status = .succeeded → run.deliveryStatus = .pending →
      status ∈ [DeliveryStatus.succeeded, .failed, .suppressed] →
      RunMove run.id (some run) (some (run.deliver status error stamp))
  | interrupted {stamp : Timestamp} {run : JobRun} : run.status.isActive = true →
      RunMove run.id (some run) (some (run.interrupt stamp))

/-- What a call other than a retry writes to a run. -/
inductive RunWrite : {β : Type} → SchedulerCall β → JobRun → JobRun → Prop
  | cancelRequested {now : Option Timestamp} {stamp : Timestamp} {run : JobRun} :
      run.status.isActive = true →
      RunWrite (.cancelJob run.jobId now) run (run.requestCancel stamp)
  | suppressed {now : Option Timestamp} {stamp : Timestamp} {run : JobRun} :
      run.status = .succeeded → run.deliveryStatus = .pending →
      RunWrite (.cancelJob run.jobId now) run (run.suppress stamp)
  | startCancelled {owner : String} {now : Option Timestamp} {polarisRunId : Option String}
      {stamp : Timestamp} {run : JobRun} : run.status = .claimed →
      RunWrite (.markRunning run.id owner now polarisRunId) run
        (run.cancelClaimed polarisRunId stamp)
  | started {owner : String} {now : Option Timestamp} {polarisRunId : Option String}
      {stamp : Timestamp} {run : JobRun} : run.status = .claimed →
      RunWrite (.markRunning run.id owner now polarisRunId) run (run.start polarisRunId stamp)
  | attached {owner polarisRunId : String} {now : Option Timestamp} {stamp : Timestamp}
      {run : JobRun} : run.status.isActive = true →
      RunWrite (.setPolarisRunId run.id owner polarisRunId now) run (run.attach polarisRunId stamp)
  | extended {owner : String} {lease : LeaseTime} {now : Option Timestamp}
      {expires stamp : Timestamp} {run : JobRun} : run.owner = some owner →
      RunWrite (.heartbeat run.id owner lease now) run (run.extend expires stamp)
  | cancelAsked {now : Option Timestamp} {stamp : Timestamp} {run : JobRun} :
      RunWrite (.requestCancel run.id now) run (run.cancelRequest stamp)
  | cancelled {owner : Option String} {now : Option Timestamp} {stamp : Timestamp} {run : JobRun} :
      run.status.isActive = true → RunWrite (.cancel run.id owner now) run (run.cancel stamp)
  | completed {owner : String} {terminal : JobRunStatus} {error polarisRunId : Option String}
      {now : Option Timestamp} {stamp : Timestamp} {run : JobRun} : run.status.isActive = true →
      terminal ∈ [JobRunStatus.succeeded, .failed, .cancelled] →
      RunWrite (.complete run.id owner terminal error polarisRunId now) run
        (run.complete (if run.cancelRequested then .cancelled else terminal) error polarisRunId stamp)
  | delivered {status : DeliveryStatus} {error : Option String} {now : Option Timestamp}
      {stamp : Timestamp} {run : JobRun} : run.status = .succeeded →
      run.deliveryStatus = .pending → status ∈ [DeliveryStatus.succeeded, .failed, .suppressed] →
      RunWrite (.recordDelivery run.id status error now) run (run.deliver status error stamp)
  | interrupted {now : Option Timestamp} {stamp : Timestamp} {run : JobRun} :
      run.status.isActive = true → RunWrite (.recoverStaleRuns now) run (run.interrupt stamp)

/-- What a call other than a retry makes of the run under an id. -/
inductive Written {β : Type} (c : SchedulerCall β) : String → Option JobRun → Option JobRun → Prop
  | same {id : String} (r : Option JobRun) : Written c id r r
  | claimed {id owner : String} {job : Job} {scheduledFor expires now : Timestamp} :
      Written c id none (some (claimedRun job id owner scheduledFor expires now))
  | wrote {run run' : JobRun} : RunWrite c run run' → Written c run.id (some run) (some run')

theorem RunWrite.move {β : Type} {c : SchedulerCall β} {run run' : JobRun} (h : RunWrite c run run') :
    RunMove run.id (some run) (some run') := by
  cases h with
  | cancelRequested hactive => exact .cancelRequested hactive
  | suppressed hsucceeded hpending => exact .suppressed hsucceeded hpending
  | startCancelled hclaimed => exact .startCancelled hclaimed
  | started hclaimed => exact .started hclaimed
  | attached hactive => exact .attached hactive
  | extended howner => exact .extended howner
  | cancelAsked => exact .cancelAsked
  | cancelled hactive => exact .cancelled hactive
  | completed hactive hterminal =>
      refine .completed hactive ?_ fun hsucceeded => ?_
      · split
        · simp
        · exact hterminal
      · split at hsucceeded
        · simp at hsucceeded
        · rename_i hrequested
          simpa using hrequested
  | delivered hsucceeded hpending hstatus => exact .delivered hsucceeded hpending hstatus
  | interrupted hactive => exact .interrupted hactive

theorem Written.move {β : Type} {c : SchedulerCall β} {id : String} {r r' : Option JobRun}
    (h : Written c id r r') : RunMove id r r' := by
  cases h with
  | same => exact .same _
  | claimed => exact .claimed
  | wrote hwrite => exact hwrite.move

namespace SchedulerStore
open Txn
variable {store : SchedulerStore} {a : Draws} {t t' : SchedulerTables} {β : Type}
  {p : JobRun → Bool} {f : JobRun → JobRun}

/-- No id is that of two runs, and no occurrence of a job is in two runs. -/
structure RunsKeyed (t : SchedulerTables) : Prop where
  ids : Table.Keyed JobRun.id t.runs
  occurrences : Table.Keyed (fun run => (run.jobId, run.scheduledFor)) t.runs

/-- The run stays the same occurrence of the same job. -/
def KeepsOccurrence (f : JobRun → JobRun) : Prop :=
  ∀ r, (f r).id = r.id ∧ (f r).jobId = r.jobId ∧ (f r).scheduledFor = r.scheduledFor

theorem find_updateRuns (hf : KeepsOccurrence f) (runId : String) :
    (updateRuns p f t).findRun runId = (t.findRun runId).map fun r => if p r then f r else r :=
  Table.find_updateWhere fun r => (hf r).1

theorem RunsKeyed.find (h : RunsKeyed t) {run : JobRun} (hrun : run ∈ t.runs) :
    t.findRun run.id = some run := Table.Keyed.find h.ids hrun

theorem updateOneRun_ok {e : PyError} {u : Unit} (h : updateOneRun p f e t = (.ok u, t')) :
    t.runs.countP p = 1 ∧ t' = updateRuns p f t := by
  simp only [updateOneRun, bind_ok, read_ok, write_ok, require_ok] at h
  obtain ⟨n, _, ⟨rfl, rfl⟩, _, _, rfl, hn, rfl⟩ := h
  exact ⟨by simpa using hn, rfl⟩

theorem getRun_ok {runId : String} {run : JobRun} (h : getRun runId t = (.ok run, t')) :
    t.findRun runId = some run ∧ t = t' := by
  simp only [getRun, bind_ok, read_ok, getOr_ok] at h
  obtain ⟨_, _, ⟨rfl, rfl⟩, hrun, rfl⟩ := h
  exact ⟨hrun, rfl⟩

theorem getJob_ok {jobId : String} {job : Job} (h : getJob jobId t = (.ok job, t')) :
    t.findJob jobId = some job ∧ t = t' := by
  simp only [getJob, bind_ok, read_ok, getOr_ok] at h
  obtain ⟨_, _, ⟨rfl, rfl⟩, hjob, rfl⟩ := h
  exact ⟨hjob, rfl⟩

theorem getRun_readOnly (runId : String) : ReadOnly (getRun runId) :=
  (read_readOnly _).bind fun _ => getOr_readOnly _ _

theorem getJob_readOnly (jobId : String) : ReadOnly (getJob jobId) :=
  (read_readOnly _).bind fun _ => getOr_readOnly _ _

theorem getRuns_readOnly : ∀ ids, ReadOnly (getRuns ids)
  | [] => pure_readOnly _
  | _ :: ids => (getRun_readOnly _).bind fun _ => (getRuns_readOnly ids).bind fun _ =>
      pure_readOnly _

theorem requireActiveLease_ok {run : JobRun} {owner : String} {now : Timestamp} {u : Unit}
    (h : requireActiveLease run owner now t = (.ok u, t')) : run.owner = some owner ∧ t = t' := by
  simp only [requireActiveLease, bind_ok, require_ok, decide_eq_true_eq] at h
  obtain ⟨_, _, ⟨howner, rfl⟩, -, rfl⟩ := h
  exact ⟨howner, rfl⟩

theorem requireActiveLease_readOnly (run : JobRun) (owner : String) (now : Timestamp) :
    ReadOnly (requireActiveLease run owner now) :=
  (require_readOnly _ _).bind fun _ => require_readOnly _ _

/-- What the runs have become, and that they are still keyed. -/
def RunsMove (t t' : SchedulerTables) : Prop :=
  Table.Moves JobRun.id RunMove t.runs t'.runs ∧ RunsKeyed t'

theorem runsMove_refl (h : RunsKeyed t) : RunsMove t t := ⟨.refl fun _ r => .same r, h⟩

/-- What a call has written to the runs. -/
def RunsWrite (c : SchedulerCall β) (t t' : SchedulerTables) : Prop :=
  Table.Moves JobRun.id (Written c) t.runs t'.runs ∧ RunsKeyed t'

theorem RunsWrite.moves {c : SchedulerCall β} (h : RunsWrite c t t') : RunsMove t t' :=
  ⟨h.1.mono fun _ _ _ hwritten => hwritten.move, h.2⟩

theorem runsWrite_of_eq {c : SchedulerCall β} (h : RunsKeyed t) (hruns : t'.runs = t.runs) :
    RunsWrite c t t' := by
  refine ⟨?_, ?_⟩
  · rw [hruns]
    exact .refl fun _ r => .same r
  · exact ⟨hruns ▸ h.ids, hruns ▸ h.occurrences⟩

theorem RunsKeyed.update (h : RunsKeyed t) (hf : KeepsOccurrence f) :
    RunsKeyed (updateRuns p f t) :=
  ⟨h.ids.updateWhere fun r => (hf r).1,
    h.occurrences.updateWhere fun r => Prod.ext (hf r).2.1 (hf r).2.2⟩

theorem runsWrite_update {c : SchedulerCall β} (h : RunsKeyed t) (hf : KeepsOccurrence f)
    (hwrite : ∀ r ∈ t.runs, p r = true → RunWrite c r (f r)) : RunsWrite c t (updateRuns p f t) := by
  refine ⟨fun runId => ?_, h.update hf⟩
  change Written c runId (t.findRun runId) ((updateRuns p f t).findRun runId)
  rw [find_updateRuns hf]
  cases hrun : t.findRun runId with
  | none => exact .same none
  | some run =>
      obtain rfl : run.id = runId := Table.find_key hrun
      by_cases hp : p run = true
      · simpa [hp] using Written.wrote (hwrite run (Table.find_mem hrun) hp)
      · simpa [hp] using Written.same (some run)

end SchedulerStore

end Polaris
