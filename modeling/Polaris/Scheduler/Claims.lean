import Mathlib.Data.Finset.Card
import Polaris.Scheduler.Runs

namespace Polaris
namespace SchedulerTables

def holdsOccurrence (t : SchedulerTables) (jobId : String) (scheduledFor : Timestamp) : Bool :=
  t.runs.any fun run => run.jobId = jobId && run.scheduledFor = scheduledFor

/-- The occurrence of a job has a run. -/
def Held (t : SchedulerTables) (jobId : String) (scheduledFor : Timestamp) : Prop :=
  t.holdsOccurrence jobId scheduledFor = true

instance (t : SchedulerTables) (jobId : String) (scheduledFor : Timestamp) :
    Decidable (t.Held jobId scheduledFor) := inferInstanceAs (Decidable (_ = true))

theorem held_iff {t : SchedulerTables} {jobId : String} {scheduledFor : Timestamp} :
    t.Held jobId scheduledFor ↔
      ∃ run ∈ t.runs, run.jobId = jobId ∧ run.scheduledFor = scheduledFor := by
  simp [Held, holdsOccurrence]

/-- The occurrences of a list that have no run yet. -/
def unclaimed (t : SchedulerTables) (jobId : String) (occurrences : List Timestamp) :
    Finset Timestamp := occurrences.toFinset.filter fun o => ¬t.Held jobId o

theorem unclaimed_congr {t t' : SchedulerTables} {jobId : String} {occurrences : List Timestamp}
    (h : ∀ o, t'.Held jobId o ↔ t.Held jobId o) :
    t'.unclaimed jobId occurrences = t.unclaimed jobId occurrences := by
  ext o
  simp [unclaimed, h]

theorem card_unclaimed_le (t : SchedulerTables) (jobId : String) (occurrences : List Timestamp) :
    (t.unclaimed jobId occurrences).card ≤ occurrences.length :=
  (Finset.card_filter_le _ _).trans (List.toFinset_card_le occurrences)

/-- After the first of the occurrences has its run, if it had none. -/
theorem card_unclaimed_cons {t t' : SchedulerTables} {jobId : String} {o : Timestamp}
    {occurrences : List Timestamp} (h : ∀ o', t'.Held jobId o' ↔ t.Held jobId o' ∨ o' = o) :
    (t.unclaimed jobId (o :: occurrences)).card =
      (if t.Held jobId o then 0 else 1) + (t'.unclaimed jobId occurrences).card := by
  have hmem : ∀ o', o' ∈ t'.unclaimed jobId occurrences ↔
      o' ∈ occurrences ∧ ¬t.Held jobId o' ∧ o' ≠ o := fun o' => by simp [unclaimed, h]
  split
  · rename_i hheld
    rw [Nat.zero_add]
    congr 1
    ext o'
    simp only [hmem]
    simp only [unclaimed, Finset.mem_filter, List.mem_toFinset, List.mem_cons]
    constructor
    · rintro ⟨rfl | hin, hnot⟩
      · exact absurd hheld hnot
      · exact ⟨hin, hnot, by rintro rfl; exact hnot hheld⟩
    · rintro ⟨hin, hnot, -⟩
      exact ⟨.inr hin, hnot⟩
  · rename_i hfree
    have hcons : t.unclaimed jobId (o :: occurrences) =
        insert o (t'.unclaimed jobId occurrences) := by
      ext o'
      simp only [Finset.mem_insert, hmem]
      simp only [unclaimed, Finset.mem_filter, List.mem_toFinset, List.mem_cons]
      constructor
      · rintro ⟨rfl | hin, hnot⟩
        · exact .inl rfl
        · exact or_iff_not_imp_left.2 fun hne => ⟨hin, hnot, hne⟩
      · rintro (rfl | ⟨hin, hnot, -⟩)
        · exact ⟨.inl rfl, hfree⟩
        · exact ⟨.inr hin, hnot⟩
    rw [hcons, Finset.card_insert_of_notMem (by simp [hmem]), Nat.add_comm]

end SchedulerTables

namespace SchedulerStore
open Txn
variable {store : SchedulerStore} {t t' : SchedulerTables} {c : Claim} {job : Job}

/-- An id that is drawn for an occurrence is no other run's, as `uuid4` makes it. -/
structure Drawn (runId : String → Timestamp → String) (t : SchedulerTables) : Prop where
  injective : ∀ {jobId jobId' : String} {o o' : Timestamp}, runId jobId o = runId jobId' o' →
    jobId = jobId' ∧ o = o'
  owned : ∀ run ∈ t.runs, ∀ jobId o, run.id = runId jobId o → run.jobId = jobId ∧ run.scheduledFor = o

theorem insertRun_jobs (run : JobRun) (t : SchedulerTables) : (insertRun run t).jobs = t.jobs := by
  unfold insertRun
  split <;> rfl

theorem holds_claimedRun {o expires : Timestamp} (h : Drawn c.runId t) :
    holds t (claimedRun job (c.runId job.id o) c.owner o expires c.now) = true ↔ t.Held job.id o := by
  simp only [holds, List.any_eq_true, Bool.or_eq_true, Bool.and_eq_true, decide_eq_true_eq,
    SchedulerTables.held_iff]
  constructor
  · rintro ⟨run, hrun, hid | hsame⟩
    · exact ⟨run, hrun, h.owned run hrun _ _ hid⟩
    · exact ⟨run, hrun, hsame⟩
  · rintro ⟨run, hrun, hsame⟩
    exact ⟨run, hrun, .inr hsame⟩

theorem insertRun_held {o expires : Timestamp} (h : Drawn c.runId t) :
    let run := claimedRun job (c.runId job.id o) c.owner o expires c.now
    Drawn c.runId (insertRun run t) ∧
      ∀ jobId o', (insertRun run t).Held jobId o' ↔ t.Held jobId o' ∨ jobId = job.id ∧ o' = o := by
  intro run
  have hholds := @holds_claimedRun t c job o expires h
  unfold insertRun
  split
  · rename_i hheld
    refine ⟨h, fun jobId o' => ⟨.inl, ?_⟩⟩
    rintro (hold | ⟨rfl, rfl⟩)
    · exact hold
    · exact hholds.1 hheld
  · refine ⟨⟨h.injective, fun other hother jobId o' hid => ?_⟩, fun jobId o' => ?_⟩
    · rcases List.mem_append.1 hother with hother | hother
      · exact h.owned other hother jobId o' hid
      · obtain rfl := List.mem_singleton.1 hother
        exact h.injective hid
    · simp only [SchedulerTables.held_iff, List.mem_append, List.mem_singleton]
      constructor
      · rintro ⟨other, hother | rfl, hjob, htime⟩
        · exact .inl ⟨other, hother, hjob, htime⟩
        · exact .inr ⟨hjob.symm, htime.symm⟩
      · rintro (⟨other, hother, hsame⟩ | ⟨rfl, rfl⟩)
        · exact ⟨other, .inl hother, hsame⟩
        · exact ⟨run, .inr rfl, rfl, rfl⟩

/-- The runs that a claim makes of one job: one for each occurrence that has none yet. -/
theorem claimOccurrences_held {occurrences : List Timestamp} {ids ids' : List String}
    (hdrawn : Drawn c.runId t) (h : claimOccurrences c job occurrences ids t = (.ok ids', t')) :
    Drawn c.runId t' ∧ t'.jobs = t.jobs ∧
      (∀ jobId o, t'.Held jobId o ↔ t.Held jobId o ∨ jobId = job.id ∧ o ∈ occurrences) ∧
      ids'.length = ids.length + (t.unclaimed job.id occurrences).card := by
  induction occurrences generalizing t ids with
  | nil =>
      obtain ⟨rfl, rfl⟩ := pure_ok.1 h
      exact ⟨hdrawn, rfl, by simp, by simp [SchedulerTables.unclaimed]⟩
  | cons o occurrences ih =>
      simp only [claimOccurrences, bind_ok, lift_ok, read_ok, write_ok] at h
      obtain ⟨expires, _, ⟨-, rfl⟩, held, _, ⟨hholds, rfl⟩, _, _, rfl, h⟩ := h
      obtain ⟨hdrawn', hheld⟩ := @insertRun_held _ c job o expires hdrawn
      obtain ⟨hdrawn'', hjobs, hall, hlength⟩ := ih hdrawn' h
      refine ⟨hdrawn'', hjobs.trans (insertRun_jobs _ _), fun jobId o' => ?_, ?_⟩
      · rw [hall, hheld, List.mem_cons]
        tauto
      · have hsame := @holds_claimedRun t c job o expires hdrawn
        rw [hholds] at hsame
        have hone : ∀ o', (insertRun (claimedRun job (c.runId job.id o) c.owner o expires c.now)
            t).Held job.id o' ↔ t.Held job.id o' ∨ o' = o := fun o' => by simp [hheld]
        rw [hlength, SchedulerTables.card_unclaimed_cons hone]
        by_cases hbefore : t.Held job.id o
        · rw [if_pos (hsame.2 hbefore), if_pos hbefore, Nat.zero_add]
        · rw [if_neg fun hheld => hbefore (hsame.1 hheld), if_neg hbefore, List.length_append,
            List.length_singleton, Nat.add_assoc]

/-- A claim of one job: the last of its occurrences, as many as there is room for, and its move to the
next one. -/
theorem claimJob_spec {ids ids' : List String} (hdrawn : Drawn c.runId t)
    (h : claimJob store c job ids t = (.ok ids', t')) :
    ∃ occurrences nextRun, dueOccurrences store.zones job c.now = .ok occurrences ∧
      advanceAfterNow store.zones job c.now = .ok nextRun ∧ Drawn c.runId t' ∧
      (∀ jobId o, t'.Held jobId o ↔ t.Held jobId o ∨
        jobId = job.id ∧ o ∈ lastOf (c.limit - ids.length) occurrences) ∧
      t'.jobs = Table.updateWhere (fun other => decide (other.id = job.id))
        (Job.setNextRun nextRun (if nextRun.isSome then .scheduled else .completed) c.now) t.jobs ∧
      ids'.length =
        ids.length + (t.unclaimed job.id (lastOf (c.limit - ids.length) occurrences)).card := by
  simp only [claimJob, bind_ok, lift_ok, write_ok, pure_ok] at h
  obtain ⟨occurrences, _, ⟨hoccurrences, rfl⟩, _, t₁, hclaim, nextRun, _, ⟨hnext, rfl⟩, _, _, rfl, rfl,
    rfl⟩ := h
  obtain ⟨hdrawn', hjobs, hheld, hlength⟩ := claimOccurrences_held hdrawn hclaim
  exact ⟨occurrences, nextRun, hoccurrences, hnext, ⟨hdrawn'.injective, hdrawn'.owned⟩, hheld,
    by rw [← hjobs]; rfl, hlength⟩

theorem mem_dueJobs {now : Timestamp} :
    job ∈ dueJobs now t ↔ job ∈ t.jobs ∧ isDue now job = true := by
  rw [dueJobs, List.mem_insertionSort, List.mem_filter]

def JobsKeyed (t : SchedulerTables) : Prop := Table.Keyed Job.id t.jobs

theorem dueJobs_nodup {now : Timestamp} (h : JobsKeyed t) : ((dueJobs now t).map Job.id).Nodup := by
  have hperm := (List.perm_insertionSort (fun job other => runsBefore job other = true)
    (t.jobs.filter (isDue now))).map Job.id
  exact (hperm.nodup_iff).2 ((List.filter_sublist.map Job.id).nodup h)

/-- The jobs in the order in which a claim takes them. -/
def claimOrder (store : SchedulerStore) (now : Timestamp) (jitterSeed : Option ℤ)
    (t : SchedulerTables) : List Job :=
  jitterSeed.elim (dueJobs now t) fun seed => store.shuffle seed (dueJobs now t)

theorem claimOrder_perm (now : Timestamp) (jitterSeed : Option ℤ) :
    (claimOrder store now jitterSeed t).Perm (dueJobs now t) := by
  cases jitterSeed with
  | none => exact .refl _
  | some seed => exact store.shuffle_perm seed _

/-- No more than so many runs are claimed in one call. -/
def claimLimit (batch : ℤ) (startupCap : Option ℤ) : ℕ := (startupCap.elim batch (min batch)).toNat

/-- A claim that answers has gone through the due jobs. -/
theorem claimDueRuns_ok {now : Timestamp} {owner : String} {lease : LeaseTime} {batch : ℤ}
    {startupCap jitterSeed : Option ℤ} {a : Draws} {runs : List JobRun}
    (h : claimDueRuns store now owner lease batch startupCap jitterSeed a t = (.ok runs, t')) :
    ∃ leaseDelta ids, claimJobs store ⟨now, owner, leaseDelta, claimLimit batch startupCap, a.runId⟩
      (claimOrder store now jitterSeed t) [] t = (.ok ids, t') ∧ getRuns ids t' = (.ok runs, t') := by
  simp only [claimDueRuns, bind_ok, lift_ok, require_ok, atomically_ok, read_ok] at h
  obtain ⟨leaseDelta, _, ⟨-, rfl⟩, _, _, ⟨-, rfl⟩, _, _, ⟨-, rfl⟩, _, _, ⟨-, rfl⟩, _, _, ⟨-, rfl⟩, ids,
    t₁, ⟨_, _, ⟨rfl, rfl⟩, hclaim⟩, hruns⟩ := h
  obtain rfl := (getRuns_readOnly ids).state hruns
  exact ⟨leaseDelta, ids, hclaim, hruns⟩

end SchedulerStore

end Polaris
