import Polaris.Journal.Later
import Polaris.Journal.Stored

namespace Polaris
open PyJson Journal

namespace StepRecord

/-- A row whose lease has run out. -/
def reclaim (now : Timestamp) (r : StepRecord) : StepRecord :=
  r.expire (reclaimTarget r.safety) (reclaimReason (reclaimTarget r.safety)) now

end StepRecord

namespace Journal
variable {a : Ambient} {j j' : Journal} {now : Timestamp}

theorem steps_of_reclaimRows {rows out : List StepRecord} (hk : j.StepsKeyed)
    (hrows : ∀ r ∈ rows, r ∈ j.steps ∧ expiredAt now r = true) (hids : Table.Keyed StepRecord.id rows)
    (h : reclaimRows now rows j = (.ok out, j')) :
    j'.steps = Table.updateWhere (fun r => r ∈ rows) (StepRecord.reclaim now) j.steps := by
  induction rows generalizing j out with
  | nil =>
      simp only [reclaimRows, Txn.pure_ok] at h
      simp [← h.2, Table.updateWhere]
  | cons row rows ih =>
      simp only [reclaimRows, Txn.bind_ok, Txn.pure_ok] at h
      obtain ⟨r, t, hchange, rest, _, hrest, -, rfl⟩ := h
      obtain ⟨hrow, hexpired⟩ := hrows row (by simp)
      simp only [expiredAt, Bool.and_eq_true, Bool.or_eq_true, decide_eq_true_eq] at hexpired
      obtain ⟨rfl, column, rfl⟩ := changeStep_ok hk hrow (by simp [hexpired.2]) rfl rfl hchange
      obtain ⟨hnot, hids⟩ := List.nodup_cons.1 hids
      have hother : ∀ s ∈ rows, s.id ≠ row.id := fun s hs heq => hnot (List.mem_map.2 ⟨s, hs, heq⟩)
      have hkeyed : (j.recordChange (row.reclaim now) "step.lease_expired" column now).StepsKeyed :=
        Table.Keyed.put hk
      refine (ih hkeyed (fun s hs => ?_) hids hrest).trans ?_
      · obtain ⟨hmem, hs'⟩ := hrows s (List.mem_cons_of_mem _ hs)
        exact ⟨Table.mem_put_of_ne hmem (hother s hs), hs'⟩
      simp only [recordChange, addEvent_steps, putStep, Table.put, Table.updateWhere, List.map_map]
      refine List.map_congr_left fun s hs => ?_
      by_cases hid : s.id = row.id
      · obtain rfl := hk.eq_of_key hs hrow hid
        have hfresh : s.reclaim now ∉ rows := fun hmem => hother _ hmem rfl
        have hsame : (s.reclaim now).id = s.id := rfl
        simp only [Function.comp, hsame, if_true, List.mem_cons, true_or, decide_true, hfresh,
          decide_false, if_false, Bool.false_eq_true]
      · have hne : s ≠ row := fun heq => hid (congrArg StepRecord.id heq)
        have hput : ¬ s.id = (row.reclaim now).id := hid
        simp only [Function.comp, if_neg hput, List.mem_cons, hne, false_or]

theorem reclaim_steps {limit : Option Timestamp} {out : List StepRecord} (hk : j.StepsKeyed)
    (h : reclaimExpiredLeases a limit j = (.ok out, j')) :
    j'.steps = Table.updateWhere (expiredAt (limit.getD a.now))
      (StepRecord.reclaim (limit.getD a.now)) j.steps := by
  simp only [reclaimExpiredLeases, Txn.atomically_ok, Txn.bind_ok, Txn.read_ok] at h
  obtain ⟨rows, _, ⟨rfl, rfl⟩, h⟩ := h
  have hfilter : Table.Keyed StepRecord.id (j.steps.filter (expiredAt (limit.getD a.now))) :=
    List.Nodup.sublist (List.filter_sublist.map _) hk
  refine (steps_of_reclaimRows hk (fun r hr => ?_) ?_ h).trans ?_
  · simpa using hr
  · exact (((List.perm_insertionSort _ _).map StepRecord.id).nodup_iff).2 hfilter
  · refine List.map_congr_left fun r hr => ?_
    by_cases hexpired : expiredAt (limit.getD a.now) r = true <;> simp [hr, hexpired]

/-! Calls that cannot fail. -/

theorem appendEventRow_returns {runId type : String} {payload : PyVal} {stepId : Option String}
    (hfinite : payload.allFinite = true) :
    ∃ event, appendEventRow runId type payload stepId now j = (.ok event, j.addEvent event) := by
  obtain ⟨column, hcolumn⟩ := canonicalJson_of_allFinite hfinite
  exact ⟨j.eventRecord runId type stepId column now, by
    simp [appendEventRow, hcolumn, Txn.bind_ok, Txn.lift_ok]⟩

theorem markRunStatus_returns {runId : String} {run : RunRecord} {target : RunStatus}
    (hfound : j.findRun runId = some run) (htarget : target ∈ run.status.transitions) :
    ∃ j', markRunStatus a runId target j = (.ok (run.withStatus a target), j') ∧
      j'.findRun runId = some (run.withStatus a target) := by
  have hne : run.status ≠ target := by
    rintro rfl
    cases hstatus : run.status <;> simp [hstatus, RunStatus.transitions] at htarget
  obtain ⟨event, hevent⟩ := @appendEventRow_returns (j.updateRun runId (.withStatus a target)) a.now
    runId "run.status_changed" (dict [("from", .str run.status.value), ("to", .str target.value)])
    none rfl
  have hmarked : ((j.updateRun runId (.withStatus a target)).addEvent event).findRun runId =
      some (run.withStatus a target) := by
    have hkey : run.id = runId := Table.find_key hfound
    have hfind := @Table.find_updateWhere _ _ _ RunRecord.id j.runs runId (fun r => r.id = runId)
      (.withStatus a target) fun r => rfl
    rw [show Table.find RunRecord.id runId j.runs = some run from hfound] at hfind
    simpa [findRun, hkey] using hfind
  refine ⟨_, ?_, hmarked⟩
  simp only [markRunStatus, Txn.atomically_ok, Txn.bind_ok, requireRun_ok, Txn.ite_ok, Txn.pure_ok,
    Txn.require_ok, Txn.write_ok, decide_eq_true_eq]
  exact ⟨run, j, ⟨hfound, rfl⟩, .inr ⟨hne, (), j, ⟨htarget, rfl⟩, (), _, rfl, event, _, hevent,
    hmarked, rfl⟩⟩

theorem changeStep_returns {row : StepRecord} {p : StepRecord → Bool} {f : StepRecord → StepRecord}
    {type : String} {payload : PyVal} (hrow : row.id ∈ j.steps.map StepRecord.id)
    (hid : ∀ r, (f r).id = r.id) (hfinite : payload.allFinite = true) :
    ∃ r j', changeStep row p f type payload now j = (.ok r, j') ∧
      j'.steps.map StepRecord.id = j.steps.map StepRecord.id := by
  have hids : (j.updateSteps (fun r => r.id = row.id && p r) f).steps.map StepRecord.id =
      j.steps.map StepRecord.id := by
    simp only [updateSteps_steps, Table.updateWhere, List.map_map]
    refine List.map_congr_left fun r _ => ?_
    simp only [Function.comp]
    split <;> simp [hid]
  obtain ⟨event, hevent⟩ := @appendEventRow_returns (j.updateSteps (fun r => r.id = row.id && p r)
    f) now row.runId type _ (some row.id) hfinite
  have hfound : ((j.updateSteps (fun r => r.id = row.id && p r) f).addEvent event).findStep row.id ≠
      none := by
    intro hnone
    rw [← hids] at hrow
    obtain ⟨s, hs, hsame⟩ := List.mem_map.1 hrow
    exact Table.find_none hnone s (by simpa using hs) hsame
  obtain ⟨r, hr⟩ := Option.ne_none_iff_exists'.1 hfound
  refine ⟨r, (j.updateSteps (fun r => r.id = row.id && p r) f).addEvent event, ?_, hids⟩
  simp only [changeStep, Txn.bind_ok, Txn.write_ok, requireStep_ok]
  exact ⟨(), _, rfl, event, _, hevent, hr, rfl⟩

theorem reclaimRows_returns {rows : List StepRecord}
    (hrows : ∀ r ∈ rows, r.id ∈ j.steps.map StepRecord.id) :
    ∃ out j', reclaimRows now rows j = (.ok out, j') := by
  induction rows generalizing j with
  | nil => exact ⟨[], j, rfl⟩
  | cons row rows ih =>
      obtain ⟨r, t, hchange, hids⟩ := @changeStep_returns j now _
        (fun r => r.status = row.status && r.leaseExpiresAt.any (· ≤ now))
        (.expire (reclaimTarget row.safety) (reclaimReason (reclaimTarget row.safety)) now)
        "step.lease_expired" (dict [("from", .str row.status.value),
        ("to", .str (reclaimTarget row.safety).value),
          ("previous_owner", optStr row.leaseOwner), ("safety", .str row.safety.value),
          ("reason", optStr (reclaimReason (reclaimTarget row.safety)))]) (hrows row (by simp))
        (fun _ => rfl) (by
          cases row.leaseOwner <;> cases reclaimReason (reclaimTarget row.safety) <;> rfl)
      obtain ⟨out, j', hrest⟩ := ih fun s hs => by
        rw [hids]
        exact hrows s (List.mem_cons_of_mem _ hs)
      refine ⟨r :: out, j', ?_⟩
      simp only [reclaimRows, Txn.bind_ok, Txn.pure_ok]
      exact ⟨r, t, hchange, out, j', hrest, rfl, rfl⟩

theorem reclaim_returns (a : Ambient) (limit : Option Timestamp) (j : Journal) :
    ∃ out j', reclaimExpiredLeases a limit j = (.ok out, j') := by
  obtain ⟨out, j', h⟩ := @reclaimRows_returns j (limit.getD a.now)
    ((j.steps.filter (expiredAt (limit.getD a.now))).insertionSort fun a b => a.expiresBefore b)
    fun r hr => List.mem_map_of_mem (by simpa using List.mem_of_mem_filter ((List.mem_insertionSort _).1 hr))
  refine ⟨out, j', ?_⟩
  simp only [reclaimExpiredLeases, Txn.atomically_ok, Txn.bind_ok, Txn.read_ok]
  exact ⟨_, _, ⟨rfl, rfl⟩, h⟩

end Journal

end Polaris
