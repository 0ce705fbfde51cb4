import Polaris.Journal.Later

namespace Polaris
open PyJson

/-- SQLite takes integers of 64 bits. -/
def bindInteger : Option ℤ → Except PyError Unit
  | none => .ok ()
  | some n =>
      if -2 ^ 63 ≤ n ∧ n < 2 ^ 63 then .ok ()
      else .error ⟨.overflowError, "Python int too large to convert to SQLite INTEGER"⟩

namespace Journal

def listEvents (runId : String) (stepId : Option String) (afterId limit : Option ℤ) :
    Op (List EventRecord) := do
  Txn.require (limit.all (0 < ·)) (invalid "limit must be positive")
  let _ ← requireRun runId
  Txn.lift (bindInteger afterId)
  Txn.lift (bindInteger limit)
  let rows ← Txn.read fun j => (j.events.filter fun e =>
    e.runId = runId && stepId.all (e.stepId = some ·) && afterId.all (· < (e.id : ℤ))
    ).insertionSort fun e f => e.id ≤ f.id
  return limit.elim rows fun n => rows.take n.toNat

/-- The ids of the events count them. -/
def Numbered (j : Journal) : Prop := j.events.map EventRecord.id = List.range' 1 j.events.length

/-- The log of the one is that of the other with more events after it. -/
def Appends (j j' : Journal) : Prop :=
  ∃ more, j'.events = j.events ++ more ∧
    more.map EventRecord.id = List.range' (j.events.length + 1) more.length

variable {sha : Sha256} {a : Ambient} {i j j' t : Journal}

theorem Numbered.increasing (h : j.Numbered) :
    j.events.Pairwise fun e f => e.id < f.id := by
  have hids : (j.events.map EventRecord.id).Pairwise (· < ·) := by
    rw [h]
    exact List.pairwise_lt_range'
  exact List.pairwise_map.1 hids

theorem Numbered.bounds (h : j.Numbered) {e : EventRecord} (he : e ∈ j.events) :
    1 ≤ e.id ∧ e.id ≤ j.events.length := by
  have hid : e.id ∈ j.events.map EventRecord.id := List.mem_map_of_mem he
  rw [h, List.mem_range'_1] at hid
  omega

theorem Appends.refl (j : Journal) : j.Appends j := ⟨[], by simp, rfl⟩

theorem Appends.of_eq (h : j'.events = j.events) : j.Appends j' := ⟨[], by simp [h], rfl⟩

theorem Appends.trans (h : i.Appends j) (h' : j.Appends t) : i.Appends t := by
  obtain ⟨more, hmore, hids⟩ := h
  obtain ⟨more', hmore', hids'⟩ := h'
  refine ⟨more ++ more', by rw [hmore', hmore, List.append_assoc], ?_⟩
  rw [List.map_append, hids, hids', hmore, List.length_append, List.length_append,
    show i.events.length + more.length + 1 = i.events.length + 1 + 1 * more.length by omega,
    List.range'_append]

theorem Appends.event (hevents : t.events = j.events) (runId type : String)
    (stepId : Option String) (column : JsonColumn) (now : Timestamp) :
    j.Appends (t.addEvent (j.eventRecord runId type stepId column now)) :=
  ⟨[j.eventRecord runId type stepId column now], by simp [hevents], by simp⟩

theorem Appends.numbered (h : j.Appends j') (hj : j.Numbered) : j'.Numbered := by
  obtain ⟨more, hmore, hids⟩ := h
  rw [Numbered, hmore, List.map_append, hj, hids, List.length_append,
    show j.events.length + 1 = 1 + 1 * j.events.length by omega, List.range'_append]

theorem Appends.length (h : j.Appends j') : j.events.length ≤ j'.events.length := by
  obtain ⟨more, hmore, -⟩ := h
  rw [hmore, List.length_append]
  omega

theorem appends_of_reclaimRows {now : Timestamp} {rows out : List StepRecord}
    (h : reclaimRows now rows j = (.ok out, j')) : j.Appends j' := by
  induction rows generalizing j out with
  | nil =>
      simp only [reclaimRows, Txn.pure_ok] at h
      exact .of_eq (by rw [h.2])
  | cons row rows ih =>
      simp only [reclaimRows, changeStep, Txn.bind_ok, Txn.pure_ok, Txn.write_ok,
        appendEventRow_ok, requireStep_ok] at h
      obtain ⟨r, t, ⟨_, _, rfl, _, _, ⟨column, -, rfl, rfl⟩, -, rfl⟩, rest, _, hrest, -, rfl⟩ := h
      refine Appends.trans ?_ (ih hrest)
      exact Appends.event rfl _ _ _ _ _

theorem appends_of_perform {β : Type} {c : JournalCall β} {b : β} (hk : j.StepsKeyed)
    (h : c.perform sha a j = (.ok b, j')) : j.Appends j' := by
  cases c with
  | createRun =>
      obtain ⟨-, ⟨rfl, -⟩ | ⟨_, _, column, t, -, -, -, -, ht, rfl⟩⟩ := createRun_ok h
      · exact .refl _
      · obtain rfl | ⟨k, rfl⟩ := ht <;> exact .event rfl _ _ _ _ _
  | getRun =>
      simp only [JournalCall.perform, getRun, requireRun_ok] at h
      exact h.2 ▸ .refl _
  | markRunStatus =>
      obtain ⟨row, -, ⟨-, rfl⟩ | ⟨-, column, rfl⟩⟩ := markRunStatus_ok h
      · exact .refl _
      · exact .event rfl _ _ _ _ _
  | appendEvent =>
      obtain ⟨column, rfl, rfl⟩ := appendEvent_ok h
      exact .event rfl _ _ _ _ _
  | createStep =>
      obtain ⟨_, _, _, _, _, _, -, -, -, -, -, -, ⟨rfl, -⟩ | ⟨-, column, rfl, rfl⟩⟩ :=
        createStep_ok h
      · exact .refl _
      · exact .event rfl _ _ _ _ _
  | getStep =>
      simp only [JournalCall.perform, getStep, requireStep_ok] at h
      exact h.2 ▸ .refl _
  | listSteps =>
      simp only [JournalCall.perform, listSteps, Txn.ite_ok, Txn.bind_ok, requireRun_ok,
        Txn.read_ok, Txn.pure_ok] at h
      obtain ⟨-, -, rfl⟩ | ⟨-, _, _, ⟨-, rfl⟩, -, rfl⟩ := h <;> exact .refl _
  | claimReadyStep =>
      obtain ⟨-, rfl⟩ | ⟨row, expiry, column, r, -, -, rfl, -, rfl⟩ := claimReadyStep_ok hk h
      · exact .refl _
      · exact .event rfl _ _ _ _ _
  | markExecuting =>
      obtain ⟨row, column, -, -, -, rfl, rfl⟩ := markExecuting_ok hk h
      exact .event rfl _ _ _ _ _
  | heartbeat =>
      obtain ⟨row, expiry, column, -, -, -, -, rfl, rfl⟩ := heartbeat_ok hk h
      exact .event rfl _ _ _ _ _
  | commitStep =>
      obtain ⟨row, output, column, t, -, -, -, -, hadds, rfl, rfl⟩ := commitStep_ok hk h
      obtain rfl | ⟨_, rfl, -⟩ := hadds <;> exact .event rfl _ _ _ _ _
  | failStep =>
      obtain ⟨row, error, column, -, -, -, rfl, rfl⟩ := failStep_ok hk h
      exact .event rfl _ _ _ _ _
  | markUncertain =>
      obtain ⟨row, error, column, -, -, -, rfl, rfl⟩ := markUncertain_ok hk h
      exact .event rfl _ _ _ _ _
  | cancelStep =>
      obtain ⟨row, column, -, -, -, rfl, rfl⟩ := cancelStep_ok hk h
      exact .event rfl _ _ _ _ _
  | reclaimExpiredLeases =>
      simp only [JournalCall.perform, reclaimExpiredLeases, Txn.atomically_ok, Txn.bind_ok,
        Txn.read_ok] at h
      obtain ⟨rows, _, ⟨-, rfl⟩, h⟩ := h
      exact appends_of_reclaimRows h
  | recordReceipt =>
      obtain ⟨step, -, -, -, -, -, ⟨rfl, -⟩ | ⟨-, column, rfl⟩⟩ := recordReceipt_ok h
      · exact .refl _
      · exact .event rfl _ _ _ _ _
  | findReceipt =>
      simp only [JournalCall.perform, Txn.read_ok] at h
      exact h.2 ▸ .refl _
  | requestApproval =>
      obtain ⟨-, _, column, rfl, -, rfl⟩ := requestApproval_ok h
      exact .event rfl _ _ _ _ _
  | getApproval =>
      simp only [JournalCall.perform, getApproval, Txn.bind_ok, Txn.read_ok, Txn.getOr_ok] at h
      obtain ⟨_, _, ⟨-, rfl⟩, -, rfl⟩ := h
      exact .refl _
  | decideApproval =>
      obtain ⟨-, rfl | ⟨column, row, rfl⟩⟩ := decideApproval_ok h
      · exact .refl _
      · exact .event rfl _ _ _ _ _
  | listApprovals =>
      simp only [JournalCall.perform, listApprovals, Txn.read_ok] at h
      exact h.2 ▸ .refl _
  | startProviderCall =>
      obtain ⟨-, _, column, -, rfl, -, rfl⟩ := startProviderCall_ok h
      exact .event rfl _ _ _ _ _
  | completeProviderCall =>
      obtain ⟨row, _, column, -, -, -, -, rfl⟩ := completeProviderCall_ok h
      exact .event rfl _ _ _ _ _
  | listProviderCalls =>
      simp only [JournalCall.perform, listProviderCalls, Txn.read_ok] at h
      exact h.2 ▸ .refl _
  | reserveBudget =>
      obtain ⟨-, -, ⟨-, rfl⟩ | ⟨-, run, column, -, -, rfl⟩⟩ := reserveBudget_ok h
      · exact .refl _
      · exact .event rfl _ _ _ _ _
  | settleBudget =>
      obtain ⟨-, -, row, -, -, ⟨-, -, rfl⟩ | ⟨-, column, rfl⟩⟩ := settleBudget_ok h
      · exact .refl _
      · exact .event rfl _ _ _ _ _

end Journal

theorem Issued.appends (sha : Sha256) (i : Issued) {j : Journal} (hk : j.StepsKeyed) :
    j.Appends (i.after sha j) := by
  rcases i.outcome_cases sha j with ⟨b, h⟩ | ⟨-, h⟩
  · exact Journal.appends_of_perform hk h
  · rw [h]
    exact .refl j

namespace Journal

theorem stepsKeyed_after {sha : Sha256} {i : Issued} {j : Journal} (hk : j.StepsKeyed) :
    (i.after sha j).StepsKeyed := stepsKeyed_of_perform (r := (i.outcome sha j).1) hk rfl

theorem runCalls_numbered (sha : Sha256) (calls : List Issued) :
    (runCalls sha calls .empty).StepsKeyed ∧ (runCalls sha calls .empty).Numbered := by
  induction calls using List.reverseRecOn with
  | nil => exact ⟨List.nodup_nil, rfl⟩
  | append_singleton calls i ih =>
      have hlast : runCalls sha (calls ++ [i]) .empty = i.after sha (runCalls sha calls .empty) := by
        simp [runCalls]
      rw [hlast]
      exact ⟨stepsKeyed_after ih.1, (i.appends sha ih.1).numbered ih.2⟩

end Journal

end Polaris
