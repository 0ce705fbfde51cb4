import Polaris.Journal.Calls

namespace Polaris
open PyJson

namespace Journal

@[simps]
def putStep (row : StepRecord) (j : Journal) : Journal :=
  { j with steps := Table.put StepRecord.id row j.steps }

@[simps!]
def recordChange (row : StepRecord) (type : String) (payload : JsonColumn) (now : Timestamp)
    (j : Journal) : Journal :=
  (j.putStep row).addEvent (j.eventRecord row.runId type (some row.id) payload now)

def StepsKeyed (j : Journal) : Prop := Table.Keyed StepRecord.id j.steps

def HeldBy (a : Ambient) (row : StepRecord) (workerId : String) : Prop :=
  row.leaseOwner = some workerId ∧ ∃ expiry, row.leaseExpiresAt = some expiry ∧ a.checkedAt < expiry

variable {sha : Sha256} {a : Ambient} {j j' : Journal} {r : StepRecord}

@[simp] theorem requireRun_ok {runId : String} {run : RunRecord} :
    requireRun runId j = (.ok run, j') ↔ j.findRun runId = some run ∧ j = j' := by
  simp [requireRun]

@[simp] theorem requireStep_ok {stepId : String} :
    requireStep stepId j = (.ok r, j') ↔ j.findStep stepId = some r ∧ j = j' := by
  simp [requireStep]

@[simp] theorem requireRunIfGiven_ok {runId : Option String} {u : Unit} :
    requireRunIfGiven runId j = (.ok u, j') ↔
      (∀ id ∈ runId, (j.findRun id).isSome) ∧ j = j' := by
  cases runId with
  | none => simp [requireRunIfGiven]
  | some id =>
      simp only [requireRunIfGiven, Txn.bind_ok, requireRun_ok, Txn.pure_ok]
      simp [Option.isSome_iff_exists]

@[simp] theorem appendEventRow_ok {runId type : String} {payload : PyVal} {stepId : Option String}
    {now : Timestamp} {event : EventRecord} :
    appendEventRow runId type payload stepId now j = (.ok event, j') ↔
      ∃ column, canonicalJson payload = .ok column ∧
        event = j.eventRecord runId type stepId column now ∧ j' = j.addEvent event := by
  simp only [appendEventRow, Txn.bind_ok, Txn.lift_ok, Txn.read_ok, Txn.write_ok, Txn.pure_ok]
  constructor
  · rintro ⟨column, t, ⟨hc, rfl⟩, _, t, ⟨rfl, rfl⟩, _, t, rfl, rfl, rfl⟩
    exact ⟨column, hc, rfl, rfl⟩
  · rintro ⟨column, hc, rfl, rfl⟩
    exact ⟨column, _, ⟨hc, rfl⟩, _, _, ⟨rfl, rfl⟩, (), _, rfl, rfl, rfl⟩

theorem checkOwnerAndLease_ok {row : StepRecord} {workerId : String} {u : Unit}
    (h : checkOwnerAndLease a row workerId j = (.ok u, j')) : HeldBy a row workerId ∧ j = j' := by
  simp only [checkOwnerAndLease, Txn.bind_ok, Txn.require_ok, decide_eq_true_eq] at h
  obtain ⟨_, _, ⟨-, rfl⟩, _, _, ⟨howner, rfl⟩, hexpiry, rfl⟩ := h
  refine ⟨⟨howner, ?_⟩, rfl⟩
  simpa [Option.any_eq_true] using hexpiry

theorem changeStep_ok {row : StepRecord} {p : StepRecord → Bool} {f : StepRecord → StepRecord}
    {type : String} {payload : PyVal} {now : Timestamp} (hk : j.StepsKeyed) (hrow : row ∈ j.steps)
    (hp : p row = true) (hid : (f row).id = row.id) (hrun : (f row).runId = row.runId)
    (h : changeStep row p f type payload now j = (.ok r, j')) :
    r = f row ∧ ∃ column, j' = j.recordChange r type column now := by
  have hput : j.updateSteps (fun r => r.id = row.id && p r) f = j.putStep (f row) := by
    simp only [updateSteps, putStep]
    rw [Table.updateWhere_eq_put hk hrow (by simp [hp]) (fun r hr => by simp_all) hid]
  simp only [changeStep, Txn.bind_ok, Txn.write_ok, appendEventRow_ok, requireStep_ok, hput] at h
  obtain ⟨_, t, rfl, _, t, ⟨column, -, rfl, rfl⟩, hfind, rfl⟩ := h
  have hfound : (j.putStep (f row)).findStep row.id = some (f row) := by
    have hsome : (Table.find StepRecord.id (f row).id j.steps).isSome := by
      rw [hid, hk.find hrow]; rfl
    have := Table.find_put (k := row.id) hsome
    simpa [findStep, putStep, hid] using this
  have hr : r = f row := by
    have : (j.putStep (f row)).findStep row.id = some r := hfind
    exact Option.some.inj (this.symm.trans hfound)
  subst hr
  exact ⟨rfl, column, by simp [recordChange, hid, hrun, eventRecord, putStep]⟩

theorem markExecuting_ok {stepId workerId : String} (hk : j.StepsKeyed)
    (h : markExecuting a stepId workerId j = (.ok r, j')) :
    ∃ row column, j.findStep stepId = some row ∧ row.status = .leased ∧ HeldBy a row workerId ∧
      r = row.execute a.now ∧ j' = j.recordChange r "step.executing" column a.now := by
  simp only [markExecuting, Txn.atomically_ok, Txn.bind_ok, requireStep_ok, Txn.require_ok,
    decide_eq_true_eq] at h
  obtain ⟨row, _, ⟨hrow, rfl⟩, _, _, ⟨hstatus, rfl⟩, _, t, hcheck, hchange⟩ := h
  obtain ⟨hheld, rfl⟩ := checkOwnerAndLease_ok hcheck
  obtain ⟨rfl, column, rfl⟩ := changeStep_ok hk (Table.find_mem hrow) (by simp [hstatus]) rfl rfl
    hchange
  exact ⟨row, column, hrow, hstatus, hheld, rfl, rfl⟩

theorem heartbeat_ok {stepId workerId : String} {leaseSeconds : ℚ} (hk : j.StepsKeyed)
    (h : heartbeat a stepId workerId leaseSeconds j = (.ok r, j')) :
    ∃ row expiry column, j.findStep stepId = some row ∧
      (row.status = .leased ∨ row.status = .executing) ∧ HeldBy a row workerId ∧
      expiryAfter a.leaseFrom leaseSeconds = .ok expiry ∧
      r = row.extend expiry a.now ∧ j' = j.recordChange r "step.heartbeat" column a.now := by
  simp only [heartbeat, Txn.atomically_ok, Txn.bind_ok, requireStep_ok, Txn.require_ok,
    Txn.lift_ok, Bool.or_eq_true, decide_eq_true_eq] at h
  obtain ⟨_, _, ⟨-, rfl⟩, row, _, ⟨hrow, rfl⟩, _, _, ⟨hstatus, rfl⟩, _, t, hcheck, expiry, _,
    ⟨hexpiry, rfl⟩, hchange⟩ := h
  obtain ⟨hheld, rfl⟩ := checkOwnerAndLease_ok hcheck
  obtain ⟨rfl, column, rfl⟩ := changeStep_ok hk (Table.find_mem hrow) (by simp [hheld.1]) rfl rfl
    hchange
  exact ⟨row, expiry, column, hrow, hstatus, hheld, hexpiry, rfl, rfl⟩

def AddsReceipt (key : Option String) (j j' : Journal) : Prop :=
  j' = j ∨ ∃ receipt, j' = j.addReceipt receipt ∧ j.findReceipt receipt.idempotencyKey = none ∧
    key = some receipt.idempotencyKey

theorem recordReceiptInTransaction_ok {runId : String} {stepId : Option String} {key : String}
    {payload : PyVal} {now : Timestamp} {receipt : ReceiptRecord}
    (h : recordReceiptInTransaction sha runId stepId key payload now j = (.ok receipt, j')) :
    receipt.idempotencyKey = key ∧ receipt.runId = runId ∧ receipt.stepId = stepId ∧
      (∃ column, canonicalJson payload = .ok column ∧ receipt.payload.text = column.text) ∧
      (j' = j ∧ j.findReceipt key = some receipt ∨
        j' = j.addReceipt receipt ∧ j.findReceipt key = none) := by
  simp only [recordReceiptInTransaction, Txn.bind_ok, Txn.require_ok, Txn.lift_ok, Txn.read_ok] at h
  obtain ⟨_, _, ⟨-, rfl⟩, column, _, ⟨hcolumn, rfl⟩, found, _, ⟨hfound, rfl⟩, h⟩ := h
  cases found with
  | some existing =>
      simp only [Txn.bind_ok, Txn.require_ok, Txn.pure_ok, Bool.and_eq_true, decide_eq_true_eq] at h
      obtain ⟨_, _, ⟨⟨⟨hrun, hstep⟩, htext⟩, rfl⟩, rfl, rfl⟩ := h
      exact ⟨Table.find_key hfound, hrun, hstep, ⟨column, hcolumn, htext⟩, .inl ⟨rfl, hfound⟩⟩
  | none =>
      simp only [Txn.bind_ok, Txn.require_ok, Txn.pure_ok, Txn.lift_ok, Txn.read_ok,
        Txn.write_ok] at h
      obtain ⟨digest, _, ⟨-, rfl⟩, _, _, ⟨rfl, rfl⟩, _, _, ⟨-, rfl⟩, _, _, rfl, rfl, rfl⟩ := h
      exact ⟨rfl, rfl, rfl, ⟨column, hcolumn, rfl⟩, .inr ⟨rfl, hfound⟩⟩

theorem recordReceiptInTransaction_adds {runId : String} {stepId : Option String} {key : String}
    {payload : PyVal} {now : Timestamp} {receipt : ReceiptRecord}
    (h : recordReceiptInTransaction sha runId stepId key payload now j = (.ok receipt, j')) :
    j.AddsReceipt (some key) j' := by
  obtain ⟨hkey, -, -, -, ⟨rfl, -⟩ | ⟨rfl, hnew⟩⟩ := recordReceiptInTransaction_ok h
  · exact .inl rfl
  · exact .inr ⟨receipt, rfl, hkey ▸ hnew, congrArg some hkey.symm⟩

theorem commitReceipt_ok {row : StepRecord} {receipt : Option ReceiptInput} {id : Option String}
    (h : commitReceipt sha a row receipt j = (.ok id, j')) :
    j.AddsReceipt (receipt.bind ReceiptInput.idempotencyKey) j' := by
  cases receipt with
  | none =>
      simp only [commitReceipt, Txn.pure_ok] at h
      exact .inl h.2.symm
  | some receipt =>
      simp only [commitReceipt, Txn.bind_ok, Txn.getOr_ok, Txn.pure_ok] at h
      obtain ⟨key, _, ⟨hkey, rfl⟩, record, _, hrecord, -, rfl⟩ := h
      have hadds := recordReceiptInTransaction_adds hrecord
      rwa [← hkey] at hadds

theorem commitStep_ok {stepId workerId : String} {output : PyVal} {receipt : Option ReceiptInput}
    (hk : j.StepsKeyed) (h : commitStep sha a stepId workerId output receipt j = (.ok r, j')) :
    ∃ row outputJson column t, j.findStep stepId = some row ∧ row.status = .executing ∧
      HeldBy a row workerId ∧ canonicalJson output = .ok outputJson ∧
      j.AddsReceipt (receipt.bind ReceiptInput.idempotencyKey) t ∧
      r = row.commit outputJson a.now ∧ j' = t.recordChange r "step.committed" column a.now := by
  simp only [commitStep, Txn.atomically_ok, Txn.bind_ok, requireStep_ok, Txn.require_ok,
    Txn.lift_ok, decide_eq_true_eq] at h
  obtain ⟨row, _, ⟨hrow, rfl⟩, _, _, ⟨hstatus, rfl⟩, _, _, hcheck, receiptId, t, hreceipt,
    outputJson, _, ⟨houtput, rfl⟩, _, _, ⟨-, rfl⟩, hchange⟩ := h
  obtain ⟨hheld, rfl⟩ := checkOwnerAndLease_ok hcheck
  have hadds := commitReceipt_ok hreceipt
  have hsteps : t.steps = j.steps := by
    obtain rfl | ⟨_, rfl, -⟩ := hadds <;> rfl
  obtain ⟨rfl, column, rfl⟩ := changeStep_ok (by simpa [StepsKeyed, hsteps] using hk)
    (hsteps ▸ Table.find_mem hrow) (by simp [hstatus, hheld.1]) rfl rfl hchange
  exact ⟨row, outputJson, column, t, hrow, hstatus, hheld, houtput, hadds, rfl, rfl⟩

theorem errorColumn_ok {error : Option PyVal} {column : Option JsonColumn}
    (h : errorColumn error j = (.ok column, j')) : j = j' := by
  cases error with
  | none => simp only [errorColumn, Txn.pure_ok] at h; exact h.2
  | some error =>
      simp only [errorColumn, Txn.bind_ok, Txn.lift_ok, Txn.pure_ok] at h
      obtain ⟨_, _, ⟨-, rfl⟩, -, rfl⟩ := h
      rfl

theorem finishOwnedStep_ok {stepId workerId eventType : String} {target : StepStatus}
    {error : Option PyVal} {reason : Option String} (hk : j.StepsKeyed)
    (h : finishOwnedStep a stepId workerId target eventType error reason j = (.ok r, j')) :
    ∃ row errorJson column, j.findStep stepId = some row ∧
      (row.status = .leased ∨ row.status = .executing) ∧ HeldBy a row workerId ∧
      r = row.finish target errorJson reason a.now ∧
      j' = j.recordChange r eventType column a.now := by
  simp only [finishOwnedStep, Txn.atomically_ok, Txn.bind_ok, requireStep_ok, Txn.require_ok,
    Bool.or_eq_true, decide_eq_true_eq] at h
  obtain ⟨row, _, ⟨hrow, rfl⟩, _, _, ⟨hstatus, rfl⟩, _, _, hcheck, errorJson, _, herror,
    hchange⟩ := h
  obtain ⟨hheld, rfl⟩ := checkOwnerAndLease_ok hcheck
  obtain rfl := errorColumn_ok herror
  obtain ⟨rfl, column, rfl⟩ := changeStep_ok hk (Table.find_mem hrow) (by simp [hheld.1]) rfl rfl
    hchange
  exact ⟨row, errorJson, column, hrow, hstatus, hheld, rfl, rfl⟩

theorem failStep_ok {stepId workerId : String} {error : PyVal} (hk : j.StepsKeyed)
    (h : failStep a stepId workerId error j = (.ok r, j')) :
    ∃ row errorJson column, j.findStep stepId = some row ∧
      (row.status = .leased ∨ row.status = .executing) ∧ HeldBy a row workerId ∧
      r = row.finish .failed errorJson none a.now ∧
      j' = j.recordChange r "step.failed" column a.now :=
  finishOwnedStep_ok hk h

theorem markUncertain_ok {stepId workerId reason : String} (hk : j.StepsKeyed)
    (h : markUncertain a stepId workerId reason j = (.ok r, j')) :
    ∃ row errorJson column, j.findStep stepId = some row ∧
      (row.status = .leased ∨ row.status = .executing) ∧ HeldBy a row workerId ∧
      r = row.finish .uncertain errorJson (some reason) a.now ∧
      j' = j.recordChange r "step.uncertain" column a.now := by
  simp only [markUncertain, Txn.bind_ok, Txn.require_ok] at h
  obtain ⟨_, _, ⟨-, rfl⟩, h⟩ := h
  exact finishOwnedStep_ok hk h

def cancellable : List StepStatus := [.created, .ready, .leased, .executing, .uncertain]

theorem checkCanceller_ok {row : StepRecord} {workerId : Option String} {u : Unit}
    (h : checkCanceller a row workerId j = (.ok u, j')) :
    j = j' ∧ (row.status = .leased ∨ row.status = .executing →
      ∃ worker, workerId = some worker ∧ HeldBy a row worker) := by
  simp only [checkCanceller, Txn.ite_ok, Txn.bind_ok, Txn.getOr_ok, Txn.pure_ok] at h
  obtain ⟨-, worker, _, ⟨rfl, rfl⟩, hcheck⟩ | ⟨hfree, -, rfl⟩ := h
  · obtain ⟨hheld, rfl⟩ := checkOwnerAndLease_ok hcheck
    exact ⟨rfl, fun _ => ⟨worker, rfl, hheld⟩⟩
  · exact ⟨rfl, fun hactive => absurd hactive hfree⟩

theorem cancelStep_ok {stepId : String} {workerId : Option String} (hk : j.StepsKeyed)
    (h : cancelStep a stepId workerId j = (.ok r, j')) :
    ∃ row column, j.findStep stepId = some row ∧ row.status ∈ cancellable ∧
      (row.status = .leased ∨ row.status = .executing →
        ∃ worker, workerId = some worker ∧ HeldBy a row worker) ∧
      r = row.cancel a.now ∧ j' = j.recordChange r "step.cancelled" column a.now := by
  simp only [cancelStep, Txn.atomically_ok, Txn.bind_ok, requireStep_ok, Txn.require_ok,
    decide_eq_true_eq] at h
  obtain ⟨row, _, ⟨hrow, rfl⟩, _, _, ⟨hstatus, rfl⟩, _, _, hcheck, hchange⟩ := h
  obtain ⟨rfl, hheld⟩ := checkCanceller_ok hcheck
  obtain ⟨rfl, column, rfl⟩ := changeStep_ok hk (Table.find_mem hrow) (by simp) rfl rfl hchange
  exact ⟨row, column, hrow, hstatus, hheld, rfl, rfl⟩

theorem firstReady_some {runId : Option String} {row : StepRecord}
    (h : firstReady runId j = some row) :
    row ∈ j.steps ∧ row.status = .ready ∧ ∀ id ∈ runId, row.runId = id := by
  have hmem := List.mem_of_head? h
  simp only [List.mem_insertionSort, List.mem_filter, Bool.and_eq_true, decide_eq_true_eq] at hmem
  refine ⟨hmem.1, hmem.2.1, fun id hid => ?_⟩
  obtain rfl : runId = some id := hid
  simpa using hmem.2.2

theorem claimReadyStep_ok {workerId : String} {leaseSeconds : ℚ} {runId : Option String}
    {claimed : Option StepRecord} (hk : j.StepsKeyed)
    (h : claimReadyStep a workerId leaseSeconds runId j = (.ok claimed, j')) :
    claimed = none ∧ j' = j ∨
      ∃ row expiry column r, firstReady runId j = some row ∧
        expiryAfter a.leaseFrom leaseSeconds = .ok expiry ∧
        r = row.lease workerId expiry a.now ∧ claimed = some r ∧
        j' = j.recordChange r "step.leased" column a.now := by
  simp only [claimReadyStep, Txn.atomically_ok, Txn.bind_ok, Txn.require_ok, Txn.lift_ok,
    requireRunIfGiven_ok, Txn.read_ok] at h
  obtain ⟨_, _, ⟨-, rfl⟩, _, _, ⟨-, rfl⟩, expiry, _, ⟨hexpiry, rfl⟩, _, _, ⟨-, rfl⟩, found, _,
    ⟨hfound, rfl⟩, h⟩ := h
  cases found with
  | none =>
      simp only [Txn.pure_ok] at h
      exact .inl ⟨h.1.symm, h.2.symm⟩
  | some row =>
      simp only [Txn.bind_ok, Txn.pure_ok] at h
      obtain ⟨r, t, hchange, rfl, rfl⟩ := h
      obtain ⟨hrow, hstatus, -⟩ := firstReady_some hfound
      obtain ⟨rfl, column, rfl⟩ := changeStep_ok hk hrow (by simp [hstatus]) rfl rfl hchange
      exact .inr ⟨row, expiry, column, _, hfound, hexpiry, rfl, rfl, rfl⟩

theorem createStep_ok {runId kind name : String} {input : PyVal} {safety : String}
    {sequence : Option ℤ}
    (h : createStep sha a runId kind name input safety sequence j = (.ok r, j')) :
    ∃ run inputJson inputHash safetyValue key stepId, j.findRun runId = some run ∧
      canonicalJson input = .ok inputJson ∧ sha256Hex sha input = .ok inputHash ∧
      coerceSafety safety = .ok safetyValue ∧
      stepKey sha kind name inputHash safetyValue sequence = .ok key ∧
      stepIdOf sha runId key = .ok stepId ∧
      (j' = j ∧ j.findStep stepId = some r ∨
        (∀ s ∈ j.steps, s.id ≠ stepId) ∧ ∃ column,
          r = newStep a stepId runId key kind name inputJson inputHash safetyValue sequence ∧
          j' = (j.addStep r).addEvent
            (j.eventRecord runId "step.created" (some stepId) column a.now)) := by
  simp only [createStep, Txn.atomically_ok, Txn.bind_ok, Txn.require_ok, Txn.lift_ok,
    requireRun_ok, Txn.read_ok, Txn.ite_ok, Txn.write_ok, appendEventRow_ok, requireStep_ok] at h
  obtain ⟨_, _, ⟨-, rfl⟩, _, _, ⟨-, rfl⟩, safetyValue, _, ⟨hsafety, rfl⟩, inputJson, _,
    ⟨hinput, rfl⟩, inputHash, _, ⟨hhash, rfl⟩, key, _, ⟨hkey, rfl⟩, stepId, _, ⟨hid, rfl⟩, run, _,
    ⟨hrun, rfl⟩, taken, _, ⟨htaken, rfl⟩, h⟩ := h
  refine ⟨run, inputJson, inputHash, safetyValue, key, stepId, hrun, hinput, hhash, hsafety, hkey,
    hid, ?_⟩
  obtain ⟨hfresh, _, _, rfl, _, _, ⟨column, -, rfl, rfl⟩, hfind, rfl⟩ | ⟨-, hfind, rfl⟩ := h
  · have hnone : ∀ s ∈ j.steps, s.id ≠ stepId := by
      intro s hs heq
      simp only [← htaken, Bool.not_eq_true', List.any_eq_false] at hfresh
      exact hfresh s hs (by simp [heq])
    have hfind' := hfind
    simp only [findStep, addEvent_steps, addStep_steps] at hfind'
    rw [Table.find_append_of_none (by simpa [Table.find] using hnone)] at hfind'
    obtain rfl : _ = r := by simpa [Table.find] using hfind'
    exact .inr ⟨hnone, column, rfl, rfl⟩
  · exact .inl ⟨rfl, hfind⟩

end Journal

end Polaris
