import Polaris.Journal.StepSpecs

namespace Polaris
open PyJson

namespace Journal

variable {sha : Sha256} {a : Ambient} {j j' : Journal}

@[simp] theorem validateNonnegativeInteger_ok {name : String} {n : ℤ} {u : Unit} :
    validateNonnegativeInteger name n j = (.ok u, j') ↔ 0 ≤ n ∧ j = j' := by
  simp [validateNonnegativeInteger]

@[simp] theorem validateNonnegative_ok {name : String} {q : ℚ} {u : Unit} :
    validateNonnegative name q j = (.ok u, j') ↔ 0 ≤ q ∧ j = j' := by
  simp [validateNonnegative]

def LimitsNonnegative (limits : Budget) : Prop :=
  0 ≤ limits.callLimit.getD 0 ∧ 0 ≤ limits.tokenLimit.getD 0 ∧ 0 ≤ limits.microUsdLimit.getD 0 ∧
    0 ≤ limits.wallSecondsLimit.getD 0

theorem validateLimits_ok {limits : Budget} {u : Unit}
    (h : validateLimits limits j = (.ok u, j')) : LimitsNonnegative limits ∧ j = j' := by
  simp only [validateLimits, Txn.bind_ok, validateNonnegativeInteger_ok,
    validateNonnegative_ok] at h
  obtain ⟨_, _, ⟨hc, rfl⟩, _, _, ⟨ht, rfl⟩, _, _, ⟨hm, rfl⟩, hw, rfl⟩ := h
  exact ⟨⟨hc, ht, hm, hw⟩, rfl⟩

theorem requireStepOfRun_ok {runId : String} {stepId : Option String} {u : Unit}
    (h : requireStepOfRun runId stepId j = (.ok u, j')) :
    (∀ id ∈ stepId, ∃ step, j.findStep id = some step ∧ step.runId = runId) ∧ j = j' := by
  cases stepId with
  | none => simpa [requireStepOfRun] using h
  | some id =>
      simp only [requireStepOfRun, Txn.bind_ok, requireStep_ok, Txn.require_ok,
        decide_eq_true_eq] at h
      obtain ⟨step, _, ⟨hstep, rfl⟩, hrun, rfl⟩ := h
      exact ⟨fun _ hid => ⟨step, by cases hid; exact hstep, hrun⟩, rfl⟩

theorem insertExternalKey_ok {row : String → ExternalKey} {key : Option String} {u : Unit}
    (h : insertExternalKey row key j = (.ok u, j')) :
    j' = j ∨ ∃ k, j' = j.addExternalKey k := by
  cases key with
  | none => simp only [insertExternalKey, Txn.pure_ok] at h; exact .inl h.2.symm
  | some key => simp only [insertExternalKey, Txn.write_ok] at h; exact .inr ⟨row key, h.symm⟩

theorem createRun_ok {mode : String} {request config : PyVal} {limits : Budget}
    {parentRunId externalKey : Option String} {run : RunRecord}
    (h : createRun sha a mode request config limits parentRunId externalKey j = (.ok run, j')) :
    LimitsNonnegative limits ∧
      (j' = j ∧ run ∈ j.runs ∨
        ∃ requestJson configJson column t,
          run = newRun a mode requestJson configJson limits parentRunId ∧
          canonicalJson request = .ok requestJson ∧ canonicalJson config = .ok configJson ∧
          j.findRun run.id = none ∧ (t = j.addRun run ∨ ∃ k, t = (j.addRun run).addExternalKey k) ∧
          j' = t.addEvent (j.eventRecord run.id "run.created" none column a.now)) := by
  simp only [createRun, Txn.bind_ok, Txn.require_ok, Txn.lift_ok, Txn.atomically_ok,
    Txn.read_ok] at h
  obtain ⟨_, _, ⟨-, rfl⟩, _, _, ⟨-, rfl⟩, _, _, hlimits, requestJson, _, ⟨hrequest, rfl⟩,
    configJson, _, ⟨hconfig, rfl⟩, _, _, ⟨-, rfl⟩, _, _, ⟨-, rfl⟩, _, _, ⟨-, rfl⟩, _, _,
    ⟨-, rfl⟩, found, _, ⟨hfound, rfl⟩, h⟩ := h
  obtain ⟨hnonneg, rfl⟩ := validateLimits_ok hlimits
  refine ⟨hnonneg, ?_⟩
  cases found with
  | some pair =>
      obtain ⟨key, existing⟩ := pair
      simp only [Txn.bind_ok, Txn.require_ok, Txn.pure_ok] at h
      obtain ⟨_, _, ⟨-, rfl⟩, rfl, rfl⟩ := h
      obtain ⟨k, -, hk⟩ := Option.bind_eq_some_iff.1 hfound
      simp only [externalRun, Option.bind_eq_bind, Option.bind_eq_some_iff] at hk
      obtain ⟨_, -, run, hrun, hpair⟩ := hk
      cases hpair
      exact .inl ⟨rfl, Table.find_mem hrun⟩
  | none =>
      simp only [Txn.bind_ok, requireRunIfGiven_ok, insertRun, Txn.read_ok, Txn.require_ok,
        Txn.write_ok, appendEventRow_ok, requireRun_ok] at h
      obtain ⟨_, _, ⟨-, rfl⟩, _, _, ⟨_, _, ⟨rfl, rfl⟩, _, _, ⟨hnew, rfl⟩, rfl⟩, _, t, hkey, _, _,
        ⟨column, -, rfl, rfl⟩, hrun, rfl⟩ := h
      have ht := insertExternalKey_ok hkey
      have hnone : j.findRun (newRun a mode requestJson configJson limits parentRunId).id = none :=
        by simpa using hnew
      have hsame : t.runs = j.runs ++ [newRun a mode requestJson configJson limits parentRunId] ∧
          t.events = j.events := by
        obtain rfl | ⟨k, rfl⟩ := ht <;> exact ⟨rfl, rfl⟩
      obtain rfl : newRun a mode requestJson configJson limits parentRunId = run := by
        simp only [findRun, addEvent_runs, hsame.1] at hrun hnone
        rw [Table.find_append_of_none hnone] at hrun
        simpa [Table.find] using hrun
      refine .inr ⟨requestJson, configJson, column, t, rfl, hrequest, hconfig, hnone, ht, ?_⟩
      simp [eventRecord, hsame.2]

theorem markRunStatus_ok {runId : String} {target : RunStatus} {run : RunRecord}
    (h : markRunStatus a runId target j = (.ok run, j')) :
    ∃ row, j.findRun runId = some row ∧
      (row.status = target ∧ j' = j ∨
        target ∈ row.status.transitions ∧ ∃ column,
          j' = (j.updateRun runId (.withStatus a target)).addEvent
            (j.eventRecord runId "run.status_changed" none column a.now)) := by
  simp only [markRunStatus, Txn.atomically_ok, Txn.bind_ok, requireRun_ok, Txn.ite_ok,
    Txn.pure_ok, Txn.require_ok, Txn.write_ok, appendEventRow_ok, decide_eq_true_eq] at h
  obtain ⟨row, _, ⟨hrow, rfl⟩, ⟨hsame, -, rfl⟩ | ⟨-, _, _, ⟨htarget, rfl⟩, _, _, rfl, _, _,
    ⟨column, -, rfl, rfl⟩, -, rfl⟩⟩ := h
  · exact ⟨row, hrow, .inl ⟨hsame, rfl⟩⟩
  · exact ⟨row, hrow, .inr ⟨htarget, column, rfl⟩⟩

theorem appendEvent_ok {runId eventType : String} {payload : PyVal} {stepId : Option String}
    {event : EventRecord} (h : appendEvent a runId eventType payload stepId j = (.ok event, j')) :
    ∃ column, event = j.eventRecord runId eventType stepId column a.now ∧ j' = j.addEvent event := by
  simp only [appendEvent, Txn.bind_ok, Txn.require_ok, Txn.atomically_ok, requireRun_ok,
    appendEventRow_ok] at h
  obtain ⟨_, _, ⟨-, rfl⟩, _, _, ⟨-, rfl⟩, _, _, hstep, column, -, rfl, rfl⟩ := h
  obtain ⟨-, rfl⟩ := requireStepOfRun_ok hstep
  exact ⟨column, rfl, rfl⟩

theorem recordReceipt_ok {stepId key : String} {payload : PyVal} {receipt : ReceiptRecord}
    (h : recordReceipt sha a stepId key payload j = (.ok receipt, j')) :
    ∃ step, j.findStep stepId = some step ∧ receipt.idempotencyKey = key ∧
      receipt.runId = step.runId ∧ receipt.stepId = some stepId ∧
      (∃ column, canonicalJson payload = .ok column ∧ receipt.payload.text = column.text) ∧
      (j' = j ∧ j.findReceipt key = some receipt ∨
        j.findReceipt key = none ∧ ∃ column, j' = (j.addReceipt receipt).addEvent
          (j.eventRecord step.runId "receipt.recorded" (some stepId) column a.now)) := by
  simp only [recordReceipt, Txn.atomically_ok, Txn.bind_ok, requireStep_ok, Txn.read_ok,
    Txn.ite_ok, appendEventRow_ok, Txn.pure_ok] at h
  obtain ⟨step, _, ⟨hstep, rfl⟩, existed, _, ⟨hexisted, rfl⟩, record, t, hrecord, h⟩ := h
  obtain ⟨hkey, hrun, hstepId, hpayload, hcase⟩ := recordReceiptInTransaction_ok hrecord
  refine ⟨step, hstep, ?_⟩
  rcases hcase with ⟨rfl, hfound⟩ | ⟨rfl, hfound⟩
  · rw [hfound] at hexisted
    subst hexisted
    simp only [Option.isNone_some, Bool.false_eq_true, false_and, not_false_eq_true, true_and,
      false_or] at h
    obtain ⟨rfl, rfl⟩ := h
    exact ⟨hkey, hrun, hstepId, hpayload, .inl ⟨rfl, hfound⟩⟩
  · rw [hfound] at hexisted
    subst hexisted
    simp only [Option.isNone_none, true_and, not_true_eq_false, false_and, or_false] at h
    obtain ⟨_, _, ⟨column, -, rfl, rfl⟩, rfl, rfl⟩ := h
    exact ⟨hkey, hrun, hstepId, hpayload, .inr ⟨hfound, column, rfl⟩⟩

theorem requestApproval_ok {runId kind : String} {stepId : Option String} {request : PyVal}
    {approval : ApprovalRecord}
    (h : requestApproval a runId stepId request kind j = (.ok approval, j')) :
    (∀ id ∈ stepId, ∃ step, j.findStep id = some step ∧ step.runId = runId) ∧
      ∃ requestJson column, approval = ⟨"approval_" ++ a.uuid, runId, stepId, kind, requestJson,
          .pending, none, none, none, a.now, none⟩ ∧
        j.findApproval approval.id = none ∧ j' = (j.addApproval approval).addEvent
          (j.eventRecord runId "approval.requested" stepId column a.now) := by
  simp only [requestApproval, Txn.bind_ok, Txn.require_ok, Txn.atomically_ok, requireRun_ok,
    Txn.lift_ok, Txn.read_ok, Txn.write_ok, appendEventRow_ok, Txn.pure_ok] at h
  obtain ⟨_, _, ⟨-, rfl⟩, _, _, ⟨-, rfl⟩, _, _, hstep, requestJson, _, ⟨-, rfl⟩, _, _,
    ⟨rfl, rfl⟩, _, _, ⟨hnew, rfl⟩, _, _, rfl, _, _, ⟨column, -, rfl, rfl⟩, rfl, rfl⟩ := h
  obtain ⟨hsteps, rfl⟩ := requireStepOfRun_ok hstep
  exact ⟨hsteps, requestJson, column, rfl, by simpa using hnew, rfl⟩

theorem decideApproval_ok {approvalId decidedBy : String} {decision : ApprovalStatus}
    {reason : Option String} {approval : ApprovalRecord}
    (h : decideApproval a approvalId decision decidedBy reason j = (.ok approval, j')) :
    decision ≠ .pending ∧
      (j' = j ∨ ∃ column, ∃ row : ApprovalRecord, j' = (j.updateApprovals
          (fun r => r.id = approvalId && r.status = .pending)
          (.decided a decision decidedBy reason)).addEvent
        (j.eventRecord row.runId "approval.decided" row.stepId column a.now)) := by
  simp only [decideApproval, getApproval, Txn.bind_ok, Txn.require_ok, Txn.atomically_ok,
    Txn.read_ok, Txn.getOr_ok, Txn.ite_ok, Txn.pure_ok, Txn.write_ok, appendEventRow_ok,
    decide_eq_true_eq] at h
  obtain ⟨_, _, ⟨hdecision, rfl⟩, _, _, ⟨-, rfl⟩, row, _, ⟨_, _, ⟨-, rfl⟩, -, rfl⟩,
    ⟨-, _, _, ⟨-, rfl⟩, -, rfl⟩ | ⟨-, _, _, rfl, _, _, ⟨column, -, rfl, rfl⟩, _, _,
      ⟨-, rfl⟩, -, rfl⟩⟩ := h
  · exact ⟨hdecision, .inl rfl⟩
  · exact ⟨hdecision, .inr ⟨column, row, rfl⟩⟩

theorem requireForeignStep_ok {stepId : Option String} {u : Unit}
    (h : requireForeignStep stepId j = (.ok u, j')) :
    (∀ id ∈ stepId, (j.findStep id).isSome) ∧ j = j' := by
  cases stepId with
  | none => simpa [requireForeignStep] using h
  | some id => simpa [requireForeignStep, and_comm] using h

theorem startProviderCall_ok {runId provider : String} {request : PyVal}
    {stepId model : Option String} {call : ProviderCallRecord}
    (h : startProviderCall a runId provider request stepId model j = (.ok call, j')) :
    (∀ id ∈ stepId, (j.findStep id).isSome) ∧ ∃ requestJson column,
      canonicalJson request = .ok requestJson ∧
      call = ⟨"provider_" ++ a.uuid, runId, stepId, provider, model, requestJson, none, .started,
        0, 0, 0, a.now, none⟩ ∧
      j.findProviderCall call.id = none ∧ j' = (j.addProviderCall call).addEvent
        (j.eventRecord runId "provider.started" stepId column a.now) := by
  simp only [startProviderCall, Txn.bind_ok, Txn.require_ok, Txn.atomically_ok, requireRun_ok,
    Txn.lift_ok, Txn.read_ok, Txn.write_ok, appendEventRow_ok, Txn.pure_ok] at h
  obtain ⟨_, _, ⟨-, rfl⟩, _, _, ⟨-, rfl⟩, requestJson, _, ⟨hrequest, rfl⟩, _, _, ⟨rfl, rfl⟩, _, _,
    ⟨hnew, rfl⟩, _, _, hstep, _, _, rfl, _, _, ⟨column, -, rfl, rfl⟩, rfl, rfl⟩ := h
  obtain ⟨hsteps, rfl⟩ := requireForeignStep_ok hstep
  exact ⟨hsteps, requestJson, column, hrequest, rfl, by simpa using hnew, rfl⟩

theorem completeProviderCall_ok {callId : String} {response : PyVal} {status : CallStatus}
    {model : Option String} {inputTokens outputTokens microUsd : ℤ} {call : ProviderCallRecord}
    (h : completeProviderCall a callId response status model inputTokens outputTokens microUsd j =
      (.ok call, j')) :
    ∃ row responseJson column, j.findProviderCall callId = some row ∧ row.status = .started ∧
      status ≠ .started ∧ canonicalJson response = .ok responseJson ∧
      j' = (j.updateProviderCalls (fun r => r.id = callId && r.status = .started)
          (.completed a responseJson status model inputTokens outputTokens microUsd)).addEvent
        (j.eventRecord row.runId ("provider." ++ status.value) row.stepId column a.now) := by
  simp only [completeProviderCall, Txn.bind_ok, Txn.require_ok, Txn.atomically_ok, Txn.lift_ok,
    Txn.read_ok, Txn.write_ok, Txn.getOr_ok, appendEventRow_ok, validateNonnegativeInteger_ok,
    decide_eq_true_eq] at h
  obtain ⟨_, _, ⟨hstatus, rfl⟩, _, _, ⟨-, rfl⟩, _, _, ⟨-, rfl⟩, _, _, ⟨-, rfl⟩, _, _, ⟨rfl, rfl⟩,
    row, _, ⟨hrow, rfl⟩, _, _, ⟨hstarted, rfl⟩, responseJson, _, ⟨hresponse, rfl⟩, _, _, rfl, _, _,
    ⟨column, -, rfl, rfl⟩, _, _, ⟨-, rfl⟩, -, rfl⟩ := h
  exact ⟨row, responseJson, column, hrow, hstarted, hstatus, hresponse, rfl⟩

theorem updateLedger_ok {runId : String} {f : RunRecord → RunRecord} {u : Unit}
    (h : updateLedger runId f j = (.ok u, j')) : j' = j.updateRun runId f := by
  simp only [updateLedger, Txn.bind_ok, requireRun_ok, Txn.require_ok, Txn.write_ok] at h
  obtain ⟨_, _, ⟨-, rfl⟩, _, _, ⟨-, rfl⟩, rfl⟩ := h
  rfl

theorem requireWithin_ok {run : RunRecord} {amount : Resources} {resources : List Resource}
    {u : Unit} (h : requireWithin run amount resources j = (.ok u, j')) :
    (∀ X ∈ resources, run.exceeds amount X = false) ∧ j = j' := by
  induction resources with
  | nil => simpa [requireWithin] using h
  | cons X resources ih =>
      simp only [requireWithin, Txn.bind_ok, Txn.require_ok, Bool.not_eq_true'] at h
      obtain ⟨_, _, ⟨hX, rfl⟩, h⟩ := h
      obtain ⟨hrest, rfl⟩ := ih h
      exact ⟨by simpa [hX] using hrest, rfl⟩

theorem requireOneForm_ok {explicit aliases : Actuals} {resources : List Resource} {u : Unit} :
    requireOneForm explicit aliases resources j = (.ok u, j') ↔
      (∀ X ∈ resources, (explicit.given X && aliases.given X) = false) ∧ j = j' := by
  induction resources with
  | nil => simp [requireOneForm]
  | cons X resources ih =>
      simp only [requireOneForm, Txn.bind_ok, Txn.require_ok, Bool.not_eq_true',
        List.forall_mem_cons, and_assoc]
      constructor
      · rintro ⟨_, _, hX, rfl, h⟩
        exact ⟨hX, ih.1 h⟩
      · rintro ⟨hX, h⟩
        exact ⟨(), j, hX, rfl, ih.2 h⟩

def reservationIdOf (a : Ambient) (reservationId : Option String) : String :=
  (reservationId.filter (· ≠ "")).getD ("budget_" ++ a.uuid)

theorem reserveBudget_ok {runId : String} {amount : Resources} {reservationId : Option String}
    {id : String} (h : reserveBudget a runId amount reservationId j = (.ok id, j')) :
    id = reservationIdOf a reservationId ∧ amount.isNonnegative = true ∧
      ((∃ existing, j.findReservation id = some existing ∧ existing.runId = runId ∧
          existing.amount = amount) ∧ j' = j ∨
        j.findReservation id = none ∧ ∃ run column, j.findRun runId = some run ∧
          (∀ X, run.exceeds amount X = false) ∧
          j' = ((j.updateRun runId (.reserving a amount)).addReservation
              ⟨id, runId, amount, none, .reserved, a.now, none⟩).addEvent
            (j.eventRecord runId "budget.reserved" none column a.now)) := by
  simp only [reserveBudget, Txn.bind_ok, Txn.atomically_ok, Txn.read_ok,
    validateNonnegativeInteger_ok, validateNonnegative_ok] at h
  obtain ⟨_, _, ⟨hc, rfl⟩, _, _, ⟨ht, rfl⟩, _, _, ⟨hm, rfl⟩, _, _, ⟨hw, rfl⟩, found, _,
    ⟨hfound, rfl⟩, h⟩ := h
  have hnonneg : amount.isNonnegative = true := by simp [Resources.isNonnegative, hc, ht, hm, hw]
  cases found with
  | some existing =>
      simp only [Txn.bind_ok, Txn.require_ok, Txn.pure_ok, Bool.and_eq_true,
        decide_eq_true_eq] at h
      obtain ⟨_, _, ⟨⟨hrun, hamount⟩, rfl⟩, rfl, rfl⟩ := h
      exact ⟨rfl, hnonneg, .inl ⟨⟨existing, hfound, hrun, hamount⟩, rfl⟩⟩
  | none =>
      simp only [Txn.bind_ok, requireRun_ok, Txn.write_ok, appendEventRow_ok, Txn.pure_ok] at h
      obtain ⟨run, _, ⟨hrun, rfl⟩, _, _, hwithin, _, _, hledger, _, _, rfl, _, _,
        ⟨column, -, rfl, rfl⟩, rfl, rfl⟩ := h
      obtain ⟨hresources, rfl⟩ := requireWithin_ok hwithin
      obtain rfl := updateLedger_ok hledger
      refine ⟨rfl, hnonneg, .inr ⟨hfound, run, column, hrun, fun X => hresources X ?_, rfl⟩⟩
      cases X <;> simp [Resource.all]

theorem settleBudget_ok {runId reservationId : String} {explicit aliases : Actuals}
    {run : RunRecord} (h : settleBudget a runId reservationId explicit aliases j = (.ok run, j')) :
    (∀ X ∈ Resource.all, (explicit.given X && aliases.given X) = false) ∧
      (Actuals.resolve explicit aliases).isNonnegative = true ∧
      ∃ reservation, j.findReservation reservationId = some reservation ∧
        reservation.runId = runId ∧
        (reservation.status = .settled ∧
            reservation.actual = some (Actuals.resolve explicit aliases) ∧ j' = j ∨
          reservation.status = .reserved ∧ ∃ column,
            j' = ((j.updateRun runId (.settled a reservation.amount
                (Actuals.resolve explicit aliases))).updateReservations
              (fun r => r.id = reservationId && r.status = .reserved)
              (.settled a (Actuals.resolve explicit aliases))).addEvent
              (j.eventRecord runId "budget.settled" none column a.now)) := by
  simp only [settleBudget, Txn.bind_ok, Txn.atomically_ok, Txn.read_ok, Txn.getOr_ok,
    Txn.require_ok, Txn.ite_ok, requireRun_ok, Txn.write_ok, appendEventRow_ok,
    validateNonnegativeInteger_ok, validateNonnegative_ok, decide_eq_true_eq] at h
  obtain ⟨_, _, hform, _, _, ⟨hc, rfl⟩, _, _, ⟨ht, rfl⟩, _, _, ⟨hm, rfl⟩, _, _, ⟨hw, rfl⟩, found,
    _, ⟨hfound, rfl⟩, reservation, _, ⟨rfl, rfl⟩, _, _, ⟨hrun, rfl⟩, h⟩ := h
  obtain ⟨hgiven, rfl⟩ := requireOneForm_ok.1 hform
  refine ⟨hgiven, by simp [Resources.isNonnegative, hc, ht, hm, hw], reservation, hfound, hrun, ?_⟩
  rcases h with ⟨hsettled, _, _, ⟨hactual, rfl⟩, -, rfl⟩ | ⟨hopen, _, _, hledger, _, _, rfl, _, _,
    ⟨column, -, rfl, rfl⟩, -, rfl⟩
  · exact .inl ⟨hsettled, hactual, rfl⟩
  · obtain rfl := updateLedger_ok hledger
    refine .inr ⟨?_, column, rfl⟩
    cases hs : reservation.status with
    | reserved => rfl
    | settled => exact absurd hs hopen

end Journal

end Polaris
