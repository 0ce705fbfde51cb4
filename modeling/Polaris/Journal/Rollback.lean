import Polaris.Journal.Calls

namespace Polaris
open Txn

namespace Journal
variable {sha : Sha256} {a : Ambient}

theorem requireRun_readOnly (runId : String) : ReadOnly (requireRun runId) :=
  (read_readOnly _).bind fun _ => getOr_readOnly _ _

theorem requireStep_readOnly (stepId : String) : ReadOnly (requireStep stepId) :=
  (read_readOnly _).bind fun _ => getOr_readOnly _ _

theorem validateLimits_readOnly (limits : Budget) : ReadOnly (validateLimits limits) :=
  (require_readOnly _ _).bind fun _ => (require_readOnly _ _).bind fun _ =>
    (require_readOnly _ _).bind fun _ => require_readOnly _ _

theorem requireOneForm_readOnly (explicit aliases : Actuals) (resources : List Resource) :
    ReadOnly (requireOneForm explicit aliases resources) := by
  induction resources with
  | nil => exact pure_readOnly _
  | cons X resources ih => exact (require_readOnly _ _).bind fun _ => ih

theorem listSteps_readOnly (runId : String) (statuses : Option (List StepStatus)) :
    ReadOnly (listSteps runId statuses) := by
  unfold listSteps
  split
  · exact pure_readOnly _
  · exact (requireRun_readOnly _).bind fun _ => read_readOnly _

theorem createRun_atomic (mode : String) (request config : PyJson.PyVal) (limits : Budget)
    (parentRunId externalKey : Option String) :
    Atomic (createRun sha a mode request config limits parentRunId externalKey) :=
  (require_readOnly _ _).bind_atomic fun _ => (require_readOnly _ _).bind_atomic fun _ =>
    (validateLimits_readOnly _).bind_atomic fun _ => (lift_readOnly _).bind_atomic fun _ =>
    (lift_readOnly _).bind_atomic fun _ => (lift_readOnly _).bind_atomic fun _ =>
    (lift_readOnly _).bind_atomic fun _ => (lift_readOnly _).bind_atomic fun _ =>
    (lift_readOnly _).bind_atomic fun _ => atomically_atomic _

theorem createStep_atomic (runId kind name : String) (input : PyJson.PyVal) (safety : String)
    (sequence : Option ℤ) : Atomic (createStep sha a runId kind name input safety sequence) :=
  (require_readOnly _ _).bind_atomic fun _ => (require_readOnly _ _).bind_atomic fun _ =>
    (lift_readOnly _).bind_atomic fun _ => (lift_readOnly _).bind_atomic fun _ =>
    (lift_readOnly _).bind_atomic fun _ => (lift_readOnly _).bind_atomic fun _ =>
    (lift_readOnly _).bind_atomic fun _ => atomically_atomic _

theorem claimReadyStep_atomic (workerId : String) (leaseSeconds : ℚ) (runId : Option String) :
    Atomic (claimReadyStep a workerId leaseSeconds runId) :=
  (require_readOnly _ _).bind_atomic fun _ => (require_readOnly _ _).bind_atomic fun _ =>
    (lift_readOnly _).bind_atomic fun _ => atomically_atomic _

theorem completeProviderCall_atomic (callId : String) (response : PyJson.PyVal)
    (status : CallStatus) (model : Option String) (inputTokens outputTokens microUsd : ℤ) :
    Atomic (completeProviderCall a callId response status model inputTokens outputTokens
      microUsd) :=
  (require_readOnly _ _).bind_atomic fun _ => (require_readOnly _ _).bind_atomic fun _ =>
    (require_readOnly _ _).bind_atomic fun _ => (require_readOnly _ _).bind_atomic fun _ =>
    atomically_atomic _

theorem reserveBudget_atomic (runId : String) (amount : Resources)
    (reservationId : Option String) : Atomic (reserveBudget a runId amount reservationId) :=
  (require_readOnly _ _).bind_atomic fun _ => (require_readOnly _ _).bind_atomic fun _ =>
    (require_readOnly _ _).bind_atomic fun _ => (require_readOnly _ _).bind_atomic fun _ =>
    atomically_atomic _

theorem settleBudget_atomic (runId reservationId : String) (explicit aliases : Actuals) :
    Atomic (settleBudget a runId reservationId explicit aliases) :=
  (requireOneForm_readOnly _ _ _).bind_atomic fun _ => (require_readOnly _ _).bind_atomic fun _ =>
    (require_readOnly _ _).bind_atomic fun _ => (require_readOnly _ _).bind_atomic fun _ =>
    (require_readOnly _ _).bind_atomic fun _ => atomically_atomic _

end Journal

open Journal

theorem JournalCall.perform_atomic {β : Type} (sha : Sha256) (a : Ambient) (c : JournalCall β) :
    Atomic (c.perform sha a) := by
  cases c with
  | createRun => exact createRun_atomic _ _ _ _ _ _
  | getRun => exact (requireRun_readOnly _).atomic
  | getStep => exact (requireStep_readOnly _).atomic
  | listSteps => exact (listSteps_readOnly _ _).atomic
  | createStep => exact createStep_atomic _ _ _ _ _ _
  | claimReadyStep => exact claimReadyStep_atomic _ _ _
  | markRunStatus | markExecuting | commitStep | failStep | cancelStep | reclaimExpiredLeases
  | recordReceipt => exact atomically_atomic _
  | appendEvent | heartbeat | markUncertain | requestApproval | startProviderCall =>
      exact (require_readOnly _ _).bind_atomic fun _ => atomically_atomic _
  | decideApproval =>
      exact (require_readOnly _ _).bind_atomic fun _ => (require_readOnly _ _).bind_atomic fun _ =>
        atomically_atomic _
  | findReceipt | listApprovals | listProviderCalls => exact (read_readOnly _).atomic
  | getApproval => exact ((read_readOnly _).bind fun _ => getOr_readOnly _ _).atomic
  | completeProviderCall => exact completeProviderCall_atomic _ _ _ _ _ _ _
  | reserveBudget => exact reserveBudget_atomic _ _ _
  | settleBudget => exact settleBudget_atomic _ _ _ _

theorem Issued.outcome_cases (sha : Sha256) (i : Issued) (j : Journal) :
    (∃ b, i.call.perform sha i.ambient j = (.ok b, i.after sha j)) ∨
      (∃ e, (i.outcome sha j).1 = .error e) ∧ i.after sha j = j := by
  rcases h : i.call.perform sha i.ambient j with ⟨e | b, t⟩
  · refine .inr ⟨⟨e, by simp [Issued.outcome, h]⟩, ?_⟩
    exact i.call.perform_atomic sha i.ambient j e (by simp [h])
  · exact .inl ⟨b, by simp [Issued.after, Issued.outcome, h]⟩

end Polaris
