import Polaris.Runtime.Reads

namespace Polaris
open Program

namespace AgentCall

/-- The call answers that a step is leased. -/
def findsLease : {β : Type} → AgentCall β → β → Prop
  | _, .journal (.getStep _), row => row.status = .leased ∨ row.status = .executing
  | _, _, _ => False

/-- The call marks its run as failed. -/
def failsRun {β : Type} : AgentCall β → Prop
  | .journal (.markRunStatus _ status) => status = .failed
  | _ => False

def asksStep {β : Type} : AgentCall β → Prop
  | .journal (.getStep _) => True
  | _ => False

theorem not_findsLease {β : Type} {e : AgentCall β} (h : ¬ e.asksStep) (a : β) :
    ¬ e.findsLease a := by
  cases e with
  | journal c => cases c <;> first | exact absurd trivial h | exact id
  | _ => exact id

end AgentCall

namespace Agent
variable {α β : Type} {rt : AgentRuntime} {runId requestedModel : String} {step : StepRecord}
  {attempt : ℕ}

/-- Where a step that it asks for is leased, the program ends, without an error and without failing
its run, with a value that `Q` describes. -/
abbrev Yields (Q : α → Prop) (p : Agent α) : Prop :=
  Program.Yields AgentCall.findsLease AgentCall.failsRun Q p

abbrev Calm (Q : α → Prop) (p : Agent α) : Prop := Program.Calm AgentCall.failsRun Q p

abbrev Unasking (p : Agent α) : Prop := p.Only fun e => ¬ e.asksStep

theorem Unasking.yields {Q : α → Prop} {p : Agent α} (h : Unasking p) : Yields Q p :=
  .of_only (h.mono fun _ he => AgentCall.not_findsLease he)

theorem Unasking.andThen {Q : β → Prop} {p : Agent α} {f : α → Agent β} (hp : Unasking p)
    (hf : ∀ a, Yields Q (f a)) : Yields Q (p >>= f) :=
  Only.yields_bind (hp.mono fun _ he => AgentCall.not_findsLease he) hf

theorem unasking_of_readOnly {p : Agent α} (h : ReadOnly p) : Unasking p :=
  h.mono fun e he => by
    cases e with
    | journal c => cases c <;> first | exact id | exact he.elim
    | _ => exact he.elim

theorem journal_unasking {c : JournalCall β} (h : ¬ (AgentCall.journal c).asksStep) :
    Unasking (journal c) := only_perform h

theorem Unasking.call {c : JournalCall β} {f : β → Agent α}
    (h : ¬ (AgentCall.journal c).asksStep) (hf : ∀ b, Unasking (f b)) : Unasking (journal c >>= f) :=
  (journal_unasking h).bind hf

theorem Yields.call {c : JournalCall β} {f : β → Agent α} {Q : α → Prop}
    (h : ¬ (AgentCall.journal c).asksStep) (hf : ∀ b, Yields Q (f b)) : Yields Q (journal c >>= f) :=
  (journal_unasking h).andThen hf

theorem createStep_unasking (kind name : String) (input : PyJson.PyVal) (safety : SafetyClass)
    (sequence : ℤ) : Unasking (createStep runId kind name input safety sequence) :=
  journal_unasking id

theorem markExecuting_unasking (stepId : String) : Unasking (markExecuting rt stepId) :=
  journal_unasking id

theorem failStep_unasking (stepId : String) (exc : PyError) : Unasking (failStep rt stepId exc) :=
  journal_unasking id

theorem commitStep_unasking (stepId : String) (output : PyJson.PyVal)
    (receipt : Option Journal.ReceiptInput) : Unasking (commitStep rt stepId output receipt) :=
  journal_unasking id

theorem stopFailed_unasking (eventType message : String) (stepId : Option String) :
    Unasking (stopFailed rt runId eventType message stepId) := by
  refine Unasking.call id fun _ => Unasking.call id fun run => ?_
  split
  · exact Unasking.call id fun _ => unasking_of_readOnly result_readOnly
  · exact unasking_of_readOnly result_readOnly

theorem leaseHeartbeat_unasking {stepId : String} {body : Agent α} (h : Unasking body) :
    Unasking (leaseHeartbeat stepId body) := by
  refine Only.andThen h fun r => (only_perform id).bind fun failure => ?_
  cases failure with
  | none => exact only_ofExcept _
  | some exc => exact only_throw _

theorem executeTool_unasking (stepId : String) (call : ToolCall) :
    Unasking (executeTool rt stepId call) :=
  (leaseHeartbeat_unasking ((only_perform id).bind fun _ => Unasking.call id fun _ =>
    only_pure _)).attempt

theorem reconcileTool_unasking (stepId : String) (call : ToolCall) :
    Unasking (reconcileTool rt stepId call) :=
  (leaseHeartbeat_unasking ((only_perform id).bind fun _ => Unasking.call id fun _ =>
    only_pure _)).attempt

theorem modelFailed_unasking {reservationId callId : Option String} {exc : PyError} :
    Unasking (modelFailed rt runId requestedModel step attempt reservationId callId exc) := by
  unfold modelFailed
  split
  · exact Unasking.call id fun _ => (stopFailed_unasking _ _ _).bind fun _ => only_pure _
  · split
    · refine Only.bind ?_ fun _ => Only.bind ?_ fun _ => Unasking.call id fun _ =>
        Unasking.call id fun _ => only_pure _
      · cases callId with
        | none => exact only_pure _
        | some id' => exact Unasking.call id fun _ => only_pure _
      · cases reservationId with
        | none => exact only_pure _
        | some id' => exact Unasking.call id fun _ => only_pure _
    · exact only_throw _

theorem recordCompletion_unasking {reservationId callId : String} {completion : CompletionResult} :
    Unasking (recordCompletion rt runId step reservationId callId completion) := by
  have hrecords : ∀ microUsd : ℤ, Unasking (do
      let _ ← refreshLease rt step.id
      let _ ← journal (.completeProviderCall callId (serializeCompletion completion) .completed
        (some completion.model) completion.usage.promptTokens completion.usage.completionTokens
        microUsd)
      let _ ← refreshLease rt step.id
      let _ ← journal (.settleBudget runId reservationId
        ⟨some 1, some completion.usage.totalTokens, some microUsd, none⟩ .none)
      let _ ← refreshLease rt step.id
      let _ ← commitStep rt step.id (serializeCompletion completion) none
      return ()) := by
    intro microUsd
    refine Unasking.call id fun _ => Unasking.call id fun _ => Unasking.call id fun _ => ?_
    exact Unasking.call id fun _ => Unasking.call id fun _ => Unasking.call id fun _ => only_pure _
  unfold recordCompletion
  split
  · exact (only_perform (e := .estimateCost completion) id).bind hrecords
  · exact hrecords 0

theorem requestModel_unasking {snapshot : PyJson.PyVal} {reservationId callId : String} :
    Unasking (requestModel rt runId step snapshot reservationId callId) :=
  (only_ofExcept _).bind fun _ => Unasking.call id fun _ =>
    leaseHeartbeat_unasking ((only_ofExcept _).bind fun _ => (only_perform id).bind fun _ =>
      recordCompletion_unasking)

theorem chargedCall_unasking {snapshot : PyJson.PyVal} :
    Unasking (chargedCall rt runId requestedModel step snapshot attempt) := by
  refine (journal_unasking id).attempt.bind fun reserved => ?_
  cases reserved with
  | error exc => exact modelFailed_unasking
  | ok reservationId =>
      refine (journal_unasking id).attempt.bind fun started => ?_
      cases started with
      | error exc => exact modelFailed_unasking
      | ok call =>
          refine requestModel_unasking.attempt.bind fun requested => ?_
          cases requested with
          | error exc => exact modelFailed_unasking
          | ok u => exact only_pure _

theorem abandonCalls_unasking (calls : List ProviderCallRecord) :
    Unasking (abandonCalls runId step.id calls) := by
  induction calls with
  | nil => exact only_pure _
  | cons call calls ih =>
      exact Unasking.call id fun _ => Unasking.call id fun _ => ih

/-! A claim of a step that is leased comes back empty. -/

theorem claim_yields : Yields (· = none) (claim rt step) := by
  refine Program.Yields.bind (Q := fun row => row.status = .leased ∨ row.status = .executing)
    (p := getStep step.id) ⟨fun _ => trivial, fun row hrow => ⟨row, rfl, hrow⟩⟩
    (fun current => ?_) fun current hcurrent => ?_
  · split
    · exact trivial
    · refine Yields.call id fun claimed => ?_
      cases claimed with
      | none => exact trivial
      | some claimed =>
          change Yields _ (if claimed.id ≠ step.id then _ else _)
          split <;> exact trivial
  · have hbusy : current.status ≠ .ready := by
      rcases hcurrent with h | h <;> simp [h]
    rw [if_pos hbusy]
    exact calm_pure rfl

theorem pause_calm (reason : String) (stepId : Option String) :
    Calm (fun _ => True) (pause runId reason stepId) := by
  refine (calm_perform id).bind fun _ _ => (calm_perform id).bind fun run _ => ?_
  split
  · exact (calm_perform (by simp [AgentCall.failsRun])).bind fun _ _ => calm_pure trivial
  · exact calm_pure trivial

theorem runModelStep_yields {snapshot : PyJson.PyVal} :
    Yields (· = false) (runModelStep rt runId requestedModel step snapshot attempt) := by
  unfold runModelStep
  split
  · exact trivial
  · refine claim_yields.bind (fun claimed => ?_) fun claimed hclaimed => ?_
    · cases claimed with
      | none => exact trivial
      | some claimed =>
          refine Unasking.yields (p := markExecuting rt step.id >>= _) ?_
          exact Unasking.call id fun _ => Unasking.call id fun _ =>
            (abandonCalls_unasking _).bind fun _ => chargedCall_unasking
    · subst hclaimed
      exact calm_pure rfl

/-- A model step that is leased ends the turn without a result. -/
theorem executeModel_yields (messages : List Message) (iteration : ℤ) :
    Yields (· = false) (executeModel rt runId messages iteration) := by
  refine Yields.call id fun steps => Unasking.andThen (only_ofExcept _) fun prior => ?_
  split
  · exact trivial
  · dsimp only
    split
    · exact (stopFailed_unasking _ _ _).andThen fun _ => trivial
    · refine Unasking.andThen ?_ fun model => ?_
      · refine Unasking.call id fun run => ?_
        split <;> exact only_pure _
      · split
        · exact runModelStep_yields
        · exact Unasking.andThen (only_perform id) fun definitions =>
            Yields.call id fun step => runModelStep_yields

theorem approvalOutcome_unasking {entry : ToolEntry} :
    Unasking (approvalOutcome rt runId step entry) := by
  refine Unasking.call id fun run => (only_ofExcept _).bind fun preapproved => ?_
  split
  · exact only_pure _
  · refine Unasking.call id fun approvals => ?_
    split
    · exact Unasking.call id fun _ => only_pure _
    · exact only_pure _

theorem pause_unasking (reason : String) (stepId : Option String) :
    Unasking (pause runId reason stepId) := by
  refine Unasking.call id fun _ => Unasking.call id fun run => ?_
  split
  · exact Unasking.call id fun _ => only_pure _
  · exact only_pure _

/-- A tool step that is leased pauses the group. -/
theorem executeToolGroup_yields (iteration index : ℤ) (calls : List ToolCall) :
    Yields (· = .paused) (executeToolGroup rt runId iteration index calls) := by
  induction calls generalizing index with
  | nil => exact trivial
  | cons call calls ih =>
      refine Unasking.andThen (only_ofExcept _) fun entry => Yields.call id fun step => ?_
      split
      · exact ih _
      · refine approvalOutcome_unasking.andThen fun outcome => ?_
        cases outcome with
        | pending => exact (pause_unasking _ _).andThen fun _ => trivial
        | rejected => exact Yields.call id fun _ => Yields.call id fun _ => trivial
        | approved =>
            refine claim_yields.bind (fun claimed => ?_) fun claimed hclaimed => ?_
            · cases claimed with
              | none => exact trivial
              | some claimed =>
                  refine Yields.call id fun _ => (executeTool_unasking _ _).andThen fun done => ?_
                  cases done with
                  | error exc =>
                      exact Yields.call id fun _ =>
                        (stopFailed_unasking _ _ _).andThen fun _ => trivial
                  | ok value => exact Yields.call id fun _ => ih _
            · subst hclaimed
              exact calm_pure rfl

theorem runReplacement_yields {reason : String} {replacement : StepRecord} {call : ToolCall}
    {receipt : PyJson.PyVal → Option Journal.ReceiptInput} :
    Yields (· = false) (runReplacement rt runId reason replacement call receipt) := by
  refine claim_yields.bind (fun claimed => ?_) fun claimed hclaimed => ?_
  · cases claimed with
    | none => exact (pause_unasking _ _).andThen fun _ => trivial
    | some claimed =>
        refine Yields.call id fun _ => (executeTool_unasking _ _).andThen fun done => ?_
        cases done with
        | error exc =>
            exact Yields.call id fun _ => (stopFailed_unasking _ _ _).andThen fun _ => trivial
        | ok value => exact Yields.call id fun _ => trivial
  · subst hclaimed
    exact (pause_calm _ _).bind fun _ _ => calm_pure rfl

theorem createReplacement_unasking {original : StepRecord} {call : ToolCall} :
    Unasking (createReplacement runId original call) :=
  (only_ofExcept _).bind fun _ => createStep_unasking _ _ _ _ _

theorem retryApprovedUncertain_yields {original : StepRecord} :
    Yields (· = false) (retryApprovedUncertain rt runId original) := by
  refine Yields.call id fun steps => Unasking.andThen (only_ofExcept _) fun existing => ?_
  split
  · exact trivial
  · refine Unasking.andThen (only_ofExcept _) fun call => ?_
    cases existing with
    | some step => exact runReplacement_yields
    | none => exact createReplacement_unasking.andThen fun _ => runReplacement_yields

theorem retryAfterReconciliation_yields {original : StepRecord} {call : ToolCall} :
    Yields (· = false) (retryAfterReconciliation rt runId original call) := by
  refine createReplacement_unasking.andThen fun replacement =>
    Unasking.andThen (only_ofExcept _) fun entry => approvalOutcome_unasking.andThen fun outcome => ?_
  cases outcome with
  | pending => exact (pause_unasking _ _).andThen fun _ => trivial
  | rejected => exact Yields.call id fun _ => Yields.call id fun _ => trivial
  | approved => exact runReplacement_yields

theorem reconcileResult_yields {original : StepRecord} {call : ToolCall} :
    Yields (· = none) (reconcileResult rt runId original call) := by
  refine (createStep_unasking _ _ _ _ _).andThen fun step => ?_
  split
  · exact trivial
  · refine Program.Yields.bind (@claim_yields rt step) (fun claimed => ?_) fun claimed hclaimed => ?_
    · cases claimed with
      | none => exact (pause_unasking _ _).andThen fun _ => trivial
      | some claimed =>
          refine (markExecuting_unasking _).andThen fun _ =>
            (reconcileTool_unasking _ _).andThen fun done => ?_
          cases done with
          | error exc =>
              exact (failStep_unasking _ _).andThen fun _ =>
                (stopFailed_unasking _ _ _).andThen fun _ => trivial
          | ok value => exact (commitStep_unasking _ _ _).andThen fun _ => trivial
    · subst hclaimed
      exact (pause_calm _ _).bind fun _ _ => calm_pure rfl

theorem recordReconciled_unasking {original : StepRecord} {call : ToolCall} {value : PyJson.PyVal} :
    Unasking (recordReconciled runId original call value) :=
  Unasking.call id fun _ => Unasking.call id fun _ => only_pure _

theorem reconcileUncertain_yields {original : StepRecord} :
    Yields (· = false) (reconcileUncertain rt runId original) := by
  refine Yields.call id fun receipt => ?_
  cases receipt with
  | some row => exact trivial
  | none =>
      refine Unasking.andThen (only_ofExcept _) fun call => ?_
      refine reconcileResult_yields.bind (fun value => ?_) fun value hvalue => ?_
      · cases value with
        | none => exact trivial
        | some value =>
            refine Unasking.andThen (only_ofExcept _) fun applied => ?_
            cases applied with
            | true => exact (recordReconciled_unasking).yields
            | false => exact retryAfterReconciliation_yields
      · subst hvalue
        exact calm_pure rfl

theorem requestUncertaintyDecision_unasking :
    Unasking (requestUncertaintyDecision runId step) := by
  refine Unasking.call id fun approvals => ?_
  split
  · exact only_pure _
  · exact Unasking.call id fun _ => only_pure _

theorem handleOpaque_yields : Yields (· = false) (handleOpaque rt runId step) := by
  refine Yields.call id fun approvals => ?_
  dsimp only
  split
  · exact retryApprovedUncertain_yields
  · split
    · exact requestUncertaintyDecision_unasking.andThen fun _ =>
        (pause_unasking _ _).andThen fun _ => trivial
    · exact (pause_unasking _ _).andThen fun _ => trivial

theorem handleUncertain_yields (steps : List StepRecord) :
    Yields (· = true) (handleUncertain rt runId steps) := by
  induction steps with
  | nil => exact trivial
  | cons step steps ih =>
      have hnext : ∀ resolved : Bool, Yields (· = true)
          (if resolved then handleUncertain rt runId steps else return true) := by
        intro resolved
        cases resolved with
        | true => exact ih
        | false => exact trivial
      have hends : ∀ resolved : Bool, resolved = false → Calm (· = true)
          (if resolved then handleUncertain rt runId steps else return true) := by
        rintro resolved rfl
        exact calm_pure rfl
      unfold handleUncertain
      split
      · exact Program.Yields.bind (@reconcileUncertain_yields rt runId step) hnext hends
      · exact Program.Yields.bind (@handleOpaque_yields rt runId step) hnext hends

theorem cancelRejected_yields {approval : ApprovalRecord} :
    Yields (fun _ => True) (cancelRejected runId approval) := by
  have hends : Calm (fun _ => True) (do
      let run ← getRun runId
      if run.status ∉ [RunStatus.cancelled, .completed] then
        let _ ← markRunStatus runId .cancelled
        return ()
      else return ()) := by
    refine (calm_perform id).bind fun run _ => ?_
    split
    · exact (calm_perform (by simp [AgentCall.failsRun])).bind fun _ _ => calm_pure trivial
    · exact calm_pure trivial
  have hunasking : Unasking (do
      let run ← getRun runId
      if run.status ∉ [RunStatus.cancelled, .completed] then
        let _ ← markRunStatus runId .cancelled
        return ()
      else return ()) := by
    refine Unasking.call id fun run => ?_
    split
    · exact Unasking.call id fun _ => only_pure _
    · exact only_pure _
  unfold cancelRejected
  split
  · exact hunasking.yields
  · rename_i stepId _
    refine Program.Yields.bind (Q := fun row => row.status = .leased ∨ row.status = .executing)
      (p := getStep stepId) ⟨fun _ => trivial, fun row hrow => ⟨row, rfl, hrow⟩⟩
      (fun row => ?_) fun row hrow => ?_
    · split
      · exact Yields.call id fun _ => hunasking.yields
      · exact hunasking.yields
    · have hidle : ¬ (row.status = .ready ∨ row.status = .uncertain) := by
        rcases hrow with h | h <;> simp [h]
      rw [if_neg hidle]
      exact hends

theorem handleApprovals_yields (approvals : List ApprovalRecord) :
    Yields (· = true) (handleApprovals runId approvals) := by
  induction approvals with
  | nil => exact trivial
  | cons approval approvals ih =>
      unfold handleApprovals
      split
      · exact (pause_unasking _ _).andThen fun _ => trivial
      · exact cancelRejected_yields.bind (fun _ => trivial) fun _ _ => calm_pure rfl
      · exact ih

theorem handleApprovalsAndUncertainty_yields :
    Yields (· = true) (handleApprovalsAndUncertainty rt runId) := by
  refine Yields.call id fun approvals => (handleApprovals_yields approvals).bind (fun handled => ?_)
    fun handled htrue => ?_
  · split
    · exact trivial
    · exact Yields.call id fun steps => handleUncertain_yields _
  · subst htrue
    exact calm_pure rfl

/-- Where a part of `execute` finds that a step is leased, it leaves the run to whoever holds the
step. -/
structure GivesWay (rt : AgentRuntime) (runId : String) : Prop where
  approvals : Yields (· = true) (handleApprovalsAndUncertainty rt runId)
  group : ∀ iteration index calls,
    Yields (· = .paused) (executeToolGroup rt runId iteration index calls)
  model : ∀ messages iteration, Yields (· = false) (executeModel rt runId messages iteration)

theorem givesWay (rt : AgentRuntime) (runId : String) : GivesWay rt runId where
  approvals := handleApprovalsAndUncertainty_yields
  group := executeToolGroup_yields
  model := executeModel_yields

end Agent

end Polaris
