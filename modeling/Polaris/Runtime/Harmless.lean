import Polaris.Runtime.Lineage
import Polaris.Runtime.Reads

namespace Polaris
open PyJson PyVal SortedDict Journal Agent Program

namespace AgentCall

/-- The call executes no tool and writes no event of the journal's own types. -/
def Harmless {β : Type} : AgentCall β → Prop
  | .journal op => op.Honest
  | .execute .. => False
  | _ => True

end AgentCall

/-! Who may execute a tool. -/

def Exempt (rt : AgentRuntime) (runId : String) (j : Journal) (entry : ToolEntry) : Prop :=
  (∃ run, j.findRun runId = some run ∧
    isIn entry.name.1 (durablePreapproved run) = .ok true) ∨
    rt.config.approvalPolicy.requiresApproval entry.name entry.safetyClass = false

def Approved (runId stepId : String) (j : Journal) : Prop :=
  ∃ a ∈ j.approvals, a.runId = runId ∧ a.stepId = some stepId ∧ a.status = .approved

/-- The step replaces one whose outcome is in doubt, and whose retry somebody approved. -/
def ApprovedRetry (runId : String) (r : StepRecord) (j : Journal) : Prop :=
  ∃ p ∈ j.steps, p.runId = runId ∧ (p.status = .uncertain ∨ p.status = .cancelled) ∧ p.Recovers r ∧
    Decided runId p j

inductive Authorised (rt : AgentRuntime) (runId : String) (j : Journal) (r : StepRecord)
    (name : String) : Prop
  | exempt {entry : ToolEntry} : rt.tools.getEntry name = .ok entry → Exempt rt runId j entry →
      Authorised rt runId j r name
  | approved : Approved runId r.id j → Authorised rt runId j r name
  | retried : ApprovedRetry runId r j → Authorised rt runId j r name

/-- The step is a tool step of the run that may be executed. -/
def MayExecute (rt : AgentRuntime) (runId stepId name : String) (j : Journal) : Prop :=
  ∃ r ∈ j.steps, r.id = stepId ∧ r.runId = runId ∧ r.kind = "tool" ∧ Authorised rt runId j r name

section
variable {rt : AgentRuntime} {runId stepId name : String} {j j' : Journal} {r s : StepRecord}
  {entry : ToolEntry}

theorem Exempt.later (h : Exempt rt runId j entry) (hlater : j.Later j') :
    Exempt rt runId j' entry := by
  obtain ⟨run, hrun, hin⟩ | hpolicy := h
  · obtain ⟨run', hrun', hsame⟩ := hlater.runs runId run hrun
    have hconfig : run'.config = run.config := congrArg (·.2.2.2.1) hsame
    refine .inl ⟨run', hrun', ?_⟩
    rwa [durablePreapproved, hconfig]
  · exact .inr hpolicy

theorem Approved.later (h : Approved runId stepId j) (hlater : j.Later j') :
    Approved runId stepId j' := by
  obtain ⟨a, ha, hrun, hstep, hstatus⟩ := h
  obtain ⟨b, hb, hab⟩ := hlater.approvals a ha
  obtain rfl := hab.decided (by simp [hstatus])
  exact ⟨b, hb, hrun, hstep, hstatus⟩

theorem ApprovedRetry.later (h : ApprovedRetry runId r j) (hlater : j.Later j')
    (hfollows : r.Follows s) : ApprovedRetry runId s j' := by
  obtain ⟨p, hp, hrun, hdoubt, hrecovers, hdecided⟩ := h
  obtain ⟨q, hq, hpq⟩ := hlater.steps p hp
  refine ⟨q, hq, hpq.runId.trans hrun, hpq.doubted hdoubt, ?_, hdecided.later hlater hpq.id⟩
  rw [StepRecord.Recovers, hfollows.inputAt, hpq.id]
  exact hrecovers

theorem Authorised.later (h : Authorised rt runId j r name) (hlater : j.Later j')
    (hfollows : r.Follows s) : Authorised rt runId j' s name := by
  cases h with
  | exempt hentry hexempt => exact .exempt hentry (hexempt.later hlater)
  | approved happroved =>
      refine .approved ?_
      rw [hfollows.id]
      exact happroved.later hlater
  | retried hretried => exact .retried (hretried.later hlater hfollows)

theorem MayExecute.later (h : MayExecute rt runId stepId name j) (hlater : j.Later j') :
    MayExecute rt runId stepId name j' := by
  obtain ⟨r, hr, hid, hrun, hkind, hauth⟩ := h
  obtain ⟨s, hs, hrs⟩ := hlater.steps r hr
  exact ⟨s, hs, hrs.id.trans hid, hrs.runId.trans hrun, hrs.kind.trans hkind,
    hauth.later hlater hrs⟩

end

/-! The rules of an execution. -/

/-- Each execution of a step's tool has a mark of its own. -/
def World.Marked (w : World) : Prop :=
  ∀ stepId, w.executions.count stepId ≤ w.journal.eventCount .execute stepId

structure World.Sound (sha : Sha256) (w : World) : Prop where
  invariant : w.journal.Invariant
  addressed : w.journal.Addressed sha
  marked : w.Marked

namespace AgentCall

/-- Where a tool is executed, its step may be, and has a mark that no execution has used. -/
def Guard (rt : AgentRuntime) (runId : String) {β : Type} : AgentCall β → World → Prop
  | .journal op, _ => op.Honest
  | .execute stepId name _, w => MayExecute rt runId stepId name w.journal ∧
      w.executions.count stepId < w.journal.eventCount .execute stepId
  | _, _ => True

theorem Harmless.guard {rt : AgentRuntime} {runId : String} {β : Type} {e : AgentCall β} {w : World}
    (h : e.Harmless) : e.Guard rt runId w := by
  cases e with
  | execute => exact h.elim
  | journal op => exact h
  | _ => trivial

end AgentCall

section
variable {sha : Sha256} {rt : AgentRuntime} {runId : String} {w w' : World}

theorem World.Sound.after (hw : w.Sound sha) (c : HonestCall)
    (hjournal : w'.journal = c.1.after sha w.journal) (hexecutions : w'.executions = w.executions) :
    w'.Sound sha ∧ w.journal.Later w'.journal := by
  have hlater := @later_after sha _ hw.invariant.keyed c
  have haddressed := addressed_after hw.invariant.keyed hw.addressed c
  have hinvariant := (@after_moves sha _ hw.invariant.keyed c).invariant hw.invariant
  rw [← hjournal] at hlater haddressed hinvariant
  refine ⟨⟨hinvariant, haddressed, fun stepId => ?_⟩, hlater⟩
  rw [hexecutions]
  exact (hw.marked stepId).trans (hlater.events .execute stepId)

theorem World.Sound.env (hw : w.Sound sha) (h : w.env sha runId w') :
    w'.Sound sha ∧ w.journal.Later w'.journal ∧ w'.executions = w.executions := by
  obtain ⟨hexecutions, c, hjournal, -⟩ := h
  obtain ⟨hsound, hlater⟩ := hw.after c hjournal hexecutions
  exact ⟨hsound, hlater, hexecutions⟩

theorem World.Sound.envs (hw : w.Sound sha)
    (h : Relation.ReflTransGen (agentSystem sha runId).env w w') :
    w'.Sound sha ∧ w.journal.Later w'.journal ∧ w'.executions = w.executions := by
  induction h with
  | refl => exact ⟨hw, .refl _, rfl⟩
  | tail _ hstep ih =>
      obtain ⟨hsound, hlater, hsame⟩ := ih
      obtain ⟨hsound', hlater', hsame'⟩ := hsound.env hstep
      exact ⟨hsound', hlater.trans hlater', hsame'.trans hsame⟩

theorem World.Sound.journal {β : Type} {op : JournalCall β} {q : Except PyError β}
    (hw : w.Sound sha) (hop : op.Honest) (h : (AgentCall.journal op).exec sha w q w') :
    w'.Sound sha ∧ w.journal.Later w'.journal ∧ w'.executions = w.executions := by
  obtain ⟨a, hperform, hexecutions⟩ := h
  have hjournal : w'.journal = (⟨⟨op, a⟩, hop⟩ : HonestCall).1.after sha w.journal :=
    (congrArg Prod.snd hperform).symm
  obtain ⟨hsound, hlater⟩ := hw.after _ hjournal hexecutions
  exact ⟨hsound, hlater, hexecutions⟩

/-- An execution uses the mark that its step has left. -/
theorem World.Sound.execute {stepId name : String} {arguments : JsonObject}
    {q : Except PyError PyVal} (hw : w.Sound sha)
    (hmark : w.executions.count stepId < w.journal.eventCount .execute stepId)
    (h : (AgentCall.execute stepId name arguments).exec sha w q w') : w'.Sound sha := by
  obtain ⟨hjournal, hexecutions⟩ := h
  refine ⟨hjournal ▸ hw.invariant, hjournal ▸ hw.addressed, fun id => ?_⟩
  rw [hjournal, hexecutions, List.count_cons]
  have hid := hw.marked id
  by_cases heq : stepId = id
  · subst heq
    simp only [beq_self_eq_true, if_true]
    omega
  · simpa [heq] using hid

end

def gateRules (sha : Sha256) (rt : AgentRuntime) (runId : String) :
    Program.Rules (agentSystem sha runId) where
  inv w := w.Sound sha
  guard e w := e.Guard rt runId w
  env_inv hw h := (hw.env h).1
  exec_inv {_ e w q w'} hw hguard h := by
    cases e with
    | journal op => exact (hw.journal hguard h).1
    | execute stepId name arguments =>
        have hexec : (AgentCall.execute stepId name arguments).exec sha w q w' := h
        exact hw.execute hguard.2 hexec
    | _ =>
        obtain rfl := h
        exact hw

abbrev Gated (sha : Sha256) (rt : AgentRuntime) (runId : String) {α : Type} (p : Agent α)
    (Q : Except PyError α → World → Prop) (w : World) : Prop :=
  Program.Safe (gateRules sha rt runId) p Q w

namespace Agent
variable {α β : Type} {sha : Sha256} {rt : AgentRuntime} {runId requestedModel : String}
  {w : World} {step : StepRecord} {attempt : ℕ}

abbrev Harmless (p : Agent α) : Prop := p.Only fun e => e.Harmless

theorem later_gated {p : Agent α} {Q : Except PyError α → World → Prop}
    (hp : Gated sha rt runId p Q w) (hw : w.Sound sha) :
    Gated sha rt runId p (fun r w' => w.journal.Later w'.journal ∧ Q r w') w := by
  refine Program.Safe.related (fun w => .refl w.journal) (fun h h' => h.trans h')
    (fun hw h => (hw.env h).2.1) (fun {β e w r w'} hw hguard hexec => ?_) hp hw
  cases e with
  | journal op => exact (hw.journal hguard hexec).2.1
  | execute stepId name arguments =>
      have hsame : w'.journal = w.journal := hexec.1
      exact hsame ▸ .refl _
  | _ =>
      obtain rfl := hexec
      exact .refl _

theorem Harmless.ends {p : Agent α} (hp : Harmless p) :
    Gated sha rt runId p (fun _ _ => True) w :=
  hp.safe fun _ _ he => he.guard

theorem Harmless.andThen {p : Agent α} {f : α → Agent β} (hp : Harmless p) (hw : w.Sound sha)
    (hf : ∀ a w', w'.Sound sha → w.journal.Later w'.journal →
      Gated sha rt runId (f a) (fun _ _ => True) w') :
    Gated sha rt runId (p >>= f) (fun _ _ => True) w :=
  Program.Safe.bind (later_gated hp.ends hw) hw (fun a w' hw' h => hf a w' hw' h.1)
    fun _ _ _ _ => trivial

theorem harmless_of_readOnly {p : Agent α} (h : ReadOnly p) : Harmless p :=
  h.mono fun e he => by
    cases e with
    | journal c => cases c <;> first | exact trivial | exact he.elim
    | _ => exact he.elim

theorem Harmless.call {c : JournalCall β} {f : β → Agent α} (hc : c.Honest)
    (hf : ∀ b, Harmless (f b)) : Harmless (journal c >>= f) :=
  have hcall : Harmless (journal c) := only_perform hc
  hcall.bind hf

/-! What the runtime does around the tools. -/

/-- What the runtime itself reports. -/
def reports : List String := [
  "runtime.paused", "runtime.iteration_limit", "runtime.no_progress", "tool.failed",
  "tool.reconcile_failed", "tool.reconciled", "budget.exceeded", "provider.attempt_limit",
  "provider.retryable_failure", "provider.duplicate_billing_warning"]

theorem reports_no_move : ∀ type ∈ reports, ¬ IsMoveEvent type := by decide

theorem stopFailed_harmless {eventType : String} (h : ¬ IsMoveEvent eventType) (message : String)
    (stepId : Option String) : Harmless (stopFailed rt runId eventType message stepId) := by
  refine Harmless.call h fun _ => Harmless.call (by trivial) fun run => ?_
  split
  · exact Harmless.call (by trivial) fun _ => harmless_of_readOnly result_readOnly
  · exact harmless_of_readOnly result_readOnly

theorem toolFailed_harmless (message : String) (stepId : Option String) :
    Harmless (stopFailed rt runId "tool.failed" message stepId) :=
  stopFailed_harmless (reports_no_move _ (by simp [reports])) _ _

theorem pause_harmless (reason : String) (stepId : Option String) :
    Harmless (pause runId reason stepId) := by
  refine Harmless.call (reports_no_move _ (by simp [reports])) fun _ =>
    Harmless.call (by trivial) fun run => ?_
  split
  · exact Harmless.call (by trivial) fun _ => only_pure _
  · exact only_pure _

theorem claim_harmless : Harmless (claim rt step) := by
  refine Harmless.call (by trivial) fun current => ?_
  split
  · exact only_pure _
  · refine Harmless.call (by trivial) fun claimed => ?_
    cases claimed with
    | none => exact only_pure _
    | some claimed =>
        dsimp only
        split
        · exact only_throw _
        · exact only_pure _

theorem leaseHeartbeat_harmless {stepId : String} {body : Agent α} (h : Harmless body) :
    Harmless (leaseHeartbeat stepId body) := by
  refine Only.andThen h fun r => ?_
  have hask : Harmless (Program.perform (.leaseFailure stepId) : Agent (Option PyError)) :=
    only_perform trivial
  refine hask.bind fun failure => ?_
  cases failure with
  | none => exact only_ofExcept _
  | some exc => exact only_throw _

theorem reconcileTool_harmless (stepId : String) (call : ToolCall) :
    Harmless (reconcileTool rt stepId call) := by
  have hask : Harmless (Program.perform (.reconcile call.name call.arguments) : Agent PyVal) :=
    only_perform trivial
  exact (leaseHeartbeat_harmless (hask.bind fun _ => Harmless.call (by trivial) fun _ =>
    only_pure _)).attempt

theorem modelFailed_harmless {reservationId callId : Option String} {exc : PyError} :
    Harmless (modelFailed rt runId requestedModel step attempt reservationId callId exc) := by
  unfold modelFailed
  split
  · exact Harmless.call (by trivial) fun _ =>
      (stopFailed_harmless (reports_no_move _ (by simp [reports])) _ _).bind fun _ =>
        only_pure _
  · split
    · refine Only.bind ?_ fun _ => Only.bind ?_ fun _ => Harmless.call (by trivial) fun _ =>
        Harmless.call (reports_no_move _ (by simp [reports])) fun _ => only_pure _
      · cases callId with
        | none => exact only_pure _
        | some id => exact Harmless.call (by trivial) fun _ => only_pure _
      · cases reservationId with
        | none => exact only_pure _
        | some id => exact Harmless.call (by trivial) fun _ => only_pure _
    · exact only_throw _

theorem recordCompletion_harmless {reservationId callId : String} {completion : CompletionResult} :
    Harmless (recordCompletion rt runId step reservationId callId completion) := by
  have hrecords : ∀ microUsd : ℤ, Harmless (do
      let _ ← refreshLease rt step.id
      let _ ← journal (.completeProviderCall callId (serializeCompletion completion) .completed
        (some completion.model) completion.usage.promptTokens completion.usage.completionTokens
        microUsd)
      let _ ← refreshLease rt step.id
      let _ ← journal (.settleBudget runId reservationId
        ⟨some 1, some completion.usage.totalTokens, some microUsd, none⟩ .none)
      let _ ← refreshLease rt step.id
      let _ ← commitStep rt step.id (serializeCompletion completion) none
      return ()) := by
    intro microUsd
    refine Harmless.call (by trivial) fun _ => Harmless.call (by trivial) fun _ => ?_
    refine Harmless.call (by trivial) fun _ => Harmless.call (by trivial) fun _ => ?_
    exact Harmless.call (by trivial) fun _ => Harmless.call (by trivial) fun _ => only_pure _
  unfold recordCompletion
  split
  · have hask : Harmless (Program.perform (.estimateCost completion) : Agent ℤ) :=
      only_perform trivial
    exact hask.bind hrecords
  · exact hrecords 0

theorem requestModel_harmless {snapshot : PyVal} {reservationId callId : String} :
    Harmless (requestModel rt runId step snapshot reservationId callId) := by
  refine (only_ofExcept _).bind fun _ => Harmless.call (by trivial) fun _ =>
    leaseHeartbeat_harmless ((only_ofExcept _).bind fun request => ?_)
  have hask : Harmless (Program.perform (.complete step.id request.1 request.2) :
      Agent CompletionResult) := only_perform trivial
  exact hask.bind fun _ => recordCompletion_harmless

theorem chargedCall_harmless {snapshot : PyVal} :
    Harmless (chargedCall rt runId requestedModel step snapshot attempt) := by
  have hcall {γ : Type} {c : JournalCall γ} (hc : c.Honest) : Harmless (journal c) :=
    only_perform hc
  refine (hcall (by trivial)).attempt.bind fun reserved => ?_
  cases reserved with
  | error exc => exact modelFailed_harmless
  | ok reservationId =>
      refine (hcall (by trivial)).attempt.bind fun started => ?_
      cases started with
      | error exc => exact modelFailed_harmless
      | ok call =>
          refine requestModel_harmless.attempt.bind fun requested => ?_
          cases requested with
          | error exc => exact modelFailed_harmless
          | ok u => exact only_pure _

theorem abandonCalls_harmless (calls : List ProviderCallRecord) :
    Harmless (abandonCalls runId step.id calls) := by
  induction calls with
  | nil => exact only_pure _
  | cons call calls ih =>
      exact Harmless.call (by trivial) fun _ =>
        Harmless.call (reports_no_move _ (by simp [reports])) fun _ => ih

theorem runModelStep_harmless {snapshot : PyVal} :
    Harmless (runModelStep rt runId requestedModel step snapshot attempt) := by
  unfold runModelStep
  split
  · exact only_pure _
  · refine claim_harmless.bind fun claimed => ?_
    cases claimed with
    | none => exact only_pure _
    | some claimed =>
        exact Harmless.call (by trivial) fun _ => Harmless.call (by trivial) fun _ =>
          (abandonCalls_harmless _).bind fun _ => chargedCall_harmless

/-- A model step executes no tool. -/
theorem executeModel_harmless (messages : List Message) (iteration : ℤ) :
    Harmless (executeModel rt runId messages iteration) := by
  refine Harmless.call (by trivial) fun steps => (only_ofExcept _).bind fun prior => ?_
  split
  · exact only_pure _
  · dsimp only
    split
    · exact (stopFailed_harmless (reports_no_move _ (by simp [reports])) _ _).bind fun _ =>
        only_pure _
    · have hmodel : Harmless (Agent.requestedModel rt runId) := by
        refine Harmless.call (by trivial) fun run => ?_
        split <;> exact only_pure _
      refine hmodel.bind fun model => ?_
      split
      · exact runModelStep_harmless
      · have hask : Harmless (Program.perform .getDefinitions : Agent (List PyVal)) :=
          only_perform trivial
        exact hask.bind fun _ => Harmless.call (by trivial) fun _ => runModelStep_harmless

theorem requestUncertaintyDecision_harmless :
    Harmless (requestUncertaintyDecision runId step) := by
  refine Harmless.call (by trivial) fun approvals => ?_
  split
  · exact only_pure _
  · exact Harmless.call (by trivial) fun _ => only_pure _

theorem recordReconciled_harmless {original : StepRecord} {call : ToolCall} {value : PyVal} :
    Harmless (recordReconciled runId original call value) :=
  Harmless.call (by trivial) fun _ => Harmless.call (reports_no_move _ (by simp [reports]))
    fun _ => only_pure _

theorem reconcileResult_harmless {original : StepRecord} {call : ToolCall} :
    Harmless (reconcileResult rt runId original call) := by
  refine Harmless.call (by trivial) fun step => ?_
  split
  · exact only_pure _
  · refine claim_harmless.bind fun claimed => ?_
    cases claimed with
    | none => exact (pause_harmless _ _).bind fun _ => only_pure _
    | some claimed =>
        refine Harmless.call (by trivial) fun _ => (reconcileTool_harmless _ _).bind fun done => ?_
        cases done with
        | error exc =>
            have hstop : Harmless (stopFailed rt runId "tool.reconcile_failed" exc.message
                (some original.id)) :=
              stopFailed_harmless (reports_no_move _ (by simp [reports])) _ _
            exact Harmless.call (by trivial) fun _ => hstop.bind fun _ => only_pure _
        | ok value => exact Harmless.call (by trivial) fun _ => only_pure _

theorem cancelRejected_harmless {approval : ApprovalRecord} :
    Harmless (cancelRejected runId approval) := by
  have hends : Harmless (do
      let run ← getRun runId
      if run.status ∉ [RunStatus.cancelled, .completed] then
        let _ ← markRunStatus runId .cancelled
        return ()
      else return ()) := by
    refine Harmless.call (by trivial) fun run => ?_
    split
    · exact Harmless.call (by trivial) fun _ => only_pure _
    · exact only_pure _
  unfold cancelRejected
  split
  · exact hends
  · refine Harmless.call (by trivial) fun row => ?_
    split
    · exact Harmless.call (by trivial) fun _ => hends
    · exact hends

theorem handleApprovals_harmless (approvals : List ApprovalRecord) :
    Harmless (handleApprovals runId approvals) := by
  induction approvals with
  | nil => exact only_pure _
  | cons approval approvals ih =>
      unfold handleApprovals
      split
      · exact (pause_harmless _ _).bind fun _ => only_pure _
      · exact cancelRejected_harmless.bind fun _ => only_pure _
      · exact ih

end Agent

end Polaris
