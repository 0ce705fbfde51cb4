import Polaris.Runtime.Agent

namespace Polaris
open Program

def JournalCall.reads {β : Type} : JournalCall β → Prop
  | .getRun .. | .listSteps .. | .findReceipt .. | .getApproval ..
  | .listApprovals .. | .listProviderCalls .. => True
  | _ => False

namespace AgentCall

def reads {β : Type} : AgentCall β → Prop
  | .journal op => op.reads
  | _ => False

def isJournal {β : Type} : AgentCall β → Prop
  | .journal _ => True
  | _ => False

theorem isJournal_of_reads {β : Type} (e : AgentCall β) (h : e.reads) : e.isJournal := by
  cases e with
  | journal => trivial
  | _ => exact h.elim

end AgentCall

namespace Agent
variable {α : Type}

abbrev ReadOnly (p : Agent α) : Prop := p.Only fun e => e.reads

abbrev JournalOnly (p : Agent α) : Prop := p.Only fun e => e.isJournal

theorem ReadOnly.journalOnly {p : Agent α} (h : ReadOnly p) : JournalOnly p :=
  h.mono fun e he => e.isJournal_of_reads he

theorem journal_journalOnly {β : Type} (call : JournalCall β) : JournalOnly (journal call) :=
  only_perform trivial

theorem journal_readOnly {β : Type} {call : JournalCall β} (h : call.reads) :
    ReadOnly (journal call) :=
  only_perform h

variable {rt : AgentRuntime} {runId requestedModel : String} {step : StepRecord} {attempt : ℕ}

theorem recordedFrom_readOnly (steps : List StepRecord) (n : ℕ) (visited : List String)
    (current : StepRecord) : ReadOnly (recordedFrom steps n visited current) := by
  induction n generalizing visited current with
  | zero => exact only_pure _
  | succ n ih =>
      unfold recordedFrom
      split
      · exact only_pure _
      · split
        · exact only_pure _
        · refine Only.bind (journal_readOnly trivial) fun receipt => ?_
          cases receipt with
          | some receipt => exact only_pure _
          | none =>
              refine Only.bind (only_ofExcept _) fun replacement => ?_
              cases replacement with
              | none => exact only_pure _
              | some replacement => exact ih _ _

theorem outputsFrom_readOnly (originals : List (ℤ × StepRecord)) (index : ℤ)
    (calls : List ToolCall) : ReadOnly (outputsFrom runId originals index calls) := by
  induction calls generalizing index with
  | nil => exact only_pure _
  | cons call calls ih =>
      unfold outputsFrom
      split
      · exact only_pure _
      · refine Only.bind ?_ fun output => ?_
        · exact Only.bind (journal_readOnly trivial) fun _ => recordedFrom_readOnly _ _ _ _
        · cases output with
          | none => exact only_pure _
          | some output => exact Only.bind (ih _) fun _ => only_pure _

theorem replayTurns_readOnly (turns : List (ℤ × CompletionResult)) (messages : List Message)
    (next : ℤ) : ReadOnly (replayTurns rt runId turns messages next) := by
  induction turns generalizing messages next with
  | nil => exact only_pure _
  | cons turn turns ih =>
      unfold replayTurns
      split
      · exact only_pure _
      · split
        · exact Only.bind (only_ofExcept _) fun _ => only_pure _
        · refine Only.bind ?_ fun outputs => ?_
          · exact Only.bind (journal_readOnly trivial) fun _ =>
              Only.bind (only_ofExcept _) fun _ => outputsFrom_readOnly _ _ _
          · cases outputs with
            | none => exact only_pure _
            | some outputs => exact Only.bind (only_ofExcept _) fun _ => ih _ _

theorem reconstruct_readOnly : ReadOnly (reconstruct rt runId) :=
  Only.bind (journal_readOnly trivial) fun _ => Only.bind (only_ofExcept _) fun _ =>
    Only.bind (journal_readOnly trivial) fun _ => Only.bind (only_ofExcept _) fun _ =>
      replayTurns_readOnly _ _ _

theorem outstandingToolCalls_readOnly (iteration : ℤ) :
    ReadOnly (outstandingToolCalls rt runId iteration) :=
  Only.bind (journal_readOnly trivial) fun _ => only_ofExcept _

theorem hasRepeatedToolCalls_readOnly : ReadOnly (hasRepeatedToolCalls rt runId) :=
  Only.bind (journal_readOnly trivial) fun _ => Only.bind (only_ofExcept _) fun _ => only_pure _

theorem result_readOnly : ReadOnly (result rt runId) :=
  Only.bind (journal_readOnly trivial) fun _ => Only.bind reconstruct_readOnly fun _ =>
    Only.bind (journal_readOnly trivial) fun _ => Only.bind (only_ofExcept _) fun _ => only_pure _

theorem stopFailed_journalOnly (eventType message : String) (stepId : Option String) :
    JournalOnly (stopFailed rt runId eventType message stepId) := by
  refine Only.bind (journal_journalOnly _) fun _ => Only.bind (journal_journalOnly _) fun run => ?_
  split
  · exact Only.bind (journal_journalOnly _) fun _ => result_readOnly.journalOnly
  · exact result_readOnly.journalOnly

theorem modelFailed_journalOnly {reservationId callId : Option String} {exc : PyError} :
    JournalOnly (modelFailed rt runId requestedModel step attempt reservationId callId exc) := by
  have hwrite {β : Type} (op : JournalCall β) : JournalOnly (journal op) := journal_journalOnly op
  have hclose : JournalOnly (closeFailedCall requestedModel exc callId) := by
    cases callId with
    | none => exact only_pure _
    | some id => exact (hwrite _).bind fun _ => only_pure _
  have hsettle : JournalOnly (settleFailedCall runId reservationId) := by
    cases reservationId with
    | none => exact only_pure _
    | some id => exact (hwrite _).bind fun _ => only_pure _
  unfold modelFailed
  split
  · exact (hwrite _).bind fun _ => (stopFailed_journalOnly _ _ _).bind fun _ => only_pure _
  · split
    · exact hclose.bind fun _ => hsettle.bind fun _ => (hwrite _).bind fun _ =>
        (hwrite _).bind fun _ => only_pure _
    · exact only_throw _

theorem abandonCalls_journalOnly (calls : List ProviderCallRecord) :
    JournalOnly (abandonCalls runId step.id calls) := by
  induction calls with
  | nil => exact only_pure _
  | cons call calls ih =>
      exact (journal_journalOnly _).bind fun _ => (journal_journalOnly _).bind fun _ => ih

end Agent

end Polaris
