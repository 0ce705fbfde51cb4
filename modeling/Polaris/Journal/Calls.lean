import Polaris.Journal.Budget

namespace Polaris
open PyJson

inductive JournalCall : Type → Type where
  | createRun (mode : String) (request config : PyVal) (limits : Budget)
      (parentRunId externalKey : Option String) : JournalCall RunRecord
  | getRun (runId : String) : JournalCall RunRecord
  | markRunStatus (runId : String) (target : RunStatus) : JournalCall RunRecord
  | appendEvent (runId eventType : String) (payload : PyVal) (stepId : Option String) :
      JournalCall EventRecord
  | createStep (runId kind name : String) (input : PyVal) (safety : String)
      (sequence : Option ℤ) : JournalCall StepRecord
  | getStep (stepId : String) : JournalCall StepRecord
  | listSteps (runId : String) (statuses : Option (List StepStatus)) :
      JournalCall (List StepRecord)
  | claimReadyStep (workerId : String) (leaseSeconds : ℚ) (runId : Option String) :
      JournalCall (Option StepRecord)
  | markExecuting (stepId workerId : String) : JournalCall StepRecord
  | heartbeat (stepId workerId : String) (leaseSeconds : ℚ) : JournalCall StepRecord
  | commitStep (stepId workerId : String) (output : PyVal) (receipt : Option Journal.ReceiptInput) :
      JournalCall StepRecord
  | failStep (stepId workerId : String) (error : PyVal) : JournalCall StepRecord
  | markUncertain (stepId workerId reason : String) : JournalCall StepRecord
  | cancelStep (stepId : String) (workerId : Option String) : JournalCall StepRecord
  | reclaimExpiredLeases (now : Option Timestamp) : JournalCall (List StepRecord)
  | recordReceipt (stepId idempotencyKey : String) (payload : PyVal) : JournalCall ReceiptRecord
  | findReceipt (idempotencyKey : String) : JournalCall (Option ReceiptRecord)
  | requestApproval (runId : String) (stepId : Option String) (request : PyVal) (kind : String) :
      JournalCall ApprovalRecord
  | getApproval (approvalId : String) : JournalCall ApprovalRecord
  | decideApproval (approvalId : String) (decision : ApprovalStatus) (decidedBy : String)
      (reason : Option String) : JournalCall ApprovalRecord
  | listApprovals (runId stepId : Option String) (status : Option ApprovalStatus) :
      JournalCall (List ApprovalRecord)
  | startProviderCall (runId provider : String) (request : PyVal) (stepId model : Option String) :
      JournalCall ProviderCallRecord
  | completeProviderCall (callId : String) (response : PyVal) (status : CallStatus)
      (model : Option String) (inputTokens outputTokens microUsd : ℤ) :
      JournalCall ProviderCallRecord
  | listProviderCalls (runId : String) : JournalCall (List ProviderCallRecord)
  | reserveBudget (runId : String) (amount : Resources) (reservationId : Option String) :
      JournalCall String
  | settleBudget (runId reservationId : String) (explicit aliases : Actuals) :
      JournalCall RunRecord

namespace JournalCall
open Journal
variable {β : Type}

def perform (sha : Sha256) (a : Ambient) : JournalCall β → Op β
  | .createRun mode request config limits parentRunId externalKey =>
      Journal.createRun sha a mode request config limits parentRunId externalKey
  | .getRun runId => Journal.getRun runId
  | .markRunStatus runId target => Journal.markRunStatus a runId target
  | .appendEvent runId eventType payload stepId => Journal.appendEvent a runId eventType payload stepId
  | .createStep runId kind name input safety sequence =>
      Journal.createStep sha a runId kind name input safety sequence
  | .getStep stepId => Journal.getStep stepId
  | .listSteps runId statuses => Journal.listSteps runId statuses
  | .claimReadyStep workerId leaseSeconds runId =>
      Journal.claimReadyStep a workerId leaseSeconds runId
  | .markExecuting stepId workerId => Journal.markExecuting a stepId workerId
  | .heartbeat stepId workerId leaseSeconds => Journal.heartbeat a stepId workerId leaseSeconds
  | .commitStep stepId workerId output receipt =>
      Journal.commitStep sha a stepId workerId output receipt
  | .failStep stepId workerId error => Journal.failStep a stepId workerId error
  | .markUncertain stepId workerId reason => Journal.markUncertain a stepId workerId reason
  | .cancelStep stepId workerId => Journal.cancelStep a stepId workerId
  | .reclaimExpiredLeases now => Journal.reclaimExpiredLeases a now
  | .recordReceipt stepId idempotencyKey payload =>
      Journal.recordReceipt sha a stepId idempotencyKey payload
  | .findReceipt idempotencyKey => Txn.read (Journal.findReceipt idempotencyKey)
  | .requestApproval runId stepId request kind =>
      Journal.requestApproval a runId stepId request kind
  | .getApproval approvalId => Journal.getApproval approvalId
  | .decideApproval approvalId decision decidedBy reason =>
      Journal.decideApproval a approvalId decision decidedBy reason
  | .listApprovals runId stepId status => Journal.listApprovals runId stepId status
  | .startProviderCall runId provider request stepId model =>
      Journal.startProviderCall a runId provider request stepId model
  | .completeProviderCall callId response status model inputTokens outputTokens microUsd =>
      Journal.completeProviderCall a callId response status model inputTokens outputTokens microUsd
  | .listProviderCalls runId => Journal.listProviderCalls runId
  | .reserveBudget runId amount reservationId => Journal.reserveBudget a runId amount reservationId
  | .settleBudget runId reservationId explicit aliases =>
      Journal.settleBudget a runId reservationId explicit aliases

end JournalCall

structure Issued where
  {β : Type}
  call : JournalCall β
  ambient : Ambient

namespace Issued

def outcome (sha : Sha256) (i : Issued) (j : Journal) : Except PyError i.β × Journal :=
  i.call.perform sha i.ambient j

def after (sha : Sha256) (i : Issued) (j : Journal) : Journal := (i.outcome sha j).2

end Issued

def runCalls (sha : Sha256) (calls : List Issued) (j : Journal) : Journal :=
  calls.foldl (fun j i => i.after sha j) j

end Polaris
