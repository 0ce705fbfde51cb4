import Polaris.Journal.Events
import Polaris.Journal.LeaseSafety

namespace Polaris
open PyJson Journal

structure ArtifactRecord where
  id : String
  runId : String
  stepId : Option String
  name : String
  mediaType : Option String
  uri : String
  sha256 : Option String
  sizeBytes : Option ℤ
  metadata : JsonColumn
  createdAt : Timestamp
deriving DecidableEq

/-- A journal with its table of artifacts. -/
structure ArtifactJournal where
  journal : Journal
  artifacts : List ArtifactRecord

namespace ArtifactJournal
variable {β : Type}

abbrev Op (β : Type) := Txn PyError ArtifactJournal β

def onJournal (x : Journal.Op β) : Op β := fun s =>
  ((x s.journal).1, { s with journal := (x s.journal).2 })

def findArtifact (artifactId : String) (s : ArtifactJournal) : Option ArtifactRecord :=
  Table.find ArtifactRecord.id artifactId s.artifacts

def addArtifact (artifact : ArtifactRecord) (s : ArtifactJournal) : ArtifactJournal :=
  { s with artifacts := s.artifacts ++ [artifact] }

def recordArtifact (a : Ambient) (runId name uri : String) (stepId mediaType sha256 : Option String)
    (sizeBytes : Option ℤ) (metadata : PyVal) : Op ArtifactRecord := do
  Txn.require (name ≠ "" && uri ≠ "") (invalid "artifact name and uri must not be empty")
  onJournal (validateNonnegativeInteger "size_bytes" (sizeBytes.getD 0))
  let artifactId := "artifact_" ++ a.uuid
  Txn.atomically do
    let _ ← onJournal (requireRun runId)
    onJournal (requireStepOfRun runId stepId)
    let column ← Txn.lift (canonicalJson metadata)
    Txn.lift (bindInteger sizeBytes)
    let taken ← Txn.read (findArtifact artifactId)
    Txn.require taken.isNone ⟨.integrityError, "UNIQUE constraint failed: artifacts.id"⟩
    let artifact : ArtifactRecord :=
      ⟨artifactId, runId, stepId, name, mediaType, uri, sha256, sizeBytes, column, a.now⟩
    Txn.write (addArtifact artifact)
    let _ ← onJournal (appendEventRow runId "artifact.recorded"
      (dict [("artifact_id", .str artifactId), ("name", .str name), ("sha256", optStr sha256)])
      stepId a.now)
    return artifact

end ArtifactJournal

inductive RecordCall : Type → Type 1 where
  | journal {β : Type} (call : JournalCall β) : RecordCall β
  | recordArtifact (runId name uri : String) (stepId mediaType sha256 : Option String)
      (sizeBytes : Option ℤ) (metadata : PyVal) : RecordCall ArtifactRecord

namespace RecordCall
variable {β : Type}

def perform (sha : Sha256) (a : Ambient) : RecordCall β → ArtifactJournal.Op β
  | .journal call => ArtifactJournal.onJournal (call.perform sha a)
  | .recordArtifact runId name uri stepId mediaType sha256 sizeBytes metadata =>
      ArtifactJournal.recordArtifact a runId name uri stepId mediaType sha256 sizeBytes metadata

/-- A provider call that is started for a step is of the run of the step. -/
def StartsOwn (s : ArtifactJournal) : RecordCall β → Prop
  | .journal (.startProviderCall runId _ _ stepId _) =>
      ∀ id ∈ stepId, ∀ step, s.journal.findStep id = some step → step.runId = runId
  | _ => True

end RecordCall

/-- The step that a row names is there, and is of the run that the row names. -/
def Journal.OwnsStep (j : Journal) (runId : String) (stepId : Option String) : Prop :=
  ∀ id ∈ stepId, ∃ step ∈ j.steps, step.id = id ∧ step.runId = runId

/-- Every row that names a step names a step of its own run. -/
structure StepsOwned (s : ArtifactJournal) : Prop where
  events : ∀ r ∈ s.journal.events, s.journal.OwnsStep r.runId r.stepId
  approvals : ∀ r ∈ s.journal.approvals, s.journal.OwnsStep r.runId r.stepId
  artifacts : ∀ r ∈ s.artifacts, s.journal.OwnsStep r.runId r.stepId
  receipts : ∀ r ∈ s.journal.receipts, s.journal.OwnsStep r.runId r.stepId
  providerCalls : ∀ r ∈ s.journal.providerCalls, s.journal.OwnsStep r.runId r.stepId

/-- Calls on a new journal, one after the other. -/
inductive RecordReach (sha : Sha256)
    (C : ∀ {β : Type}, ArtifactJournal → RecordCall β → Prop) : ArtifactJournal → Prop
  | start : RecordReach sha C ⟨.empty, []⟩
  | calls {s s' : ArtifactJournal} {β : Type} {c : RecordCall β} {a : Ambient}
      {r : Except PyError β} : RecordReach sha C s → C s c → c.perform sha a s = (r, s') →
      RecordReach sha C s'

namespace Journal
variable {sha : Sha256} {a : Ambient} {j j' t : Journal} {β : Type}

/-- The steps of the one are in the other, and are of the same runs. -/
def StepsStay (j j' : Journal) : Prop :=
  ∀ r ∈ j.steps, ∃ s ∈ j'.steps, s.id = r.id ∧ s.runId = r.runId

theorem StepsStay.of_eq (h : j'.steps = j.steps) : j.StepsStay j' := fun r hr =>
  ⟨r, h ▸ hr, rfl, rfl⟩

theorem StepsStay.trans (h : j.StepsStay t) (h' : t.StepsStay j') : j.StepsStay j' := by
  intro r hr
  obtain ⟨s, hs, hid, hrun⟩ := h r hr
  obtain ⟨s', hs', hid', hrun'⟩ := h' s hs
  exact ⟨s', hs', hid'.trans hid, hrun'.trans hrun⟩

theorem OwnsStep.mono {runId : String} {stepId : Option String} (h : j.OwnsStep runId stepId)
    (hstay : j.StepsStay j') : j'.OwnsStep runId stepId := by
  intro id hid
  obtain ⟨step, hstep, rfl, rfl⟩ := h id hid
  exact hstay step hstep

theorem ownsStep_none (j : Journal) (runId : String) : j.OwnsStep runId none := by
  intro id hid
  cases hid

theorem ownsStep_some {stepId : String} {step : StepRecord} (h : j.findStep stepId = some step) :
    j.OwnsStep step.runId (some stepId) := by
  intro id hid
  obtain rfl := Option.some.inj hid
  exact ⟨step, Table.find_mem h, Table.find_key h, rfl⟩

theorem ownsStep_of_find {runId : String} {stepId : Option String}
    (h : ∀ id ∈ stepId, ∃ step, j.findStep id = some step ∧ step.runId = runId) :
    j.OwnsStep runId stepId := by
  intro id hid
  obtain ⟨step, hstep, hrun⟩ := h id hid
  exact ⟨step, Table.find_mem hstep, Table.find_key hstep, hrun⟩

theorem stepsStay_of_perform {c : JournalCall β} {b : β} (hk : j.StepsKeyed)
    (h : c.perform sha a j = (.ok b, j')) : j.StepsStay j' := by
  by_cases hc : c.Honest
  · intro r hr
    obtain ⟨s, hs, hfollows⟩ := (moves_of_perform hk hc h).follows hk r hr
    exact ⟨s, hs, hfollows.id, congrArg (fun o => o.2.1) hfollows.origin⟩
  · -- an event that is written from outside, whatever its type, leaves the steps
    cases c with
    | appendEvent => exact .of_eq (same_of_perform (p := .steps) hk h (by simp [JournalCall.writes]))
    | _ => exact absurd trivial hc

/-! The rows that a call adds. -/

theorem requireStepOfRun_owns {runId : String} {stepId : Option String} {u : Unit}
    (h : requireStepOfRun runId stepId j = (.ok u, j')) : j.OwnsStep runId stepId :=
  ownsStep_of_find (requireStepOfRun_ok h).1

theorem appendEvent_owns {runId eventType : String} {payload : PyVal} {stepId : Option String}
    {event : EventRecord} (h : appendEvent a runId eventType payload stepId j = (.ok event, j')) :
    j.OwnsStep runId stepId := by
  simp only [appendEvent, Txn.bind_ok, Txn.require_ok, Txn.atomically_ok, requireRun_ok] at h
  obtain ⟨_, _, ⟨-, rfl⟩, _, _, ⟨-, rfl⟩, _, _, hstep, -⟩ := h
  exact requireStepOfRun_owns hstep

theorem decideApproval_row {approvalId decidedBy : String} {decision : ApprovalStatus}
    {reason : Option String} {approval : ApprovalRecord}
    (h : decideApproval a approvalId decision decidedBy reason j = (.ok approval, j')) :
    j' = j ∨ ∃ row ∈ j.approvals, ∃ column, j' = (j.updateApprovals
        (fun r => r.id = approvalId && r.status = .pending)
        (.decided a decision decidedBy reason)).addEvent
      (j.eventRecord row.runId "approval.decided" row.stepId column a.now) := by
  simp only [decideApproval, getApproval, Txn.bind_ok, Txn.require_ok, Txn.atomically_ok,
    Txn.read_ok, Txn.getOr_ok, Txn.ite_ok, Txn.pure_ok, Txn.write_ok, appendEventRow_ok] at h
  obtain ⟨_, _, ⟨-, rfl⟩, _, _, ⟨-, rfl⟩, row, _, ⟨_, _, ⟨rfl, rfl⟩, hrow, rfl⟩,
    ⟨-, _, _, ⟨-, rfl⟩, -, rfl⟩ | ⟨-, _, _, rfl, _, _, ⟨column, -, rfl, rfl⟩, _, _,
      ⟨-, rfl⟩, -, rfl⟩⟩ := h
  · exact .inl rfl
  · exact .inr ⟨row, Table.find_mem hrow, column, rfl⟩

theorem commitReceipt_owns {row : StepRecord} {receipt : Option ReceiptInput} {id : Option String}
    (hrow : row ∈ j.steps) (h : commitReceipt sha a row receipt j = (.ok id, t)) :
    ∀ record ∈ t.receipts, record ∈ j.receipts ∨ j.OwnsStep record.runId record.stepId := by
  cases receipt with
  | none =>
      obtain ⟨-, rfl⟩ := Txn.pure_ok.1 h
      exact fun record hrecord => .inl hrecord
  | some receipt =>
      simp only [commitReceipt, Txn.bind_ok, Txn.getOr_ok, Txn.pure_ok] at h
      obtain ⟨key, _, ⟨-, rfl⟩, added, _, hadded, -, rfl⟩ := h
      obtain ⟨-, hrun, hstep, -, ⟨rfl, -⟩ | ⟨rfl, -⟩⟩ := recordReceiptInTransaction_ok hadded
      · exact fun record hrecord => .inl hrecord
      · intro record hrecord
        rcases List.mem_append.1 hrecord with hrecord | hrecord
        · exact .inl hrecord
        · obtain rfl := List.mem_singleton.1 hrecord
          rw [hrun, hstep]
          refine .inr fun id hid => ?_
          obtain rfl := Option.some.inj hid
          exact ⟨row, hrow, rfl, rfl⟩

theorem commitStep_receipts {stepId workerId : String} {output : PyVal}
    {receipt : Option ReceiptInput} {r : StepRecord}
    (h : commitStep sha a stepId workerId output receipt j = (.ok r, j')) :
    ∀ record ∈ j'.receipts, record ∈ j.receipts ∨ j.OwnsStep record.runId record.stepId := by
  simp only [commitStep, Txn.atomically_ok, Txn.bind_ok, requireStep_ok, Txn.require_ok,
    Txn.lift_ok] at h
  obtain ⟨row, _, ⟨hrow, rfl⟩, _, _, ⟨-, rfl⟩, _, _, hcheck, receiptId, t, hreceipt, outputJson, _,
    ⟨-, rfl⟩, _, _, ⟨-, rfl⟩, hchange⟩ := h
  obtain ⟨-, rfl⟩ := checkOwnerAndLease_ok hcheck
  simp only [changeStep, Txn.bind_ok, Txn.write_ok, appendEventRow_ok, requireStep_ok] at hchange
  obtain ⟨_, _, rfl, _, _, ⟨column, -, rfl, rfl⟩, -, rfl⟩ := hchange
  have howned := commitReceipt_owns (Table.find_mem hrow) hreceipt
  exact howned

/-- The rows of a table after a call are rows of before, or name steps of their own runs. -/
def Adds (j' : Journal) {α : Type} (runId : α → String) (stepId : α → Option String)
    (before after : List α) : Prop :=
  ∀ r ∈ after, r ∈ before ∨ j'.OwnsStep (runId r) (stepId r)

section
variable {α : Type} {runId : α → String} {stepId : α → Option String} {before after : List α}

theorem Adds.of_eq (h : after = before) : j'.Adds runId stepId before after :=
  fun _ hr => .inl (h ▸ hr)

theorem Adds.concat {row : α} (h : j'.OwnsStep (runId row) (stepId row)) :
    j'.Adds runId stepId before (before ++ [row]) := by
  intro r hr
  rcases List.mem_append.1 hr with hr | hr
  · exact .inl hr
  · obtain rfl := List.mem_singleton.1 hr
    exact .inr h

theorem Adds.updateWhere {p : α → Bool} {f : α → α}
    (hf : ∀ r, runId (f r) = runId r ∧ stepId (f r) = stepId r)
    (h : ∀ r ∈ before, j'.OwnsStep (runId r) (stepId r)) :
    j'.Adds runId stepId before (Table.updateWhere p f before) := by
  intro r hr
  obtain ⟨s, hs, rfl⟩ := List.mem_map.1 hr
  split
  · rw [(hf s).1, (hf s).2]
    exact .inr (h s hs)
  · exact .inl hs

theorem Adds.owned (h : j'.Adds runId stepId before after) (hstay : j.StepsStay j')
    (hbefore : ∀ r ∈ before, j.OwnsStep (runId r) (stepId r)) :
    ∀ r ∈ after, j'.OwnsStep (runId r) (stepId r) := by
  intro r hr
  rcases h r hr with hr | howns
  · exact (hbefore r hr).mono hstay
  · exact howns

end

/-- The events of a journal after a call. -/
abbrev AddsEvents (j j' : Journal) : Prop :=
  j'.Adds EventRecord.runId EventRecord.stepId j.events j'.events

theorem addsEvents_change {row r : StepRecord} {type : String} {column : JsonColumn}
    {now : Timestamp} (hrow : row ∈ j.steps) (hid : r.id = row.id) (hevents : t.events = j.events)
    (hsteps : t.steps = j.steps) : j.AddsEvents (t.recordChange r type column now) := by
  have hput : r ∈ (t.recordChange r type column now).steps := by
    change r ∈ Table.put StepRecord.id r t.steps
    rw [hsteps]
    exact Table.mem_put.2 (.inl ⟨rfl, row, hrow, hid.symm⟩)
  have hrows : (t.recordChange r type column now).events =
      j.events ++ [t.eventRecord r.runId type (some r.id) column now] := by
    rw [← hevents]
    rfl
  rw [AddsEvents, hrows]
  refine .concat fun id hid => ?_
  obtain rfl := Option.some.inj hid
  exact ⟨r, hput, rfl, rfl⟩

theorem stepsStay_update {p : StepRecord → Bool} {f : StepRecord → StepRecord}
    (hf : ∀ r, (f r).id = r.id ∧ (f r).runId = r.runId) : j.StepsStay (j.updateSteps p f) := by
  intro r hr
  refine ⟨_, List.mem_map_of_mem hr, ?_⟩
  split
  · exact hf r
  · exact ⟨rfl, rfl⟩

theorem addsEvents_of_reclaimRows {now : Timestamp} {rows out : List StepRecord}
    (hrows : ∀ row ∈ rows, j.OwnsStep row.runId (some row.id))
    (h : reclaimRows now rows j = (.ok out, j')) : j.AddsEvents j' ∧ j.StepsStay j' := by
  induction rows generalizing j out with
  | nil =>
      obtain ⟨-, rfl⟩ := Txn.pure_ok.1 h
      exact ⟨.of_eq rfl, .of_eq rfl⟩
  | cons row rows ih =>
      simp only [reclaimRows, changeStep, Txn.bind_ok, Txn.pure_ok, Txn.write_ok, appendEventRow_ok,
        requireStep_ok] at h
      obtain ⟨r, _, ⟨_, _, rfl, _, _, ⟨column, -, rfl, rfl⟩, -, rfl⟩, rest, _, hrest, -, rfl⟩ := h
      have hstay := @stepsStay_update j (fun r => r.id = row.id && (r.status = row.status &&
        r.leaseExpiresAt.any (· ≤ now))) (.expire (reclaimTarget row.safety)
          (reclaimReason (reclaimTarget row.safety)) now) fun _ => ⟨rfl, rfl⟩
      have hcontinue := fun hothers => ih hothers hrest
      obtain ⟨hevents, hsteps⟩ := hcontinue fun other hother =>
        (hrows other (List.mem_cons_of_mem _ hother)).mono hstay
      have hall := StepsStay.trans hstay hsteps
      refine ⟨fun e he => ?_, hall⟩
      rcases hevents e he with he | howns
      · rcases List.mem_append.1 he with he | he
        · exact .inl he
        · obtain rfl := List.mem_singleton.1 he
          exact .inr ((hrows row List.mem_cons_self).mono hall)
      · exact .inr howns

theorem addsEvents_of_perform {c : JournalCall β} {b : β} {artifacts : List ArtifactRecord}
    (hk : j.StepsKeyed) (howned : StepsOwned ⟨j, artifacts⟩)
    (hstarts : RecordCall.StartsOwn ⟨j, artifacts⟩ (.journal c))
    (h : c.perform sha a j = (.ok b, j')) : j.AddsEvents j' := by
  have hstay := stepsStay_of_perform hk h
  cases c with
  | createRun =>
      obtain ⟨-, ⟨rfl, -⟩ | ⟨_, _, column, t, -, -, -, -, ht, rfl⟩⟩ := createRun_ok h
      · exact .of_eq rfl
      · obtain rfl | ⟨k, rfl⟩ := ht <;> exact .concat (ownsStep_none _ _)
  | getRun =>
      simp only [JournalCall.perform, getRun, requireRun_ok] at h
      exact .of_eq (by rw [h.2])
  | markRunStatus =>
      obtain ⟨row, -, ⟨-, rfl⟩ | ⟨-, column, rfl⟩⟩ := markRunStatus_ok h
      · exact .of_eq rfl
      · exact .concat (ownsStep_none _ _)
  | appendEvent =>
      have howns := appendEvent_owns h
      obtain ⟨column, rfl, rfl⟩ := appendEvent_ok h
      exact .concat (howns.mono hstay)
  | createStep =>
      obtain ⟨_, _, _, _, _, stepId, -, -, -, -, -, -, ⟨rfl, -⟩ | ⟨-, column, rfl, rfl⟩⟩ :=
        createStep_ok h
      · exact .of_eq rfl
      · refine .concat fun id hid => ?_
        obtain rfl := Option.some.inj hid
        exact ⟨_, List.mem_append_right _ List.mem_cons_self, rfl, rfl⟩
  | getStep =>
      simp only [JournalCall.perform, getStep, requireStep_ok] at h
      exact .of_eq (by rw [h.2])
  | listSteps =>
      simp only [JournalCall.perform, listSteps, Txn.ite_ok, Txn.bind_ok, requireRun_ok,
        Txn.read_ok, Txn.pure_ok] at h
      obtain ⟨-, -, rfl⟩ | ⟨-, _, _, ⟨-, rfl⟩, -, rfl⟩ := h <;> exact .of_eq rfl
  | claimReadyStep =>
      obtain ⟨-, rfl⟩ | ⟨row, expiry, column, r, hfirst, -, rfl, -, rfl⟩ := claimReadyStep_ok hk h
      · exact .of_eq rfl
      · exact addsEvents_change (firstReady_some hfirst).1 rfl rfl rfl
  | markExecuting =>
      obtain ⟨row, column, hrow, -, -, rfl, rfl⟩ := markExecuting_ok hk h
      exact addsEvents_change (Table.find_mem hrow) rfl rfl rfl
  | heartbeat =>
      obtain ⟨row, expiry, column, hrow, -, -, -, rfl, rfl⟩ := heartbeat_ok hk h
      exact addsEvents_change (Table.find_mem hrow) rfl rfl rfl
  | commitStep =>
      obtain ⟨row, output, column, t, hrow, -, -, -, hadds, rfl, rfl⟩ := commitStep_ok hk h
      obtain rfl | ⟨_, rfl, -⟩ := hadds <;>
        exact addsEvents_change (Table.find_mem hrow) rfl rfl rfl
  | failStep =>
      obtain ⟨row, error, column, hrow, -, -, rfl, rfl⟩ := failStep_ok hk h
      exact addsEvents_change (Table.find_mem hrow) rfl rfl rfl
  | markUncertain =>
      obtain ⟨row, error, column, hrow, -, -, rfl, rfl⟩ := markUncertain_ok hk h
      exact addsEvents_change (Table.find_mem hrow) rfl rfl rfl
  | cancelStep =>
      obtain ⟨row, column, hrow, -, -, rfl, rfl⟩ := cancelStep_ok hk h
      exact addsEvents_change (Table.find_mem hrow) rfl rfl rfl
  | reclaimExpiredLeases =>
      simp only [JournalCall.perform, reclaimExpiredLeases, Txn.atomically_ok, Txn.bind_ok,
        Txn.read_ok] at h
      obtain ⟨rows, _, ⟨rfl, rfl⟩, h⟩ := h
      refine (addsEvents_of_reclaimRows (fun row hrow id hid => ?_) h).1
      obtain rfl := Option.some.inj hid
      exact ⟨row, List.mem_of_mem_filter ((List.mem_insertionSort _).1 hrow), rfl, rfl⟩
  | recordReceipt =>
      obtain ⟨step, hstep, -, -, -, -, ⟨rfl, -⟩ | ⟨-, column, rfl⟩⟩ := recordReceipt_ok h
      · exact .of_eq rfl
      · exact .concat ((ownsStep_some hstep).mono hstay)
  | findReceipt =>
      simp only [JournalCall.perform, Txn.read_ok] at h
      exact .of_eq (by rw [h.2])
  | requestApproval =>
      obtain ⟨hstep, _, column, rfl, -, rfl⟩ := requestApproval_ok h
      exact .concat ((ownsStep_of_find hstep).mono hstay)
  | getApproval =>
      simp only [JournalCall.perform, getApproval, Txn.bind_ok, Txn.read_ok, Txn.getOr_ok] at h
      obtain ⟨_, _, ⟨-, rfl⟩, -, rfl⟩ := h
      exact .of_eq rfl
  | decideApproval =>
      obtain rfl | ⟨row, hrow, column, rfl⟩ := decideApproval_row h
      · exact .of_eq rfl
      · exact .concat ((howned.approvals row hrow).mono hstay)
  | listApprovals =>
      simp only [JournalCall.perform, listApprovals, Txn.read_ok] at h
      exact .of_eq (by rw [h.2])
  | startProviderCall =>
      obtain ⟨hfound, _, column, -, rfl, -, rfl⟩ := startProviderCall_ok h
      refine .concat (OwnsStep.mono (ownsStep_of_find fun id hid => ?_) hstay)
      obtain ⟨step, hstep⟩ := Option.isSome_iff_exists.1 (hfound id hid)
      exact ⟨step, hstep, hstarts id hid step hstep⟩
  | completeProviderCall =>
      obtain ⟨row, _, column, hrow, -, -, -, rfl⟩ := completeProviderCall_ok h
      exact .concat ((howned.providerCalls row (Table.find_mem hrow)).mono hstay)
  | listProviderCalls =>
      simp only [JournalCall.perform, listProviderCalls, Txn.read_ok] at h
      exact .of_eq (by rw [h.2])
  | reserveBudget =>
      obtain ⟨-, -, ⟨-, rfl⟩ | ⟨-, run, column, -, -, rfl⟩⟩ := reserveBudget_ok h
      · exact .of_eq rfl
      · exact .concat (ownsStep_none _ _)
  | settleBudget =>
      obtain ⟨-, -, row, -, -, ⟨-, -, rfl⟩ | ⟨-, column, rfl⟩⟩ := settleBudget_ok h
      · exact .of_eq rfl
      · exact .concat (ownsStep_none _ _)

theorem addsApprovals_of_perform {c : JournalCall β} {b : β} {artifacts : List ArtifactRecord}
    (hk : j.StepsKeyed) (howned : StepsOwned ⟨j, artifacts⟩) (h : c.perform sha a j = (.ok b, j')) :
    j'.Adds ApprovalRecord.runId ApprovalRecord.stepId j.approvals j'.approvals := by
  have hstay := stepsStay_of_perform hk h
  cases c with
  | requestApproval =>
      obtain ⟨hstep, _, column, rfl, -, rfl⟩ := requestApproval_ok h
      exact .concat ((ownsStep_of_find hstep).mono hstay)
  | decideApproval =>
      obtain rfl | ⟨row, hrow, column, rfl⟩ := decideApproval_row h
      · exact .of_eq rfl
      · exact .updateWhere (fun _ => ⟨rfl, rfl⟩) fun r hr => (howned.approvals r hr).mono hstay
  | _ => exact .of_eq (same_of_perform (p := .approvals) hk h (by simp [JournalCall.writes]))

theorem addsReceipts_of_perform {c : JournalCall β} {b : β} (hk : j.StepsKeyed)
    (h : c.perform sha a j = (.ok b, j')) :
    j'.Adds ReceiptRecord.runId ReceiptRecord.stepId j.receipts j'.receipts := by
  have hstay := stepsStay_of_perform hk h
  cases c with
  | commitStep => exact fun r hr => (commitStep_receipts h r hr).imp id fun howns => howns.mono hstay
  | recordReceipt =>
      obtain ⟨step, hstep, -, hrun, hid, -, ⟨rfl, -⟩ | ⟨-, column, rfl⟩⟩ := recordReceipt_ok h
      · exact .of_eq rfl
      · refine .concat ?_
        rw [hrun, hid]
        exact (ownsStep_some hstep).mono hstay
  | _ => exact .of_eq (same_of_perform (p := .receipts) hk h (by simp [JournalCall.writes]))

theorem addsProviderCalls_of_perform {c : JournalCall β} {b : β} {artifacts : List ArtifactRecord}
    (hk : j.StepsKeyed) (howned : StepsOwned ⟨j, artifacts⟩)
    (hstarts : RecordCall.StartsOwn ⟨j, artifacts⟩ (.journal c))
    (h : c.perform sha a j = (.ok b, j')) :
    j'.Adds ProviderCallRecord.runId ProviderCallRecord.stepId j.providerCalls j'.providerCalls := by
  have hstay := stepsStay_of_perform hk h
  cases c with
  | startProviderCall =>
      obtain ⟨hfound, _, column, -, rfl, -, rfl⟩ := startProviderCall_ok h
      refine .concat (OwnsStep.mono (ownsStep_of_find fun id hid => ?_) hstay)
      obtain ⟨step, hstep⟩ := Option.isSome_iff_exists.1 (hfound id hid)
      exact ⟨step, hstep, hstarts id hid step hstep⟩
  | completeProviderCall =>
      obtain ⟨row, _, column, -, -, -, -, rfl⟩ := completeProviderCall_ok h
      exact .updateWhere (fun _ => ⟨rfl, rfl⟩) fun r hr => (howned.providerCalls r hr).mono hstay
  | _ => exact .of_eq (same_of_perform (p := .providerCalls) hk h (by simp [JournalCall.writes]))

theorem stepsOwned_of_perform {c : JournalCall β} {b : β} {artifacts : List ArtifactRecord}
    (hk : j.StepsKeyed) (howned : StepsOwned ⟨j, artifacts⟩)
    (hstarts : RecordCall.StartsOwn ⟨j, artifacts⟩ (.journal c))
    (h : c.perform sha a j = (.ok b, j')) : StepsOwned ⟨j', artifacts⟩ := by
  have hstay := stepsStay_of_perform hk h
  exact ⟨(addsEvents_of_perform hk howned hstarts h).owned hstay howned.events,
    (addsApprovals_of_perform hk howned h).owned hstay howned.approvals,
    fun r hr => (howned.artifacts r hr).mono hstay,
    (addsReceipts_of_perform hk h).owned hstay howned.receipts,
    (addsProviderCalls_of_perform hk howned hstarts h).owned hstay howned.providerCalls⟩

end Journal

namespace ArtifactJournal
variable {a : Ambient} {s s' : ArtifactJournal} {β : Type}

theorem onJournal_ok {x : Journal.Op β} {b : β} :
    onJournal x s = (.ok b, s') ↔ ∃ j', x s.journal = (.ok b, j') ∧ s' = { s with journal := j' } := by
  unfold onJournal
  rcases x s.journal with ⟨e | v, j'⟩
  · simp
  · simp [eq_comm]

theorem onJournal_readOnly {x : Journal.Op β} (h : Txn.ReadOnly x) : Txn.ReadOnly (onJournal x) :=
  fun s => by simp [onJournal, h s.journal]

theorem recordArtifact_ok {runId name uri : String} {stepId mediaType sha256 : Option String}
    {sizeBytes : Option ℤ} {metadata : PyVal} {artifact : ArtifactRecord}
    (h : recordArtifact a runId name uri stepId mediaType sha256 sizeBytes metadata s =
      (.ok artifact, s')) :
    s.journal.OwnsStep runId stepId ∧ artifact.runId = runId ∧ artifact.stepId = stepId ∧
      ∃ column, s' = ⟨s.journal.addEvent
        (s.journal.eventRecord runId "artifact.recorded" stepId column a.now),
        s.artifacts ++ [artifact]⟩ := by
  simp only [recordArtifact, Txn.bind_ok, Txn.require_ok, Txn.atomically_ok, Txn.lift_ok,
    Txn.read_ok, Txn.write_ok, Txn.pure_ok, onJournal_ok, validateNonnegativeInteger_ok,
    requireRun_ok, appendEventRow_ok] at h
  obtain ⟨_, _, ⟨-, rfl⟩, _, _, ⟨_, ⟨-, rfl⟩, rfl⟩, _, _, ⟨_, ⟨-, rfl⟩, rfl⟩, _, _,
    ⟨_, hstep, rfl⟩, column, _, ⟨-, rfl⟩, _, _, ⟨-, rfl⟩, _, _, ⟨-, rfl⟩, _, _, ⟨-, rfl⟩, _, _, rfl,
    _, _, ⟨_, ⟨payload, -, rfl, rfl⟩, rfl⟩, rfl, rfl⟩ := h
  have howns := requireStepOfRun_owns hstep
  obtain ⟨-, rfl⟩ := requireStepOfRun_ok hstep
  exact ⟨howns, rfl, rfl, payload, rfl⟩

theorem recordArtifact_atomic {runId name uri : String} {stepId mediaType sha256 : Option String}
    {sizeBytes : Option ℤ} {metadata : PyVal} :
    Txn.Atomic (recordArtifact a runId name uri stepId mediaType sha256 sizeBytes metadata) := by
  refine (Txn.require_readOnly _ _).bind_atomic fun _ => Txn.ReadOnly.bind_atomic ?_ fun _ =>
    Txn.atomically_atomic _
  exact onJournal_readOnly (Txn.require_readOnly _ _)

end ArtifactJournal

namespace RecordCall
variable {sha : Sha256} {a : Ambient} {s s' : ArtifactJournal} {β : Type}

theorem perform_atomic {c : RecordCall β} {e : PyError} (h : c.perform sha a s = (.error e, s')) :
    s' = s := by
  cases c with
  | journal call =>
      have hsame := call.perform_atomic sha a s.journal
      simp only [perform, ArtifactJournal.onJournal, Prod.mk.injEq] at h
      obtain ⟨herror, rfl⟩ := h
      rw [hsame e herror]
  | recordArtifact => exact ArtifactJournal.recordArtifact_atomic.state h

/-- No id is that of two steps, and rows name steps of their own runs. -/
structure Inv (s : ArtifactJournal) : Prop where
  keyed : s.journal.StepsKeyed
  owned : StepsOwned s

theorem Inv.perform {c : RecordCall β} {b : β} (h : Inv s) (hstarts : c.StartsOwn s)
    (hperform : c.perform sha a s = (.ok b, s')) : Inv s' := by
  cases c with
  | journal call =>
      obtain ⟨j', hcall, rfl⟩ := ArtifactJournal.onJournal_ok.1 hperform
      exact ⟨stepsKeyed_of_perform h.keyed hcall, stepsOwned_of_perform h.keyed h.owned hstarts hcall⟩
  | recordArtifact =>
      obtain ⟨howns, hrun, hstep, column, rfl⟩ := ArtifactJournal.recordArtifact_ok hperform
      refine ⟨h.keyed, ?_, h.owned.approvals, ?_, h.owned.receipts, h.owned.providerCalls⟩
      · have hevents : AddsEvents s.journal (s.journal.addEvent
            (s.journal.eventRecord _ "artifact.recorded" _ column a.now)) := .concat howns
        exact hevents.owned (.of_eq rfl) h.owned.events
      · refine Adds.owned (.concat ?_) (.of_eq rfl) h.owned.artifacts
        rw [hrun, hstep]
        exact howns

end RecordCall

open RecordCall in
/-- Rows name steps of their own runs as long as provider calls are started for steps of their runs, and
a call that answers keeps it so exactly when it does that. -/
theorem steps_owned {sha : Sha256} {s : ArtifactJournal} (h : RecordReach sha StartsOwn s) :
    StepsOwned s ∧
      ∀ {β : Type} {c : RecordCall β} {a : Ambient} {b : β} {s' : ArtifactJournal},
        c.perform sha a s = (.ok b, s') → (StepsOwned s' ↔ c.StartsOwn s) := by
  have hinv : RecordCall.Inv s := by
    induction h with
    | start => exact ⟨List.nodup_nil, by simp [empty], by simp [empty], by simp, by simp [empty],
        by simp [empty]⟩
    | @calls s s' β c a r _ hstarts hperform ih =>
        cases r with
        | error e => exact perform_atomic hperform ▸ ih
        | ok b => exact ih.perform hstarts hperform
  refine ⟨hinv.owned, fun {β c a b s'} hperform => ⟨fun howned => ?_, fun hstarts =>
    (hinv.perform hstarts hperform).owned⟩⟩
  cases c with
  | journal call =>
      obtain ⟨j', hcall, rfl⟩ := ArtifactJournal.onJournal_ok.1 hperform
      cases call with
      | startProviderCall runId provider request stepId model =>
          intro id hid step hstep
          obtain rfl : stepId = some id := hid
          obtain ⟨-, _, column, -, rfl, -, rfl⟩ := startProviderCall_ok hcall
          obtain ⟨other, hother, hsame, hrun⟩ :=
            howned.providerCalls _ (List.mem_append_right _ List.mem_cons_self) id rfl
          -- no other step has the id
          obtain rfl := hinv.keyed.eq_of_key hother (Table.find_mem hstep)
            (hsame.trans (Table.find_key hstep).symm)
          exact hrun
      | _ => trivial
  | recordArtifact => trivial

/-! Two runs, and a provider call of the second for the step of the first. -/

namespace Sample

def otherClock (t : Timestamp) : Ambient := ⟨t, t, t, "66666666666666666666666666666666"⟩

def createRun : RecordCall RunRecord :=
  .journal (.createRun "single" (dict []) (dict []) ⟨none, none, none, none⟩ none none)

def createStep : RecordCall StepRecord :=
  .journal (.createStep "run_55555555555555555555555555555555" "tool" "fetch" (dict []) "idempotent"
    none)

def startForeign : RecordCall ProviderCallRecord :=
  .journal (.startProviderCall "run_66666666666666666666666666666666" "local" (dict []) (some stepId)
    none)

def twoRuns : ArtifactJournal :=
  (createRun.perform sha (otherClock 2) (createRun.perform sha (clock 1) ⟨.empty, []⟩).2).2

def withStep : ArtifactJournal := (createStep.perform sha (clock 3) twoRuns).2

def withCall : ArtifactJournal := (startForeign.perform sha (otherClock 4) withStep).2

theorem reach_withStep {C : ∀ {β : Type}, ArtifactJournal → RecordCall β → Prop}
    (hrun : ∀ s, C s createRun) (hstep : ∀ s, C s createStep) : RecordReach sha C withStep :=
  ((RecordReach.start.calls (c := createRun) (a := clock 1) (hrun _) rfl).calls (c := createRun)
    (a := otherClock 2) (hrun _) rfl).calls (c := createStep) (a := clock 3) (hstep _) rfl

end Sample

theorem steps_owned_withStep : ∃ s : ArtifactJournal, s.journal.steps.length = 1 ∧ StepsOwned s := by
  refine ⟨Sample.withStep, by decide +kernel, (@steps_owned Sample.sha Sample.withStep ?_).1⟩
  exact Sample.reach_withStep (fun _ => trivial) fun _ => trivial

theorem foreign_step_called : ∃ s : ArtifactJournal,
    RecordReach Sample.sha (fun _ _ => True) s ∧ ¬StepsOwned s := by
  have hreach : RecordReach Sample.sha (fun _ _ => True) Sample.withCall :=
    .calls (c := Sample.startForeign) (a := Sample.otherClock 4)
      (Sample.reach_withStep (fun _ => trivial) fun _ => trivial) trivial rfl
  refine ⟨Sample.withCall, hreach, fun howned => ?_⟩
  have hcall : Sample.withCall.journal.providerCalls.any (fun r => r.stepId = some Sample.stepId &&
      r.runId = "run_66666666666666666666666666666666") = true := by decide +kernel
  have hsteps : Sample.withCall.journal.steps.all (fun r =>
      r.runId = "run_55555555555555555555555555555555") = true := by decide +kernel
  obtain ⟨r, hr, hnames⟩ := List.any_eq_true.1 hcall
  simp only [Bool.and_eq_true, decide_eq_true_eq] at hnames
  obtain ⟨step, hstep, -, hrun⟩ := howned.providerCalls r hr Sample.stepId hnames.1
  have hother := of_decide_eq_true (List.all_eq_true.1 hsteps step hstep)
  rw [hrun, hnames.2] at hother
  exact absurd hother (by decide)

end Polaris
