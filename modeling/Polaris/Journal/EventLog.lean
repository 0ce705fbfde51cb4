import Polaris.Journal.Events
import Polaris.Journal.Footprint
import Polaris.Journal.Stored

namespace Polaris
open PyJson SortedDict

/-! What the events of a run tell of its rows. -/

structure LoggedRun where
  mode : PyVal
  parentRunId : PyVal
  status : PyVal
deriving DecidableEq

structure LoggedStep where
  id : String
  kind : PyVal
  name : PyVal
  inputHash : PyVal
  safety : PyVal
  sequence : PyVal
  status : PyVal
  uncertaintyReason : PyVal
  leaseOwner : PyVal
  leaseExpiresAt : PyVal
  attemptCount : PyVal
deriving DecidableEq

structure LoggedApproval where
  id : PyVal
  stepId : Option String
  kind : PyVal
  status : PyVal
  decision : PyVal
  decidedBy : PyVal
  decisionReason : PyVal
deriving DecidableEq

structure LoggedState where
  runs : List LoggedRun
  steps : List LoggedStep
  approvals : List LoggedApproval
deriving DecidableEq

def RunRecord.logged (r : RunRecord) : LoggedRun :=
  ⟨.str r.mode, optStr r.parentRunId, .str r.status.value⟩

def StepRecord.logged (r : StepRecord) : LoggedStep :=
  ⟨r.id, .str r.kind, .str r.name, .str r.inputHash, .str r.safety.value, optInt r.sequence,
    .str r.status.value, optStr r.uncertaintyReason, optStr r.leaseOwner,
    optStr (r.leaseExpiresAt.map isoformat), .int r.attemptCount⟩

def ApprovalRecord.logged (r : ApprovalRecord) : LoggedApproval :=
  ⟨.str r.id, r.stepId, .str r.kind, .str r.status.value,
    optStr (r.decision.map ApprovalStatus.value), optStr r.decidedBy, optStr r.decisionReason⟩

def Journal.logged (runId : String) (j : Journal) : LoggedState :=
  ⟨(j.runs.filter fun r => r.id = runId).map RunRecord.logged,
    (j.steps.filter fun r => r.runId = runId).map StepRecord.logged,
    (j.approvals.filter fun r => r.runId = runId).map ApprovalRecord.logged⟩

/-! The fold over the events. -/

def field (key : String) : PyVal → PyVal
  | .map _ entries => (lookup key entries).getD .null
  | _ => .null

theorem field_column {entries : List (String × PyVal)} {column : JsonColumn}
    (h : canonicalJson (dict entries) = .ok column) (key : String) :
    field key column.value = ((lastOf key entries).map stored).getD .null := by
  rw [(canonicalJson_eq_ok h).2.1, dict, stored_map, field, lookup_storedEntries]

@[simp] theorem optStr_none : optStr none = .null := rfl

@[simp] theorem optStr_some (s : String) : optStr (some s) = .str s := rfl

@[simp] theorem stored_optStr (s : Option String) : stored (optStr s) = optStr s := by
  cases s <;> rfl

@[simp] theorem stored_optInt (n : Option ℤ) : stored (optInt n) = optInt n := by
  cases n <;> rfl

def MoveKind.ofEvent (type : String) : Option MoveKind :=
  [MoveKind.lease, .execute, .extend, .commit, .fail, .doubt, .cancel, .expire].find? fun k =>
    k.event = type

/-- What an event of each kind tells of its step. -/
def MoveKind.tell (k : MoveKind) (payload : PyVal) (s : LoggedStep) : LoggedStep :=
  let released := { s with leaseOwner := .null, leaseExpiresAt := .null }
  match k with
  | .lease =>
      { s with
        status := .str "leased", leaseOwner := field "worker_id" payload,
        leaseExpiresAt := field "lease_expires_at" payload,
        attemptCount := field "attempt" payload }
  | .execute => { s with status := .str "executing" }
  | .extend => { s with leaseExpiresAt := field "lease_expires_at" payload }
  | .commit => { released with status := .str "committed" }
  | .fail => { released with status := .str "failed", uncertaintyReason := .null }
  | .doubt =>
      { released with
        status := .str "uncertain", uncertaintyReason := field "reason" payload }
  | .cancel => { released with status := .str "cancelled" }
  | .expire =>
      { released with
        status := field "to" payload, uncertaintyReason := field "reason" payload }

namespace LoggedState

def apply (s : LoggedState) (e : EventRecord) : LoggedState :=
  let payload := e.payload.value
  match MoveKind.ofEvent e.type with
  | some k =>
      { s with steps := s.steps.map fun r => if some r.id = e.stepId then k.tell payload r else r }
  | none =>
      if e.type = "run.created" then
        { s with
          runs := s.runs ++ [⟨field "mode" payload, field "parent_run_id" payload,
            .str "created"⟩] }
      else if e.type = "run.status_changed" then
        { s with runs := s.runs.map fun r => { r with status := field "to" payload } }
      else if e.type = "step.created" then
        { s with
          steps := s.steps ++ [⟨e.stepId.getD "", field "kind" payload, field "name" payload,
            field "input_hash" payload, field "safety" payload, field "sequence" payload,
            field "status" payload, .null, .null, .null, .int 0⟩] }
      else if e.type = "approval.requested" then
        { s with
          approvals := s.approvals ++ [⟨field "approval_id" payload, e.stepId,
            field "kind" payload, .str "pending", .null, .null, .null⟩] }
      else if e.type = "approval.decided" then
        { s with
          approvals := s.approvals.map fun r =>
            if r.id = field "approval_id" payload then
              { r with
                status := field "decision" payload, decision := field "decision" payload,
                decidedBy := field "decided_by" payload,
                decisionReason := field "reason" payload }
            else r }
      else s

end LoggedState

def loggedTypes : List String :=
  moveEvents ++ ["run.created", "run.status_changed", "step.created", "approval.requested",
    "approval.decided"]

theorem MoveKind.ofEvent_event (k : MoveKind) : MoveKind.ofEvent k.event = some k := by
  cases k <;> decide

theorem MoveKind.ofEvent_eq_none {type : String} (h : ¬ IsMoveEvent type) :
    MoveKind.ofEvent type = none := by
  refine List.find?_eq_none.2 fun k hk heq => h ?_
  exact List.mem_map.2 ⟨k, hk, of_decide_eq_true heq⟩

namespace LoggedState

theorem apply_of_silent {e : EventRecord} (h : e.type ∉ loggedTypes) (s : LoggedState) :
    s.apply e = s := by
  have hmove : ¬ IsMoveEvent e.type := fun hmove => h (List.mem_append_left _ hmove)
  simp only [loggedTypes, List.mem_append, List.mem_cons, not_or] at h
  simp only [apply, MoveKind.ofEvent_eq_none hmove, if_neg h.2.1, if_neg h.2.2.1,
    if_neg h.2.2.2.1, if_neg h.2.2.2.2.1, if_neg h.2.2.2.2.2.1]

theorem apply_move {e : EventRecord} {k : MoveKind} (h : e.type = k.event) (s : LoggedState) :
    s.apply e =
      { s with
        steps := s.steps.map fun r =>
          if some r.id = e.stepId then k.tell e.payload.value r else r } := by
  rw [apply, h, MoveKind.ofEvent_event]

end LoggedState

/-! One call. -/

namespace Journal
variable {sha : Sha256} {a : Ambient} {i j j' t : Journal} {e : EventRecord}

/-- The events that are added tell what has changed. -/
def Tells (j j' : Journal) : Prop :=
  ∃ events, j'.events = j.events ++ events ∧ ∀ runId,
    (events.filter fun e => e.runId = runId).foldl LoggedState.apply (j.logged runId) =
      j'.logged runId

theorem Tells.refl (j : Journal) : j.Tells j := ⟨[], by simp, fun _ => rfl⟩

theorem Tells.trans (h : i.Tells j) (h' : j.Tells t) : i.Tells t := by
  obtain ⟨events, hevents, htell⟩ := h
  obtain ⟨events', hevents', htell'⟩ := h'
  refine ⟨events ++ events', by rw [hevents', hevents, List.append_assoc], fun runId => ?_⟩
  rw [List.filter_append, List.foldl_append, htell, htell']

theorem Tells.one (hevents : j'.events = j.events ++ [e])
    (hown : (j.logged e.runId).apply e = j'.logged e.runId)
    (hother : ∀ runId, runId ≠ e.runId → j'.logged runId = j.logged runId) : j.Tells j' := by
  refine ⟨[e], hevents, fun runId => ?_⟩
  by_cases h : e.runId = runId
  · subst h
    simpa using hown
  · simp only [List.filter_cons, h, decide_false, Bool.false_eq_true, if_false, List.filter_nil,
      List.foldl_nil]
    exact (hother runId (Ne.symm h)).symm

/-- An event of another type tells nothing of these rows. -/
theorem Tells.silent (hevents : j'.events = j.events ++ [e]) (htype : e.type ∉ loggedTypes)
    (hsame : ∀ runId, j'.logged runId = j.logged runId) : j.Tells j' := by
  refine .one hevents ?_ fun runId _ => hsame runId
  rw [LoggedState.apply_of_silent htype, hsame]

theorem logged_of_same (hruns : j'.runs = j.runs) (hsteps : j'.steps = j.steps)
    (happrovals : j'.approvals = j.approvals) (runId : String) :
    j'.logged runId = j.logged runId := by
  rw [logged, logged, hruns, hsteps, happrovals]

theorem Tells.change {k : MoveKind} {row row' : StepRecord} {column : JsonColumn}
    {now : Timestamp} (hk : j.StepsKeyed) (hrow : row ∈ j.steps) (hid : row'.id = row.id)
    (hrun : row'.runId = row.runId) (htell : row'.logged = k.tell column.value row.logged) :
    j.Tells (j.recordChange row' k.event column now) := by
  have hsame : ∀ r ∈ j.steps, r.id = row'.id → r = row := fun r hr h =>
    hk.eq_of_key hr hrow (h.trans hid)
  refine .one (e := j.eventRecord row'.runId k.event (some row'.id) column now) rfl ?_ ?_
  · rw [LoggedState.apply_move rfl]
    simp only [logged, recordChange_runs, recordChange_steps, recordChange_approvals,
      eventRecord_runId, eventRecord_stepId, eventRecord_payload, Option.some.injEq]
    congr 1
    rw [Table.put_eq_updateWhere, Table.view_updateWhere]
    · intro r hr h
      rw [hsame r hr (of_decide_eq_true h), hrun]
    · intro r hr _
      by_cases h : r.id = row'.id
      · obtain rfl := hsame r hr h
        rw [if_pos (decide_eq_true h), if_pos (show r.logged.id = row'.id from h), htell]
      · rw [if_neg (by simpa using h), if_neg (show ¬ r.logged.id = row'.id from h)]
  · intro runId hne
    simp only [logged, recordChange_runs, recordChange_steps, recordChange_approvals]
    congr 1
    rw [Table.put_eq_updateWhere, Table.view_updateWhere StepRecord.logged id, List.map_id]
    · intro r hr h
      rw [hsame r hr (of_decide_eq_true h), hrun]
    · intro r hr hq
      rw [if_neg, id]
      intro h
      obtain rfl := hsame r hr (of_decide_eq_true h)
      exact hne ((of_decide_eq_true hq).symm.trans hrun.symm)

theorem changeStep_tells {k : MoveKind} {row r : StepRecord} {p : StepRecord → Bool}
    {f : StepRecord → StepRecord} {payload : PyVal} {now : Timestamp} (hk : j.StepsKeyed)
    (hrow : row ∈ j.steps) (hp : p row = true) (hid : (f row).id = row.id)
    (hrun : (f row).runId = row.runId)
    (htell : ∀ column, canonicalJson payload = .ok column →
      (f row).logged = k.tell column.value row.logged)
    (h : changeStep row p f k.event payload now j = (.ok r, j')) :
    j.Tells j' ∧ j'.StepsKeyed := by
  obtain ⟨rfl, column, rfl⟩ := changeStep_ok hk hrow hp hid hrun h
  simp only [changeStep, Txn.bind_ok, Txn.write_ok, appendEventRow_ok, requireStep_ok] at h
  obtain ⟨_, t, rfl, _, t, ⟨column', hcolumn, rfl, rfl⟩, -, heq⟩ := h
  obtain rfl : column' = column := by
    have hevents := congrArg Journal.events heq
    simp only [addEvent_events, updateSteps_events, recordChange_events, List.append_cancel_left_eq,
      List.cons.injEq, and_true, EventRecord.mk.injEq, eventRecord] at hevents
    exact hevents.2.2.2.2
  exact ⟨.change hk hrow hid hrun (htell _ hcolumn), hk.put⟩

theorem tells_of_same (hruns : j'.runs = j.runs) (hsteps : j'.steps = j.steps)
    (happrovals : j'.approvals = j.approvals) (hevents : j'.events = j.events) : j.Tells j' :=
  ⟨[], by simp [hevents], fun runId => (logged_of_same hruns hsteps happrovals runId).symm⟩

theorem markExecuting_tells {stepId workerId : String} {r : StepRecord} (hk : j.StepsKeyed)
    (h : markExecuting a stepId workerId j = (.ok r, j')) : j.Tells j' := by
  simp only [markExecuting, Txn.atomically_ok, Txn.bind_ok, requireStep_ok, Txn.require_ok,
    decide_eq_true_eq] at h
  obtain ⟨row, _, ⟨hrow, rfl⟩, _, _, ⟨hstatus, rfl⟩, _, t, hcheck, hchange⟩ := h
  obtain ⟨-, rfl⟩ := checkOwnerAndLease_ok hcheck
  exact (changeStep_tells (k := .execute) hk (Table.find_mem hrow) (by simp [hstatus]) rfl rfl
    (fun _ _ => rfl) hchange).1

theorem heartbeat_tells {stepId workerId : String} {leaseSeconds : ℚ} {r : StepRecord}
    (hk : j.StepsKeyed) (h : heartbeat a stepId workerId leaseSeconds j = (.ok r, j')) :
    j.Tells j' := by
  simp only [heartbeat, Txn.atomically_ok, Txn.bind_ok, requireStep_ok, Txn.require_ok,
    Txn.lift_ok] at h
  obtain ⟨_, _, ⟨-, rfl⟩, row, _, ⟨hrow, rfl⟩, _, _, ⟨-, rfl⟩, _, t, hcheck, expiry, _,
    ⟨-, rfl⟩, hchange⟩ := h
  obtain ⟨hheld, rfl⟩ := checkOwnerAndLease_ok hcheck
  refine (changeStep_tells (k := .extend) hk (Table.find_mem hrow) (by simp [hheld.1]) rfl rfl
    (fun column hcolumn => ?_) hchange).1
  simp [StepRecord.logged, MoveKind.tell, field_column hcolumn, lastOf, lookup]

theorem claimReadyStep_tells {workerId : String} {leaseSeconds : ℚ} {runId : Option String}
    {claimed : Option StepRecord} (hk : j.StepsKeyed)
    (h : claimReadyStep a workerId leaseSeconds runId j = (.ok claimed, j')) : j.Tells j' := by
  simp only [claimReadyStep, Txn.atomically_ok, Txn.bind_ok, Txn.require_ok, Txn.lift_ok,
    requireRunIfGiven_ok, Txn.read_ok] at h
  obtain ⟨_, _, ⟨-, rfl⟩, _, _, ⟨-, rfl⟩, expiry, _, ⟨-, rfl⟩, _, _, ⟨-, rfl⟩, found, _,
    ⟨hfound, rfl⟩, h⟩ := h
  cases found with
  | none =>
      simp only [Txn.pure_ok] at h
      exact h.2 ▸ .refl _
  | some row =>
      simp only [Txn.bind_ok, Txn.pure_ok] at h
      obtain ⟨r, t, hchange, -, rfl⟩ := h
      obtain ⟨hrow, hstatus, -⟩ := firstReady_some hfound
      refine (changeStep_tells (k := .lease) hk hrow (by simp [hstatus]) rfl rfl
        (fun column hcolumn => ?_) hchange).1
      simp [StepRecord.logged, MoveKind.tell, field_column hcolumn, lastOf, lookup,
        StepStatus.value]

theorem commitStep_tells {stepId workerId : String} {output : PyVal} {receipt : Option ReceiptInput}
    {r : StepRecord} (hk : j.StepsKeyed)
    (h : commitStep sha a stepId workerId output receipt j = (.ok r, j')) : j.Tells j' := by
  simp only [commitStep, Txn.atomically_ok, Txn.bind_ok, requireStep_ok, Txn.require_ok,
    Txn.lift_ok, decide_eq_true_eq] at h
  obtain ⟨row, _, ⟨hrow, rfl⟩, _, _, ⟨hstatus, rfl⟩, _, _, hcheck, receiptId, t, hreceipt,
    outputJson, _, ⟨-, rfl⟩, _, _, ⟨-, rfl⟩, hchange⟩ := h
  obtain ⟨hheld, rfl⟩ := checkOwnerAndLease_ok hcheck
  have hsame : t.steps = j.steps ∧ j.Tells t := by
    obtain rfl | ⟨_, rfl, -⟩ := commitReceipt_ok hreceipt
    · exact ⟨rfl, .refl _⟩
    · exact ⟨rfl, tells_of_same rfl rfl rfl rfl⟩
  refine hsame.2.trans (changeStep_tells (k := .commit) (by simpa [StepsKeyed, hsame.1] using hk)
    (hsame.1 ▸ Table.find_mem hrow) (by simp [hstatus, hheld.1]) rfl rfl (fun _ _ => rfl)
    hchange).1

theorem finishOwnedStep_tells {k : MoveKind} {stepId workerId : String} {target : StepStatus}
    {error : Option PyVal} {reason : Option String} {r : StepRecord} (hk : j.StepsKeyed)
    (htell : ∀ (row : StepRecord) errorJson column,
      canonicalJson (dict ([("worker_id", .str workerId)] ++
        (error.map fun e => ("error", e)).toList ++
        (reason.map fun r => ("reason", .str r)).toList)) = .ok column →
      (row.finish target errorJson reason a.now).logged = k.tell column.value row.logged)
    (h : finishOwnedStep a stepId workerId target k.event error reason j = (.ok r, j')) :
    j.Tells j' := by
  simp only [finishOwnedStep, Txn.atomically_ok, Txn.bind_ok, requireStep_ok, Txn.require_ok] at h
  obtain ⟨row, _, ⟨hrow, rfl⟩, _, _, ⟨-, rfl⟩, _, _, hcheck, errorJson, _, herror, hchange⟩ := h
  obtain ⟨hheld, rfl⟩ := checkOwnerAndLease_ok hcheck
  obtain rfl := errorColumn_ok herror
  exact (changeStep_tells hk (Table.find_mem hrow) (by simp [hheld.1]) rfl rfl
    (fun column hcolumn => htell row errorJson column hcolumn) hchange).1

theorem cancelStep_tells {stepId : String} {workerId : Option String} {r : StepRecord}
    (hk : j.StepsKeyed) (h : cancelStep a stepId workerId j = (.ok r, j')) : j.Tells j' := by
  simp only [cancelStep, Txn.atomically_ok, Txn.bind_ok, requireStep_ok, Txn.require_ok] at h
  obtain ⟨row, _, ⟨hrow, rfl⟩, _, _, ⟨-, rfl⟩, _, _, hcheck, hchange⟩ := h
  obtain ⟨rfl, -⟩ := checkCanceller_ok hcheck
  exact (changeStep_tells (k := .cancel) hk (Table.find_mem hrow) (by simp) rfl rfl
    (fun _ _ => rfl) hchange).1

theorem reclaimRows_tells {now : Timestamp} {rows out : List StepRecord} (hk : j.StepsKeyed)
    (hrows : ∀ r ∈ rows, r ∈ j.steps ∧ expiredAt now r = true)
    (hids : Table.Keyed StepRecord.id rows) (h : reclaimRows now rows j = (.ok out, j')) :
    j.Tells j' := by
  induction rows generalizing j out with
  | nil =>
      simp only [reclaimRows, Txn.pure_ok] at h
      exact h.2 ▸ .refl _
  | cons row rows ih =>
      simp only [reclaimRows, Txn.bind_ok, Txn.pure_ok] at h
      obtain ⟨r, t, hchange, rest, _, hrest, -, rfl⟩ := h
      obtain ⟨hrow, hexpired⟩ := hrows row (by simp)
      simp only [expiredAt, Bool.and_eq_true] at hexpired
      obtain ⟨htells, hk'⟩ := changeStep_tells (k := .expire) hk hrow (by simp [hexpired.2]) rfl rfl
        (fun column hcolumn => by
          simp [StepRecord.logged, MoveKind.tell, field_column hcolumn, lastOf, lookup])
        hchange
      obtain ⟨rfl, column, rfl⟩ := changeStep_ok hk hrow (by simp [hexpired.2]) rfl rfl hchange
      obtain ⟨hnot, hids⟩ := List.nodup_cons.1 hids
      refine htells.trans (ih hk' (fun s hs => ?_) hids hrest)
      obtain ⟨hmem, hs'⟩ := hrows s (List.mem_cons_of_mem _ hs)
      refine ⟨Table.mem_put_of_ne hmem ?_, hs'⟩
      intro heq
      exact hnot (List.mem_map.2 ⟨s, hs, heq⟩)

theorem createStep_tells {runId kind name : String} {input : PyVal} {safety : String}
    {sequence : Option ℤ} {r : StepRecord}
    (h : createStep sha a runId kind name input safety sequence j = (.ok r, j')) : j.Tells j' := by
  simp only [createStep, Txn.atomically_ok, Txn.bind_ok, Txn.require_ok, Txn.lift_ok,
    requireRun_ok, Txn.read_ok, Txn.ite_ok, Txn.write_ok, appendEventRow_ok, requireStep_ok] at h
  obtain ⟨_, _, ⟨-, rfl⟩, _, _, ⟨-, rfl⟩, safetyValue, _, ⟨-, rfl⟩, inputJson, _, ⟨-, rfl⟩,
    inputHash, _, ⟨-, rfl⟩, key, _, ⟨-, rfl⟩, stepId, _, ⟨-, rfl⟩, run, _, ⟨-, rfl⟩, taken, _,
    ⟨-, rfl⟩, h⟩ := h
  obtain ⟨-, _, _, rfl, _, _, ⟨column, hcolumn, rfl, rfl⟩, -, rfl⟩ | ⟨-, -, rfl⟩ := h
  · refine .one rfl ?_ fun id hne => ?_
    · simp [LoggedState.apply, logged, MoveKind.ofEvent, MoveKind.event, field_column hcolumn,
        lastOf, lookup, StepRecord.logged]
    · have hne' : ¬ runId = id := fun h => hne h.symm
      simp [logged, hne']
  · exact .refl _

theorem createRun_tells {mode : String} {request config : PyVal} {limits : Budget}
    {parentRunId externalKey : Option String} {run : RunRecord}
    (h : createRun sha a mode request config limits parentRunId externalKey j = (.ok run, j')) :
    j.Tells j' := by
  simp only [createRun, Txn.bind_ok, Txn.require_ok, Txn.lift_ok, Txn.atomically_ok,
    Txn.read_ok] at h
  obtain ⟨_, _, ⟨-, rfl⟩, _, _, ⟨-, rfl⟩, _, _, hlimits, requestJson, _, ⟨-, rfl⟩, configJson, _,
    ⟨-, rfl⟩, _, _, ⟨-, rfl⟩, _, _, ⟨-, rfl⟩, _, _, ⟨-, rfl⟩, _, _, ⟨-, rfl⟩, found, _, ⟨-, rfl⟩,
    h⟩ := h
  obtain ⟨-, rfl⟩ := validateLimits_ok hlimits
  cases found with
  | some pair =>
      simp only [Txn.bind_ok, Txn.require_ok, Txn.pure_ok] at h
      obtain ⟨_, _, ⟨-, rfl⟩, -, rfl⟩ := h
      exact .refl _
  | none =>
      simp only [Txn.bind_ok, requireRunIfGiven_ok, insertRun, Txn.read_ok, Txn.require_ok,
        Txn.write_ok, appendEventRow_ok, requireRun_ok] at h
      obtain ⟨_, _, ⟨-, rfl⟩, _, _, ⟨_, _, ⟨-, rfl⟩, _, _, ⟨-, rfl⟩, rfl⟩, _, t, hkey, _, _,
        ⟨column, hcolumn, rfl, rfl⟩, -, rfl⟩ := h
      obtain ⟨hruns, hsteps, happrovals, hevents⟩ : t.runs = j.runs ++ [newRun a mode requestJson
          configJson limits parentRunId] ∧ t.steps = j.steps ∧ t.approvals = j.approvals ∧
          t.events = j.events := by
        obtain rfl | ⟨k, rfl⟩ := insertExternalKey_ok hkey <;> exact ⟨rfl, rfl, rfl, rfl⟩
      refine .one (congrArg (· ++ [_]) hevents) ?_ fun id hne => ?_
      · simp [LoggedState.apply, logged, MoveKind.ofEvent, MoveKind.event, field_column hcolumn,
          lastOf, lookup, RunRecord.logged, hruns, hsteps, happrovals, RunStatus.value]
      · have hne' : ¬ "run_" ++ a.uuid = id := fun h => hne h.symm
        simp [logged, hruns, hsteps, happrovals, hne']

theorem logged_updateRun {runId : String} {f : RunRecord → RunRecord} {g : LoggedRun → LoggedRun}
    (hid : ∀ r, (f r).id = r.id) (hlogged : ∀ r, (f r).logged = g r.logged) (id : String) :
    (j.updateRun runId f).logged id =
      { j.logged id with
        runs := if id = runId then (j.logged id).runs.map g else (j.logged id).runs } := by
  simp only [logged, updateRun_runs, updateRun_steps, updateRun_approvals]
  congr 1
  split
  · subst id
    refine Table.view_updateWhere _ _ (fun r _ _ => by rw [hid]) fun r _ hr => ?_
    rw [if_pos hr, hlogged]
  · rename_i hne
    refine (Table.view_updateWhere RunRecord.logged (fun r => r) (fun r _ _ => by rw [hid])
      fun r _ hr => ?_).trans (List.map_id' _)
    rw [if_neg]
    intro h
    exact hne ((of_decide_eq_true hr).symm.trans (of_decide_eq_true h))

theorem logged_updateRun_same {runId : String} {f : RunRecord → RunRecord}
    (hid : ∀ r, (f r).id = r.id) (hlogged : ∀ r, (f r).logged = r.logged) (id : String) :
    (j.updateRun runId f).logged id = j.logged id := by
  rw [logged_updateRun (g := fun r => r) hid hlogged]
  simp

theorem markRunStatus_tells {runId : String} {target : RunStatus} {run : RunRecord}
    (h : markRunStatus a runId target j = (.ok run, j')) : j.Tells j' := by
  simp only [markRunStatus, Txn.atomically_ok, Txn.bind_ok, requireRun_ok, Txn.ite_ok,
    Txn.pure_ok, Txn.require_ok, Txn.write_ok, appendEventRow_ok] at h
  obtain ⟨row, _, ⟨-, rfl⟩, ⟨-, -, rfl⟩ | ⟨-, _, _, ⟨-, rfl⟩, _, _, rfl, _, _,
    ⟨column, hcolumn, rfl, rfl⟩, -, rfl⟩⟩ := h
  · exact .refl _
  · let g (r : LoggedRun) : LoggedRun := { r with status := .str target.value }
    have hrun : ∀ id, (j.updateRun runId (.withStatus a target)).logged id =
        { j.logged id with
          runs := if id = runId then (j.logged id).runs.map g else (j.logged id).runs } :=
      logged_updateRun (fun _ => rfl) fun _ => rfl
    refine .one rfl ?_ fun id hne => ?_
    · refine Eq.trans ?_ (hrun runId).symm
      simp [LoggedState.apply, MoveKind.ofEvent, MoveKind.event, field_column hcolumn, lastOf,
        lookup, g]
    · refine (hrun id).trans ?_
      simp [show ¬ id = runId from hne]

theorem requestApproval_tells {runId kind : String} {stepId : Option String} {request : PyVal}
    {approval : ApprovalRecord}
    (h : requestApproval a runId stepId request kind j = (.ok approval, j')) : j.Tells j' := by
  simp only [requestApproval, Txn.bind_ok, Txn.require_ok, Txn.atomically_ok, requireRun_ok,
    Txn.lift_ok, Txn.read_ok, Txn.write_ok, appendEventRow_ok, Txn.pure_ok] at h
  obtain ⟨_, _, ⟨-, rfl⟩, _, _, ⟨-, rfl⟩, _, _, hstep, requestJson, _, ⟨-, rfl⟩, _, _,
    ⟨-, rfl⟩, _, _, ⟨-, rfl⟩, _, _, rfl, _, _, ⟨column, hcolumn, rfl, rfl⟩, -, rfl⟩ := h
  obtain ⟨-, rfl⟩ := requireStepOfRun_ok hstep
  refine .one rfl ?_ fun id hne => ?_
  · simp [LoggedState.apply, logged, MoveKind.ofEvent, MoveKind.event, field_column hcolumn,
      lastOf, lookup, ApprovalRecord.logged, ApprovalStatus.value]
  · have hne' : ¬ runId = id := fun h => hne h.symm
    simp [logged, hne']

theorem decideApproval_tells {approvalId decidedBy : String} {decision : ApprovalStatus}
    {reason : Option String} {approval : ApprovalRecord}
    (hk : Table.Keyed ApprovalRecord.id j.approvals)
    (h : decideApproval a approvalId decision decidedBy reason j = (.ok approval, j')) :
    j.Tells j' := by
  simp only [decideApproval, getApproval, Txn.bind_ok, Txn.require_ok, Txn.atomically_ok,
    Txn.read_ok, Txn.getOr_ok, Txn.ite_ok, Txn.pure_ok, Txn.write_ok, appendEventRow_ok] at h
  obtain ⟨_, _, ⟨-, rfl⟩, _, _, ⟨-, rfl⟩, row, _, ⟨_, _, ⟨hfound, rfl⟩, hrow, rfl⟩,
    ⟨-, _, _, ⟨-, rfl⟩, -, rfl⟩ | ⟨hpending, _, _, rfl, _, _, ⟨column, hcolumn, rfl, rfl⟩, _, _,
      ⟨-, rfl⟩, -, rfl⟩⟩ := h
  · exact .refl _
  · obtain rfl := hfound
    have hid : row.id = approvalId := Table.find_key hrow
    have honly : ∀ r ∈ j.approvals, r.id = approvalId → r = row := fun r hr h =>
      hk.eq_of_key hr (Table.find_mem hrow) (h.trans hid.symm)
    have hstatus : row.status = .pending := by simpa using hpending
    refine .one rfl ?_ fun id hne => ?_
    · simp only [logged, addEvent_runs, addEvent_steps, addEvent_approvals, updateApprovals_runs,
        updateApprovals_steps, updateApprovals_approvals, eventRecord_runId]
      rw [Table.view_updateWhere ApprovalRecord.logged (fun r =>
        if r.id = .str approvalId then
          { r with
            status := .str decision.value, decision := .str decision.value,
            decidedBy := .str decidedBy, decisionReason := optStr reason }
        else r)]
      · simp [LoggedState.apply, MoveKind.ofEvent, MoveKind.event, field_column hcolumn, lastOf,
          lookup]
      · exact fun _ _ _ => rfl
      · intro r hr _
        by_cases h : r.id = approvalId
        · obtain rfl := honly r hr h
          simp [h, hstatus, ApprovalRecord.logged]
        · simp [h, ApprovalRecord.logged]
    · simp only [logged, addEvent_runs, addEvent_steps, addEvent_approvals, updateApprovals_runs,
        updateApprovals_steps, updateApprovals_approvals]
      congr 1
      refine (Table.view_updateWhere ApprovalRecord.logged (fun r => r) (fun r _ _ => ?_)
        fun r hr hq => ?_).trans (List.map_id' _)
      · rfl
      rw [if_neg]
      intro h
      simp only [Bool.and_eq_true, decide_eq_true_eq] at h
      obtain rfl := honly r hr h.1
      exact hne (of_decide_eq_true hq).symm

def ApprovalsKeyed (j : Journal) : Prop := Table.Keyed ApprovalRecord.id j.approvals

theorem approvalsKeyed_of_perform {β : Type} {c : JournalCall β} {b : β} (hk : j.StepsKeyed)
    (hj : j.ApprovalsKeyed) (h : c.perform sha a j = (.ok b, j')) : j'.ApprovalsKeyed := by
  by_cases hwrites : Part.approvals ∈ c.writes
  · cases c <;> simp only [JournalCall.writes, List.mem_cons, List.not_mem_nil, or_false,
      reduceCtorEq] at hwrites
    · obtain ⟨-, _, column, -, hnew, rfl⟩ := requestApproval_ok h
      exact hj.append hnew
    · obtain ⟨-, rfl | ⟨column, row, rfl⟩⟩ := decideApproval_ok h
      · exact hj
      · exact hj.updateWhere fun _ => rfl
  · have hsame : j'.approvals = j.approvals := same_of_perform hk h hwrites
    rwa [ApprovalsKeyed, hsame]

end Journal

/-- Nobody writes what the journal tells of these rows through `append_event`. -/
def JournalCall.Unforged {β : Type} : JournalCall β → Prop
  | .appendEvent _ eventType _ _ => eventType ∉ loggedTypes
  | _ => True

namespace Journal
variable {sha : Sha256} {a : Ambient} {j j' : Journal}

theorem tells_of_perform {β : Type} {c : JournalCall β} {b : β} (hk : j.StepsKeyed)
    (ha : j.ApprovalsKeyed) (hc : c.Unforged) (h : c.perform sha a j = (.ok b, j')) :
    j.Tells j' := by
  cases c with
  | createRun => exact createRun_tells h
  | markRunStatus => exact markRunStatus_tells h
  | appendEvent =>
      obtain ⟨column, rfl, rfl⟩ := appendEvent_ok h
      exact .silent rfl hc fun _ => rfl
  | createStep => exact createStep_tells h
  | claimReadyStep => exact claimReadyStep_tells hk h
  | markExecuting => exact markExecuting_tells hk h
  | heartbeat => exact heartbeat_tells hk h
  | commitStep => exact commitStep_tells hk h
  | failStep => exact finishOwnedStep_tells (k := .fail) hk (fun _ _ _ _ => rfl) h
  | markUncertain =>
      simp only [JournalCall.perform, markUncertain, Txn.bind_ok, Txn.require_ok] at h
      obtain ⟨_, _, ⟨-, rfl⟩, h⟩ := h
      refine finishOwnedStep_tells (k := .doubt) hk (fun row errorJson column hcolumn => ?_) h
      simp [StepRecord.logged, MoveKind.tell, field_column hcolumn, lastOf, lookup,
        StepStatus.value]
  | cancelStep => exact cancelStep_tells hk h
  | reclaimExpiredLeases now =>
      simp only [JournalCall.perform, reclaimExpiredLeases, Txn.atomically_ok, Txn.bind_ok,
        Txn.read_ok] at h
      obtain ⟨rows, _, ⟨rfl, rfl⟩, h⟩ := h
      refine reclaimRows_tells hk (fun r hr => by simpa using hr) ?_ h
      have hfilter : Table.Keyed StepRecord.id (j.steps.filter (expiredAt (now.getD a.now))) :=
        List.Nodup.sublist (List.filter_sublist.map _) hk
      exact (((List.perm_insertionSort _ _).map StepRecord.id).nodup_iff).2 hfilter
  | recordReceipt =>
      obtain ⟨step, -, -, -, -, -, ⟨rfl, -⟩ | ⟨-, column, rfl⟩⟩ := recordReceipt_ok h
      · exact .refl _
      · exact .silent rfl (show "receipt.recorded" ∉ loggedTypes by decide) fun _ => rfl
  | requestApproval => exact requestApproval_tells h
  | decideApproval => exact decideApproval_tells ha h
  | startProviderCall =>
      obtain ⟨-, _, column, -, rfl, -, rfl⟩ := startProviderCall_ok h
      exact .silent rfl (show "provider.started" ∉ loggedTypes by decide) fun _ => rfl
  | completeProviderCall _ _ status =>
      obtain ⟨row, _, column, -, -, -, -, rfl⟩ := completeProviderCall_ok h
      refine .silent rfl (show "provider." ++ status.value ∉ loggedTypes from ?_) fun _ => rfl
      cases status <;> decide
  | reserveBudget =>
      obtain ⟨-, -, ⟨-, rfl⟩ | ⟨-, run, column, -, -, rfl⟩⟩ := reserveBudget_ok h
      · exact .refl _
      · exact .silent rfl (show "budget.reserved" ∉ loggedTypes by decide)
          (logged_updateRun_same (f := .reserving a _) (fun _ => rfl) fun _ => rfl)
  | settleBudget =>
      obtain ⟨-, -, row, -, -, ⟨-, -, rfl⟩ | ⟨-, column, rfl⟩⟩ := settleBudget_ok h
      · exact .refl _
      · exact .silent rfl (show "budget.settled" ∉ loggedTypes by decide)
          (logged_updateRun_same (f := .settled a _ _) (fun _ => rfl) fun _ => rfl)
  | getRun =>
      simp only [JournalCall.perform, getRun, requireRun_ok] at h
      exact h.2 ▸ .refl _
  | getStep =>
      simp only [JournalCall.perform, getStep, requireStep_ok] at h
      exact h.2 ▸ .refl _
  | listSteps =>
      simp only [JournalCall.perform, listSteps, Txn.ite_ok, Txn.bind_ok, requireRun_ok,
        Txn.read_ok, Txn.pure_ok] at h
      obtain ⟨-, -, rfl⟩ | ⟨-, _, _, ⟨-, rfl⟩, -, rfl⟩ := h <;> exact .refl _
  | findReceipt | listApprovals | listProviderCalls =>
      simp only [JournalCall.perform, listApprovals, listProviderCalls, Txn.read_ok] at h
      exact h.2 ▸ .refl _
  | getApproval =>
      simp only [JournalCall.perform, getApproval, Txn.bind_ok, Txn.read_ok, Txn.getOr_ok] at h
      obtain ⟨_, _, ⟨-, rfl⟩, -, rfl⟩ := h
      exact .refl _

end Journal

theorem Issued.tells {sha : Sha256} {i : Issued} (hi : i.call.Unforged) {j : Journal}
    (hk : j.StepsKeyed) (ha : j.ApprovalsKeyed) :
    j.Tells (i.after sha j) ∧ (i.after sha j).ApprovalsKeyed := by
  rcases i.outcome_cases sha j with ⟨b, h⟩ | ⟨-, h⟩
  · exact ⟨Journal.tells_of_perform hk ha hi h, Journal.approvalsKeyed_of_perform hk ha h⟩
  · rw [h]
    exact ⟨.refl j, ha⟩

abbrev UnforgedCall := {i : Issued // i.call.Unforged}

namespace Journal

theorem runCalls_tells (sha : Sha256) (calls : List UnforgedCall) :
    let j := runCalls sha (calls.map Subtype.val) .empty
    j.StepsKeyed ∧ j.ApprovalsKeyed ∧ empty.Tells j := by
  induction calls using List.reverseRecOn with
  | nil => exact ⟨List.nodup_nil, List.nodup_nil, .refl _⟩
  | append_singleton calls i ih =>
      obtain ⟨hk, ha, htells⟩ := ih
      have hlast : runCalls sha ((calls ++ [i]).map Subtype.val) .empty =
          i.1.after sha (runCalls sha (calls.map Subtype.val) .empty) := by
        simp [runCalls]
      simp only [hlast]
      obtain ⟨hone, ha'⟩ := @Issued.tells sha i.1 i.2 _ hk ha
      exact ⟨stepsKeyed_after hk, ha', htells.trans hone⟩

theorem listEvents_all {j : Journal} (hj : j.Numbered) (runId : String) :
    (listEvents runId none none none j).1 =
      if (j.findRun runId).isSome then .ok (j.events.filter fun e => e.runId = runId)
      else .error (notFound "run" runId) := by
  have hsorted : (j.events.filter fun e => e.runId = runId).insertionSort (fun e f => e.id ≤ f.id) =
      j.events.filter fun e => e.runId = runId :=
    List.Pairwise.insertionSort_eq ((hj.increasing.filter _).imp Nat.le_of_lt)
  cases hrun : j.findRun runId with
  | none =>
      have hmissing : requireRun runId j = (.error (notFound "run" runId), j) :=
        Txn.bind_error.2 (.inr ⟨none, j, by simp [hrun], rfl⟩)
      have hlisted : listEvents runId none none none j = (.error (notFound "run" runId), j) :=
        Txn.bind_error.2 (.inr ⟨(), j, rfl, Txn.bind_error.2 (.inl hmissing)⟩)
      rw [hlisted]
      rfl
  | some run =>
      have hlisted : listEvents runId none none none j =
          (.ok (j.events.filter fun e => e.runId = runId), j) := by
        simp only [listEvents, Txn.bind_ok, Txn.require_ok, requireRun_ok, Txn.lift_ok,
          Txn.read_ok, Txn.pure_ok]
        refine ⟨(), j, ⟨rfl, rfl⟩, run, j, ⟨hrun, rfl⟩, (), j, ⟨rfl, rfl⟩, (), j, ⟨rfl, rfl⟩,
          j.events.filter fun e => e.runId = runId, j, ⟨?_, rfl⟩, rfl, rfl⟩
        simpa using hsorted
      rw [hlisted]
      rfl

/-- The events that `list_events` has of a run tell the run, its steps and its approvals, whatever
calls were made in whatever order. -/
theorem events_tell (sha : Sha256) (calls : List UnforgedCall) (runId : String) :
    let j := runCalls sha (calls.map Subtype.val) .empty
    (listEvents runId none none none j).1.map (List.foldl LoggedState.apply ⟨[], [], []⟩) =
      if (j.findRun runId).isSome then .ok (j.logged runId)
      else .error (notFound "run" runId) := by
  intro j
  obtain ⟨-, -, events, hevents, htell⟩ := runCalls_tells sha calls
  have hnumbered : j.Numbered := (runCalls_numbered sha (calls.map Subtype.val)).2
  have hall : j.events = events := hevents
  rw [listEvents_all hnumbered, apply_ite (Except.map _)]
  have hfold := htell runId
  rw [← hall] at hfold
  exact if_congr Iff.rfl (congrArg Except.ok hfold) rfl

end Journal

end Polaris
