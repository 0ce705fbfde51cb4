import Polaris.Journal.Footprint
import Polaris.Journal.History
import Polaris.Journal.Ledger

namespace Polaris
open Relation Journal

namespace StepRecord

def Live (r : StepRecord) : Prop :=
  r.status = .ready ∨ r.status = .leased ∨ r.status = .executing ∨ r.status = .committed

instance (r : StepRecord) : Decidable r.Live := inferInstanceAs (Decidable (_ ∨ _))

structure Follows (r s : StepRecord) : Prop where
  origin : s.origin = r.origin
  terminal : r.Terminal → s = r
  dead : ¬ r.Live → ¬ s.Live
  doubted : r.status = .uncertain ∨ r.status = .cancelled →
    s.status = .uncertain ∨ s.status = .cancelled

theorem Follows.refl (r : StepRecord) : r.Follows r := ⟨rfl, fun _ => rfl, fun h => h, fun h => h⟩

theorem Follows.trans {r s t : StepRecord} (h : r.Follows s) (h' : s.Follows t) : r.Follows t where
  origin := h'.origin.trans h.origin
  terminal hr := by
    obtain rfl := h.terminal hr
    exact h'.terminal hr
  dead hr := h'.dead (h.dead hr)
  doubted hr := h'.doubted (h.doubted hr)

theorem Follows.id {r s : StepRecord} (h : r.Follows s) : s.id = r.id := congrArg Prod.fst h.origin

end StepRecord

open StepRecord

/-- What no call changes of a run. -/
def RunRecord.origin (run : RunRecord) :
    String × String × JsonColumn × JsonColumn × Option String × Budget :=
  (run.id, run.mode, run.request, run.config, run.parentRunId, run.limits)

theorem RowMove.follows {k : MoveKind} {r s : StepRecord} (h : RowMove k r s) : r.Follows s := by
  have hcancel : ¬ r.Live → k = .cancel := by
    intro hdead
    cases h with
    | cancel => rfl
    | lease _ _ _ hr | execute _ hr | commit _ _ hr => exact absurd (by simp [Live, hr]) hdead
    | extend _ _ hr | fail _ _ hr | doubt _ _ _ hr | expire _ hr =>
        exact absurd (by rcases hr with hr | hr <;> simp [Live, hr]) hdead
  refine ⟨h.origin, fun hr => absurd hr h.not_terminal, fun hr => ?_, ?_⟩
  · obtain rfl := hcancel hr
    cases h
    simp [Live]
  · rintro (hr | hr)
    · obtain rfl := h.eq_cancel_of_uncertain hr
      cases h
      exact .inr rfl
    · exact absurd (.inr (.inr hr)) h.not_terminal

structure ApprovalRecord.Follows (a b : ApprovalRecord) : Prop where
  id : b.id = a.id
  runId : b.runId = a.runId
  stepId : b.stepId = a.stepId
  kind : b.kind = a.kind
  decided : a.status ≠ .pending → b = a

theorem ApprovalRecord.Follows.refl (a : ApprovalRecord) : a.Follows a :=
  ⟨rfl, rfl, rfl, rfl, fun _ => rfl⟩

theorem ApprovalRecord.Follows.trans {a b c : ApprovalRecord} (h : a.Follows b)
    (h' : b.Follows c) : a.Follows c where
  id := h'.id.trans h.id
  runId := h'.runId.trans h.runId
  stepId := h'.stepId.trans h.stepId
  kind := h'.kind.trans h.kind
  decided ha := by
    obtain rfl := h.decided ha
    exact h'.decided ha

namespace Journal

/-- What every call keeps. -/
structure Later (j j' : Journal) : Prop where
  steps : ∀ r ∈ j.steps, ∃ s ∈ j'.steps, r.Follows s
  approvals : ∀ a ∈ j.approvals, ∃ b ∈ j'.approvals, a.Follows b
  receipts : ∀ key r, j.findReceipt key = some r → j'.findReceipt key = some r
  runs : ∀ runId run, j.findRun runId = some run →
    ∃ run', j'.findRun runId = some run' ∧ run'.origin = run.origin
  events : ∀ k stepId, j.eventCount k stepId ≤ j'.eventCount k stepId

theorem Later.refl (j : Journal) : j.Later j where
  steps r hr := ⟨r, hr, .refl r⟩
  approvals a ha := ⟨a, ha, .refl a⟩
  receipts _ _ h := h
  runs _ run h := ⟨run, h, rfl⟩
  events _ _ := le_rfl

theorem Later.trans {j j' j'' : Journal} (h : j.Later j') (h' : j'.Later j'') : j.Later j'' where
  steps r hr := by
    obtain ⟨s, hs, hrs⟩ := h.steps r hr
    obtain ⟨t, ht, hst⟩ := h'.steps s hs
    exact ⟨t, ht, hrs.trans hst⟩
  approvals a ha := by
    obtain ⟨b, hb, hab⟩ := h.approvals a ha
    obtain ⟨c, hc, hbc⟩ := h'.approvals b hb
    exact ⟨c, hc, hab.trans hbc⟩
  receipts key r hr := h'.receipts key r (h.receipts key r hr)
  runs runId run hrun := by
    obtain ⟨run', hrun', hsame⟩ := h.runs runId run hrun
    obtain ⟨run'', hrun'', hsame'⟩ := h'.runs runId run' hrun'
    exact ⟨run'', hrun'', hsame'.trans hsame⟩
  events k stepId := (h.events k stepId).trans (h'.events k stepId)

variable {sha : Sha256} {a : Ambient} {j j' : Journal} {allowed : MoveKind → Prop}

theorem Move.follows (h : Move allowed j j') (hj : j.StepsKeyed) :
    ∀ r ∈ j.steps, ∃ s ∈ j'.steps, r.Follows s := by
  intro r hr
  cases h with
  | idle _ hs => exact ⟨r, hs ▸ hr, .refl r⟩
  | create _ _ _ _ hs => exact ⟨r, by simp [hs, hr], .refl r⟩
  | change row' _ hk hrow hmove hs =>
      rw [hs]
      by_cases hid : r.id = row'.id
      · obtain rfl := hj.eq_of_key hr hrow (hid.trans hmove.id)
        exact ⟨row', Table.mem_put.2 (.inl ⟨rfl, r, hr, hid⟩), hmove.follows⟩
      · exact ⟨r, Table.mem_put_of_ne hr hid, .refl r⟩

theorem Moves.follows (h : Moves allowed j j') (hj : j.StepsKeyed) :
    ∀ r ∈ j.steps, ∃ s ∈ j'.steps, r.Follows s := by
  induction h with
  | refl => exact fun r hr => ⟨r, hr, .refl r⟩
  | tail hmoves hmove ih =>
      intro r hr
      obtain ⟨s, hs, hrs⟩ := ih r hr
      obtain ⟨t, ht, hst⟩ := hmove.follows (Moves.stepsKeyed hmoves hj) s hs
      exact ⟨t, ht, hrs.trans hst⟩

theorem Move.eventCount_le (h : Move allowed j j') (k : MoveKind) (stepId : String) :
    j.eventCount k stepId ≤ j'.eventCount k stepId := by
  cases h with
  | idle events _ he => simp [eventCount, he]
  | create _ event _ _ _ he => simp [eventCount, he]
  | change _ event _ _ _ _ he => simp [eventCount, he]

theorem Moves.eventCount_le (h : Moves allowed j j') (k : MoveKind) (stepId : String) :
    j.eventCount k stepId ≤ j'.eventCount k stepId := by
  induction h with
  | refl => exact le_rfl
  | tail _ hmove ih => exact ih.trans (hmove.eventCount_le k stepId)

theorem follows_of_decide {approvalId decidedBy : String} {decision : ApprovalStatus}
    {reason : Option String} {approvals : List ApprovalRecord} :
    ∀ r ∈ approvals, ∃ s ∈ Table.updateWhere (fun r => r.id = approvalId && r.status = .pending)
      (ApprovalRecord.decided a decision decidedBy reason) approvals, r.Follows s := by
  intro r hr
  refine ⟨_, List.mem_map_of_mem hr, ?_⟩
  by_cases hp : (decide (r.id = approvalId) && decide (r.status = .pending)) = true
  · rw [if_pos hp]
    have hpending : r.status = .pending := by simpa using (Bool.and_eq_true_iff.1 hp).2
    exact ⟨rfl, rfl, rfl, rfl, fun h => absurd hpending h⟩
  · rw [if_neg hp]
    exact .refl r

theorem approvals_follow {β : Type} {c : JournalCall β} {b : β} (hj : j.StepsKeyed)
    (h : c.perform sha a j = (.ok b, j')) :
    ∀ r ∈ j.approvals, ∃ s ∈ j'.approvals, r.Follows s := by
  cases c with
  | requestApproval =>
      obtain ⟨-, _, column, rfl, -, rfl⟩ := requestApproval_ok h
      exact fun r hr => ⟨r, by simp [hr], .refl r⟩
  | decideApproval =>
      obtain ⟨-, rfl | ⟨column, row, rfl⟩⟩ := decideApproval_ok h
      · exact fun r hr => ⟨r, hr, .refl r⟩
      · exact follows_of_decide
  | _ =>
      have hsame := same_of_perform (p := .approvals) hj h (by simp [JournalCall.writes])
      exact fun r hr => ⟨r, hsame ▸ hr, .refl r⟩

theorem findReceipt_addReceipt {key : String} {receipt r : ReceiptRecord}
    (h : j.findReceipt key = some r) : (j.addReceipt receipt).findReceipt key = some r :=
  Table.find_append_of_some h

theorem receipts_follow {β : Type} {c : JournalCall β} {b : β} (hj : j.StepsKeyed)
    (h : c.perform sha a j = (.ok b, j')) {key : String} {r : ReceiptRecord}
    (hr : j.findReceipt key = some r) : j'.findReceipt key = some r := by
  cases c with
  | commitStep =>
      obtain ⟨row, output, column, t, -, -, -, -, hadds, rfl, rfl⟩ := commitStep_ok hj h
      obtain rfl | ⟨receipt, rfl, -⟩ := hadds
      · exact hr
      · exact findReceipt_addReceipt hr
  | recordReceipt =>
      obtain ⟨step, -, -, -, -, -, ⟨rfl, -⟩ | ⟨-, column, rfl⟩⟩ := recordReceipt_ok h
      · exact hr
      · exact findReceipt_addReceipt hr
  | _ =>
      have hsame : j'.receipts = j.receipts :=
        same_of_perform (p := .receipts) hj h (by simp [JournalCall.writes])
      simpa [findReceipt, hsame] using hr

theorem findRun_updateRun {runId id : String} {f : RunRecord → RunRecord} {run : RunRecord}
    (hf : ∀ run, (f run).id = run.id) (h : j.findRun id = some run) :
    (j.updateRun runId f).findRun id = some (if run.id = runId then f run else run) := by
  have hfind : (j.updateRun runId f).findRun id =
      (j.findRun id).map fun r => if decide (r.id = runId) then f r else r :=
    Table.find_updateWhere hf
  rw [h] at hfind
  simpa using hfind

/-- A call keeps the origin of a run, and the status of a run that is over. -/
theorem runs_follow {β : Type} {c : JournalCall β} {b : β} (hj : j.StepsKeyed)
    (h : c.perform sha a j = (.ok b, j')) {id : String} {run : RunRecord}
    (hrun : j.findRun id = some run) :
    ∃ run', j'.findRun id = some run' ∧ run'.origin = run.origin ∧
      (run.status.transitions = [] → run'.status = run.status) := by
  have hupdate : ∀ (runId : String) (f : RunRecord → RunRecord), (∀ r, (f r).origin = r.origin) →
      (run.id = runId → run.status.transitions = [] → (f run).status = run.status) →
      ∃ run', (j.updateRun runId f).findRun id = some run' ∧ run'.origin = run.origin ∧
        (run.status.transitions = [] → run'.status = run.status) := by
    intro runId f hf hstatus
    refine ⟨_, findRun_updateRun (fun r => congrArg Prod.fst (hf r)) hrun, ?_⟩
    by_cases hid : run.id = runId
    · rw [if_pos hid]
      exact ⟨hf run, hstatus hid⟩
    · rw [if_neg hid]
      exact ⟨rfl, fun _ => rfl⟩
  cases c with
  | createRun =>
      obtain ⟨-, ⟨rfl, -⟩ | ⟨_, _, column, t, -, -, -, -, ht, rfl⟩⟩ := createRun_ok h
      · exact ⟨run, hrun, rfl, fun _ => rfl⟩
      · obtain rfl | ⟨k, rfl⟩ := ht <;>
          exact ⟨run, Table.find_append_of_some hrun, rfl, fun _ => rfl⟩
  | markRunStatus runId target =>
      obtain ⟨row, hrow, ⟨-, rfl⟩ | ⟨htarget, column, rfl⟩⟩ := markRunStatus_ok h
      · exact ⟨run, hrun, rfl, fun _ => rfl⟩
      · refine hupdate runId _ (fun _ => rfl) fun hid hover => ?_
        have hsame : id = runId := (Table.find_key hrun).symm.trans hid
        rw [hsame, hrow] at hrun
        obtain rfl := Option.some.inj hrun
        simp [hover] at htarget
  | reserveBudget =>
      obtain ⟨-, -, ⟨-, rfl⟩ | ⟨-, row, column, -, -, rfl⟩⟩ := reserveBudget_ok h
      · exact ⟨run, hrun, rfl, fun _ => rfl⟩
      · exact hupdate _ _ (fun _ => rfl) fun _ _ => rfl
  | settleBudget =>
      obtain ⟨-, -, row, -, -, ⟨-, -, rfl⟩ | ⟨-, column, rfl⟩⟩ := settleBudget_ok h
      · exact ⟨run, hrun, rfl, fun _ => rfl⟩
      · exact hupdate _ _ (fun _ => rfl) fun _ _ => rfl
  | _ =>
      have hsame : j'.runs = j.runs :=
        same_of_perform (p := .runs) hj h (by simp [JournalCall.writes])
      exact ⟨run, by simpa [findRun, hsame] using hrun, rfl, fun _ => rfl⟩

theorem later_after (hj : j.StepsKeyed) (c : HonestCall) : j.Later (c.1.after sha j) := by
  rcases c.1.outcome_cases sha j with ⟨b, h⟩ | ⟨-, h⟩
  · have hmoves := @after_moves sha _ hj c
    exact ⟨hmoves.follows hj, approvals_follow hj h, fun _ _ => receipts_follow hj h,
      fun _ _ hrun => (runs_follow hj h hrun).imp fun _ hrun' => ⟨hrun'.1, hrun'.2.1⟩,
      hmoves.eventCount_le⟩
  · rw [h]
    exact .refl j

theorem later_runCalls (hj : j.StepsKeyed) (calls : List HonestCall) :
    j.Later (runCalls sha (calls.map Subtype.val) j) := by
  induction calls generalizing j with
  | nil => exact .refl j
  | cons c calls ih =>
      exact (later_after hj c).trans (ih ((@after_moves sha _ hj c).stepsKeyed hj))

end Journal

def JournalCall.createsStep {β : Type} : JournalCall β → Prop
  | .createStep .. => True
  | _ => False

namespace Journal
variable {sha : Sha256} {a : Ambient} {j j' : Journal}

theorem stepIds_of_reclaimRows {now : Timestamp} {rows out : List StepRecord}
    (h : reclaimRows now rows j = (.ok out, j')) :
    j'.steps.map StepRecord.id = j.steps.map StepRecord.id := by
  induction rows generalizing j out with
  | nil =>
      simp only [reclaimRows, Txn.pure_ok] at h
      exact h.2 ▸ rfl
  | cons row rows ih =>
      simp only [reclaimRows, changeStep, Txn.bind_ok, Txn.pure_ok, Txn.write_ok,
        appendEventRow_ok, requireStep_ok] at h
      obtain ⟨r, t, ⟨_, _, rfl, _, _, ⟨column, -, -, rfl⟩, -, rfl⟩, rest, _, hrest, -, rfl⟩ := h
      refine (ih hrest).trans ?_
      simp only [addEvent_steps, updateSteps_steps, Table.updateWhere, List.map_map]
      refine List.map_congr_left fun r _ => ?_
      simp only [Function.comp]
      split <;> rfl

theorem stepIds_of_perform {β : Type} {c : JournalCall β} {b : β} (hk : j.StepsKeyed)
    (hc : ¬ c.createsStep) (h : c.perform sha a j = (.ok b, j')) :
    j'.steps.map StepRecord.id = j.steps.map StepRecord.id := by
  have hput : ∀ (row : StepRecord) (steps : List StepRecord),
      (Table.put StepRecord.id row steps).map StepRecord.id = steps.map StepRecord.id :=
    fun _ _ => Table.map_key_put
  cases c with
  | createStep => exact absurd trivial hc
  | claimReadyStep =>
      obtain ⟨-, rfl⟩ | ⟨row, expiry, column, r, -, -, rfl, -, rfl⟩ := claimReadyStep_ok hk h
      · rfl
      · exact hput _ _
  | markExecuting =>
      obtain ⟨row, column, -, -, -, rfl, rfl⟩ := markExecuting_ok hk h
      exact hput _ _
  | heartbeat =>
      obtain ⟨row, expiry, column, -, -, -, -, rfl, rfl⟩ := heartbeat_ok hk h
      exact hput _ _
  | commitStep =>
      obtain ⟨row, output, column, t, -, -, -, -, hadds, rfl, rfl⟩ := commitStep_ok hk h
      obtain rfl | ⟨_, rfl, -⟩ := hadds <;> exact hput _ _
  | failStep =>
      obtain ⟨row, error, column, -, -, -, rfl, rfl⟩ := failStep_ok hk h
      exact hput _ _
  | markUncertain =>
      obtain ⟨row, error, column, -, -, -, rfl, rfl⟩ := markUncertain_ok hk h
      exact hput _ _
  | cancelStep =>
      obtain ⟨row, column, -, -, -, rfl, rfl⟩ := cancelStep_ok hk h
      exact hput _ _
  | reclaimExpiredLeases =>
      simp only [JournalCall.perform, reclaimExpiredLeases, Txn.atomically_ok, Txn.bind_ok,
        Txn.read_ok] at h
      obtain ⟨rows, _, ⟨-, rfl⟩, h⟩ := h
      exact stepIds_of_reclaimRows h
  | _ =>
      have hsame : j'.steps = j.steps :=
        same_of_perform (p := .steps) hk h (by simp [JournalCall.writes])
      rw [hsame]

theorem stepsKeyed_of_perform {β : Type} {c : JournalCall β} {r : Except PyError β}
    (hk : j.StepsKeyed) (h : c.perform sha a j = (r, j')) : j'.StepsKeyed := by
  cases r with
  | error e =>
      have hsame : (c.perform sha a j).2 = j := c.perform_atomic sha a j e (by rw [h])
      rw [h] at hsame
      obtain rfl : j' = j := hsame
      exact hk
  | ok b =>
      by_cases hc : c.createsStep
      · cases c with
        | createStep =>
            obtain ⟨_, _, _, _, _, stepId, -, -, -, -, -, -, ⟨rfl, -⟩ | ⟨hfresh, column, rfl, rfl⟩⟩ :=
              createStep_ok h
            · exact hk
            · refine Table.Keyed.append hk ?_
              exact List.find?_eq_none.2 fun s hs => by simpa using hfresh s hs
        | _ => exact hc.elim
      · have hids := stepIds_of_perform hk hc h
        rwa [StepsKeyed, Table.Keyed, hids]

theorem rows_follow {β : Type} {c : JournalCall β} {b : β} (hj : j.StepsKeyed) (hlater : j.Later j')
    (hj' : j'.StepsKeyed) (hc : ¬ c.createsStep) (h : c.perform sha a j = (.ok b, j')) :
    ∀ s ∈ j'.steps, ∃ r ∈ j.steps, r.Follows s := by
  intro s hs
  have hmem := List.mem_map_of_mem (f := StepRecord.id) hs
  rw [stepIds_of_perform hj hc h] at hmem
  obtain ⟨r, hr, hid⟩ := List.mem_map.1 hmem
  obtain ⟨t, ht, hrt⟩ := hlater.steps r hr
  obtain rfl := hj'.eq_of_key ht hs (hrt.id.trans hid)
  exact ⟨r, hr, hrt⟩

end Journal

end Polaris
