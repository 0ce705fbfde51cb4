import Polaris.Journal.Specs
import Mathlib.Logic.Relation

namespace Polaris
open Relation

inductive MoveKind where
  | lease
  | execute
  | extend
  | commit
  | fail
  | doubt
  | cancel
  | expire
deriving DecidableEq, Repr

def MoveKind.event : MoveKind → String
  | .lease => "step.leased"
  | .execute => "step.executing"
  | .extend => "step.heartbeat"
  | .commit => "step.committed"
  | .fail => "step.failed"
  | .doubt => "step.uncertain"
  | .cancel => "step.cancelled"
  | .expire => "step.lease_expired"

def moveEvents : List String :=
  [MoveKind.lease, .execute, .extend, .commit, .fail, .doubt, .cancel, .expire].map MoveKind.event

def IsMoveEvent (type : String) : Prop := type ∈ moveEvents

instance (type : String) : Decidable (IsMoveEvent type) := List.instDecidableMemOfLawfulBEq _ _

theorem MoveKind.event_isMoveEvent (k : MoveKind) : IsMoveEvent k.event := by
  cases k <;> decide

theorem MoveKind.event_injective : Function.Injective MoveKind.event := by
  intro k l h
  cases k <;> cases l <;> first | rfl | exact absurd h (by decide)

namespace StepRecord

def Active (r : StepRecord) : Prop := r.status = .leased ∨ r.status = .executing

def Terminal (r : StepRecord) : Prop :=
  r.status = .committed ∨ r.status = .failed ∨ r.status = .cancelled

/-- The columns that no operation changes. -/
def origin (r : StepRecord) :=
  (r.id, r.runId, r.key, r.kind, r.name, r.input, r.inputHash, r.safety, r.sequence)

structure IsNew (r : StepRecord) : Prop where
  status : r.status = .ready
  output : r.output = none
  reason : r.uncertaintyReason = none
  owner : r.leaseOwner = none
  expiry : r.leaseExpiresAt = none
  attempts : r.attemptCount = 0

end StepRecord

inductive RowMove : MoveKind → StepRecord → StepRecord → Prop where
  | lease {r : StepRecord} (workerId : String) (expiry now : Timestamp) :
      r.status = .ready → RowMove .lease r (r.lease workerId expiry now)
  | execute {r : StepRecord} (now : Timestamp) :
      r.status = .leased → RowMove .execute r (r.execute now)
  | extend {r : StepRecord} (expiry now : Timestamp) :
      r.Active → RowMove .extend r (r.extend expiry now)
  | commit {r : StepRecord} (output : JsonColumn) (now : Timestamp) :
      r.status = .executing → RowMove .commit r (r.commit output now)
  | fail {r : StepRecord} (error : Option JsonColumn) (now : Timestamp) :
      r.Active → RowMove .fail r (r.finish .failed error none now)
  | doubt {r : StepRecord} (error : Option JsonColumn) (reason : String) (now : Timestamp) :
      r.Active → RowMove .doubt r (r.finish .uncertain error (some reason) now)
  | cancel {r : StepRecord} (now : Timestamp) :
      r.status ∈ Journal.cancellable → RowMove .cancel r (r.cancel now)
  | expire {r : StepRecord} (now : Timestamp) :
      r.Active → RowMove .expire r (r.expire (Journal.reclaimTarget r.safety)
        (Journal.reclaimReason (Journal.reclaimTarget r.safety)) now)

namespace RowMove
variable {k : MoveKind} {r s : StepRecord}

theorem id (h : RowMove k r s) : s.id = r.id := by cases h <;> rfl

theorem runId (h : RowMove k r s) : s.runId = r.runId := by cases h <;> rfl

theorem origin (h : RowMove k r s) : s.origin = r.origin := by cases h <;> rfl

theorem not_terminal (h : RowMove k r s) : ¬ r.Terminal := by
  cases h with
  | cancel now hs =>
      rintro (h | h | h) <;> simp [h, Journal.cancellable] at hs
  | lease _ _ _ hs | execute _ hs | commit _ _ hs => rintro (h | h | h) <;> simp [h] at hs
  | extend _ _ hs | fail _ _ hs | doubt _ _ _ hs | expire _ hs =>
      rintro (h | h | h) <;> simp [StepRecord.Active, h] at hs

theorem eq_cancel_of_uncertain (h : RowMove k r s) (hr : r.status = .uncertain) : k = .cancel := by
  cases h with
  | cancel => rfl
  | lease _ _ _ hs | execute _ hs | commit _ _ hs => simp [hr] at hs
  | extend _ _ hs | fail _ _ hs | doubt _ _ _ hs | expire _ hs =>
      simp [StepRecord.Active, hr] at hs

end RowMove

namespace Journal

inductive Move (allowed : MoveKind → Prop) (j : Journal) : Journal → Prop where
  | idle {j' : Journal} (events : List EventRecord) : j'.steps = j.steps →
      j'.events = j.events ++ events → (∀ e ∈ events, ¬ IsMoveEvent e.type) → Move allowed j j'
  | create {j' : Journal} (row : StepRecord) (event : EventRecord) : row.IsNew →
      (∀ s ∈ j.steps, s.id ≠ row.id) → j'.steps = j.steps ++ [row] →
      j'.events = j.events ++ [event] → ¬ IsMoveEvent event.type → Move allowed j j'
  | change {j' : Journal} {k : MoveKind} {row : StepRecord} (row' : StepRecord)
      (event : EventRecord) : allowed k → row ∈ j.steps → RowMove k row row' →
      j'.steps = Table.put StepRecord.id row' j.steps → j'.events = j.events ++ [event] →
      event.type = k.event → event.stepId = some row.id → Move allowed j j'

abbrev Moves (allowed : MoveKind → Prop) : Journal → Journal → Prop := ReflTransGen (Move allowed)

variable {allowed : MoveKind → Prop} {j j' t : Journal}

theorem Move.mono {more : MoveKind → Prop} (hmore : ∀ k, allowed k → more k)
    (h : Move allowed j j') : Move more j j' := by
  cases h with
  | idle events hs he hn => exact .idle events hs he hn
  | create row event hnew hfresh hs he hn => exact .create row event hnew hfresh hs he hn
  | change row' event hk hrow hmove hs he ht hid =>
      exact .change row' event (hmore _ hk) hrow hmove hs he ht hid

theorem Moves.mono {more : MoveKind → Prop} (hmore : ∀ k, allowed k → more k)
    (h : Moves allowed j j') : Moves more j j' := ReflTransGen.mono (fun _ _ => Move.mono hmore) _ _ h

theorem Move.stepsKeyed (h : Move allowed j j') (hk : j.StepsKeyed) : j'.StepsKeyed := by
  cases h with
  | idle events hs => simpa [StepsKeyed, hs] using hk
  | create row event _ hfresh hs =>
      rw [StepsKeyed, hs]
      refine Table.Keyed.append hk ?_
      simpa [Table.find] using hfresh
  | change row' event _ _ _ hs =>
      rw [StepsKeyed, hs]
      exact Table.Keyed.put hk

theorem Moves.stepsKeyed (h : Moves allowed j j') (hk : j.StepsKeyed) : j'.StepsKeyed := by
  induction h with
  | refl => exact hk
  | tail _ hmove ih => exact hmove.stepsKeyed ih

theorem Moves.one (h : Move allowed j j') : Moves allowed j j' := ReflTransGen.single h

theorem moves_of_same (hs : j'.steps = j.steps) (he : j'.events = j.events) : Moves allowed j j' :=
  .single (.idle [] hs (by simp [he]) (by simp))

theorem moves_of_event (event : EventRecord) (hs : j'.steps = j.steps)
    (he : j'.events = j.events ++ [event]) (hn : ¬ IsMoveEvent event.type) : Moves allowed j j' :=
  .single (.idle [event] hs he (by simpa using hn))

theorem moves_of_change {k : MoveKind} {row row' : StepRecord} {column : JsonColumn}
    {now : Timestamp} (hk : allowed k) (hrow : row ∈ j.steps) (hmove : RowMove k row row') :
    Moves allowed j (j.recordChange row' k.event column now) :=
  .single (.change row' _ hk hrow hmove rfl rfl rfl (by simp [hmove.id]))

theorem moves_of_addsReceipt {key : Option String} (h : j.AddsReceipt key j') : Moves allowed j j' := by
  obtain rfl | ⟨receipt, rfl, -⟩ := h
  · exact .refl
  · exact moves_of_same rfl rfl

end Journal

def JournalCall.kinds {β : Type} : JournalCall β → MoveKind → Prop
  | .claimReadyStep .. => (· = .lease)
  | .markExecuting .. => (· = .execute)
  | .heartbeat .. => (· = .extend)
  | .commitStep .. => (· = .commit)
  | .failStep .. => (· = .fail)
  | .markUncertain .. => (· = .doubt)
  | .cancelStep .. => (· = .cancel)
  | .reclaimExpiredLeases .. => (· = .expire)
  | _ => fun _ => False

/-- Nobody writes the journal's own event types through `append_event`. -/
def JournalCall.Honest {β : Type} : JournalCall β → Prop
  | .appendEvent _ eventType _ _ => ¬ IsMoveEvent eventType
  | _ => True

namespace Journal
variable {sha : Sha256} {a : Ambient} {j j' : Journal}

theorem moves_of_reclaimRows {now : Timestamp} {rows out : List StepRecord} (hk : j.StepsKeyed)
    (hrows : ∀ r ∈ rows, r ∈ j.steps ∧ expiredAt now r = true) (hids : Table.Keyed StepRecord.id rows)
    (h : reclaimRows now rows j = (.ok out, j')) : Moves (· = .expire) j j' := by
  induction rows generalizing j out with
  | nil =>
      simp only [reclaimRows, Txn.pure_ok] at h
      exact h.2 ▸ .refl
  | cons row rows ih =>
      simp only [reclaimRows, Txn.bind_ok, Txn.pure_ok] at h
      obtain ⟨r, t, hchange, rest, _, hrest, -, rfl⟩ := h
      obtain ⟨hrow, hexpired⟩ := hrows row (by simp)
      simp only [expiredAt, Bool.and_eq_true, Bool.or_eq_true, decide_eq_true_eq] at hexpired
      obtain ⟨rfl, column, rfl⟩ := changeStep_ok hk hrow (by simp [hexpired.2]) rfl rfl hchange
      let target := reclaimTarget row.safety
      have hmove : Moves (· = .expire) j (j.recordChange
          (row.expire target (reclaimReason target) now) "step.lease_expired" column now) := by
        refine moves_of_change ?_ hrow (.expire now hexpired.1)
        rfl
      obtain ⟨hnot, hids⟩ := List.nodup_cons.1 hids
      refine hmove.trans (ih (hmove.stepsKeyed hk) ?_ hids hrest)
      intro s hs
      obtain ⟨hmem, hs'⟩ := hrows s (List.mem_cons_of_mem _ hs)
      refine ⟨Table.mem_put_of_ne hmem ?_, hs'⟩
      intro heq
      exact hnot (List.mem_map.2 ⟨s, hs, heq⟩)

theorem moves_of_reclaim {now : Option Timestamp} {out : List StepRecord} (hk : j.StepsKeyed)
    (h : reclaimExpiredLeases a now j = (.ok out, j')) : Moves (· = .expire) j j' := by
  simp only [reclaimExpiredLeases, Txn.atomically_ok, Txn.bind_ok, Txn.read_ok] at h
  obtain ⟨rows, _, ⟨rfl, rfl⟩, h⟩ := h
  refine moves_of_reclaimRows hk (fun r hr => ?_) ?_ h
  · simpa using hr
  · have hfilter : Table.Keyed StepRecord.id (j.steps.filter (expiredAt (now.getD a.now))) :=
      List.Nodup.sublist (List.filter_sublist.map _) hk
    exact (((List.perm_insertionSort _ _).map StepRecord.id).nodup_iff).2 hfilter

theorem moves_of_perform {β : Type} {c : JournalCall β} {b : β} (hk : j.StepsKeyed)
    (hc : c.Honest) (h : c.perform sha a j = (.ok b, j')) : Moves c.kinds j j' := by
  cases c with
  | createRun =>
      obtain ⟨-, ⟨rfl, -⟩ | ⟨_, _, column, t, -, -, -, -, ht, rfl⟩⟩ := createRun_ok h
      · exact .refl
      · obtain rfl | ⟨k, rfl⟩ := ht <;>
          exact moves_of_event _ rfl rfl (by decide : ¬ IsMoveEvent "run.created")
  | getRun => simp only [JournalCall.perform, getRun, requireRun_ok] at h; exact h.2 ▸ .refl
  | markRunStatus =>
      obtain ⟨row, -, ⟨-, rfl⟩ | ⟨-, column, rfl⟩⟩ := markRunStatus_ok h
      · exact .refl
      · exact moves_of_event _ rfl rfl (by decide : ¬ IsMoveEvent "run.status_changed")
  | appendEvent =>
      obtain ⟨column, rfl, rfl⟩ := appendEvent_ok h
      exact moves_of_event _ rfl rfl hc
  | createStep =>
      obtain ⟨_, _, _, _, _, _, -, -, -, -, -, -, ⟨rfl, -⟩ | ⟨hfresh, column, rfl, rfl⟩⟩ :=
        createStep_ok h
      · exact .refl
      · exact .single (.create _ _ ⟨rfl, rfl, rfl, rfl, rfl, rfl⟩ hfresh rfl rfl
          (by decide : ¬ IsMoveEvent "step.created"))
  | getStep => simp only [JournalCall.perform, getStep, requireStep_ok] at h; exact h.2 ▸ .refl
  | listSteps runId statuses =>
      simp only [JournalCall.perform, listSteps, Txn.ite_ok, Txn.bind_ok, requireRun_ok,
        Txn.read_ok, Txn.pure_ok] at h
      obtain ⟨-, -, rfl⟩ | ⟨-, _, _, ⟨-, rfl⟩, -, rfl⟩ := h <;> exact .refl
  | claimReadyStep =>
      obtain ⟨-, rfl⟩ | ⟨row, expiry, column, r, hfirst, -, rfl, -, rfl⟩ := claimReadyStep_ok hk h
      · exact .refl
      · obtain ⟨hrow, hstatus, -⟩ := firstReady_some hfirst
        exact moves_of_change (k := .lease) rfl hrow (.lease _ _ _ hstatus)
  | markExecuting =>
      obtain ⟨row, column, hrow, hstatus, -, rfl, rfl⟩ := markExecuting_ok hk h
      exact moves_of_change (k := .execute) rfl (Table.find_mem hrow) (.execute _ hstatus)
  | heartbeat =>
      obtain ⟨row, expiry, column, hrow, hstatus, -, -, rfl, rfl⟩ := heartbeat_ok hk h
      exact moves_of_change (k := .extend) rfl (Table.find_mem hrow) (.extend _ _ hstatus)
  | commitStep =>
      obtain ⟨row, output, column, t, hrow, hstatus, -, -, hadds, rfl, rfl⟩ := commitStep_ok hk h
      have hrow' : row ∈ t.steps := by
        obtain rfl | ⟨_, rfl, -⟩ := hadds <;> exact Table.find_mem hrow
      exact (moves_of_addsReceipt hadds).trans (moves_of_change (k := .commit) rfl hrow' (.commit _ _ hstatus))
  | failStep =>
      obtain ⟨row, error, column, hrow, hstatus, -, rfl, rfl⟩ := failStep_ok hk h
      exact moves_of_change (k := .fail) rfl (Table.find_mem hrow) (.fail _ _ hstatus)
  | markUncertain =>
      obtain ⟨row, error, column, hrow, hstatus, -, rfl, rfl⟩ := markUncertain_ok hk h
      exact moves_of_change (k := .doubt) rfl (Table.find_mem hrow) (.doubt _ _ _ hstatus)
  | cancelStep =>
      obtain ⟨row, column, hrow, hstatus, -, rfl, rfl⟩ := cancelStep_ok hk h
      exact moves_of_change (k := .cancel) rfl (Table.find_mem hrow) (.cancel _ hstatus)
  | reclaimExpiredLeases => exact moves_of_reclaim hk h
  | recordReceipt =>
      obtain ⟨step, -, -, -, -, -, ⟨rfl, -⟩ | ⟨-, column, rfl⟩⟩ := recordReceipt_ok h
      · exact .refl
      · exact moves_of_event _ rfl rfl (by decide : ¬ IsMoveEvent "receipt.recorded")
  | findReceipt => simp only [JournalCall.perform, Txn.read_ok] at h; exact h.2 ▸ .refl
  | requestApproval =>
      obtain ⟨-, _, column, rfl, -, rfl⟩ := requestApproval_ok h
      exact moves_of_event _ rfl rfl (by decide : ¬ IsMoveEvent "approval.requested")
  | getApproval =>
      simp only [JournalCall.perform, getApproval, Txn.bind_ok, Txn.read_ok, Txn.getOr_ok] at h
      obtain ⟨_, _, ⟨-, rfl⟩, -, rfl⟩ := h
      exact .refl
  | decideApproval =>
      obtain ⟨-, rfl | ⟨column, row, rfl⟩⟩ := decideApproval_ok h
      · exact .refl
      · exact moves_of_event _ rfl rfl (by decide : ¬ IsMoveEvent "approval.decided")
  | listApprovals =>
      simp only [JournalCall.perform, listApprovals, Txn.read_ok] at h
      exact h.2 ▸ .refl
  | startProviderCall =>
      obtain ⟨-, _, column, -, rfl, -, rfl⟩ := startProviderCall_ok h
      exact moves_of_event _ rfl rfl (by decide : ¬ IsMoveEvent "provider.started")
  | completeProviderCall _ _ status =>
      obtain ⟨row, _, column, -, -, -, -, rfl⟩ := completeProviderCall_ok h
      cases status with
      | started => exact moves_of_event _ rfl rfl (by decide : ¬ IsMoveEvent "provider.started")
      | completed => exact moves_of_event _ rfl rfl (by decide : ¬ IsMoveEvent "provider.completed")
      | failed => exact moves_of_event _ rfl rfl (by decide : ¬ IsMoveEvent "provider.failed")
      | uncertain => exact moves_of_event _ rfl rfl (by decide : ¬ IsMoveEvent "provider.uncertain")
  | listProviderCalls =>
      simp only [JournalCall.perform, listProviderCalls, Txn.read_ok] at h
      exact h.2 ▸ .refl
  | reserveBudget =>
      obtain ⟨-, -, ⟨-, rfl⟩ | ⟨-, run, column, -, -, rfl⟩⟩ := reserveBudget_ok h
      · exact .refl
      · exact moves_of_event _ rfl rfl (by decide : ¬ IsMoveEvent "budget.reserved")
  | settleBudget =>
      obtain ⟨-, -, row, -, -, ⟨-, -, rfl⟩ | ⟨-, column, rfl⟩⟩ := settleBudget_ok h
      · exact .refl
      · exact moves_of_event _ rfl rfl (by decide : ¬ IsMoveEvent "budget.settled")

end Journal

end Polaris
