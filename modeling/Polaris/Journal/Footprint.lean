import Polaris.Journal.Specs
import Polaris.Journal.Rollback

namespace Polaris
open Journal

inductive Part where
  | runs
  | externalKeys
  | steps
  | receipts
  | approvals
  | providerCalls
  | reservations
deriving DecidableEq, Repr

namespace Journal

def Same (j j' : Journal) : Part → Prop
  | .runs => j'.runs = j.runs
  | .externalKeys => j'.externalKeys = j.externalKeys
  | .steps => j'.steps = j.steps
  | .receipts => j'.receipts = j.receipts
  | .approvals => j'.approvals = j.approvals
  | .providerCalls => j'.providerCalls = j.providerCalls
  | .reservations => j'.reservations = j.reservations

theorem Same.refl (j : Journal) (p : Part) : j.Same j p := by cases p <;> rfl

theorem Same.trans {i j k : Journal} {p : Part} (h : i.Same j p) (h' : j.Same k p) :
    i.Same k p := by
  cases p <;> exact Eq.trans h' h

end Journal

def JournalCall.writes {β : Type} : JournalCall β → List Part
  | .createRun .. => [.runs, .externalKeys]
  | .markRunStatus .. => [.runs]
  | .createStep .. => [.steps]
  | .claimReadyStep .. => [.steps]
  | .markExecuting .. => [.steps]
  | .heartbeat .. => [.steps]
  | .commitStep .. => [.steps, .receipts]
  | .failStep .. => [.steps]
  | .markUncertain .. => [.steps]
  | .cancelStep .. => [.steps]
  | .reclaimExpiredLeases .. => [.steps]
  | .recordReceipt .. => [.receipts]
  | .requestApproval .. => [.approvals]
  | .decideApproval .. => [.approvals]
  | .startProviderCall .. => [.providerCalls]
  | .completeProviderCall .. => [.providerCalls]
  | .reserveBudget .. => [.runs, .reservations]
  | .settleBudget .. => [.runs, .reservations]
  | _ => []

namespace Journal
variable {sha : Sha256} {a : Ambient} {j j' : Journal} {p : Part}

theorem same_of_reclaimRows {now : Timestamp} {rows out : List StepRecord} (hp : p ≠ .steps)
    (h : reclaimRows now rows j = (.ok out, j')) : j.Same j' p := by
  induction rows generalizing j out with
  | nil =>
      simp only [reclaimRows, Txn.pure_ok] at h
      exact h.2 ▸ .refl j p
  | cons row rows ih =>
      simp only [reclaimRows, changeStep, Txn.bind_ok, Txn.pure_ok, Txn.write_ok,
        appendEventRow_ok, requireStep_ok] at h
      obtain ⟨r, t, ⟨_, _, rfl, _, _, ⟨column, -, -, rfl⟩, -, rfl⟩, rest, _, hrest, -, rfl⟩ := h
      refine Same.trans ?_ (ih hrest)
      cases p <;> first | rfl | exact absurd rfl hp

theorem same_of_perform {β : Type} {c : JournalCall β} {b : β} (hk : j.StepsKeyed)
    (h : c.perform sha a j = (.ok b, j')) (hp : p ∉ c.writes) : j.Same j' p := by
  cases c with
  | createRun =>
      obtain ⟨-, ⟨rfl, -⟩ | ⟨_, _, column, t, -, -, -, -, ht, rfl⟩⟩ := createRun_ok h
      · exact .refl _ p
      · obtain rfl | ⟨k, rfl⟩ := ht <;> cases p <;> first | rfl | exact absurd (by simp [JournalCall.writes]) hp
  | getRun => simp only [JournalCall.perform, getRun, requireRun_ok] at h; exact h.2 ▸ .refl _ p
  | markRunStatus =>
      obtain ⟨row, -, ⟨-, rfl⟩ | ⟨-, column, rfl⟩⟩ := markRunStatus_ok h
      · exact .refl _ p
      · cases p <;> first | rfl | exact absurd (by simp [JournalCall.writes]) hp
  | appendEvent =>
      obtain ⟨column, rfl, rfl⟩ := appendEvent_ok h
      cases p <;> rfl
  | createStep =>
      obtain ⟨_, _, _, _, _, _, -, -, -, -, -, -, ⟨rfl, -⟩ | ⟨-, column, rfl, rfl⟩⟩ :=
        createStep_ok h
      · exact .refl _ p
      · cases p <;> first | rfl | exact absurd (by simp [JournalCall.writes]) hp
  | getStep => simp only [JournalCall.perform, getStep, requireStep_ok] at h; exact h.2 ▸ .refl _ p
  | listSteps =>
      simp only [JournalCall.perform, listSteps, Txn.ite_ok, Txn.bind_ok, requireRun_ok,
        Txn.read_ok, Txn.pure_ok] at h
      obtain ⟨-, -, rfl⟩ | ⟨-, _, _, ⟨-, rfl⟩, -, rfl⟩ := h <;> exact .refl _ p
  | claimReadyStep =>
      obtain ⟨-, rfl⟩ | ⟨row, expiry, column, r, -, -, rfl, -, rfl⟩ := claimReadyStep_ok hk h
      · exact .refl _ p
      · cases p <;> first | rfl | exact absurd (by simp [JournalCall.writes]) hp
  | markExecuting =>
      obtain ⟨row, column, -, -, -, rfl, rfl⟩ := markExecuting_ok hk h
      cases p <;> first | rfl | exact absurd (by simp [JournalCall.writes]) hp
  | heartbeat =>
      obtain ⟨row, expiry, column, -, -, -, -, rfl, rfl⟩ := heartbeat_ok hk h
      cases p <;> first | rfl | exact absurd (by simp [JournalCall.writes]) hp
  | commitStep =>
      obtain ⟨row, output, column, t, -, -, -, -, hadds, rfl, rfl⟩ := commitStep_ok hk h
      obtain rfl | ⟨_, rfl, -⟩ := hadds <;> cases p <;>
        first | rfl | exact absurd (by simp [JournalCall.writes]) hp
  | failStep =>
      obtain ⟨row, error, column, -, -, -, rfl, rfl⟩ := failStep_ok hk h
      cases p <;> first | rfl | exact absurd (by simp [JournalCall.writes]) hp
  | markUncertain =>
      obtain ⟨row, error, column, -, -, -, rfl, rfl⟩ := markUncertain_ok hk h
      cases p <;> first | rfl | exact absurd (by simp [JournalCall.writes]) hp
  | cancelStep =>
      obtain ⟨row, column, -, -, -, rfl, rfl⟩ := cancelStep_ok hk h
      cases p <;> first | rfl | exact absurd (by simp [JournalCall.writes]) hp
  | reclaimExpiredLeases =>
      simp only [JournalCall.perform, reclaimExpiredLeases, Txn.atomically_ok, Txn.bind_ok,
        Txn.read_ok] at h
      obtain ⟨rows, _, ⟨-, rfl⟩, h⟩ := h
      exact same_of_reclaimRows (by rintro rfl; simp [JournalCall.writes] at hp) h
  | recordReceipt =>
      obtain ⟨step, -, -, -, -, -, ⟨rfl, -⟩ | ⟨-, column, rfl⟩⟩ := recordReceipt_ok h
      · exact .refl _ p
      · cases p <;> first | rfl | exact absurd (by simp [JournalCall.writes]) hp
  | findReceipt => simp only [JournalCall.perform, Txn.read_ok] at h; exact h.2 ▸ .refl _ p
  | requestApproval =>
      obtain ⟨-, _, column, rfl, -, rfl⟩ := requestApproval_ok h
      cases p <;> first | rfl | exact absurd (by simp [JournalCall.writes]) hp
  | getApproval =>
      simp only [JournalCall.perform, getApproval, Txn.bind_ok, Txn.read_ok, Txn.getOr_ok] at h
      obtain ⟨_, _, ⟨-, rfl⟩, -, rfl⟩ := h
      exact .refl _ p
  | decideApproval =>
      obtain ⟨-, rfl | ⟨column, row, rfl⟩⟩ := decideApproval_ok h
      · exact .refl _ p
      · cases p <;> first | rfl | exact absurd (by simp [JournalCall.writes]) hp
  | listApprovals =>
      simp only [JournalCall.perform, listApprovals, Txn.read_ok] at h
      exact h.2 ▸ .refl _ p
  | startProviderCall =>
      obtain ⟨-, _, column, -, rfl, -, rfl⟩ := startProviderCall_ok h
      cases p <;> first | rfl | exact absurd (by simp [JournalCall.writes]) hp
  | completeProviderCall =>
      obtain ⟨row, _, column, -, -, -, -, rfl⟩ := completeProviderCall_ok h
      cases p <;> first | rfl | exact absurd (by simp [JournalCall.writes]) hp
  | listProviderCalls =>
      simp only [JournalCall.perform, listProviderCalls, Txn.read_ok] at h
      exact h.2 ▸ .refl _ p
  | reserveBudget =>
      obtain ⟨-, -, ⟨-, rfl⟩ | ⟨-, run, column, -, -, rfl⟩⟩ := reserveBudget_ok h
      · exact .refl _ p
      · cases p <;> first | rfl | exact absurd (by simp [JournalCall.writes]) hp
  | settleBudget =>
      obtain ⟨-, -, row, -, -, ⟨-, -, rfl⟩ | ⟨-, column, rfl⟩⟩ := settleBudget_ok h
      · exact .refl _ p
      · cases p <;> first | rfl | exact absurd (by simp [JournalCall.writes]) hp

end Journal

theorem Issued.after_same {sha : Sha256} {j : Journal} {p : Part} (hk : j.StepsKeyed) (i : Issued)
    (hp : p ∉ i.call.writes) : j.Same (i.after sha j) p := by
  rcases i.outcome_cases sha j with ⟨b, h⟩ | ⟨-, h⟩
  · exact same_of_perform hk h hp
  · rw [h]; exact .refl j p

end Polaris
