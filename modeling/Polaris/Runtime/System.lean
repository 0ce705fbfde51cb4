import Polaris.Journal.Addresses
import Polaris.Runtime.Reads

namespace Polaris
open Journal

/-- The journal, and the steps whose tool was executed, once for each execution. -/
structure World where
  journal : Journal
  executions : List String

namespace World

@[simps]
def withJournal (w : World) (j : Journal) : World := { w with journal := j }

end World

def AgentCall.exec (sha : Sha256) {β : Type} :
    AgentCall β → World → Except PyError β → World → Prop
  | .journal op, w, r, w' => ∃ a, op.perform sha a w.journal = (r, w'.journal) ∧
      w'.executions = w.executions
  | .execute stepId _ _, w, _, w' =>
      w'.journal = w.journal ∧ w'.executions = stepId :: w.executions
  | _, w, _, w' => w' = w

/-- What anybody may do to a run while its executor runs. -/
def JournalCall.fromOutside {β : Type} : JournalCall β → Prop
  | .decideApproval .. => True
  | .reclaimExpiredLeases .. => True
  | .heartbeat .. => True
  | _ => False

namespace Journal

structure SameRun (runId : String) (j j' : Journal) : Prop where
  steps : ∀ r, r.runId = runId → (r ∈ j'.steps ↔ r ∈ j.steps)
  approvals : ∀ a, a.runId = runId → (a ∈ j'.approvals ↔ a ∈ j.approvals)
  receipts : ∀ r ∈ j.steps, r.runId = runId →
    j'.findReceipt (reconciledKey r.id) = j.findReceipt (reconciledKey r.id)

def Unblocked (runId : String) (j : Journal) : Prop :=
  ∀ a ∈ j.approvals, a.runId = runId → a.status = .approved

end Journal

/-- Others decide, reclaim and send heartbeats, and work on other runs. -/
def World.env (sha : Sha256) (runId : String) (w w' : World) : Prop :=
  w'.executions = w.executions ∧ ∃ c : HonestCall, w'.journal = c.1.after sha w.journal ∧
    (c.1.call.fromOutside ∨ w.journal.SameRun runId w'.journal)

def agentSystem (sha : Sha256) (runId : String) : Program.System AgentCall PyError World where
  exec e w r w' := e.exec sha w r w'
  env w w' := w.env sha runId w'

structure Calm (runId : String) (w w' : World) : Prop where
  later : w.journal.Later w'.journal
  executions : w'.executions = w.executions
  unblocked : w.journal.Unblocked runId → w'.journal.Unblocked runId
  rows : ∀ s ∈ w'.journal.steps, s.runId = runId → ∃ r ∈ w.journal.steps, r.Follows s

theorem Calm.refl (runId : String) (w : World) : Calm runId w w :=
  ⟨.refl _, rfl, fun h => h, fun s hs _ => ⟨s, hs, .refl s⟩⟩

theorem StepRecord.Follows.runId {r s : StepRecord} (h : r.Follows s) : s.runId = r.runId :=
  congrArg (·.2.1) h.origin

theorem Calm.trans {runId : String} {w w' w'' : World} (h : Calm runId w w')
    (h' : Calm runId w' w'') : Calm runId w w'' where
  later := h.later.trans h'.later
  executions := h'.executions.trans h.executions
  unblocked hu := h'.unblocked (h.unblocked hu)
  rows t ht hrun := by
    obtain ⟨s, hs, hst⟩ := h'.rows t ht hrun
    obtain ⟨r, hr, hrs⟩ := h.rows s hs (hst.runId.symm.trans hrun)
    exact ⟨r, hr, hrs.trans hst⟩

namespace JournalCall

def asksApproval {β : Type} : JournalCall β → Prop
  | .requestApproval .. => True
  | _ => False

end JournalCall

variable {sha : Sha256} {runId : String} {w w' : World}

theorem unblocked_after {β : Type} {op : JournalCall β} {a : Ambient} {j j' : Journal} {b : β}
    (hj : j.StepsKeyed) (hop : ¬ op.asksApproval) (h : op.perform sha a j = (.ok b, j'))
    (hu : j.Unblocked runId) : j'.Unblocked runId := by
  cases op with
  | requestApproval => exact absurd trivial hop
  | decideApproval approvalId =>
      obtain ⟨-, rfl | ⟨column, row, rfl⟩⟩ := decideApproval_ok h
      · exact hu
      · intro r hr hrun
        obtain ⟨s, hs, rfl⟩ := List.mem_map.1 hr
        by_cases hp : (decide (s.id = approvalId) && decide (s.status = .pending)) = true
        · rw [if_pos hp] at hrun
          have hpending : s.status = .pending := by simpa using (Bool.and_eq_true_iff.1 hp).2
          exact absurd (hu s hs hrun) (by simp [hpending])
        · rw [if_neg hp] at hrun ⊢
          exact hu s hs hrun
  | _ =>
      have hsame : j'.approvals = j.approvals :=
        same_of_perform (p := .approvals) hj h (by simp [JournalCall.writes])
      intro r hr hrun
      exact hu r (hsame ▸ hr) hrun

theorem calm_of_perform {β : Type} {op : JournalCall β} {a : Ambient} {r : Except PyError β}
    (hj : w.journal.StepsKeyed) (hhonest : op.Honest) (hcreate : ¬ op.createsStep)
    (hask : ¬ op.asksApproval) (h : op.perform sha a w.journal = (r, w'.journal))
    (hexecutions : w'.executions = w.executions) : Calm runId w w' := by
  let c : HonestCall := ⟨⟨op, a⟩, hhonest⟩
  have hafter : c.1.after sha w.journal = w'.journal := by
    simp [c, Issued.after, Issued.outcome, h]
  have hlater := @later_after sha _ hj c
  have hkeyed := (@after_moves sha _ hj c).stepsKeyed hj
  rw [hafter] at hlater hkeyed
  cases r with
  | ok b =>
      exact ⟨hlater, hexecutions, unblocked_after hj hask h,
        fun s hs _ => rows_follow hj hlater hkeyed hcreate h s hs⟩
  | error e =>
      have hsame : w'.journal = w.journal := by
        have := op.perform_atomic sha a w.journal e (by simp [h])
        simpa [h] using this
      exact ⟨hlater, hexecutions, fun hu => hsame ▸ hu, fun s hs _ => ⟨s, hsame ▸ hs, .refl s⟩⟩

theorem calm_of_env (hj : w.journal.StepsKeyed) (h : w.env sha runId w') : Calm runId w w' := by
  obtain ⟨hexecutions, c, hjournal, houtside | hsame⟩ := h
  · obtain ⟨⟨op, a⟩, hhonest⟩ := c
    have hperform : op.perform sha a w.journal = ((op.perform sha a w.journal).1, w'.journal) := by
      rw [hjournal]
      rfl
    refine calm_of_perform hj hhonest ?_ ?_ hperform hexecutions <;>
      cases op <;> simp_all [JournalCall.fromOutside, JournalCall.createsStep,
        JournalCall.asksApproval]
  · have hlater := @later_after sha _ hj c
    rw [← hjournal] at hlater
    exact ⟨hlater, hexecutions,
      fun hu r hr hrun => hu r ((hsame.approvals r hrun).1 hr) hrun,
      fun s hs hrun => ⟨s, (hsame.steps s hrun).1 hs, .refl s⟩⟩

end Polaris
