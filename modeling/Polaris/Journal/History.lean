import Mathlib.Data.List.Induction
import Polaris.Journal.StepMachine

namespace Polaris
open Relation Journal

abbrev HonestCall := {i : Issued // i.call.Honest}

def JournalCall.cancels {β : Type} (stepId : String) : JournalCall β → Prop
  | .cancelStep id _ => id = stepId
  | _ => False

def Issued.cancels (i : Issued) (stepId : String) : Prop := i.call.cancels stepId

def history (sha : Sha256) (calls : List HonestCall) : Journal :=
  runCalls sha (calls.map Subtype.val) .empty

variable {sha : Sha256} {calls more : List HonestCall} {j : Journal} {r : StepRecord}

theorem history_concat (c : HonestCall) :
    history sha (calls ++ [c]) = c.1.after sha (history sha calls) := by
  simp [history, runCalls]

theorem history_append : history sha (calls ++ more) =
    runCalls sha (more.map Subtype.val) (history sha calls) := by
  simp [history, runCalls]

theorem after_moves (hj : j.StepsKeyed) (c : HonestCall) :
    Moves c.1.call.kinds j (c.1.after sha j) := by
  rcases c.1.outcome_cases sha j with ⟨b, h⟩ | ⟨-, h⟩
  · exact moves_of_perform hj c.2 h
  · rw [h]

theorem runCalls_moves (hj : j.StepsKeyed) :
    Moves (fun _ => True) j (runCalls sha (calls.map Subtype.val) j) := by
  induction calls generalizing j with
  | nil => exact .refl
  | cons c calls ih =>
      have hc : Moves c.1.call.kinds j (c.1.after sha j) := after_moves hj c
      exact (hc.mono fun _ _ => trivial).trans (ih (hc.stepsKeyed hj))

theorem history_invariant (sha : Sha256) (calls : List HonestCall) :
    (history sha calls).Invariant :=
  (runCalls_moves invariant_empty.keyed).invariant invariant_empty

theorem history_origin {r s : StepRecord} (hr : r ∈ (history sha calls).steps)
    (hs : s ∈ (history sha (calls ++ more)).steps) (hid : s.id = r.id) : s.origin = r.origin := by
  have hj := history_invariant sha calls
  have hmoves : Moves (fun _ => True) (history sha calls) (history sha (calls ++ more)) := by
    rw [history_append]
    exact runCalls_moves hj.keyed
  obtain ⟨t, ht, hsame⟩ := hmoves.kept hj.keyed hr
  have htid : t.id = r.id := congrArg Prod.fst hsame
  rwa [(history_invariant sha (calls ++ more)).keyed.eq_of_key hs ht (hid.trans htid.symm)]

def CancelledFromUncertain (sha : Sha256) (calls : List HonestCall) (r : StepRecord) : Prop :=
  ∃ before c later, calls = before ++ c :: later ∧ c.1.cancels r.id ∧
    (∃ s ∈ (history sha before).steps, s.id = r.id ∧ s.status = .uncertain) ∧
    r ∈ (history sha (before ++ [c])).steps

theorem CancelledFromUncertain.concat (h : CancelledFromUncertain sha calls r) (c : HonestCall) :
    CancelledFromUncertain sha (calls ++ [c]) r := by
  obtain ⟨before, d, later, rfl, h⟩ := h
  exact ⟨before, d, later ++ [c], by simp, h⟩

theorem cancelled_by (hj : j.Invariant) (c : HonestCall) (hr : r ∈ (c.1.after sha j).steps)
    (hc : r.status = .cancelled) :
    r ∈ j.steps ∨ c.1.cancels r.id ∧ ∃ s ∈ j.steps, s.id = r.id ∧
      s.status ∈ cancellable ∧ s.uncertaintyReason = r.uncertaintyReason := by
  rcases c.1.outcome_cases sha j with ⟨b, h⟩ | ⟨-, h⟩
  · have hmoves := moves_of_perform hj.keyed c.2 h
    by_cases hn : c.1.call.kinds .cancel
    · obtain ⟨⟨call, a⟩, hhonest⟩ := c
      cases call <;> simp only [JournalCall.kinds, reduceCtorEq] at hn
      rename_i stepId workerId
      obtain ⟨row, column, hrow, hstatus, -, rfl, hjournal⟩ := cancelStep_ok hj.keyed h
      rw [hjournal] at hr
      rcases Table.mem_put.1 hr with ⟨rfl, -⟩ | ⟨hr, -⟩
      · have hid : row.id = stepId := Table.find_key hrow
        exact .inr ⟨hid.symm, row, Table.find_mem hrow, rfl, hstatus, rfl⟩
      · exact .inl hr
    · exact .inl (hmoves.cancelled_mem hr hc hn)
  · exact .inl (h ▸ hr)

theorem uncertain_changed_by (sha : Sha256) (hj : j.Invariant) (c : HonestCall) (hr : r ∈ j.steps)
    (hu : r.status = .uncertain) (hne : r ∉ (c.1.after sha j).steps) : c.1.cancels r.id := by
  rcases c.1.outcome_cases sha j with ⟨b, h⟩ | ⟨-, h⟩
  · have hmoves := moves_of_perform hj.keyed c.2 h
    by_cases hn : c.1.call.kinds .cancel
    · obtain ⟨⟨call, a⟩, hhonest⟩ := c
      cases call <;> simp only [JournalCall.kinds, reduceCtorEq] at hn
      rename_i stepId workerId
      obtain ⟨row, column, hrow, -, -, rfl, hjournal⟩ := cancelStep_ok hj.keyed h
      rw [hjournal] at hne
      by_cases hid : r.id = row.id
      · exact (hid.trans (Table.find_key hrow)).symm
      · refine absurd (Table.mem_put_of_ne hr ?_) hne
        exact hid
    · exact absurd (hmoves.mem_of_uncertain hj.keyed hr hu hn) hne
  · exact absurd (h.symm ▸ hr) hne

theorem reason_traced (sha : Sha256) (calls : List HonestCall) :
    ∀ r ∈ (history sha calls).steps, r.uncertaintyReason.isSome →
      r.status = .uncertain ∨ r.status = .cancelled ∧ CancelledFromUncertain sha calls r := by
  induction calls using List.reverseRec with
  | nil => simp [history, runCalls, empty]
  | append_singleton calls c ih =>
      intro r hr hreason
      have hj := history_invariant sha calls
      rcases ((history_invariant sha (calls ++ [c])).rows r hr).shape.reason hreason with hu | hc
      · exact .inl hu
      · rw [history_concat] at hr
        rcases cancelled_by hj c hr hc with hold | ⟨hcancels, s, hs, hid, hstatus, hsame⟩
        · rcases ih r hold hreason with hu | ⟨-, htraced⟩
          · simp [hu] at hc
          · exact .inr ⟨hc, htraced.concat c⟩
        · rcases (hj.rows s hs).shape.reason (hsame ▸ hreason) with hu | hcancelled
          · exact .inr ⟨hc, calls, c, [], rfl, hcancels, ⟨s, hs, hid, hu⟩, history_concat c ▸ hr⟩
          · simp [hcancelled, cancellable] at hstatus

theorem step_state_machine (sha : Sha256) (calls : List HonestCall) :
    (∀ r ∈ (history sha calls).steps,
      (r.leaseOwner.isSome ↔ r.status = .leased ∨ r.status = .executing) ∧
      (r.leaseExpiresAt.isSome ↔ r.status = .leased ∨ r.status = .executing) ∧
      (r.output.isSome ↔ r.status = .committed) ∧
      r.attemptCount = (history sha calls).eventCount .lease r.id ∧
      (r.uncertaintyReason.isSome →
        r.status = .uncertain ∨ r.status = .cancelled ∧ CancelledFromUncertain sha calls r)) ∧
    (∀ r ∈ (history sha calls).steps,
      r.status = .committed ∨ r.status = .failed ∨ r.status = .cancelled →
      ∀ more, (history sha (calls ++ more)).findStep r.id = some r) ∧
    (∀ r ∈ (history sha calls).steps, r.status = .uncertain →
      ∀ c : HonestCall, (history sha (calls ++ [c])).findStep r.id ≠ some r → c.1.cancels r.id) := by
  have hj := history_invariant sha calls
  refine ⟨?_, ?_, ?_⟩
  · intro r hr
    have hshape := (hj.rows r hr).shape
    exact ⟨hshape.owner, hshape.expiry, hshape.output, (hj.rows r hr).attempts,
      reason_traced sha calls r hr⟩
  · intro r hr hterminal more
    rw [history_append]
    have hmoves : Moves (fun _ => True) (history sha calls)
        (runCalls sha (more.map Subtype.val) (history sha calls)) := runCalls_moves hj.keyed
    exact (hmoves.stepsKeyed hj.keyed).find (hmoves.mem_of_terminal hj.keyed hr hterminal)
  · intro r hr hu c hchanged
    refine uncertain_changed_by sha hj c hr hu fun hmem => hchanged ?_
    rw [history_concat]
    exact ((after_moves hj.keyed c).stepsKeyed hj.keyed).find hmem

end Polaris
