import Polaris.Journal.Lifecycle
import Polaris.Journal.Rollback

namespace Polaris
open Relation

namespace StepRecord

structure Shape (r : StepRecord) : Prop where
  owner : r.leaseOwner.isSome ↔ r.Active
  expiry : r.leaseExpiresAt.isSome ↔ r.Active
  output : r.output.isSome ↔ r.status = .committed
  reason : r.uncertaintyReason.isSome → r.status = .uncertain ∨ r.status = .cancelled

theorem IsNew.shape {r : StepRecord} (h : r.IsNew) : r.Shape where
  owner := by simp [h.owner, Active, h.status]
  expiry := by simp [h.expiry, Active, h.status]
  output := by simp [h.output, h.status]
  reason := by simp [h.reason]

theorem Shape.reason_none {r : StepRecord} (h : r.Shape)
    (hs : r.status ≠ .uncertain ∧ r.status ≠ .cancelled) : r.uncertaintyReason = none := by
  rw [← Option.not_isSome_iff_eq_none]
  intro hr
  rcases h.reason hr with hu | hc
  · exact hs.1 hu
  · exact hs.2 hc

theorem Shape.output_none {r : StepRecord} (h : r.Shape) (hs : r.status ≠ .committed) :
    r.output = none := by
  rw [← Option.not_isSome_iff_eq_none, h.output]
  exact hs

end StepRecord

theorem RowMove.shape {k : MoveKind} {r s : StepRecord} (hmove : RowMove k r s) (h : r.Shape) :
    s.Shape := by
  cases hmove with
  | lease _ _ _ hr =>
      have hout := h.output_none (by simp [hr])
      have hreason := h.reason_none (by simp [hr])
      exact ⟨by simp [StepRecord.Active], by simp [StepRecord.Active], by simp [hout],
        by simp [hreason]⟩
  | execute _ hr =>
      have hout := h.output_none (by simp [hr])
      have hreason := h.reason_none (by simp [hr])
      have hactive : r.Active := .inl hr
      exact ⟨by simp [StepRecord.Active, h.owner.2 hactive],
        by simp [StepRecord.Active, h.expiry.2 hactive], by simp [hout], by simp [hreason]⟩
  | extend _ _ hr =>
      have hstatus : r.status ≠ .uncertain ∧ r.status ≠ .cancelled := by
        rcases hr with hr | hr <;> simp [hr]
      have hreason := h.reason_none hstatus
      exact ⟨h.owner, by simpa [StepRecord.Active] using hr, h.output, by simp [hreason]⟩
  | commit _ _ hr =>
      have hreason := h.reason_none (by simp [hr])
      exact ⟨by simp [StepRecord.Active], by simp [StepRecord.Active], by simp, by simp [hreason]⟩
  | fail _ _ hr =>
      have hout := h.output_none (by rcases hr with hr | hr <;> simp [hr])
      exact ⟨by simp [StepRecord.Active], by simp [StepRecord.Active], by simp [hout], by simp⟩
  | doubt _ _ _ hr =>
      have hout := h.output_none (by rcases hr with hr | hr <;> simp [hr])
      exact ⟨by simp [StepRecord.Active], by simp [StepRecord.Active], by simp [hout], by simp⟩
  | cancel _ hr =>
      have hout := h.output_none (by rintro hc; simp [hc, Journal.cancellable] at hr)
      exact ⟨by simp [StepRecord.Active], by simp [StepRecord.Active], by simp [hout], by simp⟩
  | expire _ hr =>
      have hout := h.output_none (by rcases hr with hr | hr <;> simp [hr])
      cases hs : r.safety <;>
        exact ⟨by simp [StepRecord.Active, Journal.reclaimTarget],
          by simp [StepRecord.Active, Journal.reclaimTarget],
          by simp [hout, Journal.reclaimTarget],
          by simp [Journal.reclaimTarget, Journal.reclaimReason]⟩

theorem RowMove.eq_cancel_of_cancelled {k : MoveKind} {r s : StepRecord} (h : RowMove k r s)
    (hs : s.status = .cancelled) : k = .cancel := by
  cases h with
  | cancel => rfl
  | extend _ _ hr => rcases hr with hr | hr <;> simp [hr] at hs
  | expire => revert hs; cases r.safety <;> simp [Journal.reclaimTarget]
  | lease | execute | commit | fail | doubt => simp at hs

structure RowState (r : StepRecord) (n : MoveKind → ℕ) : Prop where
  shape : r.Shape
  attempts : r.attemptCount = n .lease
  executions : n .execute + (if r.status = .leased then 1 else 0) ≤ n .lease
  commits : n .commit = if r.status = .committed then 1 else 0
  once : r.safety = .reconcilable ∨ r.safety = .opaqueSideEffect →
    n .lease ≤ 1 ∧ (r.status = .ready → n .lease = 0)

def counted (n : MoveKind → ℕ) (k : MoveKind) : MoveKind → ℕ :=
  fun l => n l + if k = l then 1 else 0

theorem StepRecord.IsNew.rowState {r : StepRecord} (h : r.IsNew) : RowState r fun _ => 0 where
  shape := h.shape
  attempts := h.attempts
  executions := by simp [h.status]
  commits := by simp [h.status]
  once := by simp

theorem RowMove.rowState {k : MoveKind} {r s : StepRecord} {n : MoveKind → ℕ}
    (hmove : RowMove k r s) (h : RowState r n) : RowState s (counted n k) := by
  have hshape := hmove.shape h.shape
  obtain ⟨-, hattempts, hexecutions, hcommits, honce⟩ := h
  cases hmove with
  | lease _ _ _ hr =>
      simp only [hr, reduceCtorEq, if_false, Nat.add_zero] at hexecutions hcommits honce
      refine ⟨hshape, by simp [counted, hattempts], by simp [counted]; omega,
        by simp [counted, hcommits], fun hs => ?_⟩
      have := (honce hs).2 trivial
      exact ⟨by simp [counted, this], by simp⟩
  | execute _ hr =>
      simp only [hr, reduceCtorEq, if_false, if_true] at hexecutions hcommits
      exact ⟨hshape, by simp [counted, hattempts], by simp [counted]; omega,
        by simp [counted, hcommits], fun hs => ⟨by simp [counted, (honce hs).1], by simp⟩⟩
  | extend _ _ hr =>
      exact ⟨hshape, by simp [counted, hattempts], by simpa [counted] using hexecutions,
        by simp [counted, hcommits], fun hs => by simpa [counted] using honce hs⟩
  | commit _ _ hr =>
      simp only [hr, reduceCtorEq, if_false, Nat.add_zero] at hexecutions hcommits
      exact ⟨hshape, by simp [counted, hattempts], by simpa [counted] using hexecutions,
        by simp [counted, hcommits], fun hs => ⟨by simp [counted, (honce hs).1], by simp⟩⟩
  | fail _ _ hr | doubt _ _ _ hr =>
      have hnot : r.status ≠ .committed := by rcases hr with hr | hr <;> simp [hr]
      exact ⟨hshape, by simp [counted, hattempts], by simp [counted]; omega,
        by simp [counted, hcommits, hnot],
        fun hs => ⟨by simp [counted, (honce hs).1], by simp⟩⟩
  | cancel _ hr =>
      have hnot : r.status ≠ .committed := by
        rintro hc; simp [hc, Journal.cancellable] at hr
      exact ⟨hshape, by simp [counted, hattempts], by simp [counted]; omega,
        by simp [counted, hcommits, hnot],
        fun hs => ⟨by simp [counted, (honce hs).1], by simp⟩⟩
  | expire _ hr =>
      have hnot : r.status ≠ .committed := by rcases hr with hr | hr <;> simp [hr]
      refine ⟨hshape, by simp [counted, hattempts], ?_, ?_, fun hs => ?_⟩
      · cases r.safety <;> simp [counted, Journal.reclaimTarget] <;> omega
      · cases r.safety <;> simp [counted, hcommits, hnot, Journal.reclaimTarget]
      · refine ⟨by simp [counted, (honce hs).1], ?_⟩
        have hs' : r.safety = .reconcilable ∨ r.safety = .opaqueSideEffect := hs
        rcases hs' with hs' | hs' <;> simp [hs', Journal.reclaimTarget]

namespace Journal

def eventCount (k : MoveKind) (stepId : String) (j : Journal) : ℕ :=
  j.events.countP fun e => e.type = k.event && e.stepId = some stepId

def eventCounts (stepId : String) (j : Journal) (k : MoveKind) : ℕ := j.eventCount k stepId

structure Invariant (j : Journal) : Prop where
  keyed : j.StepsKeyed
  rows : ∀ r ∈ j.steps, RowState r (j.eventCounts r.id)
  known : ∀ e ∈ j.events, IsMoveEvent e.type → ∃ r ∈ j.steps, e.stepId = some r.id

theorem invariant_empty : empty.Invariant where
  keyed := by simp [StepsKeyed, Table.Keyed, empty]
  rows := by simp [empty]
  known := by simp [empty]

variable {allowed : MoveKind → Prop} {j j' : Journal}

theorem eventCount_append_other {k : MoveKind} {stepId : String} {events : List EventRecord}
    (he : j'.events = j.events ++ events)
    (hn : ∀ e ∈ events, e.type = k.event → e.stepId ≠ some stepId) :
    j'.eventCount k stepId = j.eventCount k stepId := by
  have hzero : events.countP (fun e => e.type = k.event && e.stepId = some stepId) = 0 := by
    simpa [List.countP_eq_zero] using hn
  simp only [eventCount, he, List.countP_append, hzero, Nat.add_zero]

theorem eventCount_append_one {k l : MoveKind} {stepId : String} {event : EventRecord}
    (he : j'.events = j.events ++ [event]) (ht : event.type = l.event)
    (hid : event.stepId = some stepId) :
    j'.eventCount k stepId = j.eventCount k stepId + if l = k then 1 else 0 := by
  have hone : (event.type = k.event) ↔ l = k := by
    rw [ht]
    exact MoveKind.event_injective.eq_iff
  simp [eventCount, he, List.countP_append, hid, hone, List.countP_cons]

theorem eventCounts_of_no_move {stepId : String} {events : List EventRecord}
    (he : j'.events = j.events ++ events) (hn : ∀ e ∈ events, ¬ IsMoveEvent e.type) :
    j'.eventCounts stepId = j.eventCounts stepId :=
  funext fun _ => eventCount_append_other he fun e hmem ht _ =>
    hn e hmem (ht ▸ MoveKind.event_isMoveEvent _)

theorem Invariant.eventCounts_fresh {stepId : String} (hj : j.Invariant)
    (hfresh : ∀ s ∈ j.steps, s.id ≠ stepId) : j.eventCounts stepId = fun _ => 0 := by
  funext k
  simp only [eventCounts, eventCount, List.countP_eq_zero]
  intro e hmem hboth
  simp only [Bool.and_eq_true, decide_eq_true_eq] at hboth
  obtain ⟨r, hr, hid⟩ := hj.known e hmem (hboth.1 ▸ MoveKind.event_isMoveEvent _)
  exact hfresh r hr (Option.some.inj (hid.symm.trans hboth.2))

theorem Move.invariant (h : Move allowed j j') (hj : j.Invariant) : j'.Invariant := by
  have hkeyed := h.stepsKeyed hj.keyed
  cases h with
  | idle events hs he hn =>
      refine ⟨hkeyed, ?_, ?_⟩
      · intro r hr
        rw [eventCounts_of_no_move he hn]
        exact hj.rows r (hs ▸ hr)
      · intro e hmem ht
        rw [he] at hmem
        rcases List.mem_append.1 hmem with hmem | hmem
        · exact hs ▸ hj.known e hmem ht
        · exact absurd ht (hn e hmem)
  | create row event hnew hfresh hs he hn =>
      have hn' : ∀ e ∈ [event], ¬ IsMoveEvent e.type := by simpa using hn
      refine ⟨hkeyed, ?_, ?_⟩
      · intro r hr
        rw [eventCounts_of_no_move he hn']
        rw [hs] at hr
        rcases List.mem_append.1 hr with hr | hr
        · exact hj.rows r hr
        · obtain rfl : r = row := by simpa using hr
          rw [hj.eventCounts_fresh hfresh]
          exact hnew.rowState
      · intro e hmem ht
        rw [he] at hmem
        rcases List.mem_append.1 hmem with hmem | hmem
        · obtain ⟨r, hr, hid⟩ := hj.known e hmem ht
          exact ⟨r, by simp [hs, hr], hid⟩
        · exact absurd ht (hn' e hmem)
  | @change k row row' event hk hrow hmove hs he ht hid =>
      refine ⟨hkeyed, ?_, ?_⟩
      · intro r hr
        rw [hs] at hr
        rcases Table.mem_put.1 hr with ⟨rfl, -⟩ | ⟨hr, hne⟩
        · have hcounts : j'.eventCounts row.id = counted (j.eventCounts row.id) k :=
            funext fun l => eventCount_append_one he ht hid
          rw [hmove.id, hcounts]
          exact hmove.rowState (hj.rows row hrow)
        · have hcounts : j'.eventCounts r.id = j.eventCounts r.id := by
            refine funext fun l => eventCount_append_other he ?_
            intro e hmem _ heq
            obtain rfl : e = event := by simpa using hmem
            rw [hid] at heq
            exact hne ((Option.some.inj heq).symm.trans hmove.id.symm)
          rw [hcounts]
          exact hj.rows r hr
      · intro e hmem _
        rw [he] at hmem
        have hput : ∀ r ∈ j.steps, ∃ s ∈ j'.steps, s.id = r.id := by
          intro r hr
          by_cases hid : r.id = row'.id
          · exact ⟨row', hs ▸ Table.mem_put.2 (.inl ⟨rfl, r, hr, hid⟩), hid.symm⟩
          · exact ⟨r, hs ▸ Table.mem_put_of_ne hr hid, rfl⟩
        rcases List.mem_append.1 hmem with hmem | hmem
        · obtain ⟨r, hr, hrid⟩ := hj.known e hmem ‹_›
          obtain ⟨s, hs', hsid⟩ := hput r hr
          exact ⟨s, hs', by rw [hrid, hsid]⟩
        · obtain rfl : e = event := by simpa using hmem
          obtain ⟨s, hs', hsid⟩ := hput row hrow
          exact ⟨s, hs', by rw [hid, hsid]⟩

theorem Moves.invariant (h : Moves allowed j j') (hj : j.Invariant) : j'.Invariant := by
  induction h with
  | refl => exact hj
  | tail _ hmove ih => exact hmove.invariant ih

theorem Move.eventCount_eq {k : MoveKind} (h : Move allowed j j') (hk : ¬ allowed k)
    (stepId : String) : j'.eventCount k stepId = j.eventCount k stepId := by
  cases h with
  | idle events _ he hn =>
      exact eventCount_append_other he fun e hmem ht _ =>
        hn e hmem (ht ▸ MoveKind.event_isMoveEvent _)
  | create _ event _ _ _ he hn =>
      refine eventCount_append_other he fun e hmem ht _ => hn ?_
      obtain rfl : e = event := by simpa using hmem
      exact ht ▸ MoveKind.event_isMoveEvent _
  | change _ event hl _ _ _ he ht =>
      refine eventCount_append_other he fun e hmem ht' _ => hk ?_
      obtain rfl : e = event := by simpa using hmem
      exact MoveKind.event_injective (ht.symm.trans ht') ▸ hl

theorem Moves.eventCount_eq {k : MoveKind} (h : Moves allowed j j') (hk : ¬ allowed k)
    (stepId : String) : j'.eventCount k stepId = j.eventCount k stepId := by
  induction h with
  | refl => rfl
  | tail _ hmove ih => exact (hmove.eventCount_eq hk stepId).trans ih

theorem Move.kept {r : StepRecord} (h : Move allowed j j') (hj : j.StepsKeyed) (hr : r ∈ j.steps) :
    ∃ s ∈ j'.steps, s.origin = r.origin := by
  cases h with
  | idle _ hs => exact ⟨r, hs ▸ hr, rfl⟩
  | create _ _ _ _ hs => exact ⟨r, by simp [hs, hr], rfl⟩
  | change row' _ hk hrow hmove hs =>
      rw [hs]
      by_cases hid : r.id = row'.id
      · obtain rfl := hj.eq_of_key hr hrow (hid.trans hmove.id)
        exact ⟨row', Table.mem_put.2 (.inl ⟨rfl, r, hr, hid⟩), hmove.origin⟩
      · exact ⟨r, Table.mem_put_of_ne hr hid, rfl⟩

theorem Moves.kept {r : StepRecord} (h : Moves allowed j j') (hj : j.StepsKeyed)
    (hr : r ∈ j.steps) : ∃ s ∈ j'.steps, s.origin = r.origin := by
  induction h with
  | refl => exact ⟨r, hr, rfl⟩
  | tail hmoves hmove ih =>
      obtain ⟨s, hs, hsame⟩ := ih
      obtain ⟨t, ht, hsame'⟩ := hmove.kept (Moves.stepsKeyed hmoves hj) hs
      exact ⟨t, ht, hsame'.trans hsame⟩

theorem Move.mem_of_stuck {r : StepRecord} (h : Move allowed j j') (hj : j.StepsKeyed)
    (hr : r ∈ j.steps) (hstuck : ∀ k s, allowed k → ¬ RowMove k r s) : r ∈ j'.steps := by
  cases h with
  | idle _ hs => exact hs ▸ hr
  | create _ _ _ _ hs => simp [hs, hr]
  | change row' _ hk hrow hmove hs =>
      rw [hs]
      refine Table.mem_put_of_ne hr fun hid => ?_
      obtain rfl := hj.eq_of_key hr hrow (hid.trans hmove.id)
      exact hstuck _ _ hk hmove

theorem Moves.mem_of_stuck {r : StepRecord} (h : Moves allowed j j') (hj : j.StepsKeyed)
    (hr : r ∈ j.steps) (hstuck : ∀ k s, allowed k → ¬ RowMove k r s) : r ∈ j'.steps := by
  induction h with
  | refl => exact hr
  | tail hmoves hmove ih => exact hmove.mem_of_stuck (Moves.stepsKeyed hmoves hj) ih hstuck

theorem Moves.mem_of_terminal {r : StepRecord} (h : Moves allowed j j') (hj : j.StepsKeyed)
    (hr : r ∈ j.steps) (ht : r.Terminal) : r ∈ j'.steps :=
  h.mem_of_stuck hj hr fun _ _ _ hmove => hmove.not_terminal ht

theorem Moves.mem_of_uncertain {r : StepRecord} (h : Moves allowed j j') (hj : j.StepsKeyed)
    (hr : r ∈ j.steps) (hu : r.status = .uncertain) (hn : ¬ allowed .cancel) : r ∈ j'.steps :=
  h.mem_of_stuck hj hr fun _ _ hk hmove => hn (hmove.eq_cancel_of_uncertain hu ▸ hk)

theorem Move.cancelled_mem {r : StepRecord} (h : Move allowed j j') (hr : r ∈ j'.steps)
    (hc : r.status = .cancelled) (hn : ¬ allowed .cancel) : r ∈ j.steps := by
  cases h with
  | idle _ hs => exact hs ▸ hr
  | create row _ hnew _ hs =>
      rw [hs] at hr
      rcases List.mem_append.1 hr with hr | hr
      · exact hr
      · obtain rfl : r = row := by simpa using hr
        simp [hnew.status] at hc
  | change row' _ hk _ hmove hs =>
      rw [hs] at hr
      rcases Table.mem_put.1 hr with ⟨rfl, -⟩ | ⟨hr, -⟩
      · exact absurd (hmove.eq_cancel_of_cancelled hc ▸ hk) hn
      · exact hr

theorem Moves.cancelled_mem {r : StepRecord} (h : Moves allowed j j') (hr : r ∈ j'.steps)
    (hc : r.status = .cancelled) (hn : ¬ allowed .cancel) : r ∈ j.steps := by
  induction h with
  | refl => exact hr
  | tail _ hmove ih => exact ih (hmove.cancelled_mem hr hc hn)

theorem Move.uncertain_mem {r : StepRecord} (h : Move allowed j j') (hr : r ∈ j'.steps)
    (hu : r.status = .uncertain) (hn : ¬ allowed .doubt) :
    r ∈ j.steps ∨ r.safety = .reconcilable ∨ r.safety = .opaqueSideEffect := by
  cases h with
  | idle _ hs => exact .inl (hs ▸ hr)
  | create row _ hnew _ hs =>
      rw [hs] at hr
      rcases List.mem_append.1 hr with hr | hr
      · exact .inl hr
      · obtain rfl := List.mem_singleton.1 hr
        simp [hnew.status] at hu
  | @change k row row' event hk _ hmove hs =>
      rw [hs] at hr
      rcases Table.mem_put.1 hr with ⟨rfl, -⟩ | ⟨hr, -⟩
      · refine .inr ?_
        cases hmove with
        | doubt => exact absurd hk hn
        | extend _ _ hactive => rcases hactive with hactive | hactive <;> simp [hactive] at hu
        | expire =>
            have hsafety : ∀ c, reclaimTarget c = .uncertain →
                c = .reconcilable ∨ c = .opaqueSideEffect := by
              intro c
              cases c <;> simp [reclaimTarget]
            exact hsafety row.safety hu
        | lease | execute | commit | fail | cancel => simp at hu
      · exact .inl hr

theorem Moves.uncertain_mem {r : StepRecord} (h : Moves allowed j j') (hr : r ∈ j'.steps)
    (hu : r.status = .uncertain) (hn : ¬ allowed .doubt) :
    r ∈ j.steps ∨ r.safety = .reconcilable ∨ r.safety = .opaqueSideEffect := by
  induction h with
  | refl => exact .inl hr
  | tail _ hmove ih =>
      rcases hmove.uncertain_mem hr hu hn with hr | hr
      · exact ih hr
      · exact .inr hr

end Journal

end Polaris
