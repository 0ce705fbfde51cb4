import Polaris.Scheduler.DeliveryCalls

namespace Polaris
open PyJson SortedDict ChannelStore SchedulerStore

namespace DeliveryHarness
variable (harness : DeliveryHarness)

/-- What is about to be enqueued for an occurrence. -/
def prepared (runs : String → Option RunView) (run : JobRun) :
    Option (Except PyError (List OutboundMessage)) :=
  run.payload.delivery.bind fun target => run.polarisRunId.map fun polarisRunId =>
    harness.preparedDelivery target polarisRunId (runs polarisRunId)

/-- The chunks of the result of an occurrence, if it is one that can be delivered. -/
def resultChunks (runs : String → Option RunView) (run : JobRun) : Option (List OutboundMessage) :=
  match harness.prepared runs run with
  | some (.ok parts) =>
      if parts.all fun part => PyVal.entriesFinite part.metadata then some parts else none
  | _ => none

def InOutbox (outbox : List OutboxRow) (part : OutboundMessage) : Prop :=
  ∃ row ∈ outbox, row.idempotencyKey = part.idempotencyKey ∧
    SameContent (some row) (harness.store.outboxEntry part)

/-- All the chunks of the result are in the outbox. -/
def Durable (runs : String → Option RunView) (outbox : List OutboxRow) (run : JobRun) : Prop :=
  ∃ parts, harness.resultChunks runs run = some parts ∧ ∀ part ∈ parts, harness.InOutbox outbox part

/-- The row is a chunk of the result. -/
def IsChunkOf (runs : String → Option RunView) (run : JobRun) (row : OutboxRow) : Prop :=
  ∃ parts, harness.resultChunks runs run = some parts ∧ ∃ part ∈ parts,
    part.idempotencyKey = row.idempotencyKey ∧
      SameContent (some row) (harness.store.outboxEntry part)

end DeliveryHarness

/-- The deliveries that the scheduler has recorded agree with the outbox. -/
structure DeliveriesAgree (harness : DeliveryHarness) (s : Delivering) : Prop where
  keyed : Table.Keyed OutboxRow.idempotencyKey s.outbox
  once : ∀ run ∈ s.tables.runs, ∀ polarisRunId, run.polarisRunId = some polarisRunId →
    ∀ row ∈ s.outbox, IsDeliveryKey polarisRunId row.idempotencyKey →
      harness.IsChunkOf s.runs run row
  delivered : ∀ run ∈ s.tables.runs, run.deliveryStatus = .succeeded →
    harness.Durable s.runs s.outbox run
  undelivered : ∀ run ∈ s.tables.runs,
    run.deliveryStatus = .suppressed ∨ run.deliveryStatus = .failed → ∀ polarisRunId,
      run.polarisRunId = some polarisRunId → ∀ row ∈ s.outbox,
        ¬IsDeliveryKey polarisRunId row.idempotencyKey

/-- No chunk of a delivery that is pending is in the outbox when it is cancelled, and none is
enqueued after the delivery has been suppressed. -/
def Timely (s : Delivering) : DeliveryEvent → Prop
  | .cancels asked => ∀ run ∈ s.tables.runs, asked run = true → run.status = .succeeded →
      run.deliveryStatus = .pending → ∀ polarisRunId, run.polarisRunId = some polarisRunId →
        ∀ row ∈ s.outbox, ¬IsDeliveryKey polarisRunId row.idempotencyKey
  | .enqueues runId => ∀ run ∈ s.tables.runs, run.id = runId → run.deliveryStatus ≠ .suppressed
  | .other => True

namespace Delivering
variable {harness : DeliveryHarness} {s : Delivering}

/-- What a deliverer has found out, and what it has done. -/
def Knows (harness : DeliveryHarness) (s : Delivering) (run : JobRun) : DeliveryPhase → Prop
  | .starting => True
  | .calling target polarisRunId =>
      run.payload.delivery = some target ∧ run.polarisRunId = some polarisRunId
  | .enqueueing left => ∃ done, harness.prepared s.runs run = some (.ok (done ++ left)) ∧
      ∀ part ∈ done, PyVal.entriesFinite part.metadata = true ∧ harness.InOutbox s.outbox part
  | .recording status _ => status = .succeeded ∧ harness.Durable s.runs s.outbox run ∨
      status = .failed ∧ harness.resultChunks s.runs run = none

structure TaskKnows (s : Delivering) (task : ScheduledTask) : Prop where
  submitted : ∀ polarisRunId, task.phase.polarisRunId = some polarisRunId →
    s.occurrence polarisRunId = some task.runId
  returned : ∀ polarisRunId, task.phase = .returned polarisRunId →
    ∃ view, s.runs polarisRunId = some view ∧ view.status = .completed

structure Inv (harness : DeliveryHarness) (s : Delivering) : Prop where
  keyed : RunsKeyed s.tables
  coherent : ∀ runId run, s.tables.findRun runId = some run → run.Coherent
  submitted : ∀ polarisRunId runId, s.occurrence polarisRunId = some runId →
    (s.runs polarisRunId).isSome = true
  attached : ∀ runId run, s.tables.findRun runId = some run → ∀ polarisRunId,
    run.polarisRunId = some polarisRunId → s.occurrence polarisRunId = some runId
  ended : ∀ runId run, s.tables.findRun runId = some run → run.status = .succeeded →
    ∃ polarisRunId view, run.polarisRunId = some polarisRunId ∧
      s.runs polarisRunId = some view ∧ view.status = .completed
  delivered : ∀ runId run, s.tables.findRun runId = some run → run.deliveryStatus = .succeeded →
    harness.Durable s.runs s.outbox run
  failed : ∀ runId run, s.tables.findRun runId = some run → run.deliveryStatus = .failed →
    harness.resultChunks s.runs run = none
  rows : Table.Keyed OutboxRow.idempotencyKey s.outbox
  chunks : ∀ row ∈ s.outbox, ∀ polarisRunId, IsDeliveryKey polarisRunId row.idempotencyKey →
    ∃ runId run, s.tables.findRun runId = some run ∧ run.polarisRunId = some polarisRunId ∧
      run.status = .succeeded ∧ run.deliveryStatus ≠ .suppressed ∧ run.deliveryStatus ≠ .failed ∧
        harness.IsChunkOf s.runs run row
  tasks : ∀ task ∈ s.tasks, TaskKnows s task
  deliverers : ∀ d ∈ s.deliverers, d.phase ≠ .starting → ∃ run,
    s.tables.findRun d.runId = some run ∧ run.status = .succeeded ∧ Knows harness s run d.phase

/-! The result of an occurrence. -/

section
variable {runs : String → Option RunView} {run run' : JobRun} {outbox outbox' : List OutboxRow}
  {parts : List OutboundMessage}

theorem resultChunks_eq_some : harness.resultChunks runs run = some parts ↔
    harness.prepared runs run = some (.ok parts) ∧
      ∀ part ∈ parts, PyVal.entriesFinite part.metadata = true := by
  unfold DeliveryHarness.resultChunks
  split
  · rename_i made hmade
    rw [hmade]
    simp only [Option.ite_none_right_eq_some, List.all_eq_true, Option.some.injEq, Except.ok.injEq]
    constructor
    · rintro ⟨hfinite, rfl⟩
      exact ⟨rfl, hfinite⟩
    · rintro ⟨rfl, hfinite⟩
      exact ⟨hfinite, rfl⟩
  · rename_i hother
    exact ⟨fun h => by simp at h, fun h => absurd h.1 (hother parts)⟩

theorem prepared_congr (hpayload : run'.payload = run.payload)
    (hpolaris : run'.polarisRunId = run.polarisRunId) :
    harness.prepared runs run' = harness.prepared runs run := by
  rw [DeliveryHarness.prepared, DeliveryHarness.prepared, hpayload, hpolaris]

theorem resultChunks_congr (hpayload : run'.payload = run.payload)
    (hpolaris : run'.polarisRunId = run.polarisRunId) :
    harness.resultChunks runs run' = harness.resultChunks runs run := by
  rw [DeliveryHarness.resultChunks, DeliveryHarness.resultChunks, prepared_congr hpayload hpolaris]

/-- The chunks are those of the run of the service that the occurrence is attached to. -/
theorem prepared_isDelivery (h : harness.prepared runs run = some (.ok parts)) :
    ∃ polarisRunId, run.polarisRunId = some polarisRunId ∧ IsDelivery polarisRunId parts := by
  simp only [DeliveryHarness.prepared, Option.bind_eq_some_iff, Option.map_eq_some_iff] at h
  obtain ⟨target, -, polarisRunId, hpolaris, hparts⟩ := h
  exact ⟨polarisRunId, hpolaris, DeliveryHarness.prepared_isDelivery hparts⟩

/-- A chunk that can be stored says that all of them can. -/
theorem resultChunks_of_finite (h : harness.prepared runs run = some (.ok parts))
    {part : OutboundMessage} (hpart : part ∈ parts)
    (hfinite : PyVal.entriesFinite part.metadata = true) :
    harness.resultChunks runs run = some parts := by
  obtain ⟨polarisRunId, -, hdelivery⟩ := prepared_isDelivery h
  obtain ⟨metadata, hmetadata⟩ := hdelivery.metadata
  refine resultChunks_eq_some.2 ⟨h, fun other hother => ?_⟩
  rwa [hmetadata other hother, ← hmetadata part hpart]

theorem resultChunks_of_not_finite (h : harness.prepared runs run = some (.ok parts))
    {part : OutboundMessage} (hpart : part ∈ parts)
    (hfinite : PyVal.entriesFinite part.metadata ≠ true) : harness.resultChunks runs run = none := by
  rw [Option.eq_none_iff_forall_ne_some]
  intro made hmade
  obtain ⟨hprepared, hall⟩ := resultChunks_eq_some.1 hmade
  obtain rfl : parts = made := by
    rw [h] at hprepared
    exact Except.ok.inj (Option.some.inj hprepared)
  exact hfinite (hall part hpart)

end

/-! What a call makes of an occurrence that has succeeded. -/

section
variable {β : Type} {c : SchedulerCall β} {t t' : SchedulerTables} {runId : String}
  {run run' : JobRun}

/-- An occurrence that has succeeded stays with its result. -/
structure Settled (c : SchedulerCall β) (run run' : JobRun) : Prop where
  succeeded : run'.status = .succeeded
  payload : run'.payload = run.payload
  polaris : run'.polarisRunId = run.polarisRunId
  delivery : run'.deliveryStatus = run.deliveryStatus ∨ run.deliveryStatus = .pending ∧
    (c.cancels run = true ∧ run'.deliveryStatus = .suppressed ∨
      c.delivery = some (run.id, run'.deliveryStatus))

theorem settled_of_move (hcoherent : run.Coherent) (hsucceeded : run.status = .succeeded)
    (hdelivery : DeliveryMove c run run') (hmove : RunMove runId (some run) (some run')) :
    Settled c run run' := by
  obtain ⟨_, hsame, -, hprecedes⟩ := hmove.preserves hcoherent
  obtain rfl := Option.some.inj hsame
  have hinactive : run.status.isActive = false := by rw [hsucceeded]; rfl
  refine ⟨(hprecedes.status hinactive).trans hsucceeded, hprecedes.payload, ?_,
    hdelivery.delivered hsucceeded⟩
  rcases hdelivery.attached with hsame | ⟨hactive, -⟩
  · exact hsame
  · rw [hinactive] at hactive
    cases hactive

theorem settled_of_write (h : RunsWrite c t t') (hcoherent : run.Coherent)
    (hrun : t.findRun runId = some run) (hsucceeded : run.status = .succeeded) :
    ∃ run', t'.findRun runId = some run' ∧ Settled c run run' := by
  obtain ⟨run', hrun', hdelivery, hmove⟩ := h.kept hrun
  exact ⟨run', hrun', settled_of_move hcoherent hsucceeded hdelivery hmove⟩

/-- An outcome that is recorded after a call has been recorded before, or the call records it. -/
theorem decided_of_write (h : RunsWrite c t t')
    (hcoherent : ∀ runId run, t.findRun runId = some run → run.Coherent)
    (hrun' : t'.findRun runId = some run')
    (hstatus : run'.deliveryStatus = .succeeded ∨ run'.deliveryStatus = .failed) :
    ∃ run, t.findRun runId = some run ∧ Settled c run run' ∧
      (run'.deliveryStatus = run.deliveryStatus ∨
        c.delivery = some (runId, run'.deliveryStatus)) := by
  rcases h.find hrun' with ⟨run, hrun, hdelivery, hmove⟩ | ⟨-, hclaimed, hcoherent'⟩
  · have hrunCoherent := hcoherent runId run hrun
    obtain ⟨_, hsame, hcoherent', -⟩ := hmove.preserves hrunCoherent
    obtain rfl := Option.some.inj hsame
    rcases hdelivery.succeeded (hcoherent'.delivered hstatus) with
      hbefore | ⟨hactive, -, hkept, -⟩
    · have hsettled := settled_of_move hrunCoherent hbefore hdelivery hmove
      refine ⟨run, hrun, hsettled, ?_⟩
      rcases hsettled.delivery with hkept | ⟨-, ⟨-, hsuppressed⟩ | hrecorded⟩
      · exact .inl hkept
      · simp [hsuppressed] at hstatus
      · exact .inr (Table.find_key hrun ▸ hrecorded)
    · obtain ⟨hundelivered, hunfailed⟩ := hrunCoherent.undelivered hactive
      rw [hkept] at hstatus
      exact absurd hstatus (by simp [hundelivered, hunfailed])
  · have hsucceeded := hcoherent'.delivered hstatus
    rw [hclaimed] at hsucceeded
    cases hsucceeded

namespace Settled

theorem prepared (h : Settled c run run') {runs : String → Option RunView} :
    harness.prepared runs run' = harness.prepared runs run := prepared_congr h.payload h.polaris

theorem resultChunks (h : Settled c run run') {runs : String → Option RunView} :
    harness.resultChunks runs run' = harness.resultChunks runs run :=
  resultChunks_congr h.payload h.polaris

theorem durable (h : Settled c run run') {runs : String → Option RunView}
    {outbox : List OutboxRow} (hdurable : harness.Durable runs outbox run) :
    harness.Durable runs outbox run' := by
  obtain ⟨parts, hparts, hall⟩ := hdurable
  exact ⟨parts, h.resultChunks.trans hparts, hall⟩

theorem isChunkOf (h : Settled c run run') {runs : String → Option RunView} {row : OutboxRow}
    (hchunk : harness.IsChunkOf runs run row) : harness.IsChunkOf runs run' row := by
  obtain ⟨parts, hparts, hpart⟩ := hchunk
  exact ⟨parts, h.resultChunks.trans hparts, hpart⟩

theorem knows (h : Settled c run run') {phase : DeliveryPhase} (hknows : Knows harness s run phase) :
    Knows harness s run' phase := by
  cases phase with
  | starting => trivial
  | calling => exact ⟨by rw [h.payload]; exact hknows.1, by rw [h.polaris]; exact hknows.2⟩
  | enqueueing left =>
      obtain ⟨done, hprepared, hdone⟩ := hknows
      exact ⟨done, h.prepared.trans hprepared, hdone⟩
  | recording =>
      rcases hknows with ⟨hstatus, hdurable⟩ | ⟨hstatus, hnone⟩
      · exact .inl ⟨hstatus, h.durable hdurable⟩
      · exact .inr ⟨hstatus, h.resultChunks.trans hnone⟩

end Settled

/-- What a call has to know for the records to go on agreeing with the outbox. -/
structure Permits (harness : DeliveryHarness) (s : Delivering) (c : SchedulerCall β) : Prop where
  attachment : ∀ runId polarisRunId, c.attachment = some (runId, polarisRunId) →
    s.occurrence polarisRunId = some runId
  success : ∀ runId, c.success = some runId → ∃ polarisRunId view,
    c.attachment = some (runId, polarisRunId) ∧ s.runs polarisRunId = some view ∧
      view.status = .completed
  cancels : ∀ run ∈ s.tables.runs, c.cancels run = true → run.status = .succeeded →
    run.deliveryStatus = .pending → ∀ polarisRunId, run.polarisRunId = some polarisRunId →
      ∀ row ∈ s.outbox, ¬IsDeliveryKey polarisRunId row.idempotencyKey
  delivery : ∀ runId status, c.delivery = some (runId, status) → ∀ run,
    s.tables.findRun runId = some run →
      status = .succeeded ∧ harness.Durable s.runs s.outbox run ∨
        status = .failed ∧ harness.resultChunks s.runs run = none

/-- A call that attaches nothing, lets nothing succeed and records no delivery. -/
theorem Permits.of_cancels (hattachment : c.attachment = none) (hsuccess : c.success = none)
    (hdelivery : c.delivery = none) (hcancels : Timely s (.cancels fun run => c.cancels run)) :
    Permits harness s c where
  attachment _ _ h := by rw [hattachment] at h; cases h
  success _ h := by rw [hsuccess] at h; cases h
  cancels := hcancels
  delivery _ _ h := by rw [hdelivery] at h; cases h

theorem Permits.of_quiet (hattachment : c.attachment = none) (hsuccess : c.success = none)
    (hdelivery : c.delivery = none) (hcancels : ∀ run, c.cancels run = false) :
    Permits harness s c :=
  .of_cancels hattachment hsuccess hdelivery fun run _ h =>
    absurd ((hcancels run).symm.trans h) Bool.false_ne_true

theorem Inv.call (h : Inv harness s) (hpermits : Permits harness s c)
    (hwrite : RunsWrite c s.tables t) : Inv harness (s.after t) where
  keyed := hwrite.2
  coherent runId run' hrun' := by
    rcases hwrite.find hrun' with ⟨run, hrun, -, hmove⟩ | ⟨-, -, hcoherent⟩
    · obtain ⟨_, hsame, hcoherent, -⟩ := hmove.preserves (h.coherent runId run hrun)
      obtain rfl := Option.some.inj hsame
      exact hcoherent
    · exact hcoherent
  submitted := h.submitted
  attached runId run' hrun' polarisRunId hpolaris := by
    rcases hwrite.find hrun' with ⟨run, hrun, hdelivery, -⟩ | ⟨hnone, -⟩
    · rcases hdelivery.attached with hsame | ⟨-, attached, hattached, hsome⟩
      · exact h.attached runId run hrun polarisRunId (hsame ▸ hpolaris)
      · obtain rfl := Option.some.inj (hsome.symm.trans hpolaris)
        rw [Table.find_key hrun] at hattached
        exact hpermits.attachment runId attached hattached
    · rw [hnone] at hpolaris
      cases hpolaris
  ended runId run' hrun' hsucceeded := by
    rcases hwrite.find hrun' with ⟨run, hrun, hdelivery, hmove⟩ | ⟨-, hclaimed, -⟩
    · rcases hdelivery.succeeded hsucceeded with hbefore | ⟨-, hsuccess, -, hattached⟩
      · have hsettled := settled_of_move (h.coherent runId run hrun) hbefore hdelivery hmove
        rw [hsettled.polaris]
        exact h.ended runId run hrun hbefore
      · obtain ⟨polarisRunId, view, hattachment, hview⟩ := hpermits.success run.id hsuccess
        exact ⟨polarisRunId, view, hattached polarisRunId hattachment, hview⟩
    · rw [hclaimed] at hsucceeded
      cases hsucceeded
  delivered runId run' hrun' hstatus := by
    obtain ⟨run, hrun, hsettled, hkept | hrecorded⟩ :=
      decided_of_write hwrite h.coherent hrun' (.inl hstatus)
    · exact hsettled.durable (h.delivered runId run hrun (hkept ▸ hstatus))
    · rw [hstatus] at hrecorded
      rcases hpermits.delivery _ _ hrecorded run hrun with ⟨-, hdurable⟩ | ⟨hfailed, -⟩
      · exact hsettled.durable hdurable
      · cases hfailed
  failed runId run' hrun' hstatus := by
    obtain ⟨run, hrun, hsettled, hkept | hrecorded⟩ :=
      decided_of_write hwrite h.coherent hrun' (.inr hstatus)
    · exact hsettled.resultChunks.trans (h.failed runId run hrun (hkept ▸ hstatus))
    · rw [hstatus] at hrecorded
      rcases hpermits.delivery _ _ hrecorded run hrun with ⟨hsucceeded, -⟩ | ⟨-, hnone⟩
      · cases hsucceeded
      · exact hsettled.resultChunks.trans hnone
  rows := h.rows
  chunks row hrow polarisRunId hkey := by
    obtain ⟨runId, run, hrun, hpolaris, hsucceeded, hunsuppressed, hunfailed, hchunk⟩ :=
      h.chunks row hrow polarisRunId hkey
    obtain ⟨run', hrun', hsettled⟩ :=
      settled_of_write hwrite (h.coherent runId run hrun) hrun hsucceeded
    refine ⟨runId, run', hrun', hsettled.polaris.trans hpolaris, hsettled.succeeded, ?_, ?_,
      hsettled.isChunkOf hchunk⟩
    · intro hsuppressed
      rcases hsettled.delivery with hkept | ⟨hpending, ⟨hcancels, -⟩ | hrecorded⟩
      · exact hunsuppressed (hkept ▸ hsuppressed)
      · exact hpermits.cancels run (Table.find_mem hrun) hcancels hsucceeded hpending polarisRunId
          hpolaris row hrow hkey
      · rw [Table.find_key hrun, hsuppressed] at hrecorded
        rcases hpermits.delivery _ _ hrecorded run hrun with ⟨hstatus, -⟩ | ⟨hstatus, -⟩ <;>
          cases hstatus
    · intro hfailed
      rcases hsettled.delivery with hkept | ⟨-, ⟨-, hsuppressed⟩ | hrecorded⟩
      · exact hunfailed (hkept ▸ hfailed)
      · rw [hfailed] at hsuppressed
        cases hsuppressed
      · rw [Table.find_key hrun, hfailed] at hrecorded
        rcases hpermits.delivery _ _ hrecorded run hrun with ⟨hstatus, -⟩ | ⟨-, hnone⟩
        · cases hstatus
        · obtain ⟨parts, hparts, -⟩ := hchunk
          rw [hparts] at hnone
          cases hnone
  tasks task htask := ⟨(h.tasks task htask).submitted, (h.tasks task htask).returned⟩
  deliverers d hd hphase := by
    obtain ⟨run, hrun, hsucceeded, hknows⟩ := h.deliverers d hd hphase
    obtain ⟨run', hrun', hsettled⟩ :=
      settled_of_write hwrite (h.coherent d.runId run hrun) hrun hsucceeded
    exact ⟨run', hrun', hsettled.succeeded, hsettled.knows hknows⟩

end

/-! The other parts of a state. -/

section
variable {t : SchedulerTables} {outbox outbox' : List OutboxRow} {runs : String → Option RunView}

theorem Inv.withTasks (h : Inv harness s) {tasks : List ScheduledTask}
    (htasks : ∀ task ∈ tasks, TaskKnows s task) : Inv harness { s with tasks := tasks } :=
  { h with tasks := fun task htask => ⟨(htasks task htask).submitted, (htasks task htask).returned⟩ }

theorem Inv.withDeliverers (h : Inv harness s) {deliverers : List Deliverer}
    (hdeliverers : ∀ d ∈ deliverers, d.phase ≠ .starting → ∃ run,
      s.tables.findRun d.runId = some run ∧ run.status = .succeeded ∧ Knows harness s run d.phase) :
    Inv harness { s with deliverers := deliverers } :=
  { h with
    tasks := fun task htask => ⟨(h.tasks task htask).submitted, (h.tasks task htask).returned⟩
    deliverers := hdeliverers }

theorem Inv.moves (h : Inv harness s) (hcall : Inv harness (s.after t)) {n : ℕ}
    {task : ScheduledTask} (hknows : TaskKnows s task) : Inv harness (s.moves n task t) := by
  have hmoved : Inv harness { s.after t with tasks := s.tasks.set n task } := by
    refine hcall.withTasks fun other hother => ?_
    rcases List.mem_or_eq_of_mem_set hother with hother | rfl
    · exact ⟨(h.tasks other hother).submitted, (h.tasks other hother).returned⟩
    · exact ⟨hknows.submitted, hknows.returned⟩
  exact hmoved

theorem Inv.proceeds (h : Inv harness s) {n : ℕ} {runId : String} {phase : Option DeliveryPhase}
    (hphase : ∀ next, phase = some next → next ≠ .starting → ∃ run,
      s.tables.findRun runId = some run ∧ run.status = .succeeded ∧ Knows harness s run next) :
    Inv harness (s.proceeds n runId phase s.outbox) := by
  refine h.withDeliverers fun d hd hstarted => ?_
  cases phase with
  | none => exact h.deliverers d (List.mem_of_mem_eraseIdx hd) hstarted
  | some next =>
      rcases List.mem_or_eq_of_mem_set hd with hd | rfl
      · exact h.deliverers d hd hstarted
      · exact hphase next rfl hstarted

/-! The runs of the service go on. -/

theorem prepared_runs {run : JobRun} {polarisRunId : String}
    (hpolaris : run.polarisRunId = some polarisRunId)
    (hsame : runs polarisRunId = s.runs polarisRunId) :
    harness.prepared runs run = harness.prepared s.runs run := by
  simp only [DeliveryHarness.prepared, hpolaris, Option.map_some, hsame]

theorem Inv.sameResult (h : Inv harness s) (hruns : RunsGoOn s.runs runs) {runId : String}
    {run : JobRun} (hrun : s.tables.findRun runId = some run) (hsucceeded : run.status = .succeeded) :
    harness.prepared runs run = harness.prepared s.runs run ∧
      harness.resultChunks runs run = harness.resultChunks s.runs run := by
  obtain ⟨polarisRunId, view, hpolaris, hview, hended⟩ := h.ended runId run hrun hsucceeded
  have hterminal : view.status.isTerminal = true := by rw [hended]; rfl
  have hsame : runs polarisRunId = s.runs polarisRunId := by
    rw [hruns.ended polarisRunId view hview hterminal, hview]
  have hprepared : harness.prepared runs run = harness.prepared s.runs run :=
    prepared_runs hpolaris hsame
  exact ⟨hprepared, by rw [DeliveryHarness.resultChunks, DeliveryHarness.resultChunks, hprepared]⟩

theorem Inv.serves (h : Inv harness s) (hruns : RunsGoOn s.runs runs) :
    Inv harness { s with runs := runs } := by
  have hended : ∀ {polarisRunId view}, s.runs polarisRunId = some view → view.status = .completed →
      runs polarisRunId = some view := fun hview hcompleted =>
    hruns.ended _ _ hview (by rw [hcompleted]; rfl)
  exact {
    keyed := h.keyed
    coherent := h.coherent
    submitted := fun polarisRunId runId hsubmitted =>
      hruns.kept polarisRunId (h.submitted polarisRunId runId hsubmitted)
    attached := h.attached
    ended := fun runId run hrun hsucceeded => by
      obtain ⟨polarisRunId, view, hpolaris, hview, hcompleted⟩ := h.ended runId run hrun hsucceeded
      exact ⟨polarisRunId, view, hpolaris, hended hview hcompleted, hcompleted⟩
    delivered := fun runId run hrun hstatus => by
      obtain ⟨parts, hparts, hall⟩ := h.delivered runId run hrun hstatus
      have hsucceeded := (h.coherent runId run hrun).delivered (.inl hstatus)
      exact ⟨parts, (h.sameResult hruns hrun hsucceeded).2.trans hparts, hall⟩
    failed := fun runId run hrun hstatus => by
      have hsucceeded := (h.coherent runId run hrun).delivered (.inr hstatus)
      exact (h.sameResult hruns hrun hsucceeded).2.trans (h.failed runId run hrun hstatus)
    rows := h.rows
    chunks := fun row hrow polarisRunId hkey => by
      obtain ⟨runId, run, hrun, hpolaris, hsucceeded, hunsuppressed, hunfailed, parts, hparts, hpart⟩ :=
        h.chunks row hrow polarisRunId hkey
      exact ⟨runId, run, hrun, hpolaris, hsucceeded, hunsuppressed, hunfailed, parts,
        (h.sameResult hruns hrun hsucceeded).2.trans hparts, hpart⟩
    tasks := fun task htask => by
      refine ⟨(h.tasks task htask).submitted, fun polarisRunId hphase => ?_⟩
      obtain ⟨view, hview, hcompleted⟩ := (h.tasks task htask).returned polarisRunId hphase
      exact ⟨view, hended hview hcompleted, hcompleted⟩
    deliverers := fun d hd hphase => by
      obtain ⟨run, hrun, hsucceeded, hknows⟩ := h.deliverers d hd hphase
      obtain ⟨hprepared, hresult⟩ := h.sameResult hruns hrun hsucceeded
      refine ⟨run, hrun, hsucceeded, ?_⟩
      cases hd : d.phase with
      | starting => trivial
      | calling target polarisRunId =>
          rw [hd] at hknows
          exact hknows
      | enqueueing left =>
          rw [hd] at hknows
          obtain ⟨done, hmade, hdone⟩ := hknows
          exact ⟨done, hprepared.trans hmade, hdone⟩
      | recording status error =>
          rw [hd] at hknows
          rcases hknows with ⟨hstatus, parts, hparts, hall⟩ | ⟨hstatus, hnone⟩
          · exact .inl ⟨hstatus, parts, hresult.trans hparts, hall⟩
          · exact .inr ⟨hstatus, hresult.trans hnone⟩ }

theorem Inv.submits (h : Inv harness s) {n : ℕ} {task : ScheduledTask} {polarisRunId : String}
    {run : RunView} (hfresh : s.runs polarisRunId = none) :
    Inv harness (s.submits n task polarisRunId run) := by
  have hunused : ∀ {other runId}, s.occurrence other = some runId → other ≠ polarisRunId := by
    rintro other runId hsubmitted rfl
    have hthere := h.submitted other runId hsubmitted
    rw [hfresh] at hthere
    cases hthere
  have hruns : RunsGoOn s.runs (Function.update s.runs polarisRunId (some run)) := by
    refine ⟨fun other hthere => ?_, fun other view hview _ => ?_⟩
    · by_cases hother : other = polarisRunId
      · rw [hother, Function.update_self]
        rfl
      · rwa [Function.update_of_ne hother]
    · rw [Function.update_of_ne, hview]
      rintro rfl
      rw [hfresh] at hview
      cases hview
  have hkept : ∀ {other runId}, s.occurrence other = some runId →
      Function.update s.occurrence polarisRunId (some task.runId) other = some runId :=
    fun hsubmitted => by rw [Function.update_of_ne (hunused hsubmitted), hsubmitted]
  have hserved := h.serves hruns
  exact { hserved with
    submitted := fun other runId hsubmitted => by
      by_cases hother : other = polarisRunId
      · change (Function.update s.runs polarisRunId (some run) other).isSome = true
        rw [hother, Function.update_self]
        rfl
      · refine hserved.submitted other runId ?_
        change Function.update s.occurrence polarisRunId (some task.runId) other = _ at hsubmitted
        rwa [Function.update_of_ne hother] at hsubmitted
    attached := fun runId row hrow other hother => hkept (h.attached runId row hrow other hother)
    tasks := fun other hother => by
      rcases List.mem_or_eq_of_mem_set hother with hother | rfl
      · exact ⟨fun id hid => hkept ((h.tasks other hother).submitted id hid),
          (hserved.tasks other hother).returned⟩
      · refine ⟨fun id hid => ?_, fun id hid => by cases hid⟩
        obtain rfl : polarisRunId = id := Option.some.inj hid
        exact Function.update_self ..
    deliverers := hserved.deliverers }

end

end Delivering

end Polaris
