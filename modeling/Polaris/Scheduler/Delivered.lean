import Polaris.Scheduler.DeliveryInvariant

namespace Polaris
open PyJson SortedDict ChannelStore SchedulerStore

/-! What an enqueue makes of the outbox. -/

section
variable {store : ChannelStore} {part : OutboundMessage} {now : Timestamp}
  {outbox : List OutboxRow} {t : ChannelTables}

theorem metadata_finite (h : part.toDict.allFinite = true) :
    PyVal.entriesFinite part.metadata = true := by
  simp only [OutboundMessage.toDict, dict, PyVal.allFinite, PyVal.entriesFinite, Bool.and_eq_true] at h
  exact h.2.2.2.2.2.2.2.2.2.2.2.2.1

structure Enqueued (store : ChannelStore) (part : OutboundMessage) (outbox outbox' : List OutboxRow) :
    Prop where
  keyed : Table.Keyed OutboxRow.idempotencyKey outbox'
  kept : ∀ row ∈ outbox, row ∈ outbox'
  added : ∀ row ∈ outbox', row ∈ outbox ∨ row.idempotencyKey = part.idempotencyKey
  content : ∀ row ∈ outbox', row.idempotencyKey = part.idempotencyKey →
    SameContent (some row) (store.outboxEntry part)
  there : ∃ row ∈ outbox', row.idempotencyKey = part.idempotencyKey

theorem enqueueOutbox_rows {row : OutboxRow} (hkeyed : Table.Keyed OutboxRow.idempotencyKey outbox)
    (h : enqueueOutbox store part ⟨now, now, ""⟩ ⟨[], outbox, [], []⟩ = (.ok row, t)) :
    PyVal.entriesFinite part.metadata = true ∧ Enqueued store part outbox t.outbox := by
  obtain ⟨json, hash, hjson, hhash, ht, hfound, hcontent, htext⟩ :=
    enqueueOutboxLocked_ok (Txn.atomically_ok.1 h)
  have hentry : store.outboxEntry part = some (pendingRow part json hash 0) := by
    simp only [outboxEntry, hjson, hhash]
  have hmember : row ∈ t.outbox := Table.find_mem hfound
  have hkey : row.idempotencyKey = part.idempotencyKey := Table.find_key hfound
  have hrows : t.outbox = outbox ∨
      Table.find OutboxRow.idempotencyKey part.idempotencyKey outbox = none ∧
        t.outbox = outbox ++ [pendingRow part json hash now] := by
    rw [ht, insertOutbox]
    split
    · exact .inl rfl
    · rename_i hnone
      exact .inr ⟨Option.not_isSome_iff_eq_none.1 hnone, rfl⟩
  have hkeyed' : Table.Keyed OutboxRow.idempotencyKey t.outbox := by
    rcases hrows with hsame | ⟨hnone, hadded⟩
    · rwa [hsame]
    · rw [hadded]
      exact hkeyed.append hnone
  refine ⟨metadata_finite (canonicalJson_eq_ok hjson).1, hkeyed', fun other hother => ?_,
    fun other hother => ?_, fun other hother hsame => ?_, row, hmember, hkey⟩
  · rcases hrows with hsame | ⟨-, hadded⟩
    · rwa [hsame]
    · rw [hadded]
      exact List.mem_append_left _ hother
  · rcases hrows with hsame | ⟨-, hadded⟩
    · exact .inl (hsame ▸ hother)
    · rw [hadded, List.mem_append, List.mem_singleton] at hother
      exact hother.imp_right fun hnew => by rw [hnew]; rfl
  · obtain rfl := hkeyed'.eq_of_key hother hmember (hsame.trans hkey.symm)
    simp [SameContent, hentry, pendingRow, hcontent, htext]

/-- A chunk that cannot be enqueued cannot be stored, unless another row has its key. -/
theorem enqueueOutbox_fails {exc : PyError}
    (hagrees : ∀ row ∈ outbox, row.idempotencyKey = part.idempotencyKey →
      SameContent (some row) (store.outboxEntry part))
    (h : enqueueOutbox store part ⟨now, now, ""⟩ ⟨[], outbox, [], []⟩ = (.error exc, t)) :
    t.outbox = outbox ∧ PyVal.entriesFinite part.metadata ≠ true := by
  have hsame := Txn.Atomic.state (Txn.atomically_atomic _) h
  refine ⟨by rw [hsame], fun hfinite => ?_⟩
  let w : Notifying := ⟨[], outbox, [], fun _ => ⟨.completed, [], none⟩, []⟩
  have hheld : ∀ held ∈ w.state.items, held.1 = part.idempotencyKey →
      SameContent held.2 (store.outboxEntry part) := by
    intro held hmem hkey
    obtain ⟨row, hrow, rfl⟩ := List.mem_map.1 hmem
    exact hagrees row hrow hkey
  have hperform : (NotifyCall.enqueueOutbox part).perform store now w =
      (.error exc, { w with outbox := t.outbox }) := by
    simp only [NotifyCall.perform, onOutbox, w, h]
  obtain ⟨⟨row, hrow⟩, -⟩ := enqueueOutbox_state hfinite hheld hperform
  cases hrow

end

namespace Delivering
variable {store : SchedulerStore} {engine : SchedulerEngine} {harness : DeliveryHarness}
  {s s' : Delivering} {event : DeliveryEvent} {outbox : List OutboxRow}

/-! The outbox goes on. -/

theorem isDelivery_of_result {run : JobRun} {parts : List OutboundMessage}
    (h : harness.resultChunks s.runs run = some parts) :
    ∃ polarisRunId, run.polarisRunId = some polarisRunId ∧ IsDelivery polarisRunId parts :=
  prepared_isDelivery (resultChunks_eq_some.1 h).1

theorem Inv.withOutbox (h : Inv harness s) (hkeyed : Table.Keyed OutboxRow.idempotencyKey outbox)
    (hkept : ∀ polarisRunId part, IsDeliveryKey polarisRunId part.idempotencyKey →
      harness.InOutbox s.outbox part → harness.InOutbox outbox part)
    (hchunks : ∀ row ∈ outbox, ∀ polarisRunId, IsDeliveryKey polarisRunId row.idempotencyKey →
      ∃ runId run, s.tables.findRun runId = some run ∧ run.polarisRunId = some polarisRunId ∧
        run.status = .succeeded ∧ run.deliveryStatus ≠ .suppressed ∧ run.deliveryStatus ≠ .failed ∧
          harness.IsChunkOf s.runs run row) :
    Inv harness { s with outbox := outbox } := by
  have hdurable : ∀ {run}, harness.Durable s.runs s.outbox run →
      harness.Durable s.runs outbox run := by
    rintro run ⟨parts, hparts, hall⟩
    obtain ⟨polarisRunId, -, hdelivery⟩ := isDelivery_of_result hparts
    exact ⟨parts, hparts, fun part hpart => hkept polarisRunId part (hdelivery.keys part hpart)
      (hall part hpart)⟩
  exact { h with
    delivered := fun runId run hrun hstatus => hdurable (h.delivered runId run hrun hstatus)
    rows := hkeyed
    chunks := hchunks
    tasks := fun task htask => ⟨(h.tasks task htask).submitted, (h.tasks task htask).returned⟩
    deliverers := fun d hd hphase => by
      obtain ⟨run, hrun, hsucceeded, hknows⟩ := h.deliverers d hd hphase
      refine ⟨run, hrun, hsucceeded, ?_⟩
      cases hd : d.phase with
      | starting => trivial
      | calling target polarisRunId =>
          rw [hd] at hknows
          exact hknows
      | enqueueing left =>
          rw [hd] at hknows
          obtain ⟨done, hprepared, hdone⟩ := hknows
          obtain ⟨polarisRunId, -, hdelivery⟩ := prepared_isDelivery hprepared
          exact ⟨done, hprepared, fun part hpart => ⟨(hdone part hpart).1, hkept polarisRunId part
            (hdelivery.keys part (List.mem_append_left _ hpart)) (hdone part hpart).2⟩⟩
      | recording status error =>
          rw [hd] at hknows
          exact hknows.imp_left fun hrecorded => ⟨hrecorded.1, hdurable hrecorded.2⟩ }

theorem Inv.sends (h : Inv harness s) (houtbox : OutboxGoesOn s.outbox outbox) :
    Inv harness { s with outbox := outbox } := by
  refine h.withOutbox houtbox.keyed (fun polarisRunId part hkey hthere => ?_)
    fun row' hrow' polarisRunId hkey => ?_
  · obtain ⟨row, hrow, hsame, hcontent⟩ := hthere
    obtain ⟨row', hrow', hsame'⟩ := houtbox.kept row hrow
    obtain ⟨before, hbefore, hkeys, hcontents⟩ :=
      houtbox.others row' hrow' polarisRunId (by rw [hsame', hsame]; exact hkey)
    obtain rfl := h.rows.eq_of_key hbefore hrow (hkeys.trans hsame')
    exact ⟨row', hrow', hsame'.trans hsame, hcontents.trans hcontent⟩
  · obtain ⟨row, hrow, hsame, hcontent⟩ := houtbox.others row' hrow' polarisRunId hkey
    obtain ⟨runId, run, hrun, hpolaris, hsucceeded, hunsuppressed, hunfailed, parts, hparts, part,
      hpart, hpartKey, hpartContent⟩ := h.chunks row hrow polarisRunId (by rwa [hsame])
    exact ⟨runId, run, hrun, hpolaris, hsucceeded, hunsuppressed, hunfailed, parts, hparts, part,
      hpart, hpartKey.trans hsame, hcontent.trans hpartContent⟩

/-- What is in the outbox under the key of a chunk is the chunk. -/
theorem Inv.agrees (h : Inv harness s) {runId : String} {run : JobRun}
    {parts : List OutboundMessage} {part : OutboundMessage}
    (hrun : s.tables.findRun runId = some run)
    (hprepared : harness.prepared s.runs run = some (.ok parts)) (hpart : part ∈ parts) :
    ∀ row ∈ s.outbox, row.idempotencyKey = part.idempotencyKey →
      SameContent (some row) (harness.store.outboxEntry part) := by
  intro row hrow hkey
  obtain ⟨polarisRunId, hpolaris, hdelivery⟩ := prepared_isDelivery hprepared
  obtain ⟨runId', run', hrun', hpolaris', -, -, -, parts', hparts', part', hpart', hkey', hcontent⟩ :=
    h.chunks row hrow polarisRunId (hkey ▸ hdelivery.keys part hpart)
  -- the row belongs to the same occurrence, whose chunks have different keys
  have hsubmitted := h.attached runId run hrun polarisRunId hpolaris
  have hsubmitted' := h.attached runId' run' hrun' polarisRunId hpolaris'
  obtain rfl := Option.some.inj (hsubmitted.symm.trans hsubmitted')
  obtain rfl := Option.some.inj (hrun.symm.trans hrun')
  have hmade := (resultChunks_eq_some.1 hparts').1
  obtain rfl := Except.ok.inj (Option.some.inj (hprepared.symm.trans hmade))
  obtain rfl := List.inj_on_of_nodup_map hdelivery.nodup hpart hpart' (hkey.symm.trans hkey'.symm)
  exact hcontent

theorem Inv.enqueues (h : Inv harness s) {n : ℕ} {d : Deliverer} {part : OutboundMessage}
    {parts : List OutboundMessage} {now : Timestamp} {row : OutboxRow} {t : ChannelTables}
    (hd : s.deliverers[n]? = some d) (hphase : d.phase = .enqueueing (part :: parts))
    (henqueue : enqueueOutbox harness.store part ⟨now, now, ""⟩ ⟨[], s.outbox, [], []⟩ = (.ok row, t))
    (htimely : Timely s (.enqueues d.runId)) :
    Inv harness (s.proceeds n d.runId (some (.enqueueing parts)) t.outbox) := by
  obtain ⟨run, hrun, hsucceeded, hknows⟩ :=
    h.deliverers d (List.mem_of_getElem? hd) (by rw [hphase]; simp)
  rw [hphase] at hknows
  obtain ⟨done, hprepared, hdone⟩ := hknows
  have hpart : part ∈ done ++ part :: parts :=
    List.mem_append_right _ List.mem_cons_self
  obtain ⟨hfinite, henqueued⟩ := enqueueOutbox_rows h.rows henqueue
  have hresult := resultChunks_of_finite hprepared hpart hfinite
  obtain ⟨polarisRunId, hpolaris, hdelivery⟩ := prepared_isDelivery hprepared
  have hkept : ∀ other, harness.InOutbox s.outbox other → harness.InOutbox t.outbox other :=
    fun other ⟨row, hrow, hsame⟩ => ⟨row, henqueued.kept row hrow, hsame⟩
  have hgrown : Inv harness { s with outbox := t.outbox } := by
    refine h.withOutbox henqueued.keyed (fun _ other _ => hkept other) fun row' hrow' other hkey => ?_
    rcases henqueued.added row' hrow' with hbefore | hnew
    · exact h.chunks row' hbefore other hkey
    · obtain rfl := (hdelivery.keys part hpart).inj (hnew ▸ hkey)
      refine ⟨d.runId, run, hrun, hpolaris, hsucceeded,
        htimely run (Table.find_mem hrun) (Table.find_key hrun), fun hfailed => ?_, _, hresult, part,
        hpart, hnew.symm, henqueued.content row' hrow' hnew⟩
      rw [h.failed d.runId run hrun hfailed] at hresult
      cases hresult
  refine hgrown.proceeds fun next hnext _ => ⟨run, hrun, hsucceeded, ?_⟩
  obtain rfl := Option.some.inj hnext
  refine ⟨done ++ [part], by rwa [List.append_assoc, List.singleton_append], fun other hother => ?_⟩
  rcases List.mem_append.1 hother with hother | hother
  · exact (hdone other hother).imp_right (hkept other)
  · obtain rfl := List.mem_singleton.1 hother
    obtain ⟨row', hrow', hkey⟩ := henqueued.there
    exact ⟨hfinite, row', hrow', hkey, henqueued.content row' hrow' hkey⟩

/-! Every step. -/

theorem Inv.callStep (store : SchedulerStore) (h : Inv harness s) {β : Type} {c : SchedulerCall β} {a : Draws}
    {r : Except PyError β} {t : SchedulerTables} (hc : c.isRetry = false)
    (hpermits : Permits harness s c) (hperform : c.perform store a s.tables = (r, t)) :
    Inv harness (s.after t) := h.call hpermits (SchedulerCall.perform_writes h.keyed hc hperform)

/-- A call that only the engine makes, and that leaves what is delivered alone. -/
theorem Inv.quietStep (store : SchedulerStore) (h : Inv harness s) {β : Type} {c : SchedulerCall β} {a : Draws}
    {r : Except PyError β} {t : SchedulerTables} (hc : c.isRetry = false)
    (hattachment : c.attachment = none) (hsuccess : c.success = none) (hdelivery : c.delivery = none)
    (hcancels : ∀ run, c.cancels run = false) (hperform : c.perform store a s.tables = (r, t)) :
    Inv harness (s.after t) :=
  h.callStep store hc (.of_quiet hattachment hsuccess hdelivery hcancels) hperform

theorem taskKnows_of_none {task : ScheduledTask} (h : task.phase.polarisRunId = none) :
    TaskKnows s task := by
  refine ⟨fun polarisRunId hphase => ?_, fun polarisRunId hphase => ?_⟩
  · rw [h] at hphase
    cases hphase
  · rw [hphase] at h
    cases h

theorem Inv.asks (h : Inv harness s) {β : Type} {c : SchedulerCall β} {a : Draws}
    {r : Except PyError β} {t : SchedulerTables} (hasked : c.isAsked = true)
    (hperform : c.perform store a s.tables = (r, t))
    (htimely : Timely s (.cancels fun run => c.cancels run)) : Inv harness (s.after t) := by
  obtain ⟨hretry, hattachment, hsuccess, hdelivery⟩ : c.isRetry = false ∧ c.attachment = none ∧
      c.success = none ∧ c.delivery = none := by
    cases c <;> simp_all [SchedulerCall.isAsked, SchedulerCall.isRetry, SchedulerCall.attachment,
      SchedulerCall.success, SchedulerCall.delivery]
  exact h.callStep store hretry (.of_cancels hattachment hsuccess hdelivery htimely) hperform

theorem Inv.lands (h : Inv harness s) {w : PendingWrite} (htimely : Timely s (.cancels w.cancels)) :
    Inv harness (s.after (w.land s.tables).2) := by
  refine h.call (c := w.call.2) ?_ (PendingWrite.land_writes h.keyed)
  cases w with
  | updateJob => exact .of_quiet rfl rfl rfl fun _ => rfl
  | heartbeat => exact .of_quiet rfl rfl rfl fun _ => rfl
  | requestCancel => exact .of_cancels rfl rfl rfl htimely

/-- What a deliverer knows once it has read the occurrence. -/
theorem Inv.reads (h : Inv harness s) {n : ℕ} {d : Deliverer} {current : JobRun}
    (hrun : s.tables.findRun d.runId = some current) :
    Inv harness (s.proceeds n d.runId (DeliveryPhase.first current) s.outbox) := by
  refine h.proceeds fun next hnext _ => ?_
  unfold DeliveryPhase.first at hnext
  split at hnext
  · cases hnext
  · rename_i hpending
    obtain ⟨hsucceeded, hpending⟩ : current.status = .succeeded ∧
        current.deliveryStatus = .pending := by simpa using hpending
    refine ⟨current, hrun, hsucceeded, ?_⟩
    obtain ⟨target, htarget, rfl⟩ := Option.map_eq_some_iff.1 hnext
    obtain ⟨polarisRunId, -, hpolaris, -⟩ := h.ended d.runId current hrun hsucceeded
    split
    · rename_i hrequested
      exact absurd hpending
        ((h.coherent d.runId current hrun).suppressed hsucceeded hrequested)
    · rw [hpolaris]
      exact ⟨htarget, hpolaris⟩

theorem Inv.prepares (h : Inv harness s) {n : ℕ} {d : Deliverer} {target : List (String × PyVal)}
    {polarisRunId : String} (hd : s.deliverers[n]? = some d)
    (hphase : d.phase = .calling target polarisRunId) :
    Inv harness (s.proceeds n d.runId
      (some (match harness.preparedDelivery target polarisRunId (s.runs polarisRunId) with
        | .ok parts => .enqueueing parts
        | .error exc => .failing exc)) s.outbox) := by
  obtain ⟨run, hrun, hsucceeded, hknows⟩ :=
    h.deliverers d (List.mem_of_getElem? hd) (by rw [hphase]; simp)
  rw [hphase] at hknows
  obtain ⟨htarget, hpolaris⟩ := hknows
  have hprepared : harness.prepared s.runs run =
      some (harness.preparedDelivery target polarisRunId (s.runs polarisRunId)) := by
    simp only [DeliveryHarness.prepared, htarget, hpolaris, Option.bind_some, Option.map_some]
  refine h.proceeds fun next hnext _ => ⟨run, hrun, hsucceeded, ?_⟩
  obtain rfl := Option.some.inj hnext
  cases hmade : harness.preparedDelivery target polarisRunId (s.runs polarisRunId) with
  | ok parts => exact ⟨[], by rw [hprepared, hmade]; rfl, by simp⟩
  | error exc =>
      refine .inr ⟨rfl, ?_⟩
      rw [DeliveryHarness.resultChunks, hprepared, hmade]

theorem Inv.enqueueFails (h : Inv harness s) {n : ℕ} {d : Deliverer} {part : OutboundMessage}
    {parts : List OutboundMessage} {now : Timestamp} {exc : PyError} {t : ChannelTables}
    (hd : s.deliverers[n]? = some d) (hphase : d.phase = .enqueueing (part :: parts))
    (henqueue : enqueueOutbox harness.store part ⟨now, now, ""⟩ ⟨[], s.outbox, [], []⟩ =
      (.error exc, t)) :
    Inv harness (s.proceeds n d.runId (some (.failing exc)) t.outbox) := by
  obtain ⟨run, hrun, hsucceeded, hknows⟩ :=
    h.deliverers d (List.mem_of_getElem? hd) (by rw [hphase]; simp)
  rw [hphase] at hknows
  obtain ⟨done, hprepared, -⟩ := hknows
  have hpart : part ∈ done ++ part :: parts :=
    List.mem_append_right _ List.mem_cons_self
  obtain ⟨hsame, hinfinite⟩ := enqueueOutbox_fails (h.agrees hrun hprepared hpart) henqueue
  rw [hsame]
  refine h.proceeds fun next hnext _ => ⟨run, hrun, hsucceeded, ?_⟩
  obtain rfl := Option.some.inj hnext
  exact .inr ⟨rfl, resultChunks_of_not_finite hprepared hpart hinfinite⟩

theorem Inv.enqueued (h : Inv harness s) {n : ℕ} {d : Deliverer} (hd : s.deliverers[n]? = some d)
    (hphase : d.phase = .enqueueing []) :
    Inv harness (s.proceeds n d.runId (some (.recording .succeeded none)) s.outbox) := by
  obtain ⟨run, hrun, hsucceeded, hknows⟩ :=
    h.deliverers d (List.mem_of_getElem? hd) (by rw [hphase]; simp)
  rw [hphase] at hknows
  obtain ⟨done, hprepared, hdone⟩ := hknows
  rw [List.append_nil] at hprepared
  refine h.proceeds fun next hnext _ => ⟨run, hrun, hsucceeded, ?_⟩
  obtain rfl := Option.some.inj hnext
  exact .inl ⟨rfl, done, resultChunks_eq_some.2 ⟨hprepared, fun part hpart => (hdone part hpart).1⟩,
    fun part hpart => (hdone part hpart).2⟩

theorem Inv.records (h : Inv harness s) {n : ℕ} {d : Deliverer} {status : DeliveryStatus}
    {error : Option String} {now : Timestamp} {a : Draws} {r : Except PyError JobRun}
    {t : SchedulerTables} (hd : s.deliverers[n]? = some d)
    (hphase : d.phase = .recording status error)
    (hrecord : recordDelivery d.runId status error (some now) a s.tables = (r, t)) :
    Inv harness (s.records n t) := by
  obtain ⟨run, hrun, hsucceeded, hknows⟩ :=
    h.deliverers d (List.mem_of_getElem? hd) (by rw [hphase]; simp)
  rw [hphase] at hknows
  have hpermits : Permits harness s (.recordDelivery d.runId status error (some now)) := by
    refine ⟨fun _ _ hnone => (by cases hnone), fun _ hnone => (by cases hnone),
      fun _ _ hnone => (by cases hnone), fun runId recorded hrecorded other hother => ?_⟩
    obtain ⟨rfl, rfl⟩ := Prod.mk.inj (Option.some.inj hrecorded)
    obtain rfl := Option.some.inj (hrun.symm.trans hother)
    exact hknows
  have hwrite := RunsWrite.elim h.keyed (@recordDelivery_writes a s.tables d.runId status error
    (some now) h.keyed)
  rw [hrecord] at hwrite
  have hrecorded := h.call hpermits hwrite
  exact hrecorded.withDeliverers fun other hother =>
    hrecorded.deliverers other (List.mem_of_mem_eraseIdx hother)

theorem Inv.step (h : Inv harness s) (hstep : DeliveryStep store engine harness s event s')
    (htimely : Timely s event) : Inv harness s' := by
  cases hstep with
  | asks hasked hperform => exact h.asks hasked hperform htimely
  | lands w => exact h.lands htimely
  | @recovers now a r t hperform =>
      exact h.quietStep store (c := .recoverStaleRuns (some now)) rfl rfl rfl rfl
        (fun _ => rfl) hperform
  | sweeps =>
      refine h.withDeliverers fun d hd hphase => ?_
      rcases List.mem_append.1 hd with hd | hd
      · exact h.deliverers d hd hphase
      · obtain ⟨runId, -, rfl⟩ := List.mem_map.1 hd
        exact absurd rfl hphase
  | @claims now startupCap a runs t hclaim =>
      have hclaimed := h.quietStep store (c := .claimDueRuns now engine.owner (.timedelta engine.lease)
        engine.batch startupCap none) rfl rfl rfl rfl (fun _ => rfl) hclaim
      refine hclaimed.withTasks fun task htask => ?_
      rcases List.mem_append.1 htask with htask | htask
      · exact hclaimed.tasks task htask
      · obtain ⟨run, -, rfl⟩ := List.mem_map.1 htask
        exact taskKnows_of_none rfl
  | @startsCancelled n task now a row r t _ _ _ _ hcancel =>
      exact h.moves (h.quietStep store (c := .cancel task.runId (some engine.owner) (some now))
        rfl rfl rfl rfl (fun _ => rfl) hcancel) (taskKnows_of_none rfl)
  | @marks n task now a row r t _ _ _ _ hmark =>
      refine h.moves (h.quietStep store (c := .markRunning task.runId engine.owner (some now) none)
        rfl rfl rfl rfl (fun _ => rfl) hmark) (taskKnows_of_none ?_)
      change TaskPhase.polarisRunId (if _ then _ else _) = none
      split <;> rfl
  | @beats n task now a r t _ _ hbeat =>
      exact h.quietStep store (c := .heartbeat task.runId engine.owner (.timedelta engine.lease)
        (some now)) rfl rfl rfl rfl (fun _ => rfl) hbeat
  | submits _ _ hfresh _ => exact h.submits hfresh
  | @attaches n task polarisRunId now a run t htask hphase hattach =>
      have hsubmitted := (h.tasks task (List.mem_of_getElem? htask)).submitted polarisRunId
        (by rw [hphase]; rfl)
      have hpermits : Permits harness s
          (.setPolarisRunId task.runId engine.owner polarisRunId (some now)) := by
        refine ⟨fun runId attached hattached => ?_, fun _ hnone => (by cases hnone),
          fun _ _ hnone => (by cases hnone), fun _ _ hnone => (by cases hnone)⟩
        obtain ⟨rfl, rfl⟩ := Prod.mk.inj (Option.some.inj hattached)
        exact hsubmitted
      refine h.moves (h.callStep store rfl hpermits hattach)
        ⟨fun id hid => ?_, fun id hid => by cases hid⟩
      obtain rfl : polarisRunId = id := Option.some.inj hid
      exact hsubmitted
  | @returns n task polarisRunId run htask hphase hrun hcompleted =>
      refine h.moves h ⟨fun id hid => ?_, fun id hid => ?_⟩
      · obtain rfl : polarisRunId = id := Option.some.inj hid
        exact (h.tasks task (List.mem_of_getElem? htask)).submitted polarisRunId (by rw [hphase]; rfl)
      · obtain rfl : polarisRunId = id := TaskPhase.returned.inj hid
        exact ⟨run, hrun, hcompleted⟩
  | @fails n task row exc now a r t htask _ _ hcomplete =>
      have hpermits : Permits harness s (.complete task.runId engine.owner
          (if row.cancelRequested then .cancelled else .failed)
          (if row.cancelRequested then none else some exc.asText) task.phase.polarisRunId
          (some now)) := by
        refine ⟨fun runId attached hattached => ?_, fun runId hsuccess => ?_,
          fun _ _ hnone => (by cases hnone), fun _ _ hnone => (by cases hnone)⟩
        · obtain ⟨polarisRunId, hpolaris, heq⟩ := Option.map_eq_some_iff.1 hattached
          obtain ⟨rfl, rfl⟩ := Prod.mk.inj heq
          exact (h.tasks task (List.mem_of_getElem? htask)).submitted polarisRunId hpolaris
        · cases hrequested : row.cancelRequested <;> rw [hrequested] at hsuccess <;> cases hsuccess
      exact h.moves (h.callStep store rfl hpermits hcomplete) (taskKnows_of_none rfl)
  | @succeeds n task row polarisRunId now a r t htask hphase _ hcomplete =>
      obtain ⟨hsubmitted, hreturned⟩ := h.tasks task (List.mem_of_getElem? htask)
      have hpermits : Permits harness s (.complete task.runId engine.owner
          (if row.cancelRequested then .cancelled else .succeeded) none (some polarisRunId)
          (some now)) := by
        refine ⟨fun runId attached hattached => ?_, fun runId hsuccess => ?_,
          fun _ _ hnone => (by cases hnone), fun _ _ hnone => (by cases hnone)⟩
        · obtain ⟨rfl, rfl⟩ := Prod.mk.inj (Option.some.inj hattached)
          exact hsubmitted polarisRunId (by rw [hphase]; rfl)
        · obtain ⟨view, hview⟩ := hreturned polarisRunId hphase
          cases hrequested : row.cancelRequested <;> rw [hrequested] at hsuccess
          · obtain rfl := Option.some.inj hsuccess
            exact ⟨polarisRunId, view, rfl, hview⟩
          · cases hsuccess
      refine h.moves (h.callStep store rfl hpermits hcomplete) (taskKnows_of_none ?_)
      change TaskPhase.polarisRunId (if _ then _ else _) = none
      split <;> rfl
  | @deliversInline n task _ _ =>
      have hmoved : Inv harness (s.moves n (task.inPhase .done) s.tables) :=
        h.moves h (taskKnows_of_none rfl)
      refine hmoved.withDeliverers fun d hd hphase => ?_
      rcases List.mem_append.1 hd with hd | hd
      · exact hmoved.deliverers d hd hphase
      · obtain ⟨runId, -, rfl⟩ := List.mem_map.1 hd
        exact absurd rfl hphase
  | reads _ _ hrun => exact h.reads hrun
  | prepares hd hphase => exact h.prepares hd hphase
  | enqueues hd hphase henqueue => exact h.enqueues hd hphase henqueue htimely
  | enqueueFails hd hphase henqueue => exact h.enqueueFails hd hphase henqueue
  | enqueued hd hphase => exact h.enqueued hd hphase
  | records hd hphase hrecord => exact h.records hd hphase hrecord
  | serves hruns => exact h.serves hruns
  | sends houtbox => exact h.sends houtbox
  | stops =>
      have hidle : Inv harness { s with tasks := [] } := h.withTasks (by simp)
      exact hidle.withDeliverers (by simp)

theorem Inv.reach (h : DeliveryReach store engine harness Timely s) : Inv harness s := by
  induction h with
  | @start outbox runs hkeyed hnone =>
      exact {
        keyed := ⟨List.nodup_nil, List.nodup_nil⟩
        coherent := fun runId run hrun => by cases hrun
        submitted := fun polarisRunId runId h => by cases h
        attached := fun runId run hrun => by cases hrun
        ended := fun runId run hrun => by cases hrun
        delivered := fun runId run hrun => by cases hrun
        failed := fun runId run hrun => by cases hrun
        rows := hkeyed
        chunks := fun row hrow polarisRunId hkey => absurd hkey (hnone row hrow polarisRunId)
        tasks := fun task htask => by cases htask
        deliverers := fun d hd => by cases hd }
  | step _ hstep htimely ih => exact ih.step hstep htimely

end Delivering

open Delivering in
theorem deliveries_agree {store : SchedulerStore} {engine : SchedulerEngine}
    {harness : DeliveryHarness} {s : Delivering}
    (h : DeliveryReach store engine harness Timely s) : DeliveriesAgree harness s := by
  have hinv := Inv.reach h
  -- the rows of an occurrence belong to it alone
  have hrow : ∀ run ∈ s.tables.runs, ∀ polarisRunId, run.polarisRunId = some polarisRunId →
      ∀ row ∈ s.outbox, IsDeliveryKey polarisRunId row.idempotencyKey →
        run.deliveryStatus ≠ .suppressed ∧ run.deliveryStatus ≠ .failed ∧
          harness.IsChunkOf s.runs run row := by
    intro run hrun polarisRunId hpolaris row hrow hkey
    obtain ⟨runId, owner, howner, howned, -, hunsuppressed, hunfailed, hchunk⟩ :=
      hinv.chunks row hrow polarisRunId hkey
    have hfound := hinv.keyed.find hrun
    have hsubmitted := hinv.attached run.id run hfound polarisRunId hpolaris
    have hsubmitted' := hinv.attached runId owner howner polarisRunId howned
    obtain rfl := Option.some.inj (hsubmitted.symm.trans hsubmitted')
    obtain rfl := Option.some.inj (hfound.symm.trans howner)
    exact ⟨hunsuppressed, hunfailed, hchunk⟩
  refine ⟨hinv.rows, fun run hrun polarisRunId hpolaris row hmem hkey =>
    (hrow run hrun polarisRunId hpolaris row hmem hkey).2.2, fun run hrun hstatus =>
      hinv.delivered run.id run (hinv.keyed.find hrun) hstatus, ?_⟩
  intro run hrun hstatus polarisRunId hpolaris row hmem hkey
  obtain ⟨hunsuppressed, hunfailed, -⟩ := hrow run hrun polarisRunId hpolaris row hmem hkey
  exact hstatus.elim hunsuppressed hunfailed

/-! A job whose result goes to a channel. -/

theorem DeliveryReach.mono {store : SchedulerStore} {engine : SchedulerEngine}
    {harness : DeliveryHarness} {C C' : Delivering → DeliveryEvent → Prop} {s : Delivering}
    (h : DeliveryReach store engine harness C s) (hC : ∀ s event, C s event → C' s event) :
    DeliveryReach store engine harness C' s := by
  induction h with
  | start hkeyed hnone => exact .start hkeyed hnone
  | step _ hstep hmet ih => exact ih.step hstep (hC _ _ hmet)

namespace Report

def harness : DeliveryHarness where
  store := Relay.store
  telegramEnabled := false
  slackEnabled := true
  allowedChatIds := []
  allowedChannelIds := ["C1"]

def engine : SchedulerEngine := ⟨"engine", 60, 32⟩

def target : List (String × PyVal) := [("platform", .str "slack"), ("channel_id", .str "C1")]

def create : SchedulerCall Job :=
  .createJob ⟨.once (.aware 5), "UTC"⟩ ⟨"single", [], some target⟩ ⟨"", none, "fire_once", 1, 0⟩
    (some 1)

def created : SchedulerTables := (create.perform Nightly.store Nightly.draws ⟨[], []⟩).2

def claim : SchedulerStore.Op (List JobRun) :=
  claimDueRuns Nightly.store 10 "engine" (.timedelta 60) 32 none none Nightly.draws

def claimed : SchedulerTables := (claim created).2

def mark : SchedulerStore.Op JobRun := markRunning "run" "engine" (some 11) none Nightly.draws

def marked : SchedulerTables := (mark claimed).2

def attach : SchedulerStore.Op JobRun :=
  setPolarisRunId "run" "engine" "run_1" (some 12) Nightly.draws

def attached : SchedulerTables := (attach marked).2

def finish : SchedulerStore.Op JobRun :=
  complete "run" "engine" .succeeded none (some "run_1") (some 13) Nightly.draws

def finished : SchedulerTables := (finish attached).2

def view : RunView := ⟨.completed, [], none⟩

def part : OutboundMessage := harness.deliveryMessage target "run_1" (.slack, "C1") view

def enqueue : ChannelStore.Op OutboxRow := enqueueOutbox harness.store part ⟨14, 14, ""⟩

def outbox : List OutboxRow := (enqueue ⟨[], [], [], []⟩).2.outbox

def runs : String → Option RunView := fun runId => if runId = "run_1" then some view else none

def occurrence : String → Option String := fun runId => if runId = "run_1" then some "run" else none

def record : SchedulerStore.Op JobRun :=
  recordDelivery "run" .succeeded none (some 15) Nightly.draws

def recorded : SchedulerTables := (record finished).2

def cancelled : SchedulerTables := (requestCancelWrite "run" 16 finished).2

/-- How the calls go, evaluated together. -/
theorem calls_ok : ((claim created).1.toOption.map fun found => found.map JobRun.id) = some ["run"] ∧
    (claimed.findRun "run").any (fun run => !run.cancelRequested) = true ∧
    (mark claimed).1.toOption.any (fun run => run.status ≠ .cancelled) = true ∧
    (attach marked).1.toOption.isSome = true ∧
    (attached.findRun "run").any (fun run => !run.cancelRequested) = true ∧
    (finish attached).1.toOption.any (fun run => run.status = .succeeded) = true ∧
    (finished.findRun "run").bind DeliveryPhase.first = some (.calling target "run_1") ∧
    finished.runs.all (fun run => run.deliveryStatus ≠ .suppressed) = true ∧
    (recorded.runs.any fun run => run.deliveryStatus = .succeeded) = true ∧
    (cancelled.findRun "run").any (fun run => run.deliveryStatus = .suppressed &&
      run.polarisRunId = some "run_1") = true := by
  decide +kernel

theorem claim_ok : ∃ claimedRuns, claim created = (.ok claimedRuns, claimed) ∧
    claimedRuns.map JobRun.id = ["run"] := by
  have hids := calls_ok.1
  rw [claimed]
  generalize claim created = answer at hids ⊢
  rcases answer with ⟨e | found, t⟩
  · cases hids
  · exact ⟨found, rfl, Option.some.inj hids⟩

theorem attach_ok : ∃ run, attach marked = (.ok run, attached) := by
  have hok := calls_ok.2.2.2.1
  rw [attached]
  generalize attach marked = answer at hok ⊢
  rcases answer with ⟨e | run, t⟩
  · cases hok
  · exact ⟨run, rfl⟩

theorem enqueue_ok : ∃ row, enqueue ⟨[], [], [], []⟩ = (.ok row, (enqueue ⟨[], [], [], []⟩).2) := by
  rcases henqueue : enqueue ⟨[], [], [], []⟩ with ⟨e | row, t⟩
  · exact absurd (by decide) (enqueueOutbox_fails (by simp) henqueue).2
  · exact ⟨row, rfl⟩

theorem keys_of_empty {store : ChannelStore} {message : OutboundMessage} {a : Readings}
    {row : OutboxRow} {t : ChannelTables}
    (h : enqueueOutbox store message a ⟨[], [], [], []⟩ = (.ok row, t)) :
    t.outbox.map OutboxRow.idempotencyKey = [message.idempotencyKey] := by
  obtain ⟨json, hash, -, -, rfl, -⟩ := enqueueOutboxLocked_ok (Txn.atomically_ok.1 h)
  rfl

theorem outbox_keys : outbox.map OutboxRow.idempotencyKey = [deliveryKey "run_1"] := by
  obtain ⟨row, henqueue⟩ := enqueue_ok
  exact keys_of_empty henqueue

theorem prepared : harness.preparedDelivery target "run_1" (some view) = .ok [part] := by
  have hparts : (harness.preparedDelivery target "run_1" (some view)).toOption = some [part] := by
    decide +kernel
  cases h : harness.preparedDelivery target "run_1" (some view) with
  | error e => simp [h, Except.toOption] at hparts
  | ok parts => simpa [h, Except.toOption] using hparts

abbrev Reach (s : Delivering) : Prop := DeliveryReach Nightly.store engine harness Timely s

theorem reach_spawned : Reach ⟨claimed, [], fun _ => none, fun _ => none, [⟨"run", .spawned⟩], []⟩ := by
  have hstart : Reach ⟨⟨[], []⟩, [], fun _ => none, fun _ => none, [], []⟩ :=
    .start List.nodup_nil (by simp)
  have hcreated := hstart.step (.asks (c := create) (a := Nightly.draws) rfl rfl) (by simp [Timely])
  obtain ⟨found, hclaim, hids⟩ := claim_ok
  have hclaimed := hcreated.step (.claims hclaim) trivial
  have htasks : found.map ScheduledTask.of = [⟨"run", .spawned⟩] := by
    have hof := congrArg (List.map fun id => (⟨id, .spawned⟩ : ScheduledTask)) hids
    rwa [List.map_map] at hof
  rw [Delivering.spawns, htasks] at hclaimed
  exact hclaimed

theorem found_open (t : SchedulerTables)
    (h : (t.findRun "run").any (fun run => !run.cancelRequested) = true) :
    ∃ row, t.findRun "run" = some row ∧ row.cancelRequested = false := by
  obtain ⟨row, hrow, hopen⟩ := (Option.any_eq_true _ _).1 h
  exact ⟨row, hrow, by simpa using hopen⟩

section
variable {t t' : SchedulerTables} {row : JobRun} {r : Except PyError JobRun} {rows : List OutboxRow}

theorem reach_submitting (hreach : Reach ⟨t, [], fun _ => none, fun _ => none, [⟨"run", .spawned⟩], []⟩)
    (hrow : t.findRun "run" = some row) (hopen : row.cancelRequested = false)
    (hmark : markRunning "run" "engine" (some 11) none Nightly.draws t = (r, t'))
    (hstarted : r.toOption.any (fun run => run.status ≠ .cancelled) = true) :
    Reach ⟨t', [], fun _ => none, fun _ => none, [⟨"run", .submitting⟩], []⟩ := by
  have hmarked := hreach.step (@DeliveryStep.marks Nightly.store engine harness _ 0
    ⟨"run", .spawned⟩ 11 Nightly.draws row r t' rfl rfl hrow hopen hmark) trivial
  rw [hstarted] at hmarked
  exact hmarked

theorem goesOn : RunsGoOn (Function.update (fun _ => none) "run_1" (some ⟨.running, [], none⟩))
    runs := by
  refine ⟨fun runId hthere => ?_, fun runId run hrun hended => ?_⟩
  · by_cases hid : runId = "run_1"
    · rw [hid]
      rfl
    · rw [Function.update_of_ne hid] at hthere
      cases hthere
  · by_cases hid : runId = "run_1"
    · rw [hid, Function.update_self] at hrun
      obtain rfl := Option.some.inj hrun
      cases hended
    · rw [Function.update_of_ne hid] at hrun
      cases hrun

theorem reach_returned (hreach : Reach ⟨t, [], fun _ => none, fun _ => none, [⟨"run", .submitting⟩], []⟩)
    (hattach : setPolarisRunId "run" "engine" "run_1" (some 12) Nightly.draws t = (.ok row, t')) :
    Reach ⟨t', [], runs, occurrence, [⟨"run", .returned "run_1"⟩], []⟩ := by
  have hsubmitted := hreach.step (@DeliveryStep.submits Nightly.store engine harness _ 0
    ⟨"run", .submitting⟩ "run_1" ⟨.running, [], none⟩ rfl rfl rfl rfl) trivial
  have hattached := hsubmitted.step (@DeliveryStep.attaches Nightly.store engine harness _ 0
    ⟨"run", .submitted "run_1"⟩ "run_1" 12 Nightly.draws row t' rfl rfl hattach) trivial
  have hserved := hattached.step (.serves goesOn) trivial
  have hreturned := hserved.step (@DeliveryStep.returns Nightly.store engine harness _ 0
    ⟨"run", .waiting "run_1"⟩ "run_1" view rfl rfl rfl rfl) trivial
  have hoccurrence : Function.update (fun _ => none) "run_1" (some "run") = occurrence := by
    funext runId
    simp only [Function.update_apply, occurrence]
  change Reach ⟨t', [], runs, Function.update (fun _ => none) "run_1" (some "run"), _, _⟩
    at hreturned
  rw [hoccurrence] at hreturned
  exact hreturned

theorem reach_delivering (hreach : Reach ⟨t, [], runs, occurrence, [⟨"run", .returned "run_1"⟩], []⟩)
    (hrow : t.findRun "run" = some row) (hopen : row.cancelRequested = false)
    (hfinish : complete "run" "engine" .succeeded none (some "run_1") (some 13) Nightly.draws t =
      (r, t')) (hsucceeded : r.toOption.any (fun run => run.status = .succeeded) = true)
    {current : JobRun} (hcurrent : t'.findRun "run" = some current)
    (hfirst : DeliveryPhase.first current = some (.calling target "run_1")) :
    Reach ⟨t', [], runs, occurrence, [⟨"run", .done⟩], [⟨"run", .enqueueing [part]⟩]⟩ := by
  have hcomplete : complete "run" engine.owner (if row.cancelRequested then .cancelled else .succeeded)
      none (some "run_1") (some 13) Nightly.draws t = (r, t') := by
    rw [hopen]
    exact hfinish
  have hfinished := hreach.step (@DeliveryStep.succeeds Nightly.store engine harness _ 0
    ⟨"run", .returned "run_1"⟩ row "run_1" 13 Nightly.draws r t' rfl rfl hrow hcomplete) trivial
  rw [hsucceeded] at hfinished
  have hinline := hfinished.step (@DeliveryStep.deliversInline Nightly.store engine harness _ 0
    ⟨"run", .completed⟩ rfl rfl) trivial
  have hread := hinline.step (@DeliveryStep.reads Nightly.store engine harness _ 0
    ⟨"run", .starting⟩ current rfl rfl hcurrent) trivial
  rw [hfirst] at hread
  have hprepared := hread.step (@DeliveryStep.prepares Nightly.store engine harness _ 0
    ⟨"run", .calling target "run_1"⟩ target "run_1" rfl rfl) trivial
  have hview : runs "run_1" = some view := rfl
  dsimp only [Delivering.proceeds, Option.elim_some, Delivering.delivers, Delivering.moves] at hprepared
  rw [hview, prepared] at hprepared
  exact hprepared

theorem reach_enqueued (hreach : Reach ⟨t, [], runs, occurrence, [⟨"run", .done⟩],
      [⟨"run", .enqueueing [part]⟩]⟩)
    (hpending : t.runs.all (fun run => run.deliveryStatus ≠ .suppressed) = true) :
    Reach ⟨t, outbox, runs, occurrence, [⟨"run", .done⟩], [⟨"run", .enqueueing []⟩]⟩ := by
  obtain ⟨stored, henqueue⟩ := enqueue_ok
  refine hreach.step (@DeliveryStep.enqueues Nightly.store engine harness _ 0
    ⟨"run", .enqueueing [part]⟩ part [] 14 stored _ rfl rfl henqueue) fun run hrun _ => ?_
  simpa using List.all_eq_true.1 hpending run hrun

theorem reach_recording (hreach : Reach ⟨t, rows, runs, occurrence, [⟨"run", .done⟩],
      [⟨"run", .enqueueing []⟩]⟩)
    (hrecord : recordDelivery "run" .succeeded none (some 15) Nightly.draws t = (r, t')) :
    Reach ⟨t', rows, runs, occurrence, [⟨"run", .done⟩], []⟩ := by
  have hrecording := hreach.step (@DeliveryStep.enqueued Nightly.store engine harness _ 0
    ⟨"run", .enqueueing []⟩ rfl rfl) trivial
  exact hrecording.step (@DeliveryStep.records Nightly.store engine harness _ 0
    ⟨"run", .recording .succeeded none⟩ .succeeded none 15 Nightly.draws r t' rfl rfl hrecord) trivial

theorem reach_cancelling (hreach : Reach ⟨t, rows, runs, occurrence, [⟨"run", .done⟩],
      [⟨"run", .enqueueing []⟩]⟩) (hcancel : (requestCancelWrite "run" 16 t).2 = t') :
    DeliveryReach Nightly.store engine harness (fun _ _ => True)
      ⟨t', rows, runs, occurrence, [], []⟩ := by
  have hstopped := (hreach.mono fun _ _ _ => trivial).step .stops trivial
  rw [← hcancel]
  exact hstopped.step (.lands (.requestCancel "run" 16)) trivial

end

/-- The chunk of the result has been enqueued, and nothing has been recorded yet. -/
theorem reach_handedOver : Reach ⟨finished, outbox, runs, occurrence, [⟨"run", .done⟩],
    [⟨"run", .enqueueing []⟩]⟩ := by
  obtain ⟨-, hclaimed, hmarked, -, hattached, hsucceeded, hfirst, hpending, -⟩ := calls_ok
  obtain ⟨row, hrow, hopen⟩ := found_open claimed hclaimed
  have hsubmitting := reach_submitting reach_spawned hrow hopen
    (show mark claimed = ((mark claimed).1, marked) from rfl) hmarked
  obtain ⟨run, hattach⟩ := attach_ok
  have hreturned := reach_returned hsubmitting hattach
  obtain ⟨row', hrow', hopen'⟩ := found_open attached hattached
  obtain ⟨current, hcurrent, hfirst⟩ := Option.bind_eq_some_iff.1 hfirst
  have hdelivering := reach_delivering hreturned hrow' hopen'
    (show finish attached = ((finish attached).1, finished) from rfl) hsucceeded hcurrent hfirst
  exact reach_enqueued hdelivering hpending

theorem found_mem {t : SchedulerTables} {runId : String} {run : JobRun}
    (h : t.findRun runId = some run) : run ∈ t.runs := Table.find_mem h

end Report

theorem deliveries_agree_recorded : ∃ s : Delivering,
    (s.tables.runs.any fun run => run.deliveryStatus = .succeeded) = true ∧
      s.outbox.map OutboxRow.idempotencyKey = [deliveryKey "run_1"] ∧
      DeliveriesAgree Report.harness s := by
  have hreach := Report.reach_recording Report.reach_handedOver
    (show Report.record Report.finished = ((Report.record Report.finished).1, Report.recorded) from rfl)
  have hstatus := Report.calls_ok.2.2.2.2.2.2.2.2.1
  have hkeys := Report.outbox_keys
  generalize Report.recorded = t, Report.outbox = rows at hreach hstatus hkeys
  exact ⟨_, hstatus, hkeys, deliveries_agree hreach⟩

/-- The engine stops between the chunk and the record of it, and the occurrence is cancelled then. -/
theorem suppressed_after_enqueue : ¬∀ (store : SchedulerStore) (engine : SchedulerEngine)
    (harness : DeliveryHarness) (s : Delivering),
    DeliveryReach store engine harness (fun _ _ => True) s → DeliveriesAgree harness s := by
  intro hall
  have hcancel : (requestCancelWrite "run" 16 Report.finished).2 = Report.cancelled := rfl
  have hagree := hall _ _ _ _ (Report.reach_cancelling Report.reach_handedOver hcancel)
  have hrun := Report.calls_ok.2.2.2.2.2.2.2.2.2
  have hkeys := Report.outbox_keys
  generalize Report.cancelled = t, Report.outbox = rows at hagree hrun hkeys
  obtain ⟨run, hfound, hsuppressed⟩ := (Option.any_eq_true _ _).1 hrun
  simp only [Bool.and_eq_true, decide_eq_true_eq] at hsuppressed
  have hkey : deliveryKey "run_1" ∈ rows.map OutboxRow.idempotencyKey := by
    rw [hkeys]
    exact List.mem_singleton_self _
  obtain ⟨row, hrow, hkey⟩ := List.mem_map.1 hkey
  exact hagree.undelivered run (Report.found_mem hfound) (.inl hsuppressed.1) "run_1" hsuppressed.2
    row hrow ⟨none, hkey⟩

end Polaris
