import Polaris.Scheduler.Delivering

namespace Polaris
open PyJson SortedDict ChannelStore SchedulerStore

/-! The chunks of a delivery. -/

section
variable {runId runId' : String} {place place' : Option ℕ}

theorem deliveryKey_endsIn :
    EndsIn (deliveryKey runId) ("scheduler:" ++ runId).toList "delivery".toList where
  split := by
    have hsplit : deliveryKey runId = ("scheduler:" ++ runId) ++ ":" ++ "delivery" := by
      rw [deliveryKey, String.append_assoc, String.append_assoc, String.append_assoc]
      rfl
    rw [hsplit, toList_append_colon]
  noColon := by decide
  noNumber := ⟨'d', "elivery".toList, rfl, rfl⟩

/-- The key of a chunk tells the run. -/
theorem deliveryKey_inj (h : partKey (deliveryKey runId) place = partKey (deliveryKey runId') place') :
    runId = runId' := by
  obtain ⟨-, hbase, -⟩ := deliveryKey_endsIn.part_inj deliveryKey_endsIn h
  rw [String.toList_append, String.toList_append, List.append_cancel_left_eq] at hbase
  exact String.toList_inj.1 hbase

theorem IsDeliveryKey.inj {key : String} (h : IsDeliveryKey runId key)
    (h' : IsDeliveryKey runId' key) : runId = runId' := by
  obtain ⟨place, rfl⟩ := h
  obtain ⟨place', heq⟩ := h'
  exact deliveryKey_inj heq

/-- A notification has another key than a chunk of a delivery. -/
theorem IsDeliveryKey.not_isNoticeKey {key : String} (h : IsDeliveryKey runId key) :
    ¬IsNoticeKey key := by
  obtain ⟨place, rfl⟩ := h
  exact Polaris.not_isNoticeKey deliveryKey_endsIn (by decide) (by decide)

end

section
variable {message : OutboundMessage} {parts : List OutboundMessage}

theorem chunkOutbound_metadata {limit : ℕ} (h : chunkOutbound message limit = .ok parts) :
    ∀ part ∈ parts, part.metadata = message.metadata := by
  simp only [chunkOutbound, bind_eq_ok] at h
  obtain ⟨chunks, -, h⟩ := h
  split at h
  · obtain rfl := Except.ok.inj h
    simp
  · obtain rfl := Except.ok.inj h
    intro part hpart
    obtain ⟨i, hi, rfl⟩ := List.mem_mapIdx.1 hpart
    rfl

theorem adapters_metadata (harness : ChannelHarness)
    (h : (harness.preparer message.platform).elim (.ok [message]) (· message) = .ok parts)
    (hsend : message.operation = .send) :
    ∃ metadata, ∀ part ∈ parts, part.metadata = metadata := by
  have hself : ∀ {parts : List OutboundMessage}, Except.ok (ε := PyError) [message] = .ok parts →
      ∃ metadata, ∀ part ∈ parts, part.metadata = metadata := by
    intro parts h
    obtain rfl := Except.ok.inj h
    exact ⟨message.metadata, by simp⟩
  cases hplatform : message.platform with
  | telegram =>
      rw [hplatform] at h
      by_cases henabled : harness.telegramEnabled = true
      · simp only [ChannelHarness.preparer, henabled, if_true, Option.elim_some,
          TelegramAdapter.prepareOutbound, hplatform, hsend, ne_eq, not_true, if_false] at h
        exact ⟨message.metadata, chunkOutbound_metadata h⟩
      · simp only [ChannelHarness.preparer, if_neg henabled, Option.elim_none] at h
        exact hself h
  | slack =>
      rw [hplatform] at h
      by_cases henabled : harness.slackEnabled = true
      · simp only [ChannelHarness.preparer, henabled, if_true, Option.elim_some,
          SlackAdapter.prepareOutbound, hplatform, hsend, ne_eq, not_true, if_false] at h
        split at h
        · exact hself h
        · obtain ⟨chunks, hchunks, h⟩ := bind_eq_ok.1 h
          have hsame := chunkOutbound_metadata hchunks
          split at h
          · obtain rfl := Except.ok.inj h
            exact ⟨message.metadata, hsame⟩
          · obtain rfl := Except.ok.inj h
            refine ⟨message.metadata.filter (·.1 ≠ "blocks"), fun part hpart => ?_⟩
            obtain ⟨before, hbefore, rfl⟩ := List.mem_map.1 hpart
            rw [SlackAdapter.withoutBlocks, hsame before hbefore]
      · simp only [ChannelHarness.preparer, if_neg henabled, Option.elim_none] at h
        exact hself h

end

/-- What an `enqueue_delivery` that raises nothing before its first chunk is about to enqueue. -/
structure IsDelivery (runId : String) (parts : List OutboundMessage) : Prop where
  keys : ∀ part ∈ parts, IsDeliveryKey runId part.idempotencyKey
  nodup : (parts.map OutboundMessage.idempotencyKey).Nodup
  metadata : ∃ metadata, ∀ part ∈ parts, part.metadata = metadata

theorem DeliveryHarness.prepared_isDelivery {harness : DeliveryHarness}
    {target : List (String × PyVal)} {runId : String} {run : Option RunView}
    {parts : List OutboundMessage} (h : harness.preparedDelivery target runId run = .ok parts) :
    IsDelivery runId parts := by
  obtain ⟨channel, -, h⟩ := bind_eq_ok.1 h
  cases run with
  | none => cases h
  | some run =>
      have hsend : (harness.deliveryMessage target runId channel run).operation = .send := rfl
      obtain ⟨parts', hparts', hprepared⟩ := prepareOutbound_ok harness.toChannelHarness hsend
      obtain rfl := Except.ok.inj (hparts'.symm.trans h)
      obtain ⟨made, hmade, hchecked⟩ := bind_eq_ok.1 hparts'
      have hsame : made = parts' := by
        unfold ChannelHarness.checkPrepared at hchecked
        split at hchecked
        · cases hchecked
        · split at hchecked
          · cases hchecked
          · split at hchecked
            · cases hchecked
            · exact Except.ok.inj hchecked
      exact ⟨fun part hpart => hprepared.part hpart, hprepared.keys_nodup,
        hsame ▸ adapters_metadata harness.toChannelHarness hmade hsend⟩

/-! What a call makes of an occurrence. -/

namespace SchedulerCall
variable {β : Type}

/-- The run that a call attaches to an occurrence. -/
def attachment : SchedulerCall β → Option (String × String)
  | .markRunning runId _ _ polarisRunId | .complete runId _ _ _ polarisRunId _ =>
      polarisRunId.map (runId, ·)
  | .setPolarisRunId runId _ polarisRunId _ => some (runId, polarisRunId)
  | _ => none

/-- The occurrence that a call lets succeed. -/
def success : SchedulerCall β → Option String
  | .complete runId _ .succeeded _ _ _ => some runId
  | _ => none

/-- The outcome of a delivery that a call records. -/
def delivery : SchedulerCall β → Option (String × DeliveryStatus)
  | .recordDelivery runId status _ _ => some (runId, status)
  | _ => none

end SchedulerCall

/-- What a call makes of the columns that say how an occurrence has been delivered. -/
structure DeliveryMove {β : Type} (c : SchedulerCall β) (run run' : JobRun) : Prop where
  attached : run'.polarisRunId = run.polarisRunId ∨ run.status.isActive = true ∧
    ∃ polarisRunId, c.attachment = some (run.id, polarisRunId) ∧
      run'.polarisRunId = some polarisRunId
  succeeded : run'.status = .succeeded → run.status = .succeeded ∨ run.status.isActive = true ∧
    c.success = some run.id ∧ run'.deliveryStatus = run.deliveryStatus ∧
      ∀ polarisRunId, c.attachment = some (run.id, polarisRunId) →
        run'.polarisRunId = some polarisRunId
  delivered : run.status = .succeeded → run'.deliveryStatus = run.deliveryStatus ∨
    run.deliveryStatus = .pending ∧ (c.cancels run = true ∧ run'.deliveryStatus = .suppressed ∨
      c.delivery = some (run.id, run'.deliveryStatus))

theorem DeliveryMove.refl {β : Type} {c : SchedulerCall β} (run : JobRun) : DeliveryMove c run run :=
  ⟨.inl rfl, .inl, fun _ => .inl rfl⟩

namespace JobRun
variable {run : JobRun}

theorem or_attached {polarisRunId : Option String} : polarisRunId.or run.polarisRunId =
    run.polarisRunId ∨ ∃ id, polarisRunId.map (run.id, ·) = some (run.id, id) ∧
      polarisRunId.or run.polarisRunId = some id := by
  cases polarisRunId <;> simp

end JobRun

theorem RunWrite.delivery {β : Type} {c : SchedulerCall β} {run run' : JobRun}
    (h : RunWrite c run run') : DeliveryMove c run run' := by
  have hopen : run.status.isActive = true → run.status ≠ .succeeded :=
    JobRun.not_succeeded_of_active
  have hclaimed : run.status = .claimed → run.status.isActive = true := fun h => by rw [h]; rfl
  cases h with
  | cancelRequested hactive => exact ⟨.inl rfl, .inl, fun h => absurd h (hopen hactive)⟩
  | suppressed _ hpending =>
      exact ⟨.inl rfl, .inl, fun _ => .inr ⟨hpending, .inl ⟨decide_eq_true rfl, rfl⟩⟩⟩
  | startCancelled hstatus =>
      refine ⟨?_, fun h => by simp [JobRun.cancelClaimed] at h,
        fun h => absurd h (hopen (hclaimed hstatus))⟩
      exact run.or_attached.imp_right fun h => ⟨hclaimed hstatus, h⟩
  | started hstatus =>
      refine ⟨?_, fun h => by simp [JobRun.start] at h,
        fun h => absurd h (hopen (hclaimed hstatus))⟩
      exact run.or_attached.imp_right fun h => ⟨hclaimed hstatus, h⟩
  | attached hactive =>
      exact ⟨.inr ⟨hactive, _, rfl, rfl⟩, .inl, fun h => absurd h (hopen hactive)⟩
  | extended => exact ⟨.inl rfl, .inl, fun _ => .inl rfl⟩
  | cancelAsked =>
      refine ⟨.inl rfl, .inl, fun hsucceeded => ?_⟩
      by_cases hpending : run.deliveryStatus = .pending
      · refine .inr ⟨hpending, .inl ⟨decide_eq_true rfl, ?_⟩⟩
        simp [JobRun.cancelRequest, hsucceeded, hpending]
      · exact .inl (by simp [JobRun.cancelRequest, hpending])
  | cancelled hactive =>
      exact ⟨.inl rfl, fun h => by simp [JobRun.cancel] at h, fun h => absurd h (hopen hactive)⟩
  | @completed owner terminal error polarisRunId now stamp _ hactive hterminal =>
      refine ⟨run.or_attached.imp_right fun h => ⟨hactive, h⟩, fun hsucceeded => .inr ?_,
        fun h => absurd h (hopen hactive)⟩
      simp only [JobRun.complete] at hsucceeded
      split at hsucceeded
      · cases hsucceeded
      · rename_i hrequested
        subst hsucceeded
        refine ⟨hactive, rfl, ?_, fun id hid => ?_⟩
        · simp [JobRun.complete, hrequested]
        · cases polarisRunId with
          | none => cases hid
          | some other =>
              obtain rfl : other = id := by simpa [SchedulerCall.attachment] using hid
              rfl
  | delivered _ hpending => exact ⟨.inl rfl, .inl, fun _ => .inr ⟨hpending, .inr rfl⟩⟩
  | interrupted hactive =>
      exact ⟨.inl rfl, fun h => by simp [JobRun.interrupt] at h, fun h => absurd h (hopen hactive)⟩

namespace SchedulerStore
variable {β : Type} {c : SchedulerCall β} {t t' : SchedulerTables}

/-- A run that is there after a call has been there before, or it has been claimed. -/
theorem RunsWrite.find (h : RunsWrite c t t') {runId : String} {run' : JobRun}
    (hrun' : t'.findRun runId = some run') :
    (∃ run, t.findRun runId = some run ∧ DeliveryMove c run run' ∧
      RunMove runId (some run) (some run')) ∨
    run'.polarisRunId = none ∧ run'.status = .claimed ∧ run'.Coherent := by
  have hwritten := h.1 runId
  change Written c runId (t.findRun runId) (t'.findRun runId) at hwritten
  rw [hrun'] at hwritten
  generalize hrun : t.findRun runId = r at hwritten
  cases hwritten with
  | same => exact .inl ⟨run', rfl, .refl run', .same _⟩
  | claimed => exact .inr ⟨rfl, rfl, claimedRun_coherent ..⟩
  | wrote hwrite => exact .inl ⟨_, rfl, hwrite.delivery, hwrite.move⟩

/-- A run that is there stays, as the same occurrence. -/
theorem RunsWrite.kept (h : RunsWrite c t t') {runId : String} {run : JobRun}
    (hrun : t.findRun runId = some run) : ∃ run', t'.findRun runId = some run' ∧
      DeliveryMove c run run' ∧ RunMove runId (some run) (some run') := by
  have hwritten := h.1 runId
  change Written c runId (t.findRun runId) (t'.findRun runId) at hwritten
  rw [hrun] at hwritten
  generalize hrun' : t'.findRun runId = r' at hwritten
  cases hwritten with
  | same => exact ⟨run, rfl, .refl run, .same _⟩
  | wrote hwrite => exact ⟨_, rfl, hwrite.delivery, hwrite.move⟩

end SchedulerStore

end Polaris
