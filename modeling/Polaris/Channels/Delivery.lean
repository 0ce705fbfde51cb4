import Polaris.Channels.Adapters

namespace Polaris
open PyJson ChannelStore

def SendEnd.outcome (s : SendEnd RemoteReceipt) : Option (Except SendFailure RemoteReceipt) :=
  match s.result with
  | .ok receipt => some (.ok receipt)
  | .error e => e.sendFailure.map .error

/-- What a processor meets in one `send_outbox_once`: the clock and the remote. -/
structure Attempt (α : Type) where
  claimedAt : Readings
  beats : List Readings
  exchanges : ℕ → Exchange α
  markedAt : Readings

namespace ChannelProcessor
variable (store : ChannelStore) (p : ChannelProcessor)

/-- The heartbeats while the adapter is sending; one that fails ends the send. -/
def heartbeats (key : String) : List Readings → Op Unit
  | [] => pure ()
  | a :: beats => do
      heartbeatOutbox key p.owner p.leaseSeconds a
      heartbeats key beats

/-- The row that has been sent, if there was one, and the requests that were made for it. -/
def sendOutboxOnce {α ρ : Type} (adapter : ChannelAdapter α ρ) (x : Attempt α)
    (t : ChannelTables) : Option OutboxRow × List OutboundRequest × ChannelTables :=
  match p.claimCall.perform store x.claimedAt t with
  | (.ok (some record), t) =>
      let sent := adapter.send x.exchanges record.message
      match p.heartbeats record.message.idempotencyKey x.beats t, sent.outcome with
      | (.ok (), t), some result =>
          (some record, sent.requests,
            ((p.markCall record result).perform store x.markedAt t).2)
      | (_, t), _ => (some record, sent.requests, t)
  | (_, t) => (none, [], t)

/-- The end of a lease that heartbeats extend, as long as each of them is in time. -/
def leaseAfter (leaseSeconds : ℚ) : Timestamp → List Readings → Option Timestamp
  | expires, [] => some expires
  | expires, a :: beats =>
      if a.now < expires then
        match deadline a.start leaseSeconds with
        | .ok later => leaseAfter leaseSeconds later beats
        | .error _ => none
      else none

/-- The processor still has the row when the send is over. -/
def InTime {α : Type} (x : Attempt α) : Prop :=
  ∃ expires later, deadline x.claimedAt.start p.leaseSeconds = .ok expires ∧
    leaseAfter p.leaseSeconds expires x.beats = some later ∧ x.markedAt.now < later

end ChannelProcessor

/-! What a send has made of the row when it is over. -/

namespace OutboxRow

/-- The row is being sent by an owner until an instant. -/
structure HeldBy (owner : String) (expires : Timestamp) (row : OutboxRow) : Prop where
  status : row.status = .sending
  owner : row.leaseOwner = some owner
  expires : row.leaseExpiresAt = some expires

theorem HeldBy.isSending {owner : String} {expires now : Timestamp} {row : OutboxRow}
    (h : row.HeldBy owner expires) :
    row.isSending row.idempotencyKey owner now = true ↔ now < expires := by
  simp [OutboxRow.isSending, h.status, h.owner, h.expires]

theorem isSending_key {key owner : String} {now : Timestamp} {row : OutboxRow}
    (h : row.isSending key owner now = true) : row.idempotencyKey = key := by
  simp only [isSending, Bool.and_eq_true, decide_eq_true_eq] at h
  exact h.1.1.1

end OutboxRow

namespace ChannelStore
variable {t t' : ChannelTables} {row : OutboxRow} {owner : String} {expires now : Timestamp}

theorem countP_isSending (hkeyed : OutboxKeyed t)
    (hrow : t.findOutbox row.idempotencyKey = some row) (hheld : row.HeldBy owner expires) :
    t.outbox.countP (OutboxRow.isSending row.idempotencyKey owner now) =
      if now < expires then 1 else 0 := by
  have hmem := Table.find_mem hrow
  have honly : ∀ r ∈ t.outbox, r.isSending row.idempotencyKey owner now = true → r = row :=
    fun r hr hsending => hkeyed.eq_of_key hr hmem (OutboxRow.isSending_key hsending)
  split
  · rename_i hnow
    rw [List.countP_eq_length_filter, List.length_eq_one_iff]
    refine ⟨row, ?_⟩
    have hnodup := (List.Nodup.of_map _ hkeyed).filter
      (OutboxRow.isSending row.idempotencyKey owner now)
    refine List.perm_singleton.1 ((List.perm_ext_iff_of_nodup hnodup (List.nodup_singleton _)).2
      fun r => ?_)
    rw [List.mem_filter, List.mem_singleton]
    refine ⟨fun hr => honly r hr.1 hr.2, ?_⟩
    rintro rfl
    exact ⟨hmem, hheld.isSending.2 hnow⟩
  · rename_i hnow
    refine List.countP_eq_zero.2 fun r hr hsending => hnow ?_
    obtain rfl := honly r hr hsending
    exact hheld.isSending.1 hsending

/-- An update of a row that its owner holds: it is in time, or nothing happens. -/
theorem updateSending {f : OutboxRow → OutboxRow} {e : PyError} (hkeyed : OutboxKeyed t)
    (hrow : t.findOutbox row.idempotencyKey = some row) (hheld : row.HeldBy owner expires) :
    Txn.atomically
        (updateOneOutbox (OutboxRow.isSending row.idempotencyKey owner now) f e) t =
      if now < expires then
        (.ok (), updateOutbox (OutboxRow.isSending row.idempotencyKey owner now) f t)
      else (.error e, t) := by
  have hcount := @countP_isSending t row owner expires now hkeyed hrow hheld
  have happly : updateOneOutbox (OutboxRow.isSending row.idempotencyKey owner now) f e t =
      (if decide (t.outbox.countP (OutboxRow.isSending row.idempotencyKey owner now) = 1) then .ok ()
        else .error e, updateOutbox (OutboxRow.isSending row.idempotencyKey owner now) f t) := rfl
  rw [Txn.atomically, happly, hcount]
  by_cases hnow : now < expires <;> simp [hnow]

theorem find_updateSending {f : OutboxRow → OutboxRow}
    (hkey : ∀ r, (f r).idempotencyKey = r.idempotencyKey)
    (hrow : t.findOutbox row.idempotencyKey = some row) (hheld : row.HeldBy owner expires)
    (hnow : now < expires) :
    (updateOutbox (OutboxRow.isSending row.idempotencyKey owner now) f t).findOutbox
      row.idempotencyKey = some (f row) := by
  rw [find_updateOutbox hkey, hrow, Option.map_some, if_pos (hheld.isSending.2 hnow)]

end ChannelStore

namespace ChannelProcessor
variable {store : ChannelStore} {p : ChannelProcessor} {t t' : ChannelTables} {row : OutboxRow}
  {expires : Timestamp}

theorem heartbeat_held {a : Readings} (hkeyed : OutboxKeyed t)
    (hrow : t.findOutbox row.idempotencyKey = some row) (hheld : row.HeldBy p.owner expires) :
    (∃ later, leaseAfter p.leaseSeconds expires [a] = some later ∧
      heartbeatOutbox row.idempotencyKey p.owner p.leaseSeconds a t = (.ok (),
        updateOutbox (OutboxRow.isSending row.idempotencyKey p.owner a.now)
          (OutboxRow.heartbeat later a.now) t) ∧ a.now < expires) ∨
      leaseAfter p.leaseSeconds expires [a] = none ∧
        ∃ e, heartbeatOutbox row.idempotencyKey p.owner p.leaseSeconds a t = (.error e, t) := by
  have happly : heartbeatOutbox row.idempotencyKey p.owner p.leaseSeconds a t =
      match deadline a.start p.leaseSeconds with
      | .ok later => Txn.atomically (updateOneOutbox
          (OutboxRow.isSending row.idempotencyKey p.owner a.now) (OutboxRow.heartbeat later a.now)
          (transitionError "outbox lease is missing, expired, or owned elsewhere")) t
      | .error e => (.error e, t) := by
    cases hlater : deadline a.start p.leaseSeconds <;>
      simp [heartbeatOutbox, bind, Txn.bind, Txn.lift, hlater]
  rw [happly]
  simp only [leaseAfter]
  cases hlater : deadline a.start p.leaseSeconds with
  | error e => exact .inr ⟨by simp, e, rfl⟩
  | ok later =>
      simp only [updateSending hkeyed hrow hheld]
      by_cases hnow : a.now < expires
      · exact .inl ⟨later, by simp [hnow], by simp [hnow], hnow⟩
      · exact .inr ⟨by simp [hnow], _, if_neg hnow⟩

/-- After the heartbeats the row is still held, to the end of the extended lease if all of them have
been in time. -/
theorem heartbeats_held {beats : List Readings} {result : Except PyError Unit}
    (hkeyed : OutboxKeyed t) (hrow : t.findOutbox row.idempotencyKey = some row)
    (hheld : row.HeldBy p.owner expires)
    (h : p.heartbeats row.idempotencyKey beats t = (result, t')) :
    OutboxKeyed t' ∧ ∃ row' later, t'.findOutbox row.idempotencyKey = some row' ∧
      row'.idempotencyKey = row.idempotencyKey ∧ row'.HeldBy p.owner later ∧
      (result = .ok () ∧ leaseAfter p.leaseSeconds expires beats = some later ∨
        (∃ e, result = .error e) ∧ leaseAfter p.leaseSeconds expires beats = none) := by
  induction beats generalizing t row expires with
  | nil =>
      obtain ⟨rfl, rfl⟩ := Prod.mk.inj h
      exact ⟨hkeyed, row, expires, hrow, rfl, hheld, .inl ⟨rfl, rfl⟩⟩
  | cons a beats ih =>
      rcases @heartbeat_held p t row expires a hkeyed hrow hheld with
        ⟨later, hlater, hbeat, hnow⟩ | ⟨hlate, e, hbeat⟩
      · have hkeeps : ∀ r, (OutboxRow.heartbeat later a.now r).idempotencyKey = r.idempotencyKey :=
          fun _ => rfl
        have hrow' := find_updateSending hkeeps hrow hheld hnow
        have hheld' : (row.heartbeat later a.now).HeldBy p.owner later :=
          ⟨hheld.status, hheld.owner, rfl⟩
        have hrest : p.heartbeats row.idempotencyKey (a :: beats) t =
            p.heartbeats row.idempotencyKey beats _ := Txn.bind_of_ok hbeat
        rw [hrest] at h
        obtain ⟨hkeyed', row', last, hfound, hkey, hheld', hlast⟩ :=
          ih (hkeyed.update hkeeps) hrow' hheld' h
        refine ⟨hkeyed', row', last, hfound, hkey, hheld', ?_⟩
        have hstep : leaseAfter p.leaseSeconds expires (a :: beats) =
            leaseAfter p.leaseSeconds later beats := by
          simp only [leaseAfter, hnow, if_true] at hlater ⊢
          cases hdeadline : deadline a.start p.leaseSeconds with
          | error e => simp [hdeadline] at hlater
          | ok _ => simp_all
        rw [hstep]
        exact hlast
      · have hfails : p.heartbeats row.idempotencyKey (a :: beats) t = (.error e, t) :=
          Txn.bind_error.2 (.inl hbeat)
        rw [hfails] at h
        obtain ⟨rfl, rfl⟩ := Prod.mk.inj h
        refine ⟨hkeyed, row, expires, hrow, rfl, hheld, .inr ⟨⟨e, rfl⟩, ?_⟩⟩
        simp only [leaseAfter] at hlate ⊢
        split
        · rename_i hnow
          rw [if_pos hnow] at hlate
          cases hdeadline : deadline a.start p.leaseSeconds with
          | error e => rfl
          | ok _ => simp [hdeadline] at hlate
        · rfl

end ChannelProcessor

theorem RemoteReceipt.toDict_allFinite (receipt : RemoteReceipt) :
    receipt.toDict.allFinite = true := by
  have hids : ∀ ids : List String, PyVal.itemsFinite (ids.map .str) = true := by
    intro ids
    induction ids with
    | nil => rfl
    | cons id ids ih => simpa [PyVal.itemsFinite, PyVal.allFinite] using ih
  cases hid : receipt.remoteMessageId <;>
    simp [RemoteReceipt.toDict, dict, PyVal.allFinite, PyVal.entriesFinite, optStr, hids, hid]

namespace ChannelStore
variable {t : ChannelTables} {row : OutboxRow} {owner : String} {expires : Timestamp}

theorem finishOutbox_held {status : OutboxStatus} {receipt : Option RemoteReceipt}
    {error : Option String} {a : Readings} (hkeyed : OutboxKeyed t)
    (hrow : t.findOutbox row.idempotencyKey = some row) (hheld : row.HeldBy owner expires) :
    ∃ row', ((finishOutbox row.idempotencyKey owner status receipt error a) t).2.findOutbox
        row.idempotencyKey = some row' ∧
      row'.status = if a.now < expires then status else .sending := by
  obtain ⟨json, hjson⟩ : ∃ json, (receipt.mapM fun r => canonicalJson r.toDict) = .ok json := by
    cases receipt with
    | none => exact ⟨none, rfl⟩
    | some r =>
        obtain ⟨column, hcolumn⟩ := canonicalJson_of_allFinite r.toDict_allFinite
        exact ⟨some column, by simp [hcolumn, Functor.map, Except.map]⟩
  have hfound := @find_updateSending t row owner expires a.now
    (OutboxRow.finish status json error a.now) (fun r => r.finish_key) hrow hheld
  have hcount := @countP_isSending t row owner expires a.now hkeyed hrow hheld
  by_cases hnow : a.now < expires
  · refine ⟨row.finish status json error a.now, ?_, by simp [OutboxRow.finish, hnow]⟩
    rw [← hfound hnow]
    simp [finishOutbox, updateOneOutbox, selectOutbox, bind, Txn.bind, Txn.lift, Txn.read, Txn.write,
      Txn.require, Txn.getOr, Txn.atomically, hjson, hcount, hnow, hfound hnow]
  · refine ⟨row, ?_, by simp [hheld.status, hnow]⟩
    rw [← hrow]
    simp [finishOutbox, updateOneOutbox, bind, Txn.bind, Txn.lift, Txn.read, Txn.write, Txn.require,
      Txn.atomically, hjson, hcount, hnow]

end ChannelStore

/-- The status that a send gives to the row, if it is still there to be marked. -/
def settledStatus : Option (Except SendFailure RemoteReceipt) → OutboxStatus
  | none => .sending
  | some (.ok _) => .sent
  | some (.error e) => if e.deliveryUnknown then .unknown else .failed

namespace ChannelProcessor
variable {store : ChannelStore} {p : ChannelProcessor} {t t' : ChannelTables} {record : OutboxRow}
  {α ρ : Type} {adapter : ChannelAdapter α ρ} {x : Attempt α} {requests : List OutboundRequest}

theorem markCall_held {expires : Timestamp} {result : Except SendFailure RemoteReceipt}
    {row : OutboxRow} {a : Readings} (hkeyed : OutboxKeyed t)
    (hrow : t.findOutbox row.idempotencyKey = some row) (hheld : row.HeldBy p.owner expires)
    (hmessage : record.message.idempotencyKey = row.idempotencyKey) :
    ∃ row', (((p.markCall record result).perform store a t).2).findOutbox row.idempotencyKey =
        some row' ∧
      row'.status = if a.now < expires then settledStatus (some result) else .sending := by
  have hfinish := fun status receipt error =>
    @finishOutbox_held t row p.owner expires status receipt error a hkeyed hrow hheld
  cases result with
  | ok receipt =>
      simpa only [markCall, ChannelCall.perform, markOutboxSent, hmessage, settledStatus] using
        hfinish .sent (some receipt) none
  | error e =>
      cases hunknown : e.deliveryUnknown with
      | true =>
          simpa only [markCall, hunknown, if_true, ChannelCall.perform, markOutboxUnknown, hmessage,
            settledStatus] using hfinish .unknown none (some e.message)
      | false =>
          simpa only [markCall, hunknown, Bool.false_eq_true, if_false, ChannelCall.perform,
            markOutboxFailed, hmessage, settledStatus] using hfinish .failed none (some e.message)

theorem claimCall_held (hkeyed : OutboxKeyed t) {a : Readings}
    (h : p.claimCall.perform store a t = (.ok (some record), t')) :
    OutboxKeyed t' ∧ t'.findOutbox record.idempotencyKey = some record ∧
      ∃ expires, deadline a.start p.leaseSeconds = .ok expires ∧
        record.HeldBy p.owner expires := by
  refine ⟨(perform_outbox hkeyed h).2, ?_⟩
  rcases claimOutbox_ok hkeyed h with ⟨hnone, -⟩ |
    ⟨row, expires, hdeadline, hrow, hpending, hclaimed, rfl⟩
  · simp at hnone
  · obtain rfl := Option.some.inj hclaimed
    have hlive : row.isExpired a.now = false := by simp [OutboxRow.isExpired, hpending]
    refine ⟨?_, expires, hdeadline, rfl, rfl, rfl⟩
    rw [OutboxRow.claim_key, find_updateOutbox OutboxRow.claim_key,
      find_updateOutbox OutboxRow.expire_key, hrow]
    simp [hlive, isPending, hpending]

/-- The row after a send: marked in time, or still held by the processor. -/
theorem sendOutboxOnce_status (hkeyed : OutboxKeyed t)
    (h : p.sendOutboxOnce store adapter x t = (some record, requests, t'))
    (hmessage : record.message.idempotencyKey = record.idempotencyKey) :
    requests = (adapter.send x.exchanges record.message).requests ∧
      ∃ row, t'.findOutbox record.idempotencyKey = some row ∧
        (p.InTime x → row.status =
          settledStatus (adapter.send x.exchanges record.message).outcome) ∧
        (¬p.InTime x → row.status = .sending) := by
  unfold sendOutboxOnce at h
  split at h
  · rename_i claimed t₁ hclaim
    obtain ⟨hkeyed₁, hrow, expires, hdeadline, hheld⟩ := claimCall_held hkeyed hclaim
    have hintime : ∀ {later : Option Timestamp},
        leaseAfter p.leaseSeconds expires x.beats = later →
        (p.InTime x ↔ ∃ end', later = some end' ∧ x.markedAt.now < end') := by
      rintro later rfl
      refine ⟨?_, fun ⟨later, hlater, hnow⟩ => ⟨expires, later, hdeadline, hlater, hnow⟩⟩
      rintro ⟨expires', later, hdeadline', hlater, hnow⟩
      obtain rfl := Except.ok.inj (hdeadline.symm.trans hdeadline')
      exact ⟨later, hlater, hnow⟩
    have hrecord : claimed = record := by
      simp only at h
      split at h <;> exact Option.some.inj (Prod.mk.inj h).1
    subst hrecord
    rw [hmessage] at h
    rcases hbeats : p.heartbeats claimed.idempotencyKey x.beats t₁ with ⟨result, t₂⟩
    obtain ⟨hkeyed₂, row, later, hrow₂, hkey, hheld₂, hresult⟩ :=
      heartbeats_held hkeyed₁ hrow hheld hbeats
    rw [← hkey] at hrow₂
    simp only [hbeats] at h
    rcases hresult with ⟨rfl, hlater⟩ | ⟨⟨e, rfl⟩, hlate⟩
    · cases houtcome : (adapter.send x.exchanges claimed.message).outcome with
      | none =>
          simp only [houtcome] at h
          obtain ⟨-, rfl, rfl⟩ := h
          refine ⟨rfl, row, hkey ▸ hrow₂, fun _ => ?_, fun _ => hheld₂.status⟩
          simp [settledStatus, hheld₂.status]
      | some result =>
          simp only [houtcome] at h
          obtain ⟨-, rfl, rfl⟩ := h
          obtain ⟨row', hrow', hstatus⟩ := @markCall_held store p t₂ claimed later result row
            x.markedAt hkeyed₂ hrow₂ hheld₂ (hmessage.trans hkey.symm)
          refine ⟨rfl, row', hkey ▸ hrow', fun htime => ?_, fun htime => ?_⟩
          · obtain ⟨_, hlater', hnow⟩ := (hintime hlater).1 htime
            obtain rfl := Option.some.inj hlater'
            rw [hstatus, if_pos hnow]
          · rw [hstatus, if_neg fun hnow => htime ((hintime hlater).2 ⟨later, rfl, hnow⟩)]
    · simp only at h
      obtain ⟨-, rfl, rfl⟩ := h
      refine ⟨rfl, row, hkey ▸ hrow₂, fun htime => ?_, fun _ => hheld₂.status⟩
      obtain ⟨_, hlater, -⟩ := (hintime hlate).1 htime
      simp at hlater
  · simp at h

end ChannelProcessor

end Polaris
