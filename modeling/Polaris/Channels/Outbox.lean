import Polaris.Channels.Calls

namespace Polaris
open PyJson ChannelStore

/-- What a call can make of the row of the outbox under a key. -/
inductive OutboxMove (a : Readings) :
    {β : Type} → ChannelCall β → String → Option OutboxRow → Option OutboxRow → Prop
  | same {β : Type} {c : ChannelCall β} {key : String} (r : Option OutboxRow) :
      OutboxMove a c key r r
  | enqueued {β : Type} {c : ChannelCall β} {message : OutboundMessage} {json : JsonColumn}
      {hash : String} :
      OutboxMove a c message.idempotencyKey none (some (pendingRow message json hash a.now))
  | claimed {owner : String} {leaseSeconds : ℚ} {platform : Option Platform} {deadline : Timestamp}
      {row : OutboxRow} : row.status = .pending →
      OutboxMove a (.claimOutbox owner leaseSeconds platform) row.idempotencyKey (some row)
        (some (row.claim owner deadline a.now))
  | expired {β : Type} {c : ChannelCall β} {row : OutboxRow} : row.isExpired a.now = true →
      OutboxMove a c row.idempotencyKey (some row) (some (row.expire a.now))
  | extended {key owner : String} {leaseSeconds : ℚ} {deadline : Timestamp} {row : OutboxRow} :
      row.isSending key owner a.now = true →
      OutboxMove a (.heartbeatOutbox key owner leaseSeconds) row.idempotencyKey (some row)
        (some (row.heartbeat deadline a.now))
  | finished {β : Type} {c : ChannelCall β} {key owner : String} {status : OutboxStatus}
      {receipt : Option JsonColumn} {error : Option String} {row : OutboxRow} :
      row.isSending key owner a.now = true → status ∈ [OutboxStatus.sent, .unknown, .failed] →
      OutboxMove a c row.idempotencyKey (some row) (some (row.finish status receipt error a.now))
  | resolved {key note : String} {sent : Bool} {row : OutboxRow} : row.idempotencyKey = key →
      row.status = .unknown →
      OutboxMove a (.resolveOutbox key sent note) key (some row)
        (some (row.decide (if sent then .sent else .failed) note a.now))
  | retried {key note : String} {row : OutboxRow} : row.idempotencyKey = key →
      row.status = .unknown ∨ row.status = .failed →
      OutboxMove a (.retryOutbox key note) key (some row)
        (some (row.decide .pending ("operator retry: " ++ note) a.now))

namespace OutboxRow
variable {now deadline : Timestamp} {owner : String} {status : OutboxStatus}

theorem expire_key (r : OutboxRow) : (r.expire now).idempotencyKey = r.idempotencyKey := rfl

theorem claim_key (r : OutboxRow) :
    (r.claim owner deadline now).idempotencyKey = r.idempotencyKey := rfl

theorem heartbeat_key (r : OutboxRow) :
    (r.heartbeat deadline now).idempotencyKey = r.idempotencyKey := rfl

theorem finish_key {receipt : Option JsonColumn} {error : Option String} (r : OutboxRow) :
    (r.finish status receipt error now).idempotencyKey = r.idempotencyKey := rfl

theorem decide_key {error : String} (r : OutboxRow) :
    (r.decide status error now).idempotencyKey = r.idempotencyKey := rfl

end OutboxRow

namespace ChannelStore
variable {store : ChannelStore} {a : Readings} {t t' : ChannelTables} {β : Type}
  {c : ChannelCall β}

/-- The row of a key is as it was, or it is new and pending. -/
def Enqueued (now : Timestamp) (key : String) (r r' : Option OutboxRow) : Prop :=
  r' = r ∨ r = none ∧ ∃ message json hash, key = message.idempotencyKey ∧
    r' = some (pendingRow message json hash now)

theorem Enqueued.trans {now : Timestamp} {key : String} {r r' r'' : Option OutboxRow}
    (h : Enqueued now key r r') (h' : Enqueued now key r' r'') : Enqueued now key r r'' := by
  rcases h with rfl | ⟨hnone, hnew⟩
  · exact h'
  · rcases h' with rfl | ⟨hnone', -⟩
    · exact .inr ⟨hnone, hnew⟩
    · obtain ⟨message, json, hash, -, hrow⟩ := hnew
      simp [hnone'] at hrow

theorem Enqueued.move {key : String} {r r' : Option OutboxRow} (h : Enqueued a.now key r r') :
    OutboxMove a c key r r' := by
  rcases h with rfl | ⟨rfl, message, json, hash, rfl, rfl⟩
  · exact .same _
  · exact .enqueued

theorem insertOutbox_enqueued (message : OutboundMessage) (json : JsonColumn) (hash : String)
    (now : Timestamp) : Table.Moves OutboxRow.idempotencyKey (Enqueued now) t.outbox
      (insertOutbox (pendingRow message json hash now) t).outbox := by
  unfold insertOutbox
  split
  · exact .refl fun _ _ => .inl rfl
  · rename_i hnone
    exact Table.moves_concat (fun _ _ => .inl rfl) (Option.not_isSome_iff_eq_none.1 hnone)
      (.inr ⟨rfl, message, json, hash, rfl, rfl⟩)

theorem enqueueAll_enqueued {now : Timestamp} {batch : List OutboundMessage} {rows : List OutboxRow}
    (h : enqueueAll store now batch t = (.ok rows, t')) :
    Table.Moves OutboxRow.idempotencyKey (Enqueued now) t.outbox t'.outbox := by
  induction batch generalizing t rows with
  | nil =>
      obtain ⟨-, rfl⟩ := Txn.pure_ok.1 h
      exact .refl fun _ _ => .inl rfl
  | cons message batch ih =>
      simp only [enqueueAll, Txn.bind_ok, Txn.pure_ok] at h
      obtain ⟨row, t₁, hrow, rest, t₂, hrest, -, rfl⟩ := h
      obtain ⟨json, hash, -, -, rfl, -⟩ := enqueueOutboxLocked_ok hrow
      exact (insertOutbox_enqueued message json hash now).trans (ih hrest)
        fun _ _ _ _ hfirst hrest => hfirst.trans hrest

theorem updateOutbox_moves {p : OutboxRow → Bool} {f : OutboxRow → OutboxRow}
    (hkey : ∀ r, (f r).idempotencyKey = r.idempotencyKey)
    (h : ∀ r, p r = true → OutboxMove a c r.idempotencyKey (some r) (some (f r))) :
    Table.Moves OutboxRow.idempotencyKey (OutboxMove a c) t.outbox (updateOutbox p f t).outbox :=
  Table.moves_updateWhere hkey (fun _ r => .same r) h

theorem argmin_filter_mem {α κ : Type} [LinearOrder κ] {p : α → Bool} {f : α → κ} {rows : List α}
    {row : α} (h : (rows.filter p).argmin f = some row) : row ∈ rows ∧ p row = true :=
  List.mem_filter.1 (List.argmin_mem h)

theorem find_updateOutbox {p : OutboxRow → Bool} {f : OutboxRow → OutboxRow} {key : String}
    (hkey : ∀ r, (f r).idempotencyKey = r.idempotencyKey) :
    (updateOutbox p f t).findOutbox key = (t.findOutbox key).map fun r => if p r then f r else r :=
  Table.find_updateWhere hkey

def OutboxKeyed (t : ChannelTables) : Prop := Table.Keyed OutboxRow.idempotencyKey t.outbox

theorem OutboxKeyed.update {p : OutboxRow → Bool} {f : OutboxRow → OutboxRow} (h : OutboxKeyed t)
    (hkey : ∀ r, (f r).idempotencyKey = r.idempotencyKey) : OutboxKeyed (updateOutbox p f t) :=
  Table.Keyed.updateWhere h hkey

theorem OutboxKeyed.find (h : OutboxKeyed t) {row : OutboxRow} (hrow : row ∈ t.outbox) :
    t.findOutbox row.idempotencyKey = some row := Table.Keyed.find h hrow

theorem OutboxKeyed.insert {row : OutboxRow} (h : OutboxKeyed t) :
    OutboxKeyed (insertOutbox row t) := by
  unfold insertOutbox
  split
  · exact h
  · rename_i hnone
    exact Table.Keyed.append h (Option.not_isSome_iff_eq_none.1 hnone)

theorem OutboxKeyed.enqueueAll {now : Timestamp} {batch : List OutboundMessage}
    {rows : List OutboxRow} (h : OutboxKeyed t)
    (hall : enqueueAll store now batch t = (.ok rows, t')) : OutboxKeyed t' := by
  induction batch generalizing t rows with
  | nil =>
      obtain ⟨-, rfl⟩ := Txn.pure_ok.1 hall
      exact h
  | cons message batch ih =>
      simp only [ChannelStore.enqueueAll, Txn.bind_ok, Txn.pure_ok] at hall
      obtain ⟨row, t₁, hrow, rest, t₂, hrest, -, rfl⟩ := hall
      obtain ⟨json, hash, -, -, rfl, -⟩ := enqueueOutboxLocked_ok hrow
      exact ih h.insert hrest

/-- What a claim does: the expired rows go first, then one pending row is taken, if there is one. -/
theorem claimOutbox_ok {owner : String} {leaseSeconds : ℚ} {platform : Option Platform}
    {claimed : Option OutboxRow} (hkeyed : OutboxKeyed t)
    (h : claimOutbox owner leaseSeconds platform a t = (.ok claimed, t')) :
    claimed = none ∧ t' = updateOutbox (OutboxRow.isExpired a.now) (OutboxRow.expire a.now) t ∨
      ∃ row expires, deadline a.start leaseSeconds = .ok expires ∧
        t.findOutbox row.idempotencyKey = some row ∧ row.status = .pending ∧
        claimed = some (row.claim owner expires a.now) ∧
        t' = updateOutbox (isPending row.idempotencyKey) (OutboxRow.claim owner expires a.now)
          (updateOutbox (OutboxRow.isExpired a.now) (OutboxRow.expire a.now) t) := by
  simp only [claimOutbox, recoverOutboxLocked, Txn.bind_ok, Txn.require_ok, Txn.lift_ok,
    Txn.atomically_ok, Txn.read_ok, Txn.write_ok, Txn.pure_ok] at h
  obtain ⟨_, _, ⟨-, rfl⟩, expires, _, ⟨hdeadline, rfl⟩, _, _, ⟨_, _, ⟨-, rfl⟩, _, _, rfl, -, rfl⟩,
    next, _, ⟨hnext, rfl⟩, h⟩ := h
  cases next with
  | none =>
      obtain ⟨rfl, rfl⟩ := Txn.pure_ok.1 h
      exact .inl ⟨rfl, rfl⟩
  | some row =>
      simp only [Txn.bind_ok, Txn.write_ok, Txn.pure_ok] at h
      obtain ⟨_, _, rfl, found, _, hselect, rfl, rfl⟩ := h
      obtain ⟨hfound, rfl⟩ := selectOutbox_ok hselect
      obtain ⟨hmem, hpending⟩ := argmin_filter_mem hnext
      simp only [isNextOutbox, Bool.and_eq_true, decide_eq_true_eq] at hpending
      have hrow := (hkeyed.update (p := OutboxRow.isExpired a.now) OutboxRow.expire_key).find hmem
      have hbefore : t.findOutbox row.idempotencyKey = some row := by
        have hmap := hrow
        rw [find_updateOutbox OutboxRow.expire_key] at hmap
        obtain ⟨before, hbefore, hexpire⟩ := Option.map_eq_some_iff.1 hmap
        split at hexpire
        · simp [← hexpire, OutboxRow.expire] at hpending
        · rw [hbefore, hexpire]
      refine .inr ⟨row, expires, hdeadline, hbefore, hpending.1, ?_, rfl⟩
      rw [find_updateOutbox OutboxRow.claim_key, hrow] at hfound
      simpa [isPending, hpending.1] using hfound.symm

theorem claimOutbox_moves {owner : String} {leaseSeconds : ℚ} {platform : Option Platform}
    {deadline : Timestamp} {key : String} :
    Table.Moves OutboxRow.idempotencyKey (OutboxMove a (.claimOutbox owner leaseSeconds platform))
      t.outbox (updateOutbox (isPending key) (OutboxRow.claim owner deadline a.now)
        (updateOutbox (OutboxRow.isExpired a.now) (OutboxRow.expire a.now) t)).outbox := by
  intro k
  change OutboxMove a _ k (t.findOutbox k) (ChannelTables.findOutbox _ k)
  rw [find_updateOutbox OutboxRow.claim_key, find_updateOutbox OutboxRow.expire_key]
  cases hrow : t.findOutbox k with
  | none => exact .same none
  | some row =>
      obtain rfl : row.idempotencyKey = k := Table.find_key hrow
      simp only [Option.map_some]
      by_cases hexpired : row.isExpired a.now = true
      · have hkept : isPending key (row.expire a.now) = false := by
          simp [isPending, OutboxRow.expire]
        rw [if_pos hexpired, if_neg (by simp [hkept])]
        exact .expired hexpired
      · rw [if_neg hexpired]
        split
        · rename_i hpending
          simp only [isPending, Bool.and_eq_true, decide_eq_true_eq] at hpending
          exact .claimed hpending.2
        · exact .same _

theorem finishOutbox_moves {key owner : String} {status : OutboxStatus}
    {receipt : Option RemoteReceipt} {error : Option String} {row : OutboxRow}
    (hstatus : status ∈ [OutboxStatus.sent, .unknown, .failed]) (hkeyed : OutboxKeyed t)
    (h : finishOutbox key owner status receipt error a t = (.ok row, t')) :
    Table.Moves OutboxRow.idempotencyKey (OutboxMove a c) t.outbox t'.outbox ∧ OutboxKeyed t' := by
  simp only [finishOutbox, Txn.bind_ok, Txn.lift_ok, Txn.atomically_ok] at h
  obtain ⟨json, _, ⟨-, rfl⟩, _, t₁, hone, hselect⟩ := h
  obtain ⟨-, rfl⟩ := updateOneOutbox_ok hone
  obtain ⟨-, rfl⟩ := selectOutbox_ok hselect
  exact ⟨updateOutbox_moves OutboxRow.finish_key fun _ hsending => .finished hsending hstatus,
    hkeyed.update OutboxRow.finish_key⟩

/-- What each call makes of the outbox. -/
theorem perform_outbox {r : Except PyError β} (hkeyed : OutboxKeyed t)
    (h : c.perform store a t = (r, t')) :
    Table.Moves OutboxRow.idempotencyKey (OutboxMove a c) t.outbox t'.outbox ∧ OutboxKeyed t' := by
  have hsame : t'.outbox = t.outbox →
      Table.Moves OutboxRow.idempotencyKey (OutboxMove a c) t.outbox t'.outbox ∧ OutboxKeyed t' := by
    intro hsame
    rw [OutboxKeyed, hsame]
    exact ⟨.refl fun _ r => .same r, hkeyed⟩
  cases r with
  | error e =>
      have hatomic := c.perform_atomic t e (congrArg Prod.fst h)
      rw [h] at hatomic
      exact hsame (congrArg ChannelTables.outbox hatomic)
  | ok b =>
      by_cases hspares : c.sparesOutbox = true
      · have hkeeps := @ChannelCall.sparesOutbox_keeps store a _ _ hspares t
        rw [h] at hkeeps
        exact hsame hkeeps
      · cases c with
        | enqueueOutbox message =>
            obtain ⟨json, hash, -, -, rfl, -⟩ := enqueueOutboxLocked_ok (Txn.atomically_ok.1 h)
            exact ⟨(insertOutbox_enqueued message json hash a.now).mono
              fun _ _ _ hmove => hmove.move, hkeyed.insert⟩
        | claimOutbox owner leaseSeconds platform =>
            rcases claimOutbox_ok hkeyed h with ⟨-, rfl⟩ | ⟨row, expires, -, hrow, hpending, -, rfl⟩
            · exact ⟨updateOutbox_moves OutboxRow.expire_key fun _ hr => .expired hr,
                hkeyed.update OutboxRow.expire_key⟩
            · exact ⟨claimOutbox_moves,
                (hkeyed.update OutboxRow.expire_key).update OutboxRow.claim_key⟩
        | recoverOutboxLeases =>
            simp only [ChannelCall.perform, recoverOutboxLeases, recoverOutboxLocked,
              Txn.atomically_ok, Txn.bind_ok, Txn.read_ok, Txn.write_ok, Txn.pure_ok] at h
            obtain ⟨_, _, ⟨-, rfl⟩, _, _, rfl, -, rfl⟩ := h
            exact ⟨updateOutbox_moves OutboxRow.expire_key fun _ hr => .expired hr,
              hkeyed.update OutboxRow.expire_key⟩
        | heartbeatOutbox key owner leaseSeconds =>
            simp only [ChannelCall.perform, heartbeatOutbox, Txn.bind_ok, Txn.lift_ok,
              Txn.atomically_ok] at h
            obtain ⟨deadline, _, ⟨-, rfl⟩, hone⟩ := h
            obtain ⟨-, rfl⟩ := updateOneOutbox_ok hone
            exact ⟨updateOutbox_moves OutboxRow.heartbeat_key fun _ hr => .extended hr,
              hkeyed.update OutboxRow.heartbeat_key⟩
        | markOutboxSent => exact finishOutbox_moves (by simp) hkeyed h
        | markOutboxUnknown => exact finishOutbox_moves (by simp) hkeyed h
        | markOutboxFailed => exact finishOutbox_moves (by simp) hkeyed h
        | resolveOutbox key sent note =>
            simp only [ChannelCall.perform, resolveOutbox, Txn.bind_ok, Txn.require_ok,
              Txn.atomically_ok] at h
            obtain ⟨_, _, ⟨-, rfl⟩, _, t₁, hone, hselect⟩ := h
            obtain ⟨-, rfl⟩ := updateOneOutbox_ok hone
            obtain ⟨-, rfl⟩ := selectOutbox_ok hselect
            refine ⟨updateOutbox_moves OutboxRow.decide_key fun row hr => ?_,
              hkeyed.update OutboxRow.decide_key⟩
            simp only [Bool.and_eq_true, decide_eq_true_eq] at hr
            obtain ⟨rfl, hunknown⟩ := hr
            exact .resolved rfl hunknown
        | retryOutbox key note =>
            simp only [ChannelCall.perform, retryOutbox, Txn.bind_ok, Txn.require_ok,
              Txn.atomically_ok] at h
            obtain ⟨_, _, ⟨-, rfl⟩, _, t₁, hone, hselect⟩ := h
            obtain ⟨-, rfl⟩ := updateOneOutbox_ok hone
            obtain ⟨-, rfl⟩ := selectOutbox_ok hselect
            refine ⟨updateOutbox_moves OutboxRow.decide_key fun row hr => ?_,
              hkeyed.update OutboxRow.decide_key⟩
            simp only [Bool.and_eq_true, Bool.or_eq_true, decide_eq_true_eq] at hr
            obtain ⟨rfl, hretriable⟩ := hr
            exact .retried rfl hretriable
        | completeInboxWithOutbox key owner batch runId =>
            simp only [ChannelCall.perform, completeInboxWithOutbox, Txn.atomically_ok, Txn.bind_ok,
              Txn.pure_ok] at h
            obtain ⟨rows, t₁, hall, _, t₂, hone, -, rfl⟩ := h
            obtain ⟨-, rfl⟩ := updateOneInbox_ok hone
            have hkeyed' : OutboxKeyed t₁ := hkeyed.enqueueAll hall
            exact ⟨(enqueueAll_enqueued hall).mono fun _ _ _ hmove => hmove.move, hkeyed'⟩
        | _ => simp [ChannelCall.sparesOutbox] at hspares

end ChannelStore

end Polaris
