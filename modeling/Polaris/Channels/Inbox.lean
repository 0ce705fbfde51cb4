import Polaris.Channels.Outbox

namespace Polaris
open PyJson ChannelStore

/-- What the calls that end the handling of an event make of it. -/
def ChannelCall.finishes : {β : Type} → ChannelCall β → Option ((Platform × String) × String × InboxStatus)
  | _, .completeInbox key owner _ _ => some (key, owner, .completed)
  | _, .completeInboxWithOutbox key owner _ _ => some (key, owner, .completed)
  | _, .failInbox key owner _ _ => some (key, owner, .failed)
  | _, _ => none

/-- What a call can make of the row of the inbox under a key. -/
inductive InboxMove (a : Readings) {β : Type} (c : ChannelCall β) :
    Platform × String → Option InboxRow → Option InboxRow → Prop
  | same {key : Platform × String} (r : Option InboxRow) : InboxMove a c key r r
  | ingested {row : InboxRow} : row.status = .received ∨ row.status = .completed →
      row.leaseOwner = none → row.leaseExpiresAt = none → row.heartbeatAt = none →
      InboxMove a c (inboxKey row) none (some row)
  | claimed {owner : String} {deadline : Timestamp} {row : InboxRow} : row.status = .received →
      InboxMove a c (inboxKey row) (some row) (some (row.claim owner deadline a.now))
  | expired {row : InboxRow} : row.isExpired a.now = true →
      InboxMove a c (inboxKey row) (some row) (some (row.expire a.now))
  | reclaimed {owner : String} {deadline : Timestamp} {row : InboxRow} :
      row.isExpired a.now = true →
      InboxMove a c (inboxKey row) (some row) (some ((row.expire a.now).claim owner deadline a.now))
  | extended {key : Platform × String} {owner : String} {deadline : Timestamp} {row : InboxRow} :
      row.isProcessing key owner a.now = true →
      InboxMove a c (inboxKey row) (some row) (some (row.heartbeat deadline a.now))
  | linked {runId : String} {row : InboxRow} : row.status = .processing →
      InboxMove a c (inboxKey row) (some row) (some (row.link runId a.now))
  | finished {key : Platform × String} {owner : String} {status : InboxStatus}
      {runId outboxKey error : Option String} {row : InboxRow} :
      c.finishes = some (key, owner, status) → row.isProcessing key owner a.now = true →
      InboxMove a c (inboxKey row) (some row)
        (some (row.finish status runId outboxKey error a.now))

namespace InboxRow
variable {now deadline : Timestamp} {owner runId : String} {status : InboxStatus}

theorem expire_key (r : InboxRow) : inboxKey (r.expire now) = inboxKey r := rfl

theorem claim_key (r : InboxRow) : inboxKey (r.claim owner deadline now) = inboxKey r := rfl

theorem heartbeat_key (r : InboxRow) : inboxKey (r.heartbeat deadline now) = inboxKey r := rfl

theorem link_key (r : InboxRow) : inboxKey (r.link runId now) = inboxKey r := rfl

theorem finish_key {run outboxKey error : Option String} (r : InboxRow) :
    inboxKey (r.finish status run outboxKey error now) = inboxKey r := rfl

theorem isProcessing_iff {key : Platform × String} {r : InboxRow} :
    r.isProcessing key owner now = true ↔ inboxKey r = key ∧ r.status = .processing ∧
      r.leaseOwner = some owner ∧ ∃ expiry, r.leaseExpiresAt = some expiry ∧ now < expiry := by
  simp only [isProcessing, Bool.and_eq_true, decide_eq_true_eq, Option.any_eq_true_iff_get]
  constructor
  · rintro ⟨⟨⟨hkey, hstatus⟩, howner⟩, hsome, hlater⟩
    exact ⟨hkey, hstatus, howner, _, (Option.some_get hsome).symm, hlater⟩
  · rintro ⟨hkey, hstatus, howner, expiry, hexpiry, hlater⟩
    exact ⟨⟨⟨hkey, hstatus⟩, howner⟩, by simp [hexpiry], by simpa [hexpiry] using hlater⟩

theorem isExpired_status {r : InboxRow} (h : r.isExpired now = true) : r.status = .processing := by
  simp only [isExpired, Bool.and_eq_true, decide_eq_true_eq] at h
  exact h.1

end InboxRow

namespace ChannelStore
variable {store : ChannelStore} {a : Readings} {t t' : ChannelTables} {β : Type}
  {c : ChannelCall β}

theorem find_updateInbox {p : InboxRow → Bool} {f : InboxRow → InboxRow} {key : Platform × String}
    (hkey : ∀ r, inboxKey (f r) = inboxKey r) :
    (updateInbox p f t).findInbox key = (t.findInbox key).map fun r => if p r then f r else r :=
  Table.find_updateWhere hkey

def InboxKeyed (t : ChannelTables) : Prop := Table.Keyed inboxKey t.inbox

theorem InboxKeyed.find (h : InboxKeyed t) {row : InboxRow} (hrow : row ∈ t.inbox) :
    t.findInbox (inboxKey row) = some row := Table.Keyed.find h hrow

theorem InboxKeyed.update {p : InboxRow → Bool} {f : InboxRow → InboxRow} (h : InboxKeyed t)
    (hkey : ∀ r, inboxKey (f r) = inboxKey r) : InboxKeyed (updateInbox p f t) :=
  Table.Keyed.updateWhere h hkey

theorem InboxKeyed.insert {row : InboxRow} (h : InboxKeyed t) : InboxKeyed (insertInbox row t) := by
  unfold insertInbox
  split
  · exact h
  · rename_i hnone
    exact Table.Keyed.append h (Option.not_isSome_iff_eq_none.1 hnone)

/-- The one row that a finished update has met. -/
theorem updateOneInbox_found {p : InboxRow → Bool} {f : InboxRow → InboxRow} {e : PyError}
    {u : Unit} (hkeyed : InboxKeyed t) (h : updateOneInbox p f e t = (.ok u, t')) :
    ∃ row, t.findInbox (inboxKey row) = some row ∧ p row = true := by
  obtain ⟨hcount, -⟩ := updateOneInbox_ok h
  obtain ⟨row, hrow, hp⟩ := List.countP_pos_iff.1 (hcount ▸ Nat.one_pos)
  exact ⟨row, hkeyed.find hrow, hp⟩

theorem updateInbox_moves {p : InboxRow → Bool} {f : InboxRow → InboxRow}
    (hkey : ∀ r, inboxKey (f r) = inboxKey r)
    (h : ∀ r, p r = true → InboxMove a c (inboxKey r) (some r) (some (f r))) :
    Table.Moves inboxKey (InboxMove a c) t.inbox (updateInbox p f t).inbox :=
  Table.moves_updateWhere hkey (fun _ r => .same r) h

theorem insertInbox_moves {row : InboxRow} (hstatus : row.status = .received ∨ row.status = .completed)
    (howner : row.leaseOwner = none) (hexpiry : row.leaseExpiresAt = none)
    (hheartbeat : row.heartbeatAt = none) :
    Table.Moves inboxKey (InboxMove a c) t.inbox (insertInbox row t).inbox := by
  unfold insertInbox
  split
  · exact .refl fun _ r => .same r
  · rename_i hnone
    exact Table.moves_concat (fun _ r => .same r) (Option.not_isSome_iff_eq_none.1 hnone)
      (.ingested hstatus howner hexpiry hheartbeat)

theorem insertInboxRow_ok {row : InboxRow} {duplicate : Bool}
    (h : insertInboxRow row t = (.ok duplicate, t')) :
    duplicate = (t.findInbox (inboxKey row)).isSome ∧ t' = insertInbox row t := by
  simp only [insertInboxRow, Txn.bind_ok, Txn.read_ok, Txn.require_ok, Txn.write_ok,
    Txn.pure_ok] at h
  obtain ⟨_, _, ⟨rfl, rfl⟩, _, _, ⟨-, rfl⟩, _, _, ⟨-, rfl⟩, _, _, rfl, rfl, rfl⟩ := h
  exact ⟨rfl, rfl⟩

/-- What the ingestion of an update writes: a row under its event id, unless there is one, and the
offset. -/
structure Ingested (store : ChannelStore) (update : List (String × PyVal))
    (policy : Option AuthorizationPolicy) (streamKey : Option String) (a : Readings)
    (t t' : ChannelTables) (result : IngestResult) (updateId : ℤ) (n : NormalizedTelegramUpdate)
    (epoch : ℕ) (row : InboxRow) : Prop where
  id : requireUpdateId update = .ok updateId
  normalized : n = normalizeTelegramUpdate store.py (policy.getD store.authorizationPolicy) updateId
    a.receivedAt update
  current : epoch = (t.findOffset (store.streamOf streamKey)).elim 0 OffsetRow.epoch
  payload : optJson (n.allowed.map fun _ => dict update) = .ok row.payload
  shape : ∃ hash json, row = updateRow epoch updateId hash row.payload
    (n.allowed.map (inEpoch epoch updateId)) json n a.now
  duplicate : result.duplicate = (t.findInbox (.telegram, eventId epoch updateId)).isSome
  decision : result.decision = n.decision
  envelope : result.envelope = n.allowed.map (inEpoch epoch updateId)
  inbox : t'.inbox = (insertInbox row t).inbox
  offsets : t'.offsets = (advanceOffset (store.streamOf streamKey) (updateId + 1) a.now t).offsets

theorem upsertOffset_offsets_congr {t₁ : ChannelTables} {new : OffsetRow}
    {f : OffsetRow → OffsetRow} (h : t₁.offsets = t.offsets) :
    (upsertOffset new f t₁).offsets = (upsertOffset new f t).offsets := by
  unfold upsertOffset ChannelTables.findOffset
  rw [h]
  split <;> rfl

theorem ingestTelegramUpdate_ok {update : List (String × PyVal)}
    {policy : Option AuthorizationPolicy} {streamKey : Option String} {result : IngestResult}
    (h : ingestTelegramUpdate store update policy streamKey a t = (.ok result, t')) :
    ∃ updateId n epoch row,
      Ingested store update policy streamKey a t t' result updateId n epoch row := by
  simp only [ingestTelegramUpdate, Txn.bind_ok, Txn.lift_ok, Txn.atomically_ok, Txn.read_ok,
    Txn.write_ok, Txn.pure_ok] at h
  obtain ⟨updateId, _, ⟨hid, rfl⟩, hash, _, ⟨hhash, rfl⟩, payload, _, ⟨hpayload, rfl⟩, _, _, ⟨-, rfl⟩,
    epoch, _, ⟨hepoch, rfl⟩, json, _, ⟨hjson, rfl⟩, duplicate, t₁, hinsert, _, t₂, rfl, _, t₃, haudit,
    _, _, ⟨-, rfl⟩, rfl, rfl⟩ := h
  obtain ⟨hduplicate, rfl⟩ := insertInboxRow_ok hinsert
  refine ⟨updateId, _, epoch, updateRow epoch updateId hash payload _ json _ a.now, hid, rfl,
    hepoch.symm, hpayload, ⟨hash, json, rfl⟩, hduplicate, rfl, rfl, ?_, ?_⟩
  · rw [← haudit]
    split
    · exact upsertOffset_inbox _ _ _
    · exact upsertOffset_inbox _ _ _
  · rw [← haudit]
    split
    · exact upsertOffset_offsets_congr (insertInbox_offsets _ _)
    · exact upsertOffset_offsets_congr (insertInbox_offsets _ _)

/-- What the ingestion of an envelope writes. -/
theorem ingestEnvelope_ok {envelope : ChannelEnvelope} {payload : List (String × PyVal)}
    {decision : Option AuthDecision} {reason : Option String} {result : IngestResult}
    (h : ingestEnvelope store envelope payload decision reason a t = (.ok result, t')) :
    ∃ row, t'.inbox = (insertInbox row t).inbox ∧
      ∃ allowed hash text json selected why,
        row = envelopeRow envelope allowed hash text json selected why a.now := by
  simp only [ingestEnvelope, Txn.bind_ok, Txn.lift_ok, Txn.atomically_ok, Txn.write_ok,
    Txn.pure_ok] at h
  obtain ⟨hash, _, ⟨-, rfl⟩, text, _, ⟨-, rfl⟩, json, _, ⟨-, rfl⟩, duplicate, t₁, hinsert, _, t₂, haudit,
    -, rfl⟩ := h
  generalize hrow : envelopeRow envelope _ hash text json _ _ a.now = row at hinsert
  obtain ⟨-, rfl⟩ := insertInboxRow_ok hinsert
  refine ⟨row, ?_, _, hash, text, json, _, _, hrow.symm⟩
  rw [← haudit]
  split <;> rfl

theorem claimInbox_moves {owner : String} {deadline : Timestamp} {key : Platform × String} :
    Table.Moves inboxKey (InboxMove a c) t.inbox
      (updateInbox (fun r => inboxKey r = key && r.status = .received)
        (InboxRow.claim owner deadline a.now)
        (updateInbox (InboxRow.isExpired a.now) (InboxRow.expire a.now) t)).inbox := by
  intro k
  change InboxMove a _ k (t.findInbox k) (ChannelTables.findInbox _ k)
  rw [find_updateInbox InboxRow.claim_key, find_updateInbox InboxRow.expire_key]
  cases hrow : t.findInbox k with
  | none => exact .same none
  | some row =>
      obtain rfl : inboxKey row = k := Table.find_key hrow
      simp only [Option.map_some]
      by_cases hexpired : row.isExpired a.now = true
      · rw [if_pos hexpired]
        split
        · exact .reclaimed hexpired
        · exact .expired hexpired
      · rw [if_neg hexpired]
        split
        · rename_i hreceived
          simp only [Bool.and_eq_true, decide_eq_true_eq] at hreceived
          exact .claimed hreceived.2
        · exact .same _

/-- What each call makes of the inbox. -/
theorem perform_inbox {r : Except PyError β} (hkeyed : InboxKeyed t)
    (h : c.perform store a t = (r, t')) :
    Table.Moves inboxKey (InboxMove a c) t.inbox t'.inbox ∧ InboxKeyed t' := by
  have hsame : t'.inbox = t.inbox →
      Table.Moves inboxKey (InboxMove a c) t.inbox t'.inbox ∧ InboxKeyed t' := by
    intro hsame
    rw [InboxKeyed, hsame]
    exact ⟨.refl fun _ r => .same r, hkeyed⟩
  have hfinish : ∀ {key owner status runId outboxKey error e u} {t₁ t₂ : ChannelTables},
      c.finishes = some (key, owner, status) → t₁.inbox = t.inbox →
      updateOneInbox (InboxRow.isProcessing key owner a.now)
        (InboxRow.finish status runId outboxKey error a.now) e t₁ = (.ok u, t₂) →
      Table.Moves inboxKey (InboxMove a c) t.inbox t₂.inbox ∧ InboxKeyed t₂ := by
    intro key owner status runId outboxKey error e u t₁ t₂ hfinishes hinbox hone
    obtain ⟨-, rfl⟩ := updateOneInbox_ok hone
    have hkeyed₁ : InboxKeyed t₁ := by rwa [InboxKeyed, hinbox]
    rw [← hinbox]
    exact ⟨updateInbox_moves InboxRow.finish_key fun _ hp => .finished hfinishes hp,
      hkeyed₁.update InboxRow.finish_key⟩
  cases r with
  | error e =>
      have hatomic := c.perform_atomic t e (congrArg Prod.fst h)
      rw [h] at hatomic
      exact hsame (congrArg ChannelTables.inbox hatomic)
  | ok b =>
      by_cases hspares : c.sparesInbox = true
      · have hkeeps := @ChannelCall.sparesInbox_keeps store a _ _ hspares t
        rw [h] at hkeeps
        exact hsame hkeeps
      · cases c with
        | claimInbox owner leaseSeconds platform =>
            simp only [ChannelCall.perform, claimInbox, recoverInboxLocked, Txn.bind_ok,
              Txn.require_ok, Txn.lift_ok, Txn.atomically_ok, Txn.read_ok, Txn.write_ok,
              Txn.pure_ok] at h
            obtain ⟨_, _, ⟨-, rfl⟩, deadline, _, ⟨-, rfl⟩, _, _, ⟨_, _, ⟨-, rfl⟩, _, _, rfl, -, rfl⟩,
              next, _, ⟨-, rfl⟩, h⟩ := h
            cases next with
            | none =>
                obtain ⟨-, rfl⟩ := Txn.pure_ok.1 h
                exact ⟨updateInbox_moves InboxRow.expire_key fun _ hp => .expired hp,
                  hkeyed.update InboxRow.expire_key⟩
            | some row =>
                simp only [Txn.bind_ok, Txn.write_ok, Txn.pure_ok] at h
                obtain ⟨_, _, rfl, found, _, hselect, -, rfl⟩ := h
                obtain ⟨-, rfl⟩ := selectInbox_ok hselect
                exact ⟨claimInbox_moves,
                  (hkeyed.update InboxRow.expire_key).update InboxRow.claim_key⟩
        | recoverInboxLeases =>
            simp only [ChannelCall.perform, recoverInboxLeases, recoverInboxLocked,
              Txn.atomically_ok, Txn.bind_ok, Txn.read_ok, Txn.write_ok, Txn.pure_ok] at h
            obtain ⟨_, _, ⟨-, rfl⟩, _, _, rfl, -, rfl⟩ := h
            exact ⟨updateInbox_moves InboxRow.expire_key fun _ hp => .expired hp,
              hkeyed.update InboxRow.expire_key⟩
        | heartbeatInbox key owner leaseSeconds =>
            simp only [ChannelCall.perform, heartbeatInbox, Txn.bind_ok, Txn.lift_ok,
              Txn.atomically_ok] at h
            obtain ⟨deadline, _, ⟨-, rfl⟩, hone⟩ := h
            obtain ⟨-, rfl⟩ := updateOneInbox_ok hone
            exact ⟨updateInbox_moves InboxRow.heartbeat_key fun _ hp => .extended hp,
              hkeyed.update InboxRow.heartbeat_key⟩
        | linkInboxRun key downstreamKey runId =>
            simp only [ChannelCall.perform, linkInboxRun, Txn.bind_ok, Txn.require_ok,
              Txn.atomically_ok, Txn.read_ok, Txn.getOr_ok, Txn.write_ok] at h
            obtain ⟨_, _, ⟨-, rfl⟩, _, _, ⟨rfl, rfl⟩, _, _, ⟨-, rfl⟩, _, _, ⟨-, rfl⟩, rfl⟩ := h
            refine ⟨updateInbox_moves InboxRow.link_key fun row hp => .linked ?_,
              hkeyed.update InboxRow.link_key⟩
            simp only [isLinkable, Bool.and_eq_true, decide_eq_true_eq] at hp
            exact hp.1.2
        | completeInbox key owner runId outboxKey =>
            exact hfinish rfl rfl (Txn.atomically_ok.1 h)
        | failInbox key owner error runId => exact hfinish rfl rfl (Txn.atomically_ok.1 h)
        | completeInboxWithOutbox key owner batch runId =>
            simp only [ChannelCall.perform, completeInboxWithOutbox, Txn.atomically_ok, Txn.bind_ok,
              Txn.pure_ok] at h
            obtain ⟨rows, t₁, hall, _, t₂, hone, -, rfl⟩ := h
            have hkeeps := @ChannelCall.enqueueAll_keeps store a.now batch t
            rw [hall] at hkeeps
            exact hfinish rfl hkeeps hone
        | ingestTelegramUpdate update policy streamKey =>
            obtain ⟨updateId, n, epoch, row, hingested⟩ := ingestTelegramUpdate_ok h
            obtain ⟨hash, json, hrow⟩ := hingested.shape
            have hstatus : row.status = .received ∨ row.status = .completed := by
              rw [hrow]
              simp only [updateRow]
              split <;> simp
            rw [InboxKeyed, hingested.inbox]
            exact ⟨insertInbox_moves hstatus (by rw [hrow]; rfl) (by rw [hrow]; rfl)
              (by rw [hrow]; rfl), hkeyed.insert⟩
        | ingestEnvelope envelope payload decision reason =>
            obtain ⟨row, hinbox, allowed, hash, text, json, selected, why, rfl⟩ := ingestEnvelope_ok h
            rw [InboxKeyed, hinbox]
            refine ⟨insertInbox_moves ?_ rfl rfl rfl, hkeyed.insert⟩
            simp only [envelopeRow]
            split <;> simp
        | _ => simp [ChannelCall.sparesInbox] at hspares

end ChannelStore

end Polaris
