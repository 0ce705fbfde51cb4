import Polaris.Channels.Store
import Polaris.Library.Moves

namespace Polaris
open PyJson

inductive ChannelCall : Type → Type where
  | enqueueOutbox (message : OutboundMessage) : ChannelCall OutboxRow
  | claimOutbox (owner : String) (leaseSeconds : ℚ) (platform : Option Platform) :
      ChannelCall (Option OutboxRow)
  | recoverOutboxLeases : ChannelCall ℕ
  | heartbeatOutbox (key owner : String) (leaseSeconds : ℚ) : ChannelCall Unit
  | markOutboxSent (key owner : String) (receipt : RemoteReceipt) : ChannelCall OutboxRow
  | markOutboxUnknown (key owner error : String) : ChannelCall OutboxRow
  | markOutboxFailed (key owner error : String) : ChannelCall OutboxRow
  | resolveOutbox (key : String) (sent : Bool) (note : String) : ChannelCall OutboxRow
  | retryOutbox (key note : String) : ChannelCall OutboxRow
  | claimInbox (owner : String) (leaseSeconds : ℚ) (platform : Option Platform) :
      ChannelCall (Option InboxRow)
  | recoverInboxLeases : ChannelCall ℕ
  | heartbeatInbox (key : Platform × String) (owner : String) (leaseSeconds : ℚ) : ChannelCall Unit
  | linkInboxRun (key : Platform × String) (downstreamKey runId : String) : ChannelCall Unit
  | completeInbox (key : Platform × String) (owner : String) (runId outboxKey : Option String) :
      ChannelCall Unit
  | completeInboxWithOutbox (key : Platform × String) (owner : String)
      (batch : List OutboundMessage) (runId : Option String) : ChannelCall (List OutboxRow)
  | failInbox (key : Platform × String) (owner error : String) (runId : Option String) :
      ChannelCall Unit
  | bindTelegramIdentity (botId : String) (streamKey : Option String) : ChannelCall ℕ
  | beginTelegramEpoch (nextOffset : ℤ) (streamKey : Option String) : ChannelCall ℕ
  | setTelegramOffset (nextOffset : ℤ) (streamKey : Option String) : ChannelCall Unit
  | ingestTelegramUpdate (update : List (String × PyVal)) (policy : Option AuthorizationPolicy)
      (streamKey : Option String) : ChannelCall ChannelStore.IngestResult
  | ingestEnvelope (envelope : ChannelEnvelope) (payload : List (String × PyVal))
      (decision : Option AuthDecision) (reason : Option String) :
      ChannelCall ChannelStore.IngestResult

namespace ChannelCall
open ChannelStore
variable {β : Type}

def perform (store : ChannelStore) (a : Readings) : ChannelCall β → Op β
  | .enqueueOutbox message => ChannelStore.enqueueOutbox store message a
  | .claimOutbox owner leaseSeconds platform =>
      ChannelStore.claimOutbox owner leaseSeconds platform a
  | .recoverOutboxLeases => ChannelStore.recoverOutboxLeases a
  | .heartbeatOutbox key owner leaseSeconds =>
      ChannelStore.heartbeatOutbox key owner leaseSeconds a
  | .markOutboxSent key owner receipt => ChannelStore.markOutboxSent key owner receipt a
  | .markOutboxUnknown key owner error => ChannelStore.markOutboxUnknown key owner error a
  | .markOutboxFailed key owner error => ChannelStore.markOutboxFailed key owner error a
  | .resolveOutbox key sent note => ChannelStore.resolveOutbox key sent note a
  | .retryOutbox key note => ChannelStore.retryOutbox key note a
  | .claimInbox owner leaseSeconds platform => ChannelStore.claimInbox owner leaseSeconds platform a
  | .recoverInboxLeases => ChannelStore.recoverInboxLeases a
  | .heartbeatInbox key owner leaseSeconds => ChannelStore.heartbeatInbox key owner leaseSeconds a
  | .linkInboxRun key downstreamKey runId => ChannelStore.linkInboxRun key downstreamKey runId a
  | .completeInbox key owner runId outboxKey =>
      ChannelStore.completeInbox key owner runId outboxKey a
  | .completeInboxWithOutbox key owner batch runId =>
      ChannelStore.completeInboxWithOutbox store key owner batch runId a
  | .failInbox key owner error runId => ChannelStore.failInbox key owner error runId a
  | .bindTelegramIdentity botId streamKey =>
      ChannelStore.bindTelegramIdentity store botId streamKey a
  | .beginTelegramEpoch nextOffset streamKey =>
      ChannelStore.beginTelegramEpoch store nextOffset streamKey a
  | .setTelegramOffset nextOffset streamKey =>
      ChannelStore.setTelegramOffset store nextOffset streamKey a
  | .ingestTelegramUpdate update policy streamKey =>
      ChannelStore.ingestTelegramUpdate store update policy streamKey a
  | .ingestEnvelope envelope payload decision reason =>
      ChannelStore.ingestEnvelope store envelope payload decision reason a

end ChannelCall

namespace ChannelStore
variable {store : ChannelStore} {α : Type} {t t' : ChannelTables}

theorem updateOneOutbox_ok {p : OutboxRow → Bool} {f : OutboxRow → OutboxRow} {e : PyError}
    {u : Unit} (h : updateOneOutbox p f e t = (.ok u, t')) :
    t.outbox.countP p = 1 ∧ t' = updateOutbox p f t := by
  simp only [updateOneOutbox, Txn.bind_ok, Txn.read_ok, Txn.write_ok, Txn.require_ok] at h
  obtain ⟨n, _, ⟨rfl, rfl⟩, _, _, rfl, hn, rfl⟩ := h
  exact ⟨by simpa using hn, rfl⟩

theorem updateOneInbox_ok {p : InboxRow → Bool} {f : InboxRow → InboxRow} {e : PyError}
    {u : Unit} (h : updateOneInbox p f e t = (.ok u, t')) :
    t.inbox.countP p = 1 ∧ t' = updateInbox p f t := by
  simp only [updateOneInbox, Txn.bind_ok, Txn.read_ok, Txn.write_ok, Txn.require_ok] at h
  obtain ⟨n, _, ⟨rfl, rfl⟩, _, _, rfl, hn, rfl⟩ := h
  exact ⟨by simpa using hn, rfl⟩

theorem selectOutbox_ok {key : String} {row : OutboxRow} (h : selectOutbox key t = (.ok row, t')) :
    t.findOutbox key = some row ∧ t = t' := by
  simp only [selectOutbox, Txn.bind_ok, Txn.read_ok, Txn.getOr_ok] at h
  obtain ⟨_, _, ⟨rfl, rfl⟩, hrow, rfl⟩ := h
  exact ⟨hrow, rfl⟩

theorem selectInbox_ok {key : Platform × String} {row : InboxRow}
    (h : selectInbox key t = (.ok row, t')) : t.findInbox key = some row ∧ t = t' := by
  simp only [selectInbox, Txn.bind_ok, Txn.read_ok, Txn.getOr_ok] at h
  obtain ⟨_, _, ⟨rfl, rfl⟩, hrow, rfl⟩ := h
  exact ⟨hrow, rfl⟩

theorem enqueueOutboxLocked_ok {message : OutboundMessage} {now : Timestamp} {row : OutboxRow}
    (h : enqueueOutboxLocked store message now t = (.ok row, t')) :
    ∃ json hash, canonicalJson message.toDict = .ok json ∧
      sha256Hex store.sha message.content = .ok hash ∧
      t' = insertOutbox (pendingRow message json hash now) t ∧
      t'.findOutbox message.idempotencyKey = some row ∧ row.contentHash = hash ∧
      row.messageJson = json.text := by
  simp only [enqueueOutboxLocked, Txn.bind_ok, Txn.lift_ok, Txn.write_ok, Txn.read_ok, Txn.getOr_ok,
    Txn.require_ok, Txn.pure_ok, Bool.and_eq_true, decide_eq_true_eq] at h
  obtain ⟨json, _, ⟨hjson, rfl⟩, hash, _, ⟨hhash, rfl⟩, _, _, rfl, found, _, ⟨rfl, rfl⟩, _, _,
    ⟨hfound, rfl⟩, _, _, ⟨⟨hsame, htext⟩, rfl⟩, rfl, rfl⟩ := h
  exact ⟨json, hash, hjson, hhash, rfl, hfound, hsame, htext⟩

end ChannelStore

namespace ChannelCall
open Txn ChannelStore
variable {store : ChannelStore} {a : Readings} {β : Type}

/-- A call that fails leaves the tables as they were. -/
theorem perform_atomic (c : ChannelCall β) : Atomic (c.perform store a) := by
  have hlift {ε σ α γ : Type} (x : Except ε α) {f : α → Txn ε σ γ} (hf : ∀ v, Atomic (f v)) :
      Atomic (Txn.lift x >>= f) := (lift_readOnly x).bind_atomic hf
  have hrequire {ε σ γ : Type} (p : Bool) (e : ε) {f : Unit → Txn ε σ γ} (hf : ∀ v, Atomic (f v)) :
      Atomic (Txn.require p e >>= f) := (require_readOnly p e).bind_atomic hf
  cases c with
  | claimOutbox => exact hrequire _ _ fun _ => hlift _ fun _ => atomically_atomic _
  | heartbeatOutbox => exact hlift _ fun _ => atomically_atomic _
  | markOutboxSent => exact hlift _ fun _ => atomically_atomic _
  | markOutboxUnknown => exact hlift _ fun _ => atomically_atomic _
  | markOutboxFailed => exact hlift _ fun _ => atomically_atomic _
  | resolveOutbox => exact hrequire _ _ fun _ => atomically_atomic _
  | retryOutbox => exact hrequire _ _ fun _ => atomically_atomic _
  | claimInbox => exact hrequire _ _ fun _ => hlift _ fun _ => atomically_atomic _
  | heartbeatInbox => exact hlift _ fun _ => atomically_atomic _
  | linkInboxRun => exact hrequire _ _ fun _ => atomically_atomic _
  | bindTelegramIdentity => exact hrequire _ _ fun _ => atomically_atomic _
  | beginTelegramEpoch => exact hrequire _ _ fun _ => atomically_atomic _
  | setTelegramOffset => exact hrequire _ _ fun _ => atomically_atomic _
  | ingestTelegramUpdate =>
      exact hlift _ fun _ => hlift _ fun _ => hlift _ fun _ => hlift _ fun _ => atomically_atomic _
  | ingestEnvelope => exact hlift _ fun _ => atomically_atomic _
  | _ => exact atomically_atomic _

/-- The calls on the inbox and on the offsets that leave the outbox alone. -/
def sparesOutbox : ChannelCall β → Bool
  | .claimInbox .. | .recoverInboxLeases | .heartbeatInbox .. | .linkInboxRun ..
  | .completeInbox .. | .failInbox .. | .bindTelegramIdentity .. | .beginTelegramEpoch ..
  | .setTelegramOffset .. | .ingestTelegramUpdate .. | .ingestEnvelope .. => true
  | _ => false

end ChannelCall

namespace ChannelStore
open Txn
variable {α : Type} {f : ChannelTables → ChannelTables}

theorem updateOneInbox_keeps {γ : Type} {g : ChannelTables → γ} {p : InboxRow → Bool}
    {f : InboxRow → InboxRow} {e : PyError} (h : ∀ t, g (updateInbox p f t) = g t) :
    Keeps g (updateOneInbox p f e) :=
  (read_readOnly _).keeps.bind fun _ => (keeps_write h).bind fun _ =>
    (require_readOnly _ _).keeps

theorem updateOneOutbox_keeps {γ : Type} {g : ChannelTables → γ} {p : OutboxRow → Bool}
    {f : OutboxRow → OutboxRow} {e : PyError} (h : ∀ t, g (updateOutbox p f t) = g t) :
    Keeps g (updateOneOutbox p f e) :=
  (read_readOnly _).keeps.bind fun _ => (keeps_write h).bind fun _ =>
    (require_readOnly _ _).keeps

theorem selectOutbox_readOnly (key : String) : ReadOnly (selectOutbox key) :=
  (read_readOnly _).bind fun _ => getOr_readOnly _ _

theorem selectInbox_readOnly (key : Platform × String) : ReadOnly (selectInbox key) :=
  (read_readOnly _).bind fun _ => getOr_readOnly _ _

@[simp] theorem insertInbox_outbox (row : InboxRow) (t : ChannelTables) :
    (insertInbox row t).outbox = t.outbox := by
  unfold insertInbox
  split <;> rfl

@[simp] theorem insertInbox_offsets (row : InboxRow) (t : ChannelTables) :
    (insertInbox row t).offsets = t.offsets := by
  unfold insertInbox
  split <;> rfl

@[simp] theorem upsertOffset_outbox (new : OffsetRow) (f : OffsetRow → OffsetRow)
    (t : ChannelTables) : (upsertOffset new f t).outbox = t.outbox := by
  unfold upsertOffset
  split <;> rfl

@[simp] theorem upsertOffset_inbox (new : OffsetRow) (f : OffsetRow → OffsetRow)
    (t : ChannelTables) : (upsertOffset new f t).inbox = t.inbox := by
  unfold upsertOffset
  split <;> rfl

@[simp] theorem insertOutbox_inbox (row : OutboxRow) (t : ChannelTables) :
    (insertOutbox row t).inbox = t.inbox := by
  unfold insertOutbox
  split <;> rfl

theorem insertInboxRow_keeps {γ : Type} {g : ChannelTables → γ} {row : InboxRow}
    (h : ∀ t, g (insertInbox row t) = g t) : Keeps g (insertInboxRow row) :=
  (read_readOnly _).keeps.bind fun _ => (read_readOnly _).keeps.bind fun _ =>
    (require_readOnly _ _).keeps.bind fun _ => (keeps_write h).bind fun _ =>
      (pure_readOnly _).keeps

end ChannelStore

namespace ChannelCall
open Txn ChannelStore
variable {store : ChannelStore} {a : Readings} {β : Type}

theorem sparesOutbox_keeps {c : ChannelCall β} (h : c.sparesOutbox = true) :
    Keeps ChannelTables.outbox (c.perform store a) := by
  cases c with
  | claimInbox =>
      refine (require_readOnly _ _).keeps.bind fun _ => (lift_readOnly _).keeps.bind fun _ =>
        Keeps.atomically (Keeps.bind ?_ fun _ => (read_readOnly _).keeps.bind fun next => ?_)
      · exact (read_readOnly _).keeps.bind fun _ => keeps_write_bind (fun _ => rfl) fun _ =>
          (pure_readOnly _).keeps
      · cases next with
        | none => exact (pure_readOnly _).keeps
        | some row =>
            refine keeps_write_bind (fun _ => ?_) fun _ =>
              (selectInbox_readOnly _).keeps.bind fun _ => (pure_readOnly _).keeps
            rfl
  | recoverInboxLeases =>
      exact Keeps.atomically ((read_readOnly _).keeps.bind fun _ =>
        keeps_write_bind (fun _ => rfl) fun _ => (pure_readOnly _).keeps)
  | heartbeatInbox =>
      exact (lift_readOnly _).keeps.bind fun _ =>
        (updateOneInbox_keeps fun _ => rfl).atomically
  | linkInboxRun =>
      exact (require_readOnly _ _).keeps.bind fun _ => Keeps.atomically <|
        (read_readOnly _).keeps.bind fun _ => (getOr_readOnly _ _).keeps.bind fun _ =>
          (require_readOnly _ _).keeps.bind fun _ => keeps_write fun _ => rfl
  | completeInbox => exact (updateOneInbox_keeps fun _ => rfl).atomically
  | failInbox => exact (updateOneInbox_keeps fun _ => rfl).atomically
  | bindTelegramIdentity =>
      refine (require_readOnly _ _).keeps.bind fun _ => Keeps.atomically <|
        (read_readOnly _).keeps.bind fun found => ?_
      cases found with
      | none =>
          refine keeps_write_bind (fun _ => ?_) fun _ => (pure_readOnly _).keeps
          rfl
      | some row =>
          dsimp only
          split
          · exact (keeps_write fun _ => upsertOffset_outbox _ _ _).bind fun _ =>
              (pure_readOnly _).keeps
          · split
            · exact (keeps_write fun _ => upsertOffset_outbox _ _ _).bind fun _ =>
                (pure_readOnly _).keeps
            · exact (pure_readOnly _).keeps
  | beginTelegramEpoch =>
      exact (require_readOnly _ _).keeps.bind fun _ => Keeps.atomically <|
        (keeps_write fun _ => upsertOffset_outbox _ _ _).bind fun _ =>
          (read_readOnly _).keeps.bind fun _ => (getOr_readOnly _ _).keeps.bind fun _ =>
            (pure_readOnly _).keeps
  | setTelegramOffset =>
      exact (require_readOnly _ _).keeps.bind fun _ =>
        Keeps.atomically (keeps_write fun _ => upsertOffset_outbox _ _ _)
  | ingestTelegramUpdate =>
      refine (lift_readOnly _).keeps.bind fun _ => (lift_readOnly _).keeps.bind fun _ =>
        (lift_readOnly _).keeps.bind fun _ => (lift_readOnly _).keeps.bind fun _ =>
          Keeps.atomically <| (read_readOnly _).keeps.bind fun _ =>
            (lift_readOnly _).keeps.bind fun _ =>
              (insertInboxRow_keeps fun _ => insertInbox_outbox _ _).bind fun _ =>
                (keeps_write fun _ => upsertOffset_outbox _ _ _).bind fun _ =>
                  (keeps_write fun t => ?_).bind fun _ =>
                    (read_readOnly _).keeps.bind fun _ => (pure_readOnly _).keeps
      split <;> rfl
  | ingestEnvelope =>
      refine (lift_readOnly _).keeps.bind fun _ => Keeps.atomically <|
        (lift_readOnly _).keeps.bind fun _ => (lift_readOnly _).keeps.bind fun _ =>
          (insertInboxRow_keeps fun _ => insertInbox_outbox _ _).bind fun _ =>
            (keeps_write fun t => ?_).bind fun _ => (pure_readOnly _).keeps
      split <;> rfl
  | _ => simp [sparesOutbox] at h

/-- The calls on the outbox and on the offsets that leave the inbox alone. -/
def sparesInbox : ChannelCall β → Bool
  | .enqueueOutbox .. | .claimOutbox .. | .recoverOutboxLeases | .heartbeatOutbox ..
  | .markOutboxSent .. | .markOutboxUnknown .. | .markOutboxFailed .. | .resolveOutbox ..
  | .retryOutbox .. | .bindTelegramIdentity .. | .beginTelegramEpoch .. | .setTelegramOffset .. =>
      true
  | _ => false

theorem enqueueOutboxLocked_keeps {message : OutboundMessage} {now : Timestamp} :
    Keeps ChannelTables.inbox (enqueueOutboxLocked store message now) :=
  (lift_readOnly _).keeps.bind fun _ => (lift_readOnly _).keeps.bind fun _ =>
    keeps_write_bind (fun _ => insertOutbox_inbox _ _) fun _ => (read_readOnly _).keeps.bind fun _ =>
      (getOr_readOnly _ _).keeps.bind fun _ => (require_readOnly _ _).keeps.bind fun _ =>
        (pure_readOnly _).keeps

theorem enqueueAll_keeps {now : Timestamp} (batch : List OutboundMessage) :
    Keeps ChannelTables.inbox (enqueueAll store now batch) := by
  induction batch with
  | nil => exact (pure_readOnly _).keeps
  | cons message batch ih =>
      exact enqueueOutboxLocked_keeps.bind fun _ => ih.bind fun _ => (pure_readOnly _).keeps

theorem finishOutbox_keeps {key owner : String} {status : OutboxStatus}
    {receipt : Option RemoteReceipt} {error : Option String} :
    Keeps ChannelTables.inbox (finishOutbox key owner status receipt error a) :=
  (lift_readOnly _).keeps.bind fun _ => Keeps.atomically <|
    (updateOneOutbox_keeps fun _ => rfl).bind fun _ => (selectOutbox_readOnly _).keeps

theorem sparesInbox_keeps {c : ChannelCall β} (h : c.sparesInbox = true) :
    Keeps ChannelTables.inbox (c.perform store a) := by
  cases c with
  | enqueueOutbox => exact enqueueOutboxLocked_keeps.atomically
  | claimOutbox =>
      refine (require_readOnly _ _).keeps.bind fun _ => (lift_readOnly _).keeps.bind fun _ =>
        Keeps.atomically (Keeps.bind ?_ fun _ => (read_readOnly _).keeps.bind fun next => ?_)
      · exact (read_readOnly _).keeps.bind fun _ => keeps_write_bind (fun _ => rfl) fun _ =>
          (pure_readOnly _).keeps
      · cases next with
        | none => exact (pure_readOnly _).keeps
        | some row =>
            refine keeps_write_bind (fun _ => ?_) fun _ =>
              (selectOutbox_readOnly _).keeps.bind fun _ => (pure_readOnly _).keeps
            rfl
  | recoverOutboxLeases =>
      exact Keeps.atomically ((read_readOnly _).keeps.bind fun _ =>
        keeps_write_bind (fun _ => rfl) fun _ => (pure_readOnly _).keeps)
  | heartbeatOutbox =>
      exact (lift_readOnly _).keeps.bind fun _ =>
        (updateOneOutbox_keeps fun _ => rfl).atomically
  | markOutboxSent => exact finishOutbox_keeps
  | markOutboxUnknown => exact finishOutbox_keeps
  | markOutboxFailed => exact finishOutbox_keeps
  | resolveOutbox =>
      exact (require_readOnly _ _).keeps.bind fun _ => Keeps.atomically <|
        (updateOneOutbox_keeps fun _ => rfl).bind fun _ => (selectOutbox_readOnly _).keeps
  | retryOutbox =>
      exact (require_readOnly _ _).keeps.bind fun _ => Keeps.atomically <|
        (updateOneOutbox_keeps fun _ => rfl).bind fun _ => (selectOutbox_readOnly _).keeps
  | bindTelegramIdentity =>
      refine (require_readOnly _ _).keeps.bind fun _ => Keeps.atomically <|
        (read_readOnly _).keeps.bind fun found => ?_
      cases found with
      | none =>
          refine keeps_write_bind (fun _ => ?_) fun _ => (pure_readOnly _).keeps
          rfl
      | some row =>
          dsimp only
          split
          · exact keeps_write_bind (fun _ => upsertOffset_inbox _ _ _) fun _ =>
              (pure_readOnly _).keeps
          · split
            · exact keeps_write_bind (fun _ => upsertOffset_inbox _ _ _) fun _ =>
                (pure_readOnly _).keeps
            · exact (pure_readOnly _).keeps
  | beginTelegramEpoch =>
      exact (require_readOnly _ _).keeps.bind fun _ => Keeps.atomically <|
        keeps_write_bind (fun _ => upsertOffset_inbox _ _ _) fun _ =>
          (read_readOnly _).keeps.bind fun _ => (getOr_readOnly _ _).keeps.bind fun _ =>
            (pure_readOnly _).keeps
  | setTelegramOffset =>
      exact (require_readOnly _ _).keeps.bind fun _ =>
        Keeps.atomically (keeps_write fun _ => upsertOffset_inbox _ _ _)
  | _ => simp [sparesInbox] at h

end ChannelCall

end Polaris
