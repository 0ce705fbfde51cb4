import Mathlib.Data.List.MinMax
import Polaris.Channels.Updates

namespace Polaris
open PyJson SortedDict

/-- What a `ChannelStore` object has besides the database. -/
structure ChannelStore where
  sha : Sha256
  py : PyBuiltins
  telegramStreamKey : String
  authorizationPolicy : AuthorizationPolicy

/-- The readings of the clock in one operation; a deadline counts from a reading of its own. -/
structure Readings where
  now : Timestamp
  start : Timestamp
  receivedAt : String

namespace ChannelStore

abbrev Op (α : Type) := Txn PyError ChannelTables α

def storeError (message : String) : PyError := ⟨.other "ChannelStoreError", message⟩

def transitionError (message : String) : PyError := ⟨.other "ChannelTransitionError", message⟩

def valueError (message : String) : PyError := ⟨.valueError, message⟩

def deadline (start : Timestamp) (seconds : ℚ) : Except PyError Timestamp :=
  if seconds ≤ 0 then .error (valueError "lease_seconds must be positive")
  else expiryAfter start seconds

def inboxKey (row : InboxRow) : Platform × String := (row.platform, row.externalEventId)

end ChannelStore

namespace ChannelTables
open ChannelStore

def findInbox (t : ChannelTables) (key : Platform × String) : Option InboxRow :=
  Table.find inboxKey key t.inbox

def findOutbox (t : ChannelTables) (key : String) : Option OutboxRow :=
  Table.find OutboxRow.idempotencyKey key t.outbox

def findOffset (t : ChannelTables) (key : String) : Option OffsetRow :=
  Table.find OffsetRow.streamKey key t.offsets

end ChannelTables

namespace ChannelStore
variable (store : ChannelStore)

/-! The outbox. -/

def pendingRow (message : OutboundMessage) (json : JsonColumn) (hash : String) (now : Timestamp) :
    OutboxRow where
  idempotencyKey := message.idempotencyKey
  platform := message.platform
  channelId := message.channelId
  threadKey := message.threadKey
  operation := message.operation
  message := message.stored
  messageJson := json.text
  contentHash := hash
  chunkIndex := message.chunkIndex
  chunkCount := message.chunkCount
  status := .pending
  leaseOwner := none
  leaseExpiresAt := none
  heartbeatAt := none
  attemptCount := 0
  receipt := none
  error := none
  createdAt := now
  updatedAt := now

def insertOutbox (row : OutboxRow) (t : ChannelTables) : ChannelTables :=
  if (t.findOutbox row.idempotencyKey).isSome then t else { t with outbox := t.outbox ++ [row] }

def updateOutbox (p : OutboxRow → Bool) (f : OutboxRow → OutboxRow) (t : ChannelTables) :
    ChannelTables :=
  { t with outbox := Table.updateWhere p f t.outbox }

/-- An update that must meet exactly one row. -/
def updateOneOutbox (p : OutboxRow → Bool) (f : OutboxRow → OutboxRow) (e : PyError) : Op Unit := do
  let count ← Txn.read fun t => t.outbox.countP p
  Txn.write (updateOutbox p f)
  Txn.require (count = 1) e

def selectOutbox (key : String) : Op OutboxRow := do
  let row ← Txn.read fun t => t.findOutbox key
  Txn.getOr row (typeError "'NoneType' object is not subscriptable")

def enqueueOutboxLocked (message : OutboundMessage) (now : Timestamp) : Op OutboxRow := do
  let json ← Txn.lift (canonicalJson message.toDict)
  let hash ← Txn.lift (sha256Hex store.sha message.content)
  Txn.write (insertOutbox (pendingRow message json hash now))
  let found ← Txn.read fun t => t.findOutbox message.idempotencyKey
  let row ← Txn.getOr found (storeError "failed to read enqueued outbox row")
  Txn.require (row.contentHash = hash && row.messageJson = json.text)
    (storeError "idempotency key already exists with different content")
  return row

def enqueueOutbox (message : OutboundMessage) (a : Readings) : Op OutboxRow :=
  Txn.atomically (enqueueOutboxLocked store message a.now)

end ChannelStore

namespace OutboxRow

def isExpired (now : Timestamp) (row : OutboxRow) : Bool :=
  row.status = .sending && row.leaseExpiresAt.any (· ≤ now)

def expire (now : Timestamp) (row : OutboxRow) : OutboxRow :=
  { row with
    status := .unknown
    error := some "sending lease expired; remote outcome is unknown"
    leaseOwner := none
    leaseExpiresAt := none
    heartbeatAt := none
    updatedAt := now }

def claim (owner : String) (deadline now : Timestamp) (row : OutboxRow) : OutboxRow :=
  { row with
    status := .sending
    leaseOwner := some owner
    leaseExpiresAt := some deadline
    heartbeatAt := some now
    attemptCount := row.attemptCount + 1
    updatedAt := now }

/-- The row is being sent by the owner, whose lease has not expired. -/
def isSending (key owner : String) (now : Timestamp) (row : OutboxRow) : Bool :=
  row.idempotencyKey = key && row.status = .sending && row.leaseOwner = some owner &&
    row.leaseExpiresAt.any (now < ·)

def heartbeat (deadline now : Timestamp) (row : OutboxRow) : OutboxRow :=
  { row with
    leaseExpiresAt := some deadline
    heartbeatAt := some now
    updatedAt := now }

def finish (status : OutboxStatus) (receipt : Option JsonColumn) (error : Option String)
    (now : Timestamp) (row : OutboxRow) : OutboxRow :=
  { row with
    status := status
    receipt := receipt
    error := error
    leaseOwner := none
    leaseExpiresAt := none
    heartbeatAt := none
    updatedAt := now }

def decide (status : OutboxStatus) (error : String) (now : Timestamp) (row : OutboxRow) : OutboxRow :=
  { row with
    status := status
    error := some error
    updatedAt := now }

end OutboxRow

namespace ChannelStore
variable (store : ChannelStore)

def recoverOutboxLocked (now : Timestamp) : Op ℕ := do
  let count ← Txn.read fun t => t.outbox.countP (OutboxRow.isExpired now)
  Txn.write (updateOutbox (OutboxRow.isExpired now) (OutboxRow.expire now))
  return count

def isNextOutbox (platform : Option Platform) (row : OutboxRow) : Bool :=
  row.status = .pending && platform.all (row.platform = ·)

/-- `ORDER BY created_at, rowid LIMIT 1` -/
def nextOutbox (platform : Option Platform) (t : ChannelTables) : Option OutboxRow :=
  (t.outbox.filter (isNextOutbox platform)).argmin OutboxRow.createdAt

def isPending (key : String) (row : OutboxRow) : Bool :=
  row.idempotencyKey = key && row.status = .pending

def claimOutbox (owner : String) (leaseSeconds : ℚ) (platform : Option Platform) (a : Readings) :
    Op (Option OutboxRow) := do
  Txn.require (owner ≠ "") (valueError "owner must not be empty")
  let deadline ← Txn.lift (deadline a.start leaseSeconds)
  Txn.atomically do
    let _ ← recoverOutboxLocked a.now
    match ← Txn.read (nextOutbox platform) with
    | none => return none
    | some row => do
        Txn.write (updateOutbox (isPending row.idempotencyKey) (OutboxRow.claim owner deadline a.now))
        let claimed ← selectOutbox row.idempotencyKey
        return some claimed

def recoverOutboxLeases (a : Readings) : Op ℕ := Txn.atomically (recoverOutboxLocked a.now)

def heartbeatOutbox (key owner : String) (leaseSeconds : ℚ) (a : Readings) : Op Unit := do
  let deadline ← Txn.lift (deadline a.start leaseSeconds)
  Txn.atomically (updateOneOutbox (OutboxRow.isSending key owner a.now)
    (OutboxRow.heartbeat deadline a.now)
    (transitionError "outbox lease is missing, expired, or owned elsewhere"))

def finishOutbox (key owner : String) (status : OutboxStatus) (receipt : Option RemoteReceipt)
    (error : Option String) (a : Readings) : Op OutboxRow := do
  let json ← Txn.lift (receipt.mapM fun r => canonicalJson r.toDict)
  Txn.atomically do
    updateOneOutbox (OutboxRow.isSending key owner a.now)
      (OutboxRow.finish status json error a.now)
      (transitionError "outbox is not sending for this owner")
    selectOutbox key

def markOutboxSent (key owner : String) (receipt : RemoteReceipt) (a : Readings) : Op OutboxRow :=
  finishOutbox key owner .sent (some receipt) none a

def markOutboxUnknown (key owner error : String) (a : Readings) : Op OutboxRow :=
  finishOutbox key owner .unknown none (some error) a

def markOutboxFailed (key owner error : String) (a : Readings) : Op OutboxRow :=
  finishOutbox key owner .failed none (some error) a

def resolveOutbox (key : String) (sent : Bool) (note : String) (a : Readings) : Op OutboxRow := do
  Txn.require (note ≠ "") (valueError "operator resolution note must not be empty")
  Txn.atomically do
    updateOneOutbox (fun row => row.idempotencyKey = key && row.status = .unknown)
      (OutboxRow.decide (if sent then .sent else .failed) note a.now)
      (transitionError "only unknown outbox rows can be resolved")
    selectOutbox key

def retryOutbox (key note : String) (a : Readings) : Op OutboxRow := do
  Txn.require (note ≠ "") (valueError "operator retry note must not be empty")
  Txn.atomically do
    updateOneOutbox
      (fun row => row.idempotencyKey = key && (row.status = .unknown || row.status = .failed))
      (OutboxRow.decide .pending ("operator retry: " ++ note) a.now)
      (transitionError "only unknown or failed outbox rows can be retried")
    selectOutbox key

end ChannelStore

/-! The inbox. -/

namespace InboxRow

def isExpired (now : Timestamp) (row : InboxRow) : Bool :=
  row.status = .processing && row.leaseExpiresAt.any (· ≤ now)

def expire (now : Timestamp) (row : InboxRow) : InboxRow :=
  { row with
    status := if row.downstreamKey.isSome then .received else .failed
    error := if row.downstreamKey.isNone then
      some "expired without deterministic downstream key" else row.error
    leaseOwner := none
    leaseExpiresAt := none
    heartbeatAt := none
    updatedAt := now }

def claim (owner : String) (deadline now : Timestamp) (row : InboxRow) : InboxRow :=
  { row with
    status := .processing
    leaseOwner := some owner
    leaseExpiresAt := some deadline
    heartbeatAt := some now
    attemptCount := row.attemptCount + 1
    updatedAt := now }

def isProcessing (key : Platform × String) (owner : String) (now : Timestamp) (row : InboxRow) :
    Bool :=
  ChannelStore.inboxKey row = key && row.status = .processing && row.leaseOwner = some owner &&
    row.leaseExpiresAt.any (now < ·)

def heartbeat (deadline now : Timestamp) (row : InboxRow) : InboxRow :=
  { row with
    leaseExpiresAt := some deadline
    heartbeatAt := some now
    updatedAt := now }

def link (runId : String) (now : Timestamp) (row : InboxRow) : InboxRow :=
  { row with
    runId := some runId
    updatedAt := now }

def finish (status : InboxStatus) (runId outboxKey error : Option String) (now : Timestamp)
    (row : InboxRow) : InboxRow :=
  { row with
    status := status
    runId := runId.or row.runId
    outboxKey := outboxKey.or row.outboxKey
    error := error
    leaseOwner := none
    leaseExpiresAt := none
    heartbeatAt := none
    updatedAt := now }

end InboxRow

namespace ChannelStore
variable (store : ChannelStore)

def updateInbox (p : InboxRow → Bool) (f : InboxRow → InboxRow) (t : ChannelTables) :
    ChannelTables :=
  { t with inbox := Table.updateWhere p f t.inbox }

def updateOneInbox (p : InboxRow → Bool) (f : InboxRow → InboxRow) (e : PyError) : Op Unit := do
  let count ← Txn.read fun t => t.inbox.countP p
  Txn.write (updateInbox p f)
  Txn.require (count = 1) e

def selectInbox (key : Platform × String) : Op InboxRow := do
  let row ← Txn.read fun t => t.findInbox key
  Txn.getOr row (typeError "'NoneType' object is not subscriptable")

def recoverInboxLocked (now : Timestamp) : Op ℕ := do
  let count ← Txn.read fun t => t.inbox.countP (InboxRow.isExpired now)
  Txn.write (updateInbox (InboxRow.isExpired now) (InboxRow.expire now))
  return count

def nextInbox (platform : Option Platform) (t : ChannelTables) : Option InboxRow :=
  (t.inbox.filter fun row => row.status = .received && platform.all (row.platform = ·)).argmin
    InboxRow.createdAt

def claimInbox (owner : String) (leaseSeconds : ℚ) (platform : Option Platform) (a : Readings) :
    Op (Option InboxRow) := do
  Txn.require (owner ≠ "") (valueError "owner must not be empty")
  let deadline ← Txn.lift (deadline a.start leaseSeconds)
  Txn.atomically do
    let _ ← recoverInboxLocked a.now
    match ← Txn.read (nextInbox platform) with
    | none => return none
    | some row => do
        Txn.write (updateInbox (fun r => inboxKey r = inboxKey row && r.status = .received)
          (InboxRow.claim owner deadline a.now))
        let claimed ← selectInbox (inboxKey row)
        return some claimed

def recoverInboxLeases (a : Readings) : Op ℕ := Txn.atomically (recoverInboxLocked a.now)

def heartbeatInbox (key : Platform × String) (owner : String) (leaseSeconds : ℚ) (a : Readings) :
    Op Unit := do
  let deadline ← Txn.lift (deadline a.start leaseSeconds)
  Txn.atomically (updateOneInbox (InboxRow.isProcessing key owner a.now)
    (InboxRow.heartbeat deadline a.now)
    (transitionError "inbox lease is missing, expired, or owned elsewhere"))

/-- The row of a handler that still runs, found by its downstream key. -/
def isLinkable (key : Platform × String) (downstreamKey : String) (now : Timestamp)
    (row : InboxRow) : Bool :=
  inboxKey row = key && row.downstreamKey = some downstreamKey && row.status = .processing &&
    row.leaseExpiresAt.any (now < ·)

def linkInboxRun (key : Platform × String) (downstreamKey runId : String) (a : Readings) :
    Op Unit := do
  Txn.require (runId ≠ "") (valueError "run_id must not be empty")
  Txn.atomically do
    let found ← Txn.read fun t => t.inbox.find? (isLinkable key downstreamKey a.now)
    let row ← Txn.getOr found (transitionError "inbox is not processing for this downstream key")
    Txn.require (row.runId.all (· = runId))
      (transitionError "inbox is already linked to a different run")
    Txn.write (updateInbox (isLinkable key downstreamKey a.now) (InboxRow.link runId a.now))

def finishInbox (key : Platform × String) (owner : String) (status : InboxStatus)
    (runId outboxKey error : Option String) (a : Readings) : Op Unit :=
  Txn.atomically (updateOneInbox (InboxRow.isProcessing key owner a.now)
    (InboxRow.finish status runId outboxKey error a.now)
    (transitionError "inbox is not processing for this owner"))

def completeInbox (key : Platform × String) (owner : String) (runId outboxKey : Option String)
    (a : Readings) : Op Unit :=
  finishInbox key owner .completed runId outboxKey none a

def failInbox (key : Platform × String) (owner error : String) (runId : Option String)
    (a : Readings) : Op Unit :=
  finishInbox key owner .failed runId none (some error) a

def enqueueAll (now : Timestamp) : List OutboundMessage → Op (List OutboxRow)
  | [] => return []
  | message :: batch => do
      let row ← enqueueOutboxLocked store message now
      let rows ← enqueueAll now batch
      return row :: rows

def completeInboxWithOutbox (key : Platform × String) (owner : String)
    (batch : List OutboundMessage) (runId : Option String) (a : Readings) :
    Op (List OutboxRow) :=
  Txn.atomically do
    let rows ← enqueueAll store a.now batch
    updateOneInbox (InboxRow.isProcessing key owner a.now)
      (InboxRow.finish .completed runId (batch.head?.map OutboundMessage.idempotencyKey) none a.now)
      (transitionError "inbox is not processing for this owner")
    return rows

/-! Updates and offsets. -/

structure IngestResult where
  envelope : Option ChannelEnvelope
  decision : AuthDecision
  reason : String
  duplicate : Bool
  nextOffset : Option ℤ

def insertInbox (row : InboxRow) (t : ChannelTables) : ChannelTables :=
  if (t.findInbox (inboxKey row)).isSome then t else { t with inbox := t.inbox ++ [row] }

/-- `ON CONFLICT(platform, external_event_id) DO NOTHING`; answers whether the row was there. -/
def insertInboxRow (row : InboxRow) : Op Bool := do
  let duplicate ← Txn.read fun t => (t.findInbox (inboxKey row)).isSome
  let taken ← Txn.read fun t => !duplicate && row.downstreamKey.isSome &&
    t.inbox.any fun other => other.downstreamKey = row.downstreamKey
  Txn.require (!taken) ⟨.integrityError, "UNIQUE constraint failed: channel_inbox.downstream_key"⟩
  Txn.write (insertInbox row)
  return duplicate

def insertAudit (row : AuditRow) (t : ChannelTables) : ChannelTables :=
  { t with audit := t.audit ++ [row] }

/-- `stream_key or self.telegram_stream_key` -/
def streamOf (streamKey : Option String) : String :=
  match streamKey with
  | some key => if key = "" then store.telegramStreamKey else key
  | none => store.telegramStreamKey

def upsertOffset (new : OffsetRow) (f : OffsetRow → OffsetRow) (t : ChannelTables) :
    ChannelTables :=
  if (t.findOffset new.streamKey).isSome then
    { t with offsets := Table.updateWhere (fun row => row.streamKey = new.streamKey) f t.offsets }
  else { t with offsets := t.offsets ++ [new] }

/-- The offset moves on, never back. -/
def advanceOffset (key : String) (nextOffset : ℤ) (now : Timestamp) (t : ChannelTables) :
    ChannelTables :=
  upsertOffset ⟨key, nextOffset, now, 0, some now, none⟩ (fun row =>
    { row with
      nextOffset := max row.nextOffset nextOffset
      updatedAt := now
      lastActivityAt := some now }) t

def bindTelegramIdentity (botId : String) (streamKey : Option String) (a : Readings) : Op ℕ := do
  Txn.require (botId ≠ "") (valueError "bot_id must not be empty")
  let key := store.streamOf streamKey
  Txn.atomically do
    match ← Txn.read fun t => t.findOffset key with
    | none => do
        Txn.write fun t => { t with offsets := t.offsets ++ [⟨key, 0, a.now, 0, none, some botId⟩] }
        return 0
    | some row =>
        match row.botId with
        | none => do
            Txn.write (upsertOffset row fun r =>
              { r with
                botId := some botId
                updatedAt := a.now })
            return row.epoch
        | some previous =>
            if previous ≠ botId then do
              Txn.write (upsertOffset row fun r =>
                { r with
                  botId := some botId
                  nextOffset := 0
                  epoch := row.epoch + 1
                  updatedAt := a.now
                  lastActivityAt := none })
              return row.epoch + 1
            else return row.epoch

def beginTelegramEpoch (nextOffset : ℤ) (streamKey : Option String) (a : Readings) : Op ℕ := do
  Txn.require (0 ≤ nextOffset) (valueError "next_offset must be non-negative")
  let key := store.streamOf streamKey
  Txn.atomically do
    Txn.write (upsertOffset ⟨key, nextOffset, a.now, 1, some a.now, none⟩ fun row =>
      { row with
        nextOffset := nextOffset
        updatedAt := a.now
        epoch := row.epoch + 1
        lastActivityAt := some a.now })
    let found ← Txn.read fun t => t.findOffset key
    let row ← Txn.getOr found (typeError "'NoneType' object is not subscriptable")
    return row.epoch

def setTelegramOffset (nextOffset : ℤ) (streamKey : Option String) (a : Readings) : Op Unit := do
  Txn.require (0 ≤ nextOffset) (valueError "next_offset must be non-negative")
  Txn.atomically (Txn.write (advanceOffset (store.streamOf streamKey) nextOffset a.now))

def requireUpdateId (update : List (String × PyVal)) : Except PyError ℤ :=
  match getOrNone "update_id" update with
  | .int updateId =>
      if updateId < 0 then .error (valueError "Telegram update_id must be non-negative")
      else .ok updateId
  | _ => .error (valueError "Telegram update_id must be an integer")

def eventId (epoch : ℕ) (updateId : ℤ) : String := toString epoch ++ ":" ++ toString updateId

/-- The envelope of an update under the event id of its epoch. -/
def inEpoch (epoch : ℕ) (updateId : ℤ) (envelope : ChannelEnvelope) : ChannelEnvelope :=
  { envelope with
    externalEventId := eventId epoch updateId
    downstreamKey := "telegram:update:" ++ eventId epoch updateId }

def optJson (v : Option PyVal) : Except PyError (Option JsonColumn) := v.mapM canonicalJson

def updateRow (epoch : ℕ) (updateId : ℤ) (hash : String) (payload : Option JsonColumn)
    (envelope : Option ChannelEnvelope) (json : Option JsonColumn) (n : NormalizedTelegramUpdate)
    (now : Timestamp) : InboxRow where
  platform := .telegram
  externalEventId := eventId epoch updateId
  eventType := n.eventType
  userId := n.userId
  channelId := n.channelId
  threadKey := envelope.map ChannelEnvelope.threadKey
  downstreamKey := envelope.map ChannelEnvelope.downstreamKey
  payload := payload
  payloadHash := hash
  envelope := json
  authDecision := n.decision
  authReason := n.reason
  status := if envelope.isSome then .received else .completed
  leaseOwner := none
  leaseExpiresAt := none
  heartbeatAt := none
  attemptCount := 0
  runId := none
  outboxKey := none
  error := none
  createdAt := now
  updatedAt := now

def ingestTelegramUpdate (update : List (String × PyVal)) (policy : Option AuthorizationPolicy)
    (streamKey : Option String) (a : Readings) : Op IngestResult := do
  let updateId ← Txn.lift (requireUpdateId update)
  let n := normalizeTelegramUpdate store.py (policy.getD store.authorizationPolicy) updateId
    a.receivedAt update
  let key := store.streamOf streamKey
  let allowed := n.allowed
  let hash ← Txn.lift (sha256Hex store.sha (dict update))
  let payload ← Txn.lift (optJson (allowed.map fun _ => dict update))
  let _ ← Txn.lift (optJson (allowed.map ChannelEnvelope.toDict))
  Txn.atomically do
    let epoch ← Txn.read fun t => (t.findOffset key).elim 0 OffsetRow.epoch
    let envelope := allowed.map (inEpoch epoch updateId)
    let json ← Txn.lift (optJson (envelope.map ChannelEnvelope.toDict))
    let duplicate ← insertInboxRow (updateRow epoch updateId hash payload envelope json n a.now)
    Txn.write (advanceOffset key (updateId + 1) a.now)
    Txn.write fun t => if duplicate then t else
      insertAudit ⟨.telegram, eventId epoch updateId, n.eventType, n.userId, n.channelId, n.action,
        hash, n.decision, n.reason, a.now⟩ t
    let nextOffset ← Txn.read fun t => (t.findOffset key).elim (updateId + 1) OffsetRow.nextOffset
    return ⟨envelope, n.decision, n.reason, duplicate, some nextOffset⟩

def envelopeRow (envelope : ChannelEnvelope) (allowed : Bool) (hash : String)
    (payload json : Option JsonColumn) (decision : AuthDecision) (reason : String)
    (now : Timestamp) : InboxRow where
  platform := envelope.platform
  externalEventId := envelope.externalEventId
  eventType := envelope.eventType
  userId := some envelope.userId
  channelId := some envelope.channelId
  threadKey := if allowed then some envelope.threadKey else none
  downstreamKey := if allowed then some envelope.downstreamKey else none
  payload := payload
  payloadHash := hash
  envelope := json
  authDecision := decision
  authReason := reason
  status := if allowed then .received else .completed
  leaseOwner := none
  leaseExpiresAt := none
  heartbeatAt := none
  attemptCount := 0
  runId := none
  outboxKey := none
  error := none
  createdAt := now
  updatedAt := now

def ingestEnvelope (envelope : ChannelEnvelope) (payload : List (String × PyVal))
    (decision : Option AuthDecision) (reason : Option String) (a : Readings) :
    Op IngestResult := do
  let auth := store.authorizationPolicy.evaluate envelope.platform envelope.userId
    envelope.channelId envelope.action
  let selected := decision.getD auth.decision
  let why := reason.getD auth.reason
  let allowed := selected = .allow
  let hash ← Txn.lift (sha256Hex store.sha (dict payload))
  Txn.atomically do
    let text ← Txn.lift (optJson (if allowed then some (dict payload) else none))
    let json ← Txn.lift (optJson (if allowed then some envelope.toDict else none))
    let duplicate ← insertInboxRow (envelopeRow envelope allowed hash text json selected why a.now)
    Txn.write fun t => if duplicate then t else
      insertAudit ⟨envelope.platform, envelope.externalEventId, envelope.eventType,
        some envelope.userId, some envelope.channelId, envelope.action, hash, selected, why, a.now⟩ t
    return ⟨if allowed then some envelope else none, selected, why, duplicate, none⟩

end ChannelStore

end Polaris
