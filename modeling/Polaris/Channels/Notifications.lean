import Mathlib.Data.Prod.Lex
import Polaris.Channels.Chunking
import Polaris.Channels.Inbox
import Polaris.Library.Keyset
import Polaris.Library.OnceEach
import Polaris.Library.Program
import Polaris.Service.Recovery

namespace Polaris
open PyJson SortedDict ChannelStore

/-- What a pass reads of a row of the inbox; the metadata has been stored without infinite numbers. -/
structure InboxRecord where
  envelope : ChannelEnvelope
  runId : Option String
  updatedAt : String
  finite : PyVal.entriesFinite envelope.metadata = true

structure NotificationRow where
  notificationKey : String
  platform : Platform
  externalEventId : String
  outboxKeysJson : String
  createdAt : Timestamp
deriving DecidableEq

/-- `_new_id("approval")` -/
structure ApprovalId where
  hex : String
  noColon : ':' ∉ hex.toList

def ApprovalId.value (id : ApprovalId) : String := "approval_" ++ id.hex

/-- What the service says about a run. -/
structure RunView where
  status : RunStatus
  pendingApprovals : List ApprovalId
  finalOutput : Option String

/-- The tables of the store, the runs of the service, and the rows whose runs have been looked at. -/
structure Notifying where
  inbox : List InboxRecord
  outbox : List OutboxRow
  notifications : List NotificationRow
  runs : String → RunView
  visited : List InboxRecord

namespace InboxRecord

def rowKey (record : InboxRecord) : Platform × String :=
  (record.envelope.platform, record.envelope.externalEventId)

def cursor (record : InboxRecord) : String × Platform × String :=
  (record.updatedAt, record.envelope.platform, record.envelope.externalEventId)

def isAfter (after : String × Platform × String) (record : InboxRecord) : Bool :=
  after.1 < record.updatedAt ||
    record.updatedAt = after.1 && after.2.1.value < record.envelope.platform.value ||
    record.updatedAt = after.1 && record.envelope.platform = after.2.1 &&
      after.2.2 < record.envelope.externalEventId

/-- `ORDER BY updated_at, platform, external_event_id` -/
def sortKey (record : InboxRecord) : String ×ₗ String ×ₗ String :=
  toLex (record.updatedAt, toLex (record.envelope.platform.value, record.envelope.externalEventId))

end InboxRecord

namespace ChannelStore
variable (store : ChannelStore)

abbrev NotifyOp (α : Type) := Txn PyError Notifying α

def listLinkedInbox (platform : Option Platform) (limit : ℤ)
    (after : Option (String × Platform × String)) : NotifyOp (List InboxRecord) := do
  Txn.require (1 ≤ limit && limit ≤ 5000) (valueError "limit must be between 1 and 5000")
  Txn.read fun w => ((w.inbox.filter fun record => record.runId.isSome &&
    platform.all (record.envelope.platform = ·) && after.all record.isAfter).insertionSort
      fun a b => a.sortKey ≤ b.sortKey).take limit.toNat

def findNotification (key : String) (w : Notifying) : Option NotificationRow :=
  Table.find NotificationRow.notificationKey key w.notifications

def notificationExists (key : String) : NotifyOp Bool :=
  Txn.read fun w => (findNotification key w).isSome

def insertNotification (row : NotificationRow) (w : Notifying) : Notifying :=
  if (findNotification row.notificationKey w).isSome then w
  else { w with notifications := w.notifications ++ [row] }

def recordNotification (key : String) (platform : Platform) (externalEventId : String)
    (outboxKeys : List String) (now : Timestamp) : NotifyOp Unit := do
  Txn.require (key ≠ "") (valueError "notification_key must not be empty")
  Txn.require (outboxKeys ≠ []) (valueError "notification requires at least one outbox key")
  let keysJson ← Txn.lift (canonicalJson (.seq .tuple (outboxKeys.map .str)))
  Txn.atomically do
    let durable ← Txn.read fun w => outboxKeys.all fun key =>
      (Table.find OutboxRow.idempotencyKey key w.outbox).isSome
    Txn.require durable (storeError "notification references an outbox row that is not durable")
    -- the foreign key is looked at when a row is inserted
    let known ← Txn.read fun w => (findNotification key w).isSome ||
      w.inbox.any fun record => record.rowKey = (platform, externalEventId)
    Txn.require known ⟨.integrityError, "FOREIGN KEY constraint failed"⟩
    Txn.write (insertNotification ⟨key, platform, externalEventId, keysJson.text, now⟩)
    let found ← Txn.read (findNotification key)
    let row ← Txn.getOr found (storeError "failed to read recorded notification")
    Txn.require (row.platform = platform && row.externalEventId = externalEventId &&
        row.outboxKeysJson = keysJson.text)
      (storeError "notification key already exists with different outbox rows")

/-- A call of the outbox, which looks at no other table. -/
def onOutbox {α : Type} (op : Op α) : NotifyOp α := fun w =>
  match op ⟨[], w.outbox, [], []⟩ with
  | (r, t) => (r, { w with outbox := t.outbox })

end ChannelStore

namespace RunView

/-- `",".join(item.id for item in pending)` -/
def approvalIds (run : RunView) : String :=
  ",".intercalate (run.pendingApprovals.map ApprovalId.value)

def noticeSuffix (run : RunView) : Option String :=
  if run.status.isTerminal then some "terminal"
  else if run.status = .paused && !run.pendingApprovals.isEmpty then
    some ("approval:" ++ run.approvalIds)
  else none

def terminalText (runId : String) (run : RunView) : String :=
  let text := "Run " ++ runId ++ ": " ++ run.status.value
  let output := if run.status = .completed then run.finalOutput.getD "" else ""
  if output = "" then text else text ++ "\n" ++ output

def noticeText (runId : String) (run : RunView) : String :=
  if run.status.isTerminal then run.terminalText runId
  else "Run " ++ runId ++ " is paused for approval: " ++ run.approvalIds

end RunView

def threadMetadata (envelope : ChannelEnvelope) : List (String × PyVal) :=
  setKey "user_id" (.str envelope.userId) envelope.metadata

def notificationKey (envelope : ChannelEnvelope) (suffix : String) : String :=
  "channel:" ++ envelope.platform.value ++ ":" ++ envelope.externalEventId ++ ":" ++ suffix

def completionNotice (envelope : ChannelEnvelope) (runId : String) (run : RunView)
    (suffix : String) : OutboundMessage where
  platform := envelope.platform
  idempotencyKey := notificationKey envelope suffix
  channelId := envelope.channelId
  threadKey := envelope.threadKey
  text := run.noticeText runId
  operation := .send
  parseMode := .plain
  messageId := none
  callbackQueryId := none
  disableNotification := false
  chunkIndex := 0
  chunkCount := 1
  metadata := setKey "run_id" (.str runId) (threadMetadata envelope)

/-- The calls of a pass. -/
inductive NotifyCall : Type → Type where
  | listLinkedInbox (limit : ℤ) (after : Option (String × Platform × String)) :
      NotifyCall (List InboxRecord)
  | getRun (record : InboxRecord) (runId : String) : NotifyCall RunView
  | notificationExists (key : String) : NotifyCall Bool
  | enqueueOutbox (message : OutboundMessage) : NotifyCall OutboxRow
  | recordNotification (key : String) (platform : Platform) (externalEventId : String)
      (outboxKeys : List String) : NotifyCall Unit

def NotifyCall.perform (store : ChannelStore) (now : Timestamp) {β : Type} :
    NotifyCall β → NotifyOp β
  | .listLinkedInbox limit after => ChannelStore.listLinkedInbox none limit after
  | .getRun record runId => fun w =>
      (.ok (w.runs runId), { w with visited := w.visited ++ [record] })
  | .notificationExists key => ChannelStore.notificationExists key
  | .enqueueOutbox message => onOutbox (ChannelStore.enqueueOutbox store message ⟨now, now, ""⟩)
  | .recordNotification key platform externalEventId outboxKeys =>
      ChannelStore.recordNotification key platform externalEventId outboxKeys now

abbrev NotifyProgram (α : Type) := Program NotifyCall PyError α

/-- The harness, with the adapters that are enabled. -/
structure ChannelHarness where
  store : ChannelStore
  telegramEnabled : Bool
  slackEnabled : Bool

namespace ChannelHarness
variable (harness : ChannelHarness)

def preparer (platform : Platform) :
    Option (OutboundMessage → Except PyError (List OutboundMessage)) :=
  match platform with
  | .telegram => if harness.telegramEnabled then some TelegramAdapter.prepareOutbound else none
  | .slack => if harness.slackEnabled then some SlackAdapter.prepareOutbound else none

/-- What the adapter has made of a message is looked through. -/
def checkPrepared (message : OutboundMessage) (prepared : List OutboundMessage) :
    Except PyError (List OutboundMessage) :=
  if prepared = [] then .error (valueError "outbound preparer returned no messages")
  else if prepared.any (·.platform ≠ message.platform) then
    .error (valueError "outbound preparer returned a message for another platform")
  else if (prepared.map OutboundMessage.idempotencyKey).dedup.length ≠ prepared.length then
    .error (valueError "outbound preparer returned duplicate idempotency keys")
  else .ok prepared

def prepareOutbound (message : OutboundMessage) : Except PyError (List OutboundMessage) := do
  let prepared ← (harness.preparer message.platform).elim (.ok [message]) (· message)
  checkPrepared message prepared

def enqueueParts : List OutboundMessage → NotifyProgram Unit
  | [] => return ()
  | part :: parts => do
      let _ ← .perform (.enqueueOutbox part)
      enqueueParts parts

/-- The notification of one row; answers how many there have been, none or one. -/
def sendNotice (record : InboxRecord) (runId : String) (run : RunView) (suffix : String) :
    NotifyProgram ℕ := do
  let notice := completionNotice record.envelope runId run suffix
  let prepared ← .ofExcept (harness.prepareOutbound notice)
  enqueueParts prepared
  let _ ← .perform (.recordNotification notice.idempotencyKey record.envelope.platform
    record.envelope.externalEventId (prepared.map OutboundMessage.idempotencyKey))
  return 1

def notifyRecord (record : InboxRecord) : NotifyProgram ℕ :=
  match record.runId with
  | none => return 0
  | some runId => do
      let run ← .perform (.getRun record runId)
      match run.noticeSuffix with
      | none => return 0
      | some suffix => do
          let known ← .perform (.notificationExists (notificationKey record.envelope suffix))
          if known then return 0 else harness.sendNotice record runId run suffix

def notifyPage : List InboxRecord → NotifyProgram ℕ
  | [] => return 0
  | record :: page => do
      let first ← harness.notifyRecord record
      let rest ← notifyPage page
      return first + rest

/-- The loop over the pages; `fuel` bounds how many there are. -/
def notifyFrom (pageSize : ℤ) : ℕ → Option (String × Platform × String) → NotifyProgram ℕ
  | 0, _ => .throw ⟨.other "OutOfFuel", ""⟩
  | fuel + 1, after => do
      let page ← .perform (.listLinkedInbox pageSize after)
      match page.getLast? with
      | none => return 0
      | some last => do
          let enqueued ← harness.notifyPage page
          if page.length < pageSize then return enqueued
          else do
            let later ← notifyFrom pageSize fuel (some last.cursor)
            return enqueued + later

def enqueueCompletionNotificationsOnce (pageSize : ℤ) (fuel : ℕ) : NotifyProgram ℕ :=
  harness.notifyFrom pageSize fuel none

def system : Program.System NotifyCall PyError Notifying where
  exec call w r w' := ∃ now, call.perform harness.store now w = (r, w')
  env _ _ := False

end ChannelHarness

end Polaris
