import Polaris.Journal.Steps

namespace Polaris
open PyJson

inductive Platform where
  | telegram
  | slack
deriving DecidableEq, Repr

def Platform.value : Platform → String
  | .telegram => "telegram"
  | .slack => "slack"

inductive InboxStatus where
  | received
  | processing
  | completed
  | failed
deriving DecidableEq, Repr

inductive OutboxStatus where
  | pending
  | sending
  | sent
  | unknown
  | failed
deriving DecidableEq, Repr

inductive AuthDecision where
  | allow
  | deny
  | ignored
deriving DecidableEq, Repr

inductive MessageOperation where
  | send
  | edit
  | answerCallback
deriving DecidableEq, Repr

def MessageOperation.value : MessageOperation → String
  | .send => "send_message"
  | .edit => "edit_message"
  | .answerCallback => "answer_callback"

inductive ParseMode where
  | plain
  | html
deriving DecidableEq, Repr

def ParseMode.value : ParseMode → String
  | .plain => "plain"
  | .html => "html"

structure ChannelEnvelope where
  platform : Platform
  externalEventId : String
  eventType : String
  userId : String
  channelId : String
  threadKey : String
  downstreamKey : String
  text : Option String
  messageId : Option String
  callbackQueryId : Option String
  callbackData : Option String
  action : String
  receivedAt : Option String
  metadata : List (String × PyVal)

def ChannelEnvelope.toDict (envelope : ChannelEnvelope) : PyVal :=
  dict [("platform", .str envelope.platform.value),
    ("external_event_id", .str envelope.externalEventId),
    ("event_type", .str envelope.eventType),
    ("user_id", .str envelope.userId),
    ("channel_id", .str envelope.channelId),
    ("thread_key", .str envelope.threadKey),
    ("downstream_key", .str envelope.downstreamKey),
    ("text", optStr envelope.text),
    ("message_id", optStr envelope.messageId),
    ("callback_query_id", optStr envelope.callbackQueryId),
    ("callback_data", optStr envelope.callbackData),
    ("action", .str envelope.action),
    ("received_at", optStr envelope.receivedAt),
    ("metadata", dict envelope.metadata)]

structure OutboundMessage where
  platform : Platform
  idempotencyKey : String
  channelId : String
  threadKey : String
  text : String
  operation : MessageOperation
  parseMode : ParseMode
  messageId : Option String
  callbackQueryId : Option String
  disableNotification : Bool
  chunkIndex : ℤ
  chunkCount : ℤ
  metadata : List (String × PyVal)
deriving DecidableEq

namespace OutboundMessage

def toDict (message : OutboundMessage) : PyVal :=
  dict [("platform", .str message.platform.value),
    ("idempotency_key", .str message.idempotencyKey),
    ("channel_id", .str message.channelId),
    ("thread_key", .str message.threadKey),
    ("text", .str message.text),
    ("operation", .str message.operation.value),
    ("parse_mode", .str message.parseMode.value),
    ("message_id", optStr message.messageId),
    ("callback_query_id", optStr message.callbackQueryId),
    ("disable_notification", .bool message.disableNotification),
    ("chunk_index", .int message.chunkIndex),
    ("chunk_count", .int message.chunkCount),
    ("metadata", dict message.metadata)]

/-- What the content hash of an outbox row is taken of. -/
def content (message : OutboundMessage) : PyVal :=
  dict [("platform", .str message.platform.value),
    ("channel_id", .str message.channelId),
    ("operation", .str message.operation.value),
    ("text", .str message.text),
    ("parse_mode", .str message.parseMode.value),
    ("chunk_index", .int message.chunkIndex)]

/-- The message as it comes back from its JSON text. -/
def stored (message : OutboundMessage) : OutboundMessage :=
  { message with
    metadata := SortedDict.sortKeys (PyVal.normalEntries message.metadata) }

end OutboundMessage

structure RemoteReceipt where
  platform : Platform
  idempotencyKey : String
  remoteMessageId : Option String
  channelId : String
  operation : MessageOperation
  remoteMessageIds : List String

def RemoteReceipt.toDict (receipt : RemoteReceipt) : PyVal :=
  dict [("platform", .str receipt.platform.value),
    ("idempotency_key", .str receipt.idempotencyKey),
    ("remote_message_id", optStr receipt.remoteMessageId),
    ("channel_id", .str receipt.channelId),
    ("operation", .str receipt.operation.value),
    ("remote_message_ids", .seq .tuple (receipt.remoteMessageIds.map .str))]

structure InboxRow where
  platform : Platform
  externalEventId : String
  eventType : String
  userId : Option String
  channelId : Option String
  threadKey : Option String
  downstreamKey : Option String
  payload : Option JsonColumn
  payloadHash : String
  envelope : Option JsonColumn
  authDecision : AuthDecision
  authReason : String
  status : InboxStatus
  leaseOwner : Option String
  leaseExpiresAt : Option Timestamp
  heartbeatAt : Option Timestamp
  attemptCount : ℕ
  runId : Option String
  outboxKey : Option String
  error : Option String
  createdAt : Timestamp
  updatedAt : Timestamp
deriving DecidableEq

structure OutboxRow where
  idempotencyKey : String
  platform : Platform
  channelId : String
  threadKey : String
  operation : MessageOperation
  message : OutboundMessage
  messageJson : String
  contentHash : String
  chunkIndex : ℤ
  chunkCount : ℤ
  status : OutboxStatus
  leaseOwner : Option String
  leaseExpiresAt : Option Timestamp
  heartbeatAt : Option Timestamp
  attemptCount : ℕ
  receipt : Option JsonColumn
  error : Option String
  createdAt : Timestamp
  updatedAt : Timestamp
deriving DecidableEq

structure OffsetRow where
  streamKey : String
  nextOffset : ℤ
  updatedAt : Timestamp
  epoch : ℕ
  lastActivityAt : Option Timestamp
  botId : Option String
deriving DecidableEq

structure AuditRow where
  platform : Platform
  externalEventId : String
  eventType : String
  userId : Option String
  channelId : Option String
  action : String
  payloadHash : String
  decision : AuthDecision
  reason : String
  createdAt : Timestamp
deriving DecidableEq

structure ChannelTables where
  inbox : List InboxRow
  outbox : List OutboxRow
  offsets : List OffsetRow
  audit : List AuditRow

end Polaris
