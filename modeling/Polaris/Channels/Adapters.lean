import Polaris.Channels.Formatting
import Polaris.Channels.Sending
import Polaris.Library.Binary64

namespace Polaris
open PyJson SortedDict ChannelStore

/-- What ends an await without a result. -/
inductive Interrupt where
  | cancelled
  | raised (message : String)

/-- What `send` raises: an error of the adapter, of one of its three classes, or anything else. -/
inductive AdapterFailure where
  | error (message : String)
  | api (message : String) (statusCode errorCode : Option ℤ)
  | transport (message : String)
  | interrupted (i : Interrupt)

namespace AdapterFailure

/-- `getattr(exc, "delivery_unknown", True)`; a cancelled task is not an exception. -/
def sendFailure : AdapterFailure → Option SendFailure
  | .error message => some ⟨false, message⟩
  | .api message _ _ => some ⟨false, message⟩
  | .transport message => some ⟨true, message⟩
  | .interrupted (.raised message) => some ⟨true, message⟩
  | .interrupted .cancelled => none

def raised (e : PyError) : AdapterFailure := .interrupted (.raised e.message)

end AdapterFailure

/-- What a request meets, and what ends the pause that follows a rate limit. -/
structure Exchange (α : Type) where
  answer : α
  pause : Option Interrupt

/-- A request that has been made in an exchange. -/
structure OutboundRequest where
  method : String
  payload : List (String × PyVal)
  exchange : ℕ

/-- The end of a send, the requests that it has made and the exchange that comes next. -/
structure SendEnd (ρ : Type) where
  result : Except AdapterFailure ρ
  requests : List OutboundRequest
  next : ℕ

/-- The parts in which the adapters differ. -/
structure ChannelAdapter (α ρ : Type) where
  name : String
  platform : Platform
  maxSendRetries : ℕ
  ready : Except AdapterFailure Unit
  prepareOutbound : OutboundMessage → Except PyError (List OutboundMessage)
  sendPayload : OutboundMessage → Except PyError (String × List (String × PyVal))
  isClosed : α → Bool
  readAnswer : String → α → Except AdapterFailure ρ
  isRateLimit : AdapterFailure → Bool
  remoteId : OutboundMessage → ρ → Except AdapterFailure (Option String)

namespace ChannelAdapter
variable {α ρ : Type} (adapter : ChannelAdapter α ρ) (exchanges : ℕ → Exchange α)

/-- One request of a part; a closed adapter makes none. -/
def sendPart (part : OutboundMessage) (n : ℕ) : Except AdapterFailure ρ × List OutboundRequest :=
  match adapter.sendPayload part with
  | .error e => (.error (.raised e), [])
  | .ok (method, payload) =>
      (adapter.readAnswer method (exchanges n).answer,
        if adapter.isClosed (exchanges n).answer then [] else [⟨method, payload, n⟩])

def sendPartWithRetry (part : OutboundMessage) : ℕ → ℕ → SendEnd ρ
  | 0, n =>
      let (result, requests) := adapter.sendPart exchanges part n
      ⟨result, requests, n + 1⟩
  | retries + 1, n =>
      match adapter.sendPart exchanges part n with
      | (.ok response, requests) => ⟨.ok response, requests, n + 1⟩
      | (.error e, requests) =>
          if adapter.isRateLimit e then
            match (exchanges n).pause with
            | some i => ⟨.error (.interrupted i), requests, n + 1⟩
            | none =>
                let later := sendPartWithRetry part retries (n + 1)
                { later with requests := requests ++ later.requests }
          else ⟨.error e, requests, n + 1⟩

def sendParts : List OutboundMessage → ℕ → SendEnd (List String)
  | [], n => ⟨.ok [], [], n⟩
  | part :: parts, n =>
      let first := adapter.sendPartWithRetry exchanges part adapter.maxSendRetries n
      match first.result.bind (adapter.remoteId part) with
      | .error e => ⟨.error e, first.requests, first.next⟩
      | .ok remoteId =>
          let later := sendParts parts first.next
          ⟨later.result.map (remoteId.toList ++ ·), first.requests ++ later.requests, later.next⟩

def receipt (message : OutboundMessage) (remoteIds : List String) : RemoteReceipt where
  platform := adapter.platform
  idempotencyKey := message.idempotencyKey
  remoteMessageId := remoteIds.getLast?
  channelId := message.channelId
  operation := message.operation
  remoteMessageIds := remoteIds

def send (message : OutboundMessage) : SendEnd RemoteReceipt :=
  if message.platform ≠ adapter.platform then
    ⟨.error (.interrupted (.raised (adapter.name ++ " adapter cannot send another platform"))), [],
      0⟩
  else
    match adapter.ready, adapter.prepareOutbound message with
    | .error e, _ => ⟨.error e, [], 0⟩
    | _, .error e => ⟨.error (.raised e), [], 0⟩
    | _, .ok parts =>
        let sent := adapter.sendParts exchanges parts 0
        { sent with result := sent.result.map (adapter.receipt message) }

end ChannelAdapter

def mapping? : PyVal → Option (List (String × PyVal))
  | .map _ es => some es
  | _ => none

/-- `float` of a value, which a whole number may be too large for; other errors are caught. -/
def floatFits : PyVal → Bool
  | .int n => (Binary64.nearest n).isSome
  | _ => true

def floatOverflow : AdapterFailure := .interrupted (.raised "int too large to convert to float")

/-! Telegram. -/

/-- What comes of a JSON text; an error is one that is not a `ValueError`. -/
inductive BodyReading where
  | json (value : PyVal)
  | invalid
  | raised (message : String)

inductive TelegramAnswer where
  | closed
  | response (statusCode : ℤ) (body : BodyReading)
  | httpError (message : String)
  | interrupted (i : Interrupt)

structure TelegramAdapter where
  maxSendRetries : ℕ
  redact : String → String
  py : PyBuiltins

namespace TelegramAdapter
variable (adapter : TelegramAdapter)

/-- An `error_code` that is an `int`, as a `bool` is too. -/
def errorCode (body : List (String × PyVal)) : Option ℤ :=
  match getOrNone "error_code" body with
  | .int n => some n
  | .bool b => some (if b then 1 else 0)
  | _ => none

def retryAfterFits (body : List (String × PyVal)) : Bool :=
  match mapping? (getOrNone "parameters" body) with
  | some parameters => floatFits (getOrNone "retry_after" parameters)
  | none => true

def description (statusCode : ℤ) (body : List (String × PyVal)) : String :=
  if getOrNone "description" body = .null then "HTTP " ++ toString statusCode
  else adapter.redact (adapter.py.strOf (getOrNone "description" body))

/-- The entries that are read of a body; one that is not a mapping has none of them. -/
def bodyEntries : BodyReading → List (String × PyVal)
  | .json value => (mapping? value).getD []
  | _ => []

/-- `error_code or response.status_code` -/
def effectiveCode (statusCode : ℤ) (body : List (String × PyVal)) : ℤ :=
  if 400 ≤ statusCode ∧ statusCode < 500 then statusCode
  else if (errorCode body).getD 0 = 0 then statusCode else (errorCode body).getD 0

def isSuccess (statusCode : ℤ) : Bool := 200 ≤ statusCode && statusCode < 300

def readResponse (method : String) (statusCode : ℤ) (body : List (String × PyVal)) :
    Except AdapterFailure PyVal :=
  let code := effectiveCode statusCode body
  if !retryAfterFits body then .error floatOverflow
  else if 500 ≤ statusCode then
    .error (.transport ("Telegram " ++ method ++ " delivery outcome is unknown"))
  else if 500 ≤ code then
    .error (.transport ("Telegram " ++ method ++ " delivery outcome is unknown"))
  else if isSuccess statusCode && getOrNone "ok" body = .bool true then .ok (getOrNone "result" body)
  else if ¬(400 ≤ code ∧ code < 500) then
    .error (.transport ("Telegram " ++ method ++ " returned an invalid response"))
  else .error (.api ("Telegram " ++ method ++ " failed: " ++ adapter.description statusCode body)
    (some statusCode) (errorCode body))

/-- `_request` -/
def readAnswer (method : String) : TelegramAnswer → Except AdapterFailure PyVal
  | .closed => .error (.error "Telegram adapter is closed")
  | .httpError message =>
      .error (.transport ("Telegram " ++ method ++ " transport failed: " ++ adapter.redact message))
  | .interrupted i => .error (.interrupted i)
  | .response _ (.raised message) => .error (.interrupted (.raised message))
  | .response statusCode body => adapter.readResponse method statusCode (bodyEntries body)

def isClosed : TelegramAnswer → Bool
  | .closed => true
  | _ => false

def isRateLimit : AdapterFailure → Bool
  | .api _ statusCode errorCode => statusCode = some 429 || errorCode = some 429
  | _ => false

def prepareOutbound (message : OutboundMessage) : Except PyError (List OutboundMessage) :=
  if message.platform ≠ .telegram then
    .error (valueError "Telegram adapter cannot prepare another platform")
  else
    match message.operation with
    | .send => chunkOutbound message telegramTextLimit
    | .answerCallback =>
        if 200 < utf16Units message.text.toList then
          .error (valueError "answerCallbackQuery text exceeds 200 UTF-16 units")
        else .ok [message]
    | .edit =>
        if telegramTextLimit < utf16Units message.text.toList then
          .error (valueError "Telegram edit text exceeds 4096 UTF-16 units")
        else .ok [message]

def isTrusted (message : OutboundMessage) : Bool :=
  getOrNone "trusted_html" message.metadata = .bool true

def sentText (message : OutboundMessage) : String :=
  if message.parseMode = .html ∧ !isTrusted message then safeHtml message.text else message.text

def parseModeEntry (message : OutboundMessage) : List (String × PyVal) :=
  if message.parseMode = .html then [("parse_mode", .str "HTML")] else []

def sendPayload (message : OutboundMessage) : Except PyError (String × List (String × PyVal)) :=
  let text := sentText message
  match message.operation with
  | .answerCallback =>
      let queryId := message.callbackQueryId.getD ""
      if queryId = "" then .error (valueError "answerCallbackQuery requires callback_query_id")
      else if 200 < utf16Units text.toList then
        .error (valueError "answerCallbackQuery text exceeds 200 UTF-16 units")
      else .ok ("answerCallbackQuery", [("callback_query_id", .str queryId), ("text", .str text)])
  | .edit =>
      let messageId := message.messageId.getD ""
      if messageId = "" then .error (valueError "editMessageText requires message_id")
      else .ok ("editMessageText", [("chat_id", .str message.channelId), ("text", .str text)] ++
        parseModeEntry message ++ [("message_id", .str messageId)])
  | .send => .ok ("sendMessage", [("chat_id", .str message.channelId), ("text", .str text),
      ("disable_notification", .bool message.disableNotification)] ++ parseModeEntry message)

def invalidDelivery : AdapterFailure :=
  .transport "Telegram send returned an invalid delivery response"

def remoteId (part : OutboundMessage) (result : PyVal) : Except AdapterFailure (Option String) :=
  if part.operation = .answerCallback ∧ result = .bool true then .ok none
  else
    match mapping? result with
    | none => .error invalidDelivery
    | some es =>
        if getOrNone "message_id" es = .null then .error invalidDelivery
        else .ok (some (adapter.py.strOf (getOrNone "message_id" es)))

def channel : ChannelAdapter TelegramAnswer PyVal where
  name := "Telegram"
  platform := .telegram
  maxSendRetries := adapter.maxSendRetries
  ready := .ok ()
  prepareOutbound := prepareOutbound
  sendPayload := sendPayload
  isClosed := isClosed
  readAnswer := adapter.readAnswer
  isRateLimit := isRateLimit
  remoteId := adapter.remoteId

end TelegramAdapter

/-! Slack. -/

/-- What the adapter looks at of an object: its entries if it is a mapping, and three attributes. -/
structure SdkObject where
  entries : Option (List (String × PyVal))
  data : PyVal
  statusCode : PyVal
  headers : PyVal

inductive SlackAnswer where
  | returned (response : SdkObject)
  | raised (className message : String) (response : SdkObject)
  | cancelled

structure SlackAdapter where
  maxSendRetries : ℕ
  hasClient : Bool
  redact : String → String
  py : PyBuiltins

structure ResponseParts where
  data : Option (List (String × PyVal))
  status : Option ℤ
  headers : Option (List (String × PyVal))

namespace SlackAdapter
variable (adapter : SlackAdapter)

def textLimit : ℕ := 38999

def responseParts (response : SdkObject) : ResponseParts where
  data := response.entries.or (mapping? response.data)
  status :=
    let status := if response.statusCode = .null then
        (response.entries.map (getOrNone "status_code")).getD .null else response.statusCode
    match status with
    | .int n => some n
    | _ => none
  headers := (mapping? response.headers).or
    (response.entries.bind fun es => mapping? (getOrNone "headers" es))

def retryAfterFits (headers : Option (List (String × PyVal))) : Bool :=
  match headers.bind (List.find? fun entry => entry.1.toLower = "retry-after") with
  | some (_, value) => floatFits value
  | none => true

def saysNotOk (data : Option (List (String × PyVal))) : Bool :=
  data.any fun es => getOrNone "ok" es = .bool false

def isSuccess (status : ℤ) : Bool := 200 ≤ status && status < 300

def rejected (data : Option (List (String × PyVal))) (status : Option ℤ) : AdapterFailure :=
  let error := (data.bind (lookup "error")).getD (.str "unknown_error")
  .api ("Slack Web API rejected the request: " ++ adapter.redact (adapter.py.strOf error)) status none

def rateLimited : AdapterFailure :=
  .api "Slack Web API rate limited the request" (some 429) none

def outcomeUnknown : AdapterFailure := .transport "Slack Web API delivery outcome is unknown"

def invalidResponse : AdapterFailure := .transport "Slack Web API returned an invalid response"

/-- `_exception_rate_limit` -/
def exceptionStatus (parts : ResponseParts) : Option ℤ :=
  if parts.status = none ∧ parts.data.bind (lookup "error") = some (.str "ratelimited") then some 429
  else parts.status

def readException (className message : String) (parts : ResponseParts) : AdapterFailure :=
  if !retryAfterFits parts.headers then floatOverflow
  else if exceptionStatus parts = some 429 then rateLimited
  else if className = "SlackApiError" then
    match parts.status with
    | none => outcomeUnknown
    | some status =>
        if status < 100 ∨ 500 ≤ status then outcomeUnknown
        else if 400 ≤ status ∧ status < 500 ∨ (isSuccess status ∧ saysNotOk parts.data) then
          adapter.rejected parts.data (some status)
        else outcomeUnknown
  else .transport ("Slack Web API transport failed: " ++ adapter.redact message)

def readReturned (response : SdkObject) : Except AdapterFailure (List (String × PyVal)) :=
  let parts := responseParts response
  if response.entries.isNone ∧ parts.status = none then .error invalidResponse
  else if !retryAfterFits parts.headers then .error floatOverflow
  else if parts.status = some 429 then .error rateLimited
  else if parts.status.any (500 ≤ ·) then .error outcomeUnknown
  else if parts.status.any (400 ≤ ·) then .error (adapter.rejected parts.data parts.status)
  else
    match parts.data with
    | none => .error invalidResponse
    | some data =>
        if parts.status.any (· < 100) then .error invalidResponse
        else if getOrNone "ok" data = .bool false then
          .error (adapter.rejected (some data) parts.status)
        else if getOrNone "ok" data ≠ .bool true then .error invalidResponse
        else .ok data

/-- `_send_part` -/
def readAnswer (_method : String) : SlackAnswer → Except AdapterFailure (List (String × PyVal))
  | .cancelled => .error (.interrupted .cancelled)
  | .raised className message response =>
      .error (adapter.readException className message (responseParts response))
  | .returned response => adapter.readReturned response

def isRateLimit : AdapterFailure → Bool
  | .api _ statusCode _ => statusCode = some 429
  | _ => false

def withoutBlocks (part : OutboundMessage) : OutboundMessage :=
  { part with metadata := part.metadata.filter (·.1 ≠ "blocks") }

def prepareOutbound (message : OutboundMessage) : Except PyError (List OutboundMessage) :=
  if message.platform ≠ .slack then
    .error (valueError "Slack adapter cannot prepare another platform")
  else if message.text.toList.length ≤ textLimit then .ok [message]
  else if message.operation ≠ .send then
    .error (valueError "Slack updates and action feedback cannot be split")
  else do
    let parts ← chunkOutbound message textLimit
    if (lookup "blocks" message.metadata).isNone then return parts
    else return parts.map withoutBlocks

def blockLimit : ℕ := 50

/-- Whether the text of a block is one, of no more than so many characters. -/
def blockTextFits (limit : ℕ) (text : List (String × PyVal)) : Bool :=
  match getOrNone "text" text with
  | .str content => content.toList.length ≤ limit
  | _ => false

def blockFits (block : PyVal) : Bool :=
  match mapping? block with
  | none => false
  | some es =>
      match getOrNone "type" es with
      | .str type =>
          let text := mapping? (getOrNone "text" es)
          if type = "section" then text.all (blockTextFits 3000)
          else if type = "header" then text.any (blockTextFits 150)
          else true
      | _ => false

/-- `valid_slack_blocks` -/
def validBlocks : PyVal → Option PyVal
  | .seq _ blocks =>
      if blocks.length ≤ blockLimit ∧ blocks.all blockFits then
        some (.seq .list (blocks.map fun block => dict ((mapping? block).getD [])))
      else none
  | _ => none

def threadTs (message : OutboundMessage) : String :=
  let value := getOrNone "thread_ts" message.metadata
  if Agent.truthy adapter.py value then adapter.py.strOf value
  else
    let start := ("slack:" ++ message.channelId ++ ":").toList
    if start.isPrefixOf message.threadKey.toList then
      String.ofList (message.threadKey.toList.drop start.length)
    else ""

def sendPayload (message : OutboundMessage) : Except PyError (String × List (String × PyVal)) :=
  let payload := [("channel", PyVal.str message.channelId), ("text", .str message.text)] ++
    ((validBlocks (getOrNone "blocks" message.metadata)).map ("blocks", ·)).toList
  let messageId := message.messageId.getD ""
  match message.operation with
  | .edit =>
      if messageId = "" then .error (valueError "Slack chat_update requires message_id")
      else .ok ("chat_update", payload ++ [("ts", .str messageId)])
  | .answerCallback =>
      if messageId ≠ "" then .ok ("chat_update", payload ++ [("ts", .str messageId)])
      else
        let userId := getOrNone "user_id" message.metadata
        if Agent.truthy adapter.py userId then
          .ok ("chat_postEphemeral", payload ++ [("user", .str (adapter.py.strOf userId))])
        else .error (valueError
          "Slack action feedback requires message_id or metadata user_id")
  | .send =>
      let threadTs := adapter.threadTs message
      .ok ("chat_postMessage", payload ++ if threadTs = "" then [] else
        [("thread_ts", .str threadTs)])

def remoteId (_part : OutboundMessage) (data : List (String × PyVal)) :
    Except AdapterFailure (Option String) :=
  .ok (if getOrNone "ts" data = .null then none else some (adapter.py.strOf (getOrNone "ts" data)))

def missingExtra : AdapterFailure :=
  .error ("Slack support requires the optional channels extra: " ++
    "install polaris-agent-runtime[channels]")

def channel : ChannelAdapter SlackAnswer (List (String × PyVal)) where
  name := "Slack"
  platform := .slack
  maxSendRetries := adapter.maxSendRetries
  ready := if adapter.hasClient then .ok () else .error missingExtra
  prepareOutbound := prepareOutbound
  sendPayload := adapter.sendPayload
  isClosed := fun _ => false
  readAnswer := adapter.readAnswer
  isRateLimit := isRateLimit
  remoteId := adapter.remoteId

end SlackAdapter

end Polaris
