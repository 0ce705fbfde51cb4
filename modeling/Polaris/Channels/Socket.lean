import Polaris.Channels.Polling

namespace Polaris
open PyJson ChannelStore

def AuthorizationPolicy.evaluateText (policy : AuthorizationPolicy) (platform : Platform)
    (user channel : PyText) (action : String) : AuthorizationResult :=
  let users := (policy.platformUsers platform).getD policy.users
  let channels := (policy.platformChannels platform).getD policy.channels
  if users.isEmpty then ⟨.deny, "no users are authorized"⟩
  else if user ∉ users.map PyText.ofString then ⟨.deny, "user is not authorized"⟩
  else if channels.isEmpty then ⟨.deny, "no channels are authorized"⟩
  else if channel ∉ channels.map PyText.ofString then ⟨.deny, "channel is not authorized"⟩
  else if policy.actions.isEmpty then ⟨.deny, "no actions are authorized"⟩
  else if action ∉ policy.actions then ⟨.deny, "action is not authorized"⟩
  else ⟨.allow, "authorized"⟩

theorem AuthorizationPolicy.evaluateText_ofString (policy : AuthorizationPolicy)
    (platform : Platform) (user channel action : String) :
    policy.evaluateText platform (.ofString user) (.ofString channel) action =
      policy.evaluate platform user channel action := by
  simp [evaluateText, evaluate, PyText.ofString_injective.eq_iff]

/-- What a request has under these names, be they keys or attributes. -/
structure SocketRequest where
  envelopeId : RawJson
  type : RawJson
  payload : RawJson

structure SlackEnvelope where
  externalEventId : PyText
  eventType : PyText
  userId : PyText
  channelId : PyText
  threadKey : PyText
  downstreamKey : PyText
  text : Option PyText
  messageId : Option PyText
  callbackQueryId : Option PyText
  callbackData : Option PyText
  action : String
  receivedAt : String
  metadata : List (String × Option PyText)

structure NormalizedSlackEvent where
  envelope : SlackEnvelope
  decision : AuthDecision
  reason : String
  envelopeId : Option PyText
  isIgnored : Bool

/-- What the socket side of a `SlackAdapter` looks at; `str` is that of values that are no texts. -/
structure SlackSocket where
  store : ChannelStore
  str : RawJson → String
  authorizationPolicy : AuthorizationPolicy
  topLevelAsThreadRoot : Bool

namespace SlackSocket
variable (socket : SlackSocket)

def lit : String → PyText := PyText.ofString

def truthy : RawJson → Bool
  | .null => false
  | .bool b => b
  | .int n => n ≠ 0
  | .float f => !socket.store.py.floatIs f 0
  | .str t => t ≠ []
  | .arr items => !items.isEmpty
  | .obj entries => !entries.isEmpty

def strOf : RawJson → PyText
  | .str t => t
  | v => .ofString (socket.str v)

/-- `str(a or b or … or fallback)` -/
def strOr (fallback : PyText) : List RawJson → PyText
  | [] => fallback
  | v :: vs => if socket.truthy v then socket.strOf v else strOr fallback vs

def isSpacePoint (c : CodePoint) : Bool := c.toChar?.any isSpace

def usableEnvelopeId : RawJson → Option PyText
  | .str t =>
      let id := (t.dropWhile isSpacePoint).rdropWhile isSpacePoint
      if id = [] then none else some id
  | _ => none

structure RequestParts where
  envelopeId : Option PyText
  requestType : PyText
  payload : List (PyText × RawJson)

def requestParts (request : SocketRequest) : RequestParts where
  envelopeId := usableEnvelopeId request.envelopeId
  requestType := socket.strOr (lit "unsupported") [request.type]
  payload := request.payload.mapping?.getD []

def eventIdentity (parts : RequestParts) (channelId timestamp eventType : PyText) :
    Except PyError PyText :=
  if socket.truthy (RawJson.get "event_id" parts.payload) then
    .ok (socket.strOf (RawJson.get "event_id" parts.payload))
  else
    match parts.envelopeId with
    | some envelopeId => .ok envelopeId
    | none =>
        if channelId ≠ [] ∧ timestamp ≠ [] then
          .ok (channelId ++ lit ":" ++ timestamp ++ lit ":" ++ eventType)
        else .error (valueError
          "Slack event has no event_id, envelope_id, or channel/timestamp fallback")

/-- An event that is not looked at further. -/
def ignored (externalEventId eventType userId channelId : PyText) (reason receivedAt : String)
    (envelopeId : Option PyText) : NormalizedSlackEvent where
  envelope :=
    { externalEventId := externalEventId
      eventType := eventType
      userId := userId
      channelId := channelId
      threadKey := []
      downstreamKey := lit "slack:event:" ++ externalEventId
      text := none
      messageId := none
      callbackQueryId := none
      callbackData := none
      action := "ignored"
      receivedAt := receivedAt
      metadata := [] }
  decision := .ignored
  reason := reason
  envelopeId := envelopeId
  isIgnored := true

/-- An event for which the policy is asked. -/
def authorized (envelope : SlackEnvelope) (envelopeId : Option PyText) : NormalizedSlackEvent :=
  let auth := socket.authorizationPolicy.evaluateText .slack envelope.userId envelope.channelId
    envelope.action
  { envelope := envelope
    decision := auth.decision
    reason := auth.reason
    envelopeId := envelopeId
    isIgnored := auth.decision = .ignored }

/-- The letters and digits of an identifier; four letters besides a to z match without case. -/
def isMentionChar (c : CodePoint) : Bool :=
  let n := c.val
  (48 ≤ n && n ≤ 57) || (65 ≤ n && n ≤ 90) || (97 ≤ n && n ≤ 122) || n = 0x130 || n = 0x131 ||
    n = 0x17f || n = 0x212a

def withoutLeadingMention (text : PyText) : PyText :=
  let rest := text.dropWhile isSpacePoint
  let name := (rest.drop 2).takeWhile isMentionChar
  let tail := (rest.drop 2).dropWhile isMentionChar
  if (lit "<@").isPrefixOf rest && !name.isEmpty && (lit ">").isPrefixOf tail then
    (tail.drop 1).dropWhile isSpacePoint
  else text

def threadKey (channelId : PyText) (threadTs : Option PyText) : PyText :=
  match threadTs with
  | none | some [] => lit "slack:" ++ channelId
  | some ts => lit "slack:" ++ channelId ++ lit ":" ++ ts

def normalizeMessage (parts : RequestParts) (event : List (PyText × RawJson))
    (receivedAt : String) : Except PyError NormalizedSlackEvent := do
  let eventType := socket.strOr (lit "unsupported") [RawJson.get "type" event]
  let userId := socket.strOr [] [RawJson.get "user" event]
  let channelId := socket.strOr [] [RawJson.get "channel" event]
  let timestamp := socket.strOr [] [RawJson.get "ts" event, RawJson.get "event_ts" event]
  let externalId ← socket.eventIdentity parts channelId timestamp eventType
  let ignore (reason : String) :=
    ignored externalId eventType userId channelId reason receivedAt parts.envelopeId
  if eventType ≠ lit "message" ∧ eventType ≠ lit "app_mention" then
    return ignore "event type is not supported"
  else if socket.truthy (RawJson.get "bot_id" event) || socket.truthy (RawJson.get "subtype" event)
      then return ignore "bot and subtype messages are ignored"
  else if userId = [] ∨ channelId = [] ∨ timestamp = [] then
    return ignore "message identity, timestamp, or text is missing"
  else
    match RawJson.get "text" event with
    | .str text =>
        let supplied := RawJson.get "thread_ts" event
        let threadTs := if socket.truthy supplied then some (socket.strOf supplied)
          else if socket.topLevelAsThreadRoot then some timestamp else none
        return socket.authorized
          { externalEventId := externalId
            eventType := eventType
            userId := userId
            channelId := channelId
            threadKey := threadKey channelId threadTs
            downstreamKey := lit "slack:event:" ++ externalId
            text := some (if eventType = lit "app_mention" then withoutLeadingMention text else text)
            messageId := some timestamp
            callbackQueryId := none
            callbackData := none
            action := "message"
            receivedAt := receivedAt
            metadata := [("thread_ts", threadTs), ("event_ts", some timestamp)] } parts.envelopeId
    | _ => return ignore "message identity, timestamp, or text is missing"

/-- The first of the actions; a text is a sequence too, but not of mappings. -/
def firstAction : RawJson → Option (List (PyText × RawJson))
  | .arr (first :: _) => first.mapping?
  | _ => none

def entriesOf (v : RawJson) : List (PyText × RawJson) := v.mapping?.getD []

def normalizeBlockActions (parts : RequestParts) (receivedAt : String) :
    Except PyError NormalizedSlackEvent := do
  let user := entriesOf (RawJson.get "user" parts.payload)
  let channel := entriesOf (RawJson.get "channel" parts.payload)
  let message := entriesOf (RawJson.get "message" parts.payload)
  let container := entriesOf (RawJson.get "container" parts.payload)
  let userId := socket.strOr [] [RawJson.get "id" user]
  let channelId := socket.strOr [] [RawJson.get "id" channel, RawJson.get "channel_id" container]
  let timestamp := socket.strOr [] [RawJson.get "message_ts" container, RawJson.get "ts" message,
    RawJson.get "action_ts" parts.payload]
  let externalId ← socket.eventIdentity parts channelId timestamp (lit "block_actions")
  let ignore := ignored externalId (lit "block_actions") userId channelId
    "block action identity or action is missing" receivedAt parts.envelopeId
  match firstAction (RawJson.get "actions" parts.payload) with
  | none => return ignore
  | some action =>
      if userId = [] ∨ channelId = [] then return ignore
      else
        let threadTs := if timestamp = [] then none
          else some (socket.strOr timestamp [RawJson.get "thread_ts" message])
        let actionId := socket.strOr [] [RawJson.get "action_id" action]
        let callbackData := match RawJson.get "value" action with
          | .null => actionId
          | v => socket.strOf v
        return socket.authorized
          { externalEventId := externalId
            eventType := lit "block_actions"
            userId := userId
            channelId := channelId
            threadKey := threadKey channelId threadTs
            downstreamKey := lit "slack:event:" ++ externalId
            text := none
            messageId := if timestamp = [] then none else some timestamp
            callbackQueryId := parts.envelopeId
            callbackData := some callbackData
            action := "callback"
            receivedAt := receivedAt
            metadata := [("thread_ts", threadTs), ("action_id", some actionId)] } parts.envelopeId

def isText (s : String) : RawJson → Bool
  | .str t => t = lit s
  | _ => false

def normalizeSlackEvent (request : SocketRequest) (receivedAt : String) :
    Except PyError NormalizedSlackEvent :=
  let parts := socket.requestParts request
  let event := (RawJson.get "event" parts.payload).mapping?
  if parts.requestType = lit "events_api" ∨ event.isSome then
    socket.normalizeMessage parts (event.getD []) receivedAt
  else if parts.requestType = lit "interactive" ∨
      isText "block_actions" (RawJson.get "type" parts.payload) then
    socket.normalizeBlockActions parts receivedAt
  else do
    let externalId ← socket.eventIdentity parts [] [] parts.requestType
    return ignored externalId parts.requestType [] [] "Socket Mode envelope type is not supported"
      receivedAt parts.envelopeId

end SlackSocket

/-- The envelope as the columns and its JSON text take it; of a refused one only the identity is
stored. -/
def SlackEnvelope.encode (allowed : Bool) (envelope : SlackEnvelope) :
    Except PyError ChannelEnvelope := do
  let externalEventId ← encodeText envelope.externalEventId
  let eventType ← encodeText envelope.eventType
  let userId ← encodeText envelope.userId
  let channelId ← encodeText envelope.channelId
  let identity : ChannelEnvelope :=
    { platform := .slack
      externalEventId := externalEventId
      eventType := eventType
      userId := userId
      channelId := channelId
      threadKey := ""
      downstreamKey := ""
      text := none
      messageId := none
      callbackQueryId := none
      callbackData := none
      action := envelope.action
      receivedAt := some envelope.receivedAt
      metadata := [] }
  if allowed then
    let threadKey ← encodeText envelope.threadKey
    let downstreamKey ← encodeText envelope.downstreamKey
    let text ← envelope.text.mapM encodeText
    let messageId ← envelope.messageId.mapM encodeText
    let callbackQueryId ← envelope.callbackQueryId.mapM encodeText
    let callbackData ← envelope.callbackData.mapM encodeText
    let metadata ← envelope.metadata.mapM fun e => do
      let value ← e.2.mapM encodeText
      return (e.1, optStr value)
    return { identity with
      threadKey := threadKey
      downstreamKey := downstreamKey
      text := text
      messageId := messageId
      callbackQueryId := callbackQueryId
      callbackData := callbackData
      metadata := metadata }
  else return identity

theorem encodeText_ok {t : PyText} {s : String} : encodeText t = .ok s ↔ t = .ofString s := by
  rw [← PyText.encode_iff, encodeText]
  cases t.encode <;> simp

/-- The identity of an event is stored as it is. -/
theorem SlackEnvelope.encode_ok {allowed : Bool} {e : SlackEnvelope} {envelope : ChannelEnvelope}
    (h : e.encode allowed = .ok envelope) : envelope.platform = .slack ∧
      e.externalEventId = .ofString envelope.externalEventId ∧
      e.eventType = .ofString envelope.eventType ∧ e.userId = .ofString envelope.userId ∧
      e.channelId = .ofString envelope.channelId ∧ envelope.action = e.action ∧
      envelope.receivedAt = some e.receivedAt := by
  simp only [SlackEnvelope.encode, bind_eq_ok, encodeText_ok] at h
  obtain ⟨externalEventId, hid, eventType, htype, userId, huser, channelId, hchannel, h⟩ := h
  split at h
  · simp only [bind_eq_ok] at h
    obtain ⟨_, -, _, -, _, -, _, -, _, -, _, -, _, -, h⟩ := h
    obtain rfl := Except.ok.inj h
    exact ⟨rfl, hid, htype, huser, hchannel, rfl, rfl⟩
  · obtain rfl := Except.ok.inj h
    exact ⟨rfl, hid, htype, huser, hchannel, rfl, rfl⟩

/-- What comes of a request; the envelope is acknowledged after the event has been stored. -/
structure Handled where
  result : ChannelStore.IngestResult
  acknowledges : Option PyText

namespace SlackSocket
variable (socket : SlackSocket)

def malformed (parts : RequestParts) (receivedAt : String) : Option NormalizedSlackEvent :=
  parts.envelopeId.map fun envelopeId => ignored envelopeId parts.requestType [] []
    "Socket Mode envelope is malformed" receivedAt (some envelopeId)

def received (request : SocketRequest) (receivedAt : String) :
    Except PyError (Option NormalizedSlackEvent) :=
  match socket.normalizeSlackEvent request receivedAt with
  | .ok n => .ok (some n)
  | .error e =>
      if e.cls = .typeError ∨ e.cls = .valueError then
        .ok (malformed (socket.requestParts request) receivedAt)
      else .error e

def minimalPayload (envelope : SlackEnvelope) : List (PyText × RawJson) :=
  [(lit "type", .str envelope.eventType), (lit "external_event_id", .str envelope.externalEventId)]

/-- The object that the event is stored with. -/
def storedPayload (request : SocketRequest) (n : NormalizedSlackEvent) : List (PyText × RawJson) :=
  if n.isIgnored then minimalPayload n.envelope else (socket.requestParts request).payload

def ingest (n : NormalizedSlackEvent) (payload : List (PyText × RawJson)) (a : Readings) :
    Op IngestResult := do
  let entries ← Txn.lift (encodeObject payload)
  let _ ← Txn.lift (sha256Hex socket.store.sha (dict entries))
  let envelope ← Txn.lift (n.envelope.encode (n.decision = .allow))
  ingestEnvelope socket.store envelope entries (some n.decision) (some n.reason) a

def handleSocketRequest (request : SocketRequest) (a : Readings) : Op (Option Handled) := do
  match ← Txn.lift (socket.received request a.receivedAt) with
  | none => return none
  | some n => do
      let result ← socket.ingest n (socket.storedPayload request n) a
      return some ⟨result, n.envelopeId⟩

end SlackSocket

theorem AuthorizationPolicy.evaluateText_decision (policy : AuthorizationPolicy)
    (platform : Platform) (user channel : PyText) (action : String) :
    (policy.evaluateText platform user channel action).decision = .allow ∨
      (policy.evaluateText platform user channel action).decision = .deny := by
  unfold evaluateText
  dsimp only
  repeat' split
  all_goals simp

/-- What the normaliser makes of a request: an event it drops, or one it asks the policy for. -/
inductive SlackSocket.Normalized (socket : SlackSocket) (receivedAt : String) :
    NormalizedSlackEvent → Prop
  | ignored (externalEventId eventType userId channelId : PyText) (reason : String)
      (envelopeId : Option PyText) : Normalized socket receivedAt
        (ignored externalEventId eventType userId channelId reason receivedAt envelopeId)
  | authorized (envelope : SlackEnvelope) (envelopeId : Option PyText) :
      envelope.action ≠ "ignored" → envelope.receivedAt = receivedAt →
        Normalized socket receivedAt (socket.authorized envelope envelopeId)

namespace SlackSocket
variable {socket : SlackSocket} {request : SocketRequest} {parts : RequestParts}
  {receivedAt : String} {n : NormalizedSlackEvent}

theorem normalizeMessage_normalized {event : List (PyText × RawJson)}
    (h : socket.normalizeMessage parts event receivedAt = .ok n) : Normalized socket receivedAt n := by
  simp only [normalizeMessage, bind_eq_ok] at h
  obtain ⟨externalId, -, h⟩ := h
  split at h
  · obtain rfl := Except.ok.inj h
    exact .ignored ..
  · split at h
    · obtain rfl := Except.ok.inj h
      exact .ignored ..
    · split at h
      · obtain rfl := Except.ok.inj h
        exact .ignored ..
      · split at h
        · obtain rfl := Except.ok.inj h
          exact .authorized _ _ (by simp) rfl
        · obtain rfl := Except.ok.inj h
          exact .ignored ..

theorem normalizeBlockActions_normalized
    (h : socket.normalizeBlockActions parts receivedAt = .ok n) : Normalized socket receivedAt n := by
  simp only [normalizeBlockActions, bind_eq_ok] at h
  obtain ⟨externalId, -, h⟩ := h
  split at h
  · obtain rfl := Except.ok.inj h
    exact .ignored ..
  · split at h
    · obtain rfl := Except.ok.inj h
      exact .ignored ..
    · obtain rfl := Except.ok.inj h
      exact .authorized _ _ (by simp) rfl

theorem normalizeSlackEvent_normalized
    (h : socket.normalizeSlackEvent request receivedAt = .ok n) : Normalized socket receivedAt n := by
  unfold normalizeSlackEvent at h
  dsimp only at h
  split at h
  · exact normalizeMessage_normalized h
  · split at h
    · exact normalizeBlockActions_normalized h
    · obtain ⟨externalId, -, h⟩ := bind_eq_ok.1 h
      obtain rfl := Except.ok.inj h
      exact .ignored ..

theorem received_normalized (h : socket.received request receivedAt = .ok (some n)) :
    Normalized socket receivedAt n := by
  unfold received at h
  split at h
  · rename_i hn
    obtain rfl := Option.some.inj (Except.ok.inj h)
    exact normalizeSlackEvent_normalized hn
  · split at h
    · obtain ⟨envelopeId, -, rfl⟩ := Option.map_eq_some_iff.1 (Except.ok.inj h)
      exact .ignored ..
    · simp at h

theorem Normalized.isIgnored_iff (h : Normalized socket receivedAt n) :
    n.isIgnored = true ↔ n.decision = .ignored := by
  cases h with
  | ignored => simp [SlackSocket.ignored]
  | authorized => simp [SlackSocket.authorized]

theorem Normalized.ignored_iff (h : Normalized socket receivedAt n) :
    n.decision = .ignored ↔ n.envelope.action = "ignored" := by
  cases h with
  | ignored => simp [SlackSocket.ignored]
  | authorized envelope envelopeId haction _ =>
      simp only [SlackSocket.authorized, haction, iff_false]
      rcases socket.authorizationPolicy.evaluateText_decision .slack envelope.userId
        envelope.channelId envelope.action with h | h <;> simp [h]

theorem Normalized.envelope_receivedAt (h : Normalized socket receivedAt n) :
    n.envelope.receivedAt = receivedAt := by
  cases h with
  | ignored => rfl
  | authorized envelope envelopeId _ hat => exact hat

/-- An event that is not dropped has what the policy has said of it. -/
theorem Normalized.evaluated (h : Normalized socket receivedAt n) (hn : n.decision ≠ .ignored) :
    n.decision = (socket.authorizationPolicy.evaluateText .slack n.envelope.userId
        n.envelope.channelId n.envelope.action).decision ∧
      n.reason = (socket.authorizationPolicy.evaluateText .slack n.envelope.userId
        n.envelope.channelId n.envelope.action).reason := by
  cases h with
  | ignored => exact absurd rfl hn
  | authorized => exact ⟨rfl, rfl⟩

variable {a : Readings} {payload : List (PyText × RawJson)}

theorem ingest_atomic : Txn.Atomic (socket.ingest n payload a) :=
  (Txn.lift_readOnly _).bind_atomic fun entries => (Txn.lift_readOnly _).bind_atomic fun _ =>
    (Txn.lift_readOnly _).bind_atomic fun envelope =>
      @ChannelCall.perform_atomic socket.store a _
        (.ingestEnvelope envelope entries (some n.decision) (some n.reason))

theorem handleSocketRequest_atomic : Txn.Atomic (socket.handleSocketRequest request a) := by
  refine (Txn.lift_readOnly _).bind_atomic fun received => ?_
  cases received with
  | none => exact (Txn.pure_readOnly _).atomic
  | some n =>
      intro t e h
      rcases hingest : socket.ingest n (socket.storedPayload request n) a t with ⟨_ | result, t'⟩
      · dsimp only at h ⊢
        rw [Txn.bind_of_error hingest]
        exact ingest_atomic.state hingest
      · dsimp only at h
        rw [Txn.bind_of_ok hingest] at h
        exact absurd h (by simp [pure, Txn.pure])

theorem handleSocketRequest_of_received {request : SocketRequest}
    (h : socket.received request a.receivedAt = .ok (some n)) (t : ChannelTables) :
    (socket.handleSocketRequest request a t).2 =
      (socket.ingest n (socket.storedPayload request n) a t).2 := by
  simp only [handleSocketRequest, h, Txn.lift_ok_bind]
  rcases hr : socket.ingest n (socket.storedPayload request n) a t with ⟨_ | result, t'⟩
  · rw [Txn.bind_of_error hr]
  · rw [Txn.bind_of_ok hr]
    rfl

/-- An event whose payload cannot be hashed is not stored. -/
theorem ingest_of_hash_error {e : PyError} (h : payloadHash socket.store payload = .error e)
    (t : ChannelTables) : (socket.ingest n payload a t).2 = t := by
  rcases hr : socket.ingest n payload a t with ⟨e' | result, t'⟩
  · exact ingest_atomic.state hr
  · simp only [ingest, Txn.bind_ok, Txn.lift_ok] at hr
    obtain ⟨entries, _, ⟨hentries, -⟩, hash, _, ⟨hhash, -⟩, -⟩ := hr
    rw [payloadHash, hentries] at h
    exact absurd (hhash.symm.trans h) (by simp)

end SlackSocket

end Polaris
