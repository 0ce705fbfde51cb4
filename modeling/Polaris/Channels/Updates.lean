import Polaris.Channels.Models
import Polaris.Runtime.Effects

namespace Polaris
open PyJson SortedDict

/-- The sets of a policy; a platform that is not listed uses the common ones. -/
structure AuthorizationPolicy where
  users : List String
  channels : List String
  actions : List String
  platformUsers : Platform → Option (List String)
  platformChannels : Platform → Option (List String)

structure AuthorizationResult where
  decision : AuthDecision
  reason : String

def AuthorizationPolicy.evaluate (policy : AuthorizationPolicy) (platform : Platform)
    (user channel action : String) : AuthorizationResult :=
  let users := (policy.platformUsers platform).getD policy.users
  let channels := (policy.platformChannels platform).getD policy.channels
  if users.isEmpty then ⟨.deny, "no users are authorized"⟩
  else if user ∉ users then ⟨.deny, "user is not authorized"⟩
  else if channels.isEmpty then ⟨.deny, "no channels are authorized"⟩
  else if channel ∉ channels then ⟨.deny, "channel is not authorized"⟩
  else if policy.actions.isEmpty then ⟨.deny, "no actions are authorized"⟩
  else if action ∉ policy.actions then ⟨.deny, "action is not authorized"⟩
  else ⟨.allow, "authorized"⟩

structure NormalizedTelegramUpdate where
  envelope : Option ChannelEnvelope
  decision : AuthDecision
  reason : String
  eventType : String
  action : String
  userId : Option String
  channelId : Option String

/-- The envelope of an update that is allowed. -/
def NormalizedTelegramUpdate.allowed (n : NormalizedTelegramUpdate) : Option ChannelEnvelope :=
  if n.decision = .allow then n.envelope else none

namespace Telegram

def ignored (eventType reason : String) : NormalizedTelegramUpdate :=
  ⟨none, .ignored, reason, eventType, "ignored", none, none⟩

/-- What the two kinds of updates give to an envelope. -/
structure Content where
  eventType : String
  action : String
  sender : List (String × PyVal)
  chat : List (String × PyVal)
  text : Option String
  callbackData : Option String
  callbackQueryId : Option String
  messageId : Option String

def isTopic (py : PyBuiltins) (message : List (String × PyVal)) : Bool :=
  Agent.truthy py (getOrNone "is_topic_message" message) || (lookup "message_thread_id" message).isSome

def idText (py : PyBuiltins) (key : String) (es : List (String × PyVal)) : Option String :=
  (lookup key es).map py.strOf

def messageContent (py : PyBuiltins) (message : List (String × PyVal)) :
    Except NormalizedTelegramUpdate Content :=
  if isTopic py message then .error (ignored "message" "forum topics are not supported")
  else
    match getOrNone "text" message with
    | .str text =>
        match getOrNone "from" message, getOrNone "chat" message with
        | .map _ sender, .map _ chat =>
            .ok ⟨"message", if "/".toList.isPrefixOf text.toList then "command" else "message",
              sender, chat, some text, none, none, idText py "message_id" message⟩
        | _, _ => .error (ignored "message" "message identity is missing")
    | _ => .error (ignored "message" "only text messages are supported")

def callbackContent (py : PyBuiltins) (callback : List (String × PyVal)) :
    Except NormalizedTelegramUpdate Content :=
  match getOrNone "message" callback, getOrNone "from" callback with
  | .map _ message, .map _ sender =>
      if isTopic py message then .error (ignored "callback_query" "forum topics are not supported")
      else
        match getOrNone "chat" message, getOrNone "data" callback with
        | .map _ chat, .str data =>
            .ok ⟨"callback_query", "callback", sender, chat, none, some data,
              idText py "id" callback, idText py "message_id" message⟩
        | _, _ =>
            .error (ignored "callback_query" "callback data or chat identity is missing")
  | _, _ => .error (ignored "callback_query" "inline callbacks are not supported")

def content (py : PyBuiltins) (update : List (String × PyVal)) :
    Except NormalizedTelegramUpdate Content :=
  match getOrNone "message" update, getOrNone "callback_query" update with
  | .map _ message, _ => messageContent py message
  | _, .map _ callback => callbackContent py callback
  | _, _ => .error (ignored "unsupported" "update type is not supported")

def envelopeOf (updateId : ℤ) (userId channelId receivedAt : String) (c : Content) :
    ChannelEnvelope where
  platform := .telegram
  externalEventId := toString updateId
  eventType := c.eventType
  userId := userId
  channelId := channelId
  threadKey := "telegram:" ++ channelId
  downstreamKey := "telegram:update:" ++ toString updateId
  text := c.text
  messageId := c.messageId
  callbackQueryId := c.callbackQueryId
  callbackData := c.callbackData
  action := c.action
  receivedAt := some receivedAt
  metadata := []

end Telegram

/-- The update after its id has been read; the time of receipt is that of another clock. -/
def normalizeTelegramUpdate (py : PyBuiltins) (policy : AuthorizationPolicy) (updateId : ℤ)
    (receivedAt : String) (update : List (String × PyVal)) : NormalizedTelegramUpdate :=
  match Telegram.content py update with
  | .error ignored => ignored
  | .ok c =>
      if getOrNone "id" c.sender = .null ∨ getOrNone "id" c.chat = .null then
        Telegram.ignored c.eventType "user or chat identity is missing"
      else
        let userId := py.strOf (getOrNone "id" c.sender)
        let channelId := py.strOf (getOrNone "id" c.chat)
        let auth := policy.evaluate .telegram userId channelId c.action
        ⟨some (Telegram.envelopeOf updateId userId channelId receivedAt c), auth.decision,
          auth.reason, c.eventType, c.action, some userId, some channelId⟩

end Polaris
