import Polaris.Channels.Inbox
import Polaris.Channels.Socket

namespace Polaris
open PyJson ChannelStore

/-! What the calls that take no event leave of the inbox. -/

/-- The columns that only the ingestion writes. -/
def InboxRow.ingested (row : InboxRow) : InboxRow :=
  { row with
    status := .received
    leaseOwner := none
    leaseExpiresAt := none
    heartbeatAt := none
    attemptCount := 0
    runId := none
    outboxKey := none
    error := none
    updatedAt := row.createdAt }

structure InboxRow.Keeps (row row' : InboxRow) : Prop where
  ingested : row'.ingested = row.ingested
  completed : row.status = .completed → row' = row

namespace InboxRow

theorem Keeps.refl (row : InboxRow) : row.Keeps row := ⟨rfl, fun _ => rfl⟩

theorem Keeps.trans {row row' row'' : InboxRow} (h : row.Keeps row') (h' : row'.Keeps row'') :
    row.Keeps row'' := by
  refine ⟨h'.ingested.trans h.ingested, fun hcompleted => ?_⟩
  obtain rfl := h.completed hcompleted
  exact h'.completed hcompleted

theorem keeps_of_open {row row' : InboxRow} (hstatus : row.status ≠ .completed)
    (h : row'.ingested = row.ingested) : row.Keeps row' := ⟨h, fun hc => absurd hc hstatus⟩

end InboxRow

/-- No row is new, and each keeps what it was ingested with. -/
def ChannelTables.InboxKept (t t' : ChannelTables) : Prop :=
  ∀ row' ∈ t'.inbox, ∃ row ∈ t.inbox, row.Keeps row'

def ChannelCall.ingests {β : Type} : ChannelCall β → Bool
  | .ingestTelegramUpdate .. | .ingestEnvelope .. => true
  | _ => false

namespace ChannelStore
open Txn
variable {store : ChannelStore} {a : Readings} {t t' t'' : ChannelTables} {α β : Type}

theorem inboxKept_of_eq (h : t'.inbox = t.inbox) : t.InboxKept t' :=
  fun row' hrow' => ⟨row', h ▸ hrow', .refl row'⟩

theorem inboxKept_trans (h : t.InboxKept t') (h' : t'.InboxKept t'') : t.InboxKept t'' := by
  intro row'' hrow''
  obtain ⟨row', hrow', hkeeps'⟩ := h' row'' hrow''
  obtain ⟨row, hrow, hkeeps⟩ := h row' hrow'
  exact ⟨row, hrow, hkeeps.trans hkeeps'⟩

/-- An update of rows that are still open, of the columns that the handling writes. -/
theorem updateInbox_kept {p : InboxRow → Bool} {f : InboxRow → InboxRow}
    (hopen : ∀ row, p row = true → row.status ≠ .completed)
    (h : ∀ row, (f row).ingested = row.ingested) : t.InboxKept (updateInbox p f t) := by
  intro row' hrow'
  obtain ⟨row, hrow, rfl⟩ := List.mem_map.1 hrow'
  refine ⟨row, hrow, ?_⟩
  split
  · rename_i hp
    exact InboxRow.keeps_of_open (hopen row hp) (h row)
  · exact .refl row

end ChannelStore

namespace ChannelCall
open ChannelStore Txn
variable {store : ChannelStore} {a : Readings} {β : Type} {c : ChannelCall β}

theorem perform_kept (h : c.ingests = false) :
    Within ChannelTables.InboxKept (c.perform store a) := by
  have hread {ε α : Type} {x : Txn ε ChannelTables α} (hx : ReadOnly x) :
      Within ChannelTables.InboxKept x := hx.within fun _ => inboxKept_of_eq rfl
  have hthen {ε α γ : Type} {x : Txn ε ChannelTables α} {f : α → Txn ε ChannelTables γ}
      (hx : Within ChannelTables.InboxKept x) (hf : ∀ v, Within ChannelTables.InboxKept (f v)) :
      Within ChannelTables.InboxKept (x >>= f) :=
    Within.bind (R := ChannelTables.InboxKept) (fun h h' => inboxKept_trans h h') hx hf
  have hatomically {ε α : Type} {x : Txn ε ChannelTables α} (hx : Within ChannelTables.InboxKept x) :
      Within ChannelTables.InboxKept (Txn.atomically x) :=
    Within.atomically (fun _ => inboxKept_of_eq rfl) hx
  have hwrite {p : InboxRow → Bool} {f : InboxRow → InboxRow}
      (hopen : ∀ row, p row = true → row.status ≠ .completed)
      (h : ∀ row, (f row).ingested = row.ingested) :
      Within ChannelTables.InboxKept (Txn.write (updateInbox p f) : Op Unit) :=
    fun t => updateInbox_kept hopen h
  have hexpired : ∀ row : InboxRow, row.isExpired a.now = true → row.status ≠ .completed := by
    intro row hrow
    rw [InboxRow.isExpired_status hrow]
    decide
  have hprocessing : ∀ (key : Platform × String) (owner : String) (row : InboxRow),
      row.isProcessing key owner a.now = true → row.status ≠ .completed := by
    intro key owner row hrow
    rw [(InboxRow.isProcessing_iff.1 hrow).2.1]
    decide
  have hrecover : Within ChannelTables.InboxKept (recoverInboxLocked a.now) :=
    hthen (hread (read_readOnly _)) fun _ => hthen (hwrite hexpired fun _ => rfl) fun _ =>
      hread (pure_readOnly _)
  have hone {key : Platform × String} {owner : String} {f : InboxRow → InboxRow} {e : PyError}
      (hf : ∀ row, (f row).ingested = row.ingested) :
      Within ChannelTables.InboxKept (updateOneInbox (InboxRow.isProcessing key owner a.now) f e) :=
    hthen (hread (read_readOnly _)) fun _ => hthen (hwrite (hprocessing key owner) hf) fun _ =>
      hread (require_readOnly _ _)
  by_cases hspares : c.sparesInbox = true
  · exact fun t => inboxKept_of_eq (sparesInbox_keeps hspares t)
  · cases c with
    | claimInbox owner leaseSeconds platform =>
        refine hthen (hread (require_readOnly _ _)) fun _ => hthen (hread (lift_readOnly _)) fun _ =>
          hatomically <| hthen hrecover fun _ => hthen (hread (read_readOnly _)) fun next => ?_
        cases next with
        | none => exact hread (pure_readOnly _)
        | some row =>
            refine hthen (hwrite ?_ fun _ => rfl) fun _ =>
              hthen (hread (selectInbox_readOnly _)) fun _ => hread (pure_readOnly _)
            intro r hr
            simp only [Bool.and_eq_true, decide_eq_true_eq] at hr
            rw [hr.2]
            decide
    | recoverInboxLeases => exact hatomically hrecover
    | heartbeatInbox =>
        exact hthen (hread (lift_readOnly _)) fun _ => hatomically (hone fun _ => rfl)
    | linkInboxRun key downstreamKey runId =>
        refine hthen (hread (require_readOnly _ _)) fun _ => hatomically <|
          hthen (hread (read_readOnly _)) fun _ => hthen (hread (getOr_readOnly _ _)) fun _ =>
            hthen (hread (require_readOnly _ _)) fun _ => hwrite ?_ fun _ => rfl
        intro row hrow
        simp only [isLinkable, Bool.and_eq_true, decide_eq_true_eq] at hrow
        rw [hrow.1.2]
        decide
    | completeInbox => exact hatomically (hone fun _ => rfl)
    | failInbox => exact hatomically (hone fun _ => rfl)
    | completeInboxWithOutbox key owner batch runId =>
        exact hatomically <| hthen (fun t => inboxKept_of_eq (enqueueAll_keeps batch t)) fun _ =>
          hthen (hone fun _ => rfl) fun _ => hread (pure_readOnly _)
    | ingestTelegramUpdate => simp [ingests] at h
    | ingestEnvelope => simp [ingests] at h
    | _ => simp [sparesInbox] at hspares

end ChannelCall

/-! Events. -/

/-- The adapters of two platforms over one store, each with a policy of its own. -/
structure ChannelAdapters where
  socket : SlackSocket
  telegramPolicy : AuthorizationPolicy
  streamKey : Option String

inductive ChannelEvent where
  | telegram (update : List (PyText × RawJson))
  | slack (request : SocketRequest)

namespace ChannelAdapters
variable (x : ChannelAdapters)

def store : ChannelStore := x.socket.store

def policy : Platform → AuthorizationPolicy
  | .telegram => x.telegramPolicy
  | .slack => x.socket.authorizationPolicy

/-- What the arrival of an event makes of the tables. -/
def takes (a : Readings) : ChannelEvent → ChannelTables → ChannelTables
  | .telegram update, t => (ingestRawUpdate x.store update x.telegramPolicy x.streamKey a t).2
  | .slack request, t => (x.socket.handleSocketRequest request a t).2

/-- The envelope of an event for which the policy is asked; that of an update in an epoch. -/
inductive Asks (a : Readings) : ChannelEvent → ChannelEnvelope → Prop
  | telegram {update : List (PyText × RawJson)} {entries : List (String × PyVal)} {updateId : ℤ}
      {envelope : ChannelEnvelope} (epoch : ℕ) :
      RawJson.encodeEntries update = some entries → requireUpdateId entries = .ok updateId →
      (normalizeTelegramUpdate x.store.py x.telegramPolicy updateId a.receivedAt entries).envelope =
        some envelope →
      Asks a (.telegram update) (inEpoch epoch updateId envelope)
  | slack {request : SocketRequest} {n : NormalizedSlackEvent} {envelope : ChannelEnvelope} :
      x.socket.received request a.receivedAt = .ok (some n) → n.decision ≠ .ignored →
      n.envelope.encode true = .ok envelope → Asks a (.slack request) envelope

end ChannelAdapters

theorem AuthorizationPolicy.evaluate_decision (policy : AuthorizationPolicy) (platform : Platform)
    (user channel action : String) : (policy.evaluate platform user channel action).decision = .allow ∨
      (policy.evaluate platform user channel action).decision = .deny := by
  rw [← evaluateText_ofString]
  exact evaluateText_decision ..

/-- The row of an event that is allowed; it names what the policy has been asked. -/
structure InboxRow.Holds (row : InboxRow) (envelope : ChannelEnvelope) : Prop where
  platform : row.platform = envelope.platform
  externalEventId : row.externalEventId = envelope.externalEventId
  eventType : row.eventType = envelope.eventType
  userId : row.userId = some envelope.userId
  channelId : row.channelId = some envelope.channelId
  decision : row.authDecision = .allow
  envelope : ∃ json, row.envelope = some json ∧ canonicalJson envelope.toDict = .ok json

/-- The row of an event that is denied or ignored. -/
structure InboxRow.Refused (row : InboxRow) : Prop where
  decision : row.authDecision ≠ .allow
  status : row.status = .completed
  payload : row.payload = none
  envelope : row.envelope = none
  threadKey : row.threadKey = none
  downstreamKey : row.downstreamKey = none

/-- The event was allowed when it came, and the row is its own. -/
structure ChannelAdapters.Admits (x : ChannelAdapters) (a : Readings) (e : ChannelEvent)
    (row : InboxRow) (envelope : ChannelEnvelope) : Prop where
  asks : x.Asks a e envelope
  allowed : ((x.policy envelope.platform).evaluate envelope.platform envelope.userId
    envelope.channelId envelope.action).decision = .allow
  holds : row.Holds envelope

/-- An event adds no row, or its own. -/
def ChannelAdapters.Records (x : ChannelAdapters) (a : Readings) (e : ChannelEvent)
    (t t' : ChannelTables) : Prop :=
  t'.inbox = t.inbox ∨ ∃ row, t'.inbox = (insertInbox row t).inbox ∧
    (row.Refused ∨ ∃ envelope, x.Admits a e row envelope)

/-- What the policy says of an envelope is what the normalised update has. -/
def NormalizedTelegramUpdate.ofEnvelope (policy : AuthorizationPolicy) (envelope : ChannelEnvelope) :
    NormalizedTelegramUpdate :=
  let auth := policy.evaluate .telegram envelope.userId envelope.channelId envelope.action
  ⟨some envelope, auth.decision, auth.reason, envelope.eventType, envelope.action,
    some envelope.userId, some envelope.channelId⟩

/-- What the normaliser makes of an update: one it drops, or one it asks the policy for. -/
inductive Telegram.Normalized (policy : AuthorizationPolicy) : NormalizedTelegramUpdate → Prop
  | ignored (eventType reason : String) : Normalized policy (Telegram.ignored eventType reason)
  | asked (envelope : ChannelEnvelope) : envelope.platform = .telegram →
      envelope.action ≠ "ignored" → Normalized policy (.ofEnvelope policy envelope)

namespace Telegram
variable {policy : AuthorizationPolicy} {n : NormalizedTelegramUpdate}

theorem messageContent_spec (py : PyBuiltins) (message : List (String × PyVal)) :
    (∃ eventType reason, messageContent py message = .error (Telegram.ignored eventType reason)) ∨
      ∃ c, messageContent py message = .ok c ∧ c.action ≠ "ignored" := by
  unfold messageContent
  split
  · exact .inl ⟨_, _, rfl⟩
  · split
    · split
      · refine .inr ⟨_, rfl, ?_⟩
        dsimp only
        split <;> simp
      · exact .inl ⟨_, _, rfl⟩
    · exact .inl ⟨_, _, rfl⟩

theorem callbackContent_spec (py : PyBuiltins) (callback : List (String × PyVal)) :
    (∃ eventType reason, callbackContent py callback = .error (Telegram.ignored eventType reason)) ∨
      ∃ c, callbackContent py callback = .ok c ∧ c.action ≠ "ignored" := by
  unfold callbackContent
  split
  · split
    · exact .inl ⟨_, _, rfl⟩
    · split
      · exact .inr ⟨_, rfl, by simp⟩
      · exact .inl ⟨_, _, rfl⟩
  · exact .inl ⟨_, _, rfl⟩

theorem content_spec (py : PyBuiltins) (update : List (String × PyVal)) :
    (∃ eventType reason, content py update = .error (Telegram.ignored eventType reason)) ∨
      ∃ c, content py update = .ok c ∧ c.action ≠ "ignored" := by
  unfold content
  split
  · exact messageContent_spec ..
  · exact callbackContent_spec ..
  · exact .inl ⟨_, _, rfl⟩

theorem normalized (py : PyBuiltins) (policy : AuthorizationPolicy) (updateId : ℤ)
    (receivedAt : String) (update : List (String × PyVal)) :
    Normalized policy (normalizeTelegramUpdate py policy updateId receivedAt update) := by
  unfold normalizeTelegramUpdate
  rcases content_spec py update with ⟨eventType, reason, h⟩ | ⟨c, h, haction⟩
  · rw [h]
    exact .ignored ..
  · rw [h]
    dsimp only
    split
    · exact .ignored ..
    · exact .asked (envelopeOf updateId _ _ receivedAt c) rfl haction

theorem Normalized.ignored_iff (h : Normalized policy n) :
    n.decision = .ignored ↔ n.action = "ignored" := by
  cases h with
  | ignored => simp [Telegram.ignored]
  | asked envelope _ haction =>
      simp only [NormalizedTelegramUpdate.ofEnvelope, haction, iff_false]
      rcases policy.evaluate_decision .telegram envelope.userId envelope.channelId envelope.action
        with h | h <;> simp [h]

theorem Normalized.allowed (h : Normalized policy n) {envelope : ChannelEnvelope}
    (hn : n.allowed = some envelope) : n = .ofEnvelope policy envelope ∧ n.decision = .allow ∧
      envelope.platform = .telegram := by
  unfold NormalizedTelegramUpdate.allowed at hn
  split at hn
  · rename_i hallow
    cases h with
    | ignored => simp [Telegram.ignored] at hallow
    | asked envelope' hplatform _ =>
        obtain rfl : envelope' = envelope := Option.some.inj hn
        exact ⟨rfl, hallow, hplatform⟩
  · simp at hn

theorem Normalized.refused (h : Normalized policy n) (hn : n.allowed = none) :
    n.decision ≠ .allow := by
  intro hallow
  rw [NormalizedTelegramUpdate.allowed, if_pos hallow] at hn
  cases h with
  | ignored => simp [Telegram.ignored] at hallow
  | asked envelope _ _ => simp [NormalizedTelegramUpdate.ofEnvelope] at hn

end Telegram

namespace ChannelStore
variable {store : ChannelStore} {a : Readings} {t t' : ChannelTables}

theorem ingestTelegramUpdate_row {update : List (String × PyVal)}
    {policy : AuthorizationPolicy} {streamKey : Option String} {result : IngestResult}
    (h : ingestTelegramUpdate store update (some policy) streamKey a t = (.ok result, t')) :
    ∃ updateId epoch hash payload json, requireUpdateId update = .ok updateId ∧
      ∀ n, n = normalizeTelegramUpdate store.py policy updateId a.receivedAt update →
        optJson (n.allowed.map fun _ => dict update) = .ok payload ∧
        optJson ((n.allowed.map (inEpoch epoch updateId)).map ChannelEnvelope.toDict) = .ok json ∧
        t'.inbox = (insertInbox (updateRow epoch updateId hash payload
          (n.allowed.map (inEpoch epoch updateId)) json n a.now) t).inbox := by
  simp only [ingestTelegramUpdate, Txn.bind_ok, Txn.lift_ok, Txn.atomically_ok, Txn.read_ok,
    Txn.write_ok, Txn.pure_ok, Option.getD_some] at h
  obtain ⟨updateId, _, ⟨hid, rfl⟩, hash, _, ⟨-, rfl⟩, payload, _, ⟨hpayload, rfl⟩, _, _, ⟨-, rfl⟩,
    epoch, _, ⟨-, rfl⟩, json, _, ⟨hjson, rfl⟩, duplicate, t₁, hinsert, _, t₂, rfl, _, t₃, haudit,
    _, _, ⟨-, rfl⟩, -, rfl⟩ := h
  obtain ⟨-, rfl⟩ := insertInboxRow_ok hinsert
  refine ⟨updateId, epoch, hash, payload, json, hid, fun n hn => ?_⟩
  subst hn
  refine ⟨hpayload, hjson, ?_⟩
  rw [← haudit]
  split
  · exact upsertOffset_inbox _ _ _
  · exact upsertOffset_inbox _ _ _

theorem ingestEnvelope_row {envelope : ChannelEnvelope} {payload : List (String × PyVal)}
    {decision : AuthDecision} {reason : String} {result : IngestResult}
    (h : ingestEnvelope store envelope payload (some decision) (some reason) a t = (.ok result, t')) :
    ∃ hash text json, optJson (if decision = .allow then some (dict payload) else none) = .ok text ∧
      optJson (if decision = .allow then some envelope.toDict else none) = .ok json ∧
      t'.inbox = (insertInbox (envelopeRow envelope (decision = .allow) hash text json decision
        reason a.now) t).inbox := by
  simp only [ingestEnvelope, Txn.bind_ok, Txn.lift_ok, Txn.atomically_ok, Txn.write_ok,
    Txn.pure_ok, Option.getD_some] at h
  obtain ⟨hash, _, ⟨-, rfl⟩, text, _, ⟨htext, rfl⟩, json, _, ⟨hjson, rfl⟩, duplicate, t₁, hinsert, _,
    t₂, haudit, -, rfl⟩ := h
  obtain ⟨-, rfl⟩ := insertInboxRow_ok hinsert
  refine ⟨hash, text, json, htext, hjson, ?_⟩
  rw [← haudit]
  split <;> rfl

end ChannelStore

namespace ChannelAdapters
variable {x : ChannelAdapters} {a : Readings} {t t' : ChannelTables}

theorem ingestRawUpdate_records {update : List (PyText × RawJson)} {result : IngestResult}
    (h : ingestRawUpdate x.store update x.telegramPolicy x.streamKey a t = (.ok result, t')) :
    x.Records a (.telegram update) t t' := by
  simp only [ingestRawUpdate, Txn.bind_ok, Txn.lift_ok, Txn.require_ok] at h
  obtain ⟨_, _, ⟨-, rfl⟩, entries, _, ⟨hentries, rfl⟩, _, _, ⟨-, rfl⟩, _, _, ⟨-, rfl⟩, h⟩ := h
  have hencode : RawJson.encodeEntries update = some entries := by
    unfold encodeObject at hentries
    split at hentries
    · rename_i hes
      rw [hes, Except.ok.inj hentries]
    · simp at hentries
  obtain ⟨updateId, epoch, hash, payload, json, hid, hrow⟩ := ingestTelegramUpdate_row h
  obtain ⟨hpayload, hjson, hinbox⟩ := hrow _ rfl
  have hnormalized := Telegram.normalized x.store.py x.telegramPolicy updateId a.receivedAt entries
  refine .inr ⟨_, hinbox, ?_⟩
  generalize hn : normalizeTelegramUpdate x.store.py x.telegramPolicy updateId a.receivedAt entries = n
    at hpayload hjson hnormalized
  cases hallowed : n.allowed with
  | none =>
      rw [hallowed] at hpayload hjson
      obtain rfl := Except.ok.inj hpayload
      obtain rfl := Except.ok.inj hjson
      exact .inl ⟨hnormalized.refused hallowed, rfl, rfl, rfl, rfl, rfl⟩
  | some envelope =>
      obtain ⟨hof, hallow, hplatform⟩ := hnormalized.allowed hallowed
      rw [hallowed] at hjson
      obtain ⟨column, hcolumn, hsome⟩ := bind_eq_ok.1 hjson
      obtain rfl := Except.ok.inj hsome
      refine .inr ⟨inEpoch epoch updateId envelope, .telegram epoch hencode hid ?_, ?_, ?_⟩
      · rw [hn, hof]
        rfl
      · rw [hof] at hallow
        simpa [inEpoch, hplatform, policy, NormalizedTelegramUpdate.ofEnvelope] using hallow
      · subst hof
        exact ⟨hplatform.symm, rfl, rfl, rfl, rfl, hallow, column, rfl, hcolumn⟩

theorem handleSocketRequest_records {request : SocketRequest} {handled : Option Handled}
    (h : x.socket.handleSocketRequest request a t = (.ok handled, t')) :
    x.Records a (.slack request) t t' := by
  simp only [SlackSocket.handleSocketRequest, Txn.bind_ok, Txn.lift_ok] at h
  obtain ⟨received, _, ⟨hreceived, rfl⟩, h⟩ := h
  cases received with
  | none =>
      obtain ⟨-, rfl⟩ := Txn.pure_ok.1 h
      exact .inl rfl
  | some n =>
      simp only [SlackSocket.ingest, Txn.bind_ok, Txn.lift_ok, Txn.pure_ok] at h
      obtain ⟨result, _, ⟨entries, _, ⟨-, rfl⟩, _, _, ⟨-, rfl⟩, envelope, _, ⟨hencode, rfl⟩, h⟩,
        -, rfl⟩ := h
      obtain ⟨hash, text, json, htext, hjson, hinbox⟩ := ingestEnvelope_row h
      have hnormalized := SlackSocket.received_normalized hreceived
      obtain ⟨hplatform, hid, htype, huser, hchannel, haction, -⟩ := SlackEnvelope.encode_ok hencode
      refine .inr ⟨_, hinbox, ?_⟩
      by_cases hallow : n.decision = .allow
      · obtain ⟨hdecision, -⟩ := hnormalized.evaluated (by simp [hallow])
        rw [if_pos hallow] at hjson
        obtain ⟨column, hcolumn, hsome⟩ := bind_eq_ok.1 hjson
        obtain rfl := Except.ok.inj hsome
        refine .inr ⟨envelope, .slack hreceived (by simp [hallow]) (by simpa [hallow] using hencode),
          ?_, ⟨rfl, rfl, rfl, rfl, rfl, hallow, column, rfl, hcolumn⟩⟩
        rw [hallow, huser, hchannel, ← haction, AuthorizationPolicy.evaluateText_ofString] at hdecision
        rw [hplatform]
        exact hdecision.symm
      · rw [if_neg hallow] at htext hjson
        obtain rfl := Except.ok.inj htext
        obtain rfl := Except.ok.inj hjson
        refine .inl ⟨hallow, ?_, rfl, rfl, ?_, ?_⟩ <;> simp [envelopeRow, hallow]

theorem takes_records (a : Readings) (e : ChannelEvent) (t : ChannelTables) :
    x.Records a e t (x.takes a e t) := by
  cases e with
  | telegram update =>
      rcases h : ingestRawUpdate x.store update x.telegramPolicy x.streamKey a t with ⟨e | result, t'⟩
      · have hsame := ingestRawUpdate_atomic.state h
        exact .inl (by rw [takes, h, hsame])
      · rw [takes, h]
        exact ingestRawUpdate_records h
  | slack request =>
      rcases h : x.socket.handleSocketRequest request a t with ⟨e | handled, t'⟩
      · have hsame := SlackSocket.handleSocketRequest_atomic.state h
        exact .inl (by rw [takes, h, hsame])
      · rw [takes, h]
        exact handleSocketRequest_records h

end ChannelAdapters

/-! Pairs of events. -/

/-- What an event shows of itself to the store; an update is named by its number. -/
structure EventFacts where
  identity : ℤ ⊕ PyText
  eventType : PyText
  userId : Option PyText
  channelId : Option PyText
  action : String
  payloadHash : Except PyError String
  decision : AuthDecision
  reason : String

namespace EventFacts

def platform (f : EventFacts) : Platform := if f.identity.isLeft then .telegram else .slack

/-- The two agree on identity, type, user, channel, action and payload hash. -/
structure Agree (f g : EventFacts) : Prop where
  identity : f.identity = g.identity
  eventType : f.eventType = g.eventType
  userId : f.userId = g.userId
  channelId : f.channelId = g.channelId
  action : f.action = g.action
  payloadHash : f.payloadHash = g.payloadHash

end EventFacts

namespace ChannelAdapters
variable (x : ChannelAdapters) {a : Readings} {e e' : ChannelEvent} {f f' : EventFacts}
  {t : ChannelTables}

def updateFacts (update : List (PyText × RawJson)) (updateId : ℤ) (n : NormalizedTelegramUpdate) :
    EventFacts where
  identity := .inl updateId
  eventType := .ofString n.eventType
  userId := n.userId.map PyText.ofString
  channelId := n.channelId.map PyText.ofString
  action := n.action
  payloadHash := payloadHash x.store update
  decision := n.decision
  reason := n.reason

def requestFacts (request : SocketRequest) (n : NormalizedSlackEvent) : EventFacts where
  identity := .inr n.envelope.externalEventId
  eventType := n.envelope.eventType
  userId := some n.envelope.userId
  channelId := some n.envelope.channelId
  action := n.envelope.action
  payloadHash := payloadHash x.store (x.socket.storedPayload request n)
  decision := n.decision
  reason := n.reason

/-- An event that cannot be read has no facts. -/
inductive HasFacts (a : Readings) : ChannelEvent → EventFacts → Prop
  | telegram {update : List (PyText × RawJson)} {entries : List (String × PyVal)} {updateId : ℤ} :
      RawJson.encodeEntries update = some entries → requireUpdateId entries = .ok updateId →
      HasFacts a (.telegram update) (x.updateFacts update updateId
        (normalizeTelegramUpdate x.store.py x.telegramPolicy updateId a.receivedAt entries))
  | slack {request : SocketRequest} {n : NormalizedSlackEvent} :
      x.socket.received request a.receivedAt = .ok (some n) →
      HasFacts a (.slack request) (x.requestFacts request n)

variable {x}

theorem HasFacts.ignored_iff (h : x.HasFacts a e f) : f.decision = .ignored ↔ f.action = "ignored" := by
  cases h with
  | telegram => exact (Telegram.normalized ..).ignored_iff
  | slack hreceived => exact (SlackSocket.received_normalized hreceived).ignored_iff

/-- What the policy says of the user, the channel and the action is the decision and its reason. -/
theorem HasFacts.evaluated (h : x.HasFacts a e f) (hf : f.decision ≠ .ignored) :
    ∃ user channel, f.userId = some user ∧ f.channelId = some channel ∧
      f.decision = ((x.policy f.platform).evaluateText f.platform user channel f.action).decision ∧
      f.reason = ((x.policy f.platform).evaluateText f.platform user channel f.action).reason := by
  cases h with
  | @telegram update entries updateId _ _ =>
      have hn := Telegram.normalized x.store.py x.telegramPolicy updateId a.receivedAt entries
      generalize normalizeTelegramUpdate x.store.py x.telegramPolicy updateId a.receivedAt entries = n
        at hf hn
      cases hn with
      | ignored => exact absurd rfl hf
      | asked envelope =>
          refine ⟨_, _, rfl, rfl, ?_, ?_⟩
          · exact (congrArg AuthorizationResult.decision
              (AuthorizationPolicy.evaluateText_ofString ..)).symm
          · exact (congrArg AuthorizationResult.reason
              (AuthorizationPolicy.evaluateText_ofString ..)).symm
  | slack hreceived =>
      obtain ⟨hdecision, hreason⟩ := (SlackSocket.received_normalized hreceived).evaluated hf
      exact ⟨_, _, rfl, rfl, hdecision, hreason⟩

/-- Events that agree have been decided alike, and for the same reason if the policy was asked. -/
theorem HasFacts.agree_eq (h : x.HasFacts a e f) (h' : x.HasFacts a e' f') (hagree : f.Agree f')
    (hreason : f.decision = .ignored → f.reason = f'.reason) : f = f' := by
  have hignored : f.decision = .ignored ↔ f'.decision = .ignored := by
    rw [h.ignored_iff, h'.ignored_iff, hagree.action]
  have hsame : f.decision = f'.decision ∧ f.reason = f'.reason := by
    by_cases hf : f.decision = .ignored
    · exact ⟨hf.trans (hignored.1 hf).symm, hreason hf⟩
    · obtain ⟨user, channel, huser, hchannel, hdecision, hwhy⟩ := h.evaluated hf
      obtain ⟨user', channel', huser', hchannel', hdecision', hwhy'⟩ :=
        h'.evaluated fun hf' => hf (hignored.2 hf')
      obtain rfl := Option.some.inj (huser.symm.trans (hagree.userId.trans huser'))
      obtain rfl := Option.some.inj (hchannel.symm.trans (hagree.channelId.trans hchannel'))
      have hplatform : f.platform = f'.platform := by
        rw [EventFacts.platform, EventFacts.platform, hagree.identity]
      rw [hplatform, hagree.action] at hdecision hwhy
      exact ⟨hdecision.trans hdecision'.symm, hwhy.trans hwhy'.symm⟩
  obtain ⟨hidentity, htype, huser, hchannel, haction, hhash⟩ := hagree
  cases f
  cases f'
  simp_all

end ChannelAdapters

namespace ChannelStore
variable {store : ChannelStore} {a : Readings} {policy : AuthorizationPolicy}

/-- Of an update that is refused the payload is hashed, and not used again. -/
theorem ingestTelegramUpdate_congr {entries entries' : List (String × PyVal)} {updateId : ℤ}
    {streamKey : Option String} {n n' : NormalizedTelegramUpdate}
    (hid : requireUpdateId entries = .ok updateId) (hid' : requireUpdateId entries' = .ok updateId)
    (hn : normalizeTelegramUpdate store.py policy updateId a.receivedAt entries = n)
    (hn' : normalizeTelegramUpdate store.py policy updateId a.receivedAt entries' = n')
    (hallowed : n.allowed = none) (hsame : { n' with envelope := n.envelope } = n)
    (hallowed' : n'.allowed = none)
    (hhash : sha256Hex store.sha (dict entries) = sha256Hex store.sha (dict entries')) :
    ingestTelegramUpdate store entries (some policy) streamKey a =
      ingestTelegramUpdate store entries' (some policy) streamKey a := by
  obtain ⟨envelope, decision, reason, eventType, action, userId, channelId⟩ := n
  obtain ⟨envelope', decision', reason', eventType', action', userId', channelId'⟩ := n'
  simp only [NormalizedTelegramUpdate.mk.injEq, true_and] at hsame
  obtain ⟨rfl, rfl, rfl, rfl, rfl, rfl⟩ := hsame
  simp only [ingestTelegramUpdate, hid, hid', Txn.lift_ok_bind, Option.getD_some, hn, hn', hallowed,
    hallowed', hhash, Option.map_none, updateRow]

theorem ingestEnvelope_congr {entries entries' : List (String × PyVal)} {envelope : ChannelEnvelope}
    {decision : AuthDecision} {reason : String} (hdecision : decision ≠ .allow)
    (hhash : sha256Hex store.sha (dict entries) = sha256Hex store.sha (dict entries')) :
    ingestEnvelope store envelope entries (some decision) (some reason) a =
      ingestEnvelope store envelope entries' (some decision) (some reason) a := by
  simp only [ingestEnvelope, Option.getD_some, hdecision, if_false, hhash]

end ChannelStore

namespace SlackSocket
variable {socket : SlackSocket} {a : Readings} {n n' : NormalizedSlackEvent}
  {payload payload' : List (PyText × RawJson)}

theorem encode_congr {e e' : SlackEnvelope} (hid : e.externalEventId = e'.externalEventId)
    (htype : e.eventType = e'.eventType) (huser : e.userId = e'.userId)
    (hchannel : e.channelId = e'.channelId) (haction : e.action = e'.action)
    (hat : e.receivedAt = e'.receivedAt) : e.encode false = e'.encode false := by
  simp [SlackEnvelope.encode, hid, htype, huser, hchannel, haction, hat]

theorem ingest_congr (hdecision : n.decision ≠ .allow) (hsame : n.decision = n'.decision)
    (hreason : n.reason = n'.reason)
    (hencode : n.envelope.encode false = n'.envelope.encode false)
    (hhash : payloadHash socket.store payload = payloadHash socket.store payload') (t : ChannelTables) :
    (socket.ingest n payload a t).2 = (socket.ingest n' payload' a t).2 := by
  have hallow' : decide (n'.decision = .allow) = false := by simpa [← hsame] using hdecision
  cases h : payloadHash socket.store payload with
  | error e =>
      rw [ingest_of_hash_error h, ingest_of_hash_error (hhash ▸ h)]
  | ok hash =>
      obtain ⟨entries, hentries, hsha⟩ := bind_eq_ok.1 h
      obtain ⟨entries', hentries', hsha'⟩ := bind_eq_ok.1 (hhash ▸ h)
      have hrest (envelope : ChannelEnvelope) :=
        @ingestEnvelope_congr socket.store a entries entries' envelope n'.decision n'.reason
          (hsame ▸ hdecision) (hsha.trans hsha'.symm)
      simp only [ingest, hentries, hentries', hsha, hsha', Txn.lift_ok_bind, hallow', hencode, hrest,
        hsame, hreason]

end SlackSocket

namespace ChannelAdapters
variable {x : ChannelAdapters} {a : Readings} {e e' : ChannelEvent} {f : EventFacts}

theorem normalized_allowed_none {n : NormalizedTelegramUpdate} (h : n.decision ≠ .allow) :
    n.allowed = none := if_neg h

theorem updateFacts_takes {update update' : List (PyText × RawJson)}
    {entries entries' : List (String × PyVal)} {updateId : ℤ} {n n' : NormalizedTelegramUpdate}
    (hentries : RawJson.encodeEntries update = some entries)
    (hentries' : RawJson.encodeEntries update' = some entries')
    (hid : requireUpdateId entries = .ok updateId) (hid' : requireUpdateId entries' = .ok updateId)
    (hn : normalizeTelegramUpdate x.store.py x.telegramPolicy updateId a.receivedAt entries = n)
    (hn' : normalizeTelegramUpdate x.store.py x.telegramPolicy updateId a.receivedAt entries' = n')
    (hsame : { n' with envelope := n.envelope } = n) (hdecision : n.decision ≠ .allow)
    (hhash : payloadHash x.store update = payloadHash x.store update') (t : ChannelTables) :
    x.takes a (.telegram update) t = x.takes a (.telegram update') t := by
  have hobject : encodeObject update = .ok entries := by rw [encodeObject, hentries]
  have hobject' : encodeObject update' = .ok entries' := by rw [encodeObject, hentries']
  have hraw : rawUpdateId update = .ok updateId := by rw [rawUpdateId_encode hentries, hid]
  have hraw' : rawUpdateId update' = .ok updateId := by rw [rawUpdateId_encode hentries', hid']
  have hdecision' : n'.decision ≠ .allow := by
    rw [← hsame] at hdecision
    exact hdecision
  simp only [takes, ingestRawUpdate, hraw, hraw', hobject, hobject', Txn.lift_ok_bind]
  have hsha : sha256Hex x.store.sha (dict entries) = sha256Hex x.store.sha (dict entries') := by
    rw [payloadHash, payloadHash, hobject, hobject'] at hhash
    exact hhash
  rw [hsha, ingestTelegramUpdate_congr hid hid' hn hn' (normalized_allowed_none hdecision) hsame
    (normalized_allowed_none hdecision') hsha]

/-- Of an event that is refused the tables depend on its facts alone. -/
theorem takes_congr (h : x.HasFacts a e f) (h' : x.HasFacts a e' f) (hf : f.decision ≠ .allow)
    (t : ChannelTables) : x.takes a e t = x.takes a e' t := by
  cases h with
  | @telegram update entries updateId hentries hid =>
      generalize hfacts : x.updateFacts update updateId _ = f at h'
      cases h' with
      | @telegram update' entries' updateId' hentries' hid' =>
          simp only [updateFacts, EventFacts.mk.injEq, Sum.inl.injEq,
            PyText.ofString_injective.eq_iff,
            (Option.map_injective PyText.ofString_injective).eq_iff] at hfacts
          obtain ⟨rfl, htype, huser, hchannel, haction, hhash, hdecision, hreason⟩ := hfacts
          refine updateFacts_takes hentries hentries' hid hid' rfl rfl ?_ hf hhash t
          rw [← htype, ← huser, ← hchannel, ← haction, ← hdecision, ← hreason]
      | slack => simp [updateFacts, requestFacts] at hfacts
  | @slack request n hreceived =>
      generalize hfacts : x.requestFacts request n = f at h'
      cases h' with
      | telegram => simp [updateFacts, requestFacts] at hfacts
      | @slack request' n' hreceived' =>
          simp only [requestFacts, EventFacts.mk.injEq, Sum.inr.injEq, Option.some.injEq] at hfacts
          obtain ⟨hid, htype, huser, hchannel, haction, hhash, hdecision, hreason⟩ := hfacts
          have hat := (SlackSocket.received_normalized hreceived).envelope_receivedAt
          have hat' := (SlackSocket.received_normalized hreceived').envelope_receivedAt
          have hencode := SlackSocket.encode_congr hid htype huser hchannel haction
            (hat.trans hat'.symm)
          rw [takes, takes, SlackSocket.handleSocketRequest_of_received hreceived,
            SlackSocket.handleSocketRequest_of_received hreceived']
          exact SlackSocket.ingest_congr hf hdecision hreason hencode hhash t

end ChannelAdapters

/-! Runs. -/

inductive ChannelStep : Type 1 where
  | event (e : ChannelEvent) (a : Readings)
  | call {β : Type} (c : ChannelCall β) (a : Readings) (h : c.ingests = false)

namespace ChannelAdapters
variable (x : ChannelAdapters)

def applies : ChannelStep → ChannelTables → ChannelTables
  | .event e a, t => x.takes a e t
  | .call c a _, t => (c.perform x.store a t).2

def run : List ChannelStep → ChannelTables → ChannelTables
  | [], t => t
  | s :: steps, t => run steps (x.applies s t)

/-- Every row is that of a refused event, or of one that was allowed when it came. -/
structure DenyInv (earlier : List ChannelStep) (t : ChannelTables) : Prop where
  keyed : InboxKeyed t
  rows : ∀ row ∈ t.inbox, row.Refused ∨ ∃ e a envelope,
    ChannelStep.event e a ∈ earlier ∧ x.Admits a e row envelope

variable {x} {earlier steps : List ChannelStep} {s : ChannelStep} {t : ChannelTables}

theorem mem_insertInbox {row row' : InboxRow} (h : row' ∈ (insertInbox row t).inbox) :
    row' ∈ t.inbox ∨ row' = row := by
  unfold insertInbox at h
  split at h
  · exact .inl h
  · simpa using h

theorem Admits.keeps {a : Readings} {e : ChannelEvent} {envelope : ChannelEnvelope}
    {row row' : InboxRow} (h : x.Admits a e row envelope) (hkeeps : row.Keeps row') :
    x.Admits a e row' envelope := by
  have hsame := hkeeps.ingested
  simp only [InboxRow.ingested, InboxRow.mk.injEq] at hsame
  obtain ⟨hplatform, hid, htype, huser, hchannel, -, -, -, -, henvelope, hdecision, -⟩ := hsame
  obtain ⟨hasks, hallowed, hp, hi, ht, hu, hc, hd, he⟩ := h
  exact ⟨hasks, hallowed, hplatform.trans hp, hid.trans hi, htype.trans ht, huser.trans hu,
    hchannel.trans hc, hdecision.trans hd, by rwa [henvelope]⟩

theorem DenyInv.step (h : x.DenyInv earlier t) : x.DenyInv (earlier ++ [s]) (x.applies s t) := by
  have hmono : ∀ {e a}, ChannelStep.event e a ∈ earlier → .event e a ∈ earlier ++ [s] :=
    fun he => List.mem_append_left _ he
  cases s with
  | event e a =>
      rcases takes_records (x := x) a e t with hsame | ⟨row, hinbox, hrow⟩
      · refine ⟨by rw [InboxKeyed, applies, hsame]; exact h.keyed, fun r hr => ?_⟩
        rw [applies, hsame] at hr
        rcases h.rows r hr with hrefused | ⟨e', a', envelope, he', hadmits⟩
        · exact .inl hrefused
        · exact .inr ⟨e', a', envelope, hmono he', hadmits⟩
      · refine ⟨by rw [InboxKeyed, applies, hinbox]; exact h.keyed.insert, fun r hr => ?_⟩
        rw [applies, hinbox] at hr
        rcases mem_insertInbox hr with hold | rfl
        · rcases h.rows r hold with hrefused | ⟨e', a', envelope, he', hadmits⟩
          · exact .inl hrefused
          · exact .inr ⟨e', a', envelope, hmono he', hadmits⟩
        · rcases hrow with hrefused | ⟨envelope, hadmits⟩
          · exact .inl hrefused
          · exact .inr ⟨e, a, envelope, by simp, hadmits⟩
  | call c a hc =>
      refine ⟨(perform_inbox h.keyed rfl).2, fun row' hrow' => ?_⟩
      obtain ⟨row, hrow, hkeeps⟩ := ChannelCall.perform_kept hc t row' hrow'
      rcases h.rows row hrow with hrefused | ⟨e', a', envelope, he', hadmits⟩
      · rw [hkeeps.completed hrefused.status]
        exact .inl hrefused
      · exact .inr ⟨e', a', envelope, hmono he', hadmits.keeps hkeeps⟩

theorem DenyInv.run (h : x.DenyInv earlier t) : x.DenyInv (earlier ++ steps) (x.run steps t) := by
  induction steps generalizing earlier t with
  | nil => simpa [ChannelAdapters.run] using h
  | cons s steps ih =>
      have hnext := ih (h.step (s := s))
      rwa [List.append_assoc, List.singleton_append] at hnext

theorem denyInv_empty : x.DenyInv [] ⟨[], [], [], []⟩ := ⟨List.nodup_nil, by simp⟩

/-- A row that is claimed is being processed. -/
theorem claimInbox_status {owner : String} {leaseSeconds : ℚ}
    {platform : Option Platform} {a : Readings} {row : InboxRow} {t' : ChannelTables}
    (hkeyed : InboxKeyed t)
    (h : claimInbox owner leaseSeconds platform a t = (.ok (some row), t')) :
    row ∈ t'.inbox ∧ row.status = .processing := by
  simp only [claimInbox, recoverInboxLocked, Txn.bind_ok, Txn.require_ok, Txn.lift_ok,
    Txn.atomically_ok, Txn.read_ok, Txn.write_ok, Txn.pure_ok] at h
  obtain ⟨_, _, ⟨-, rfl⟩, deadline, _, ⟨-, rfl⟩, _, _, ⟨_, _, ⟨-, rfl⟩, _, _, rfl, -, rfl⟩, next, _,
    ⟨hnext, rfl⟩, h⟩ := h
  cases next with
  | none => simp [pure, Txn.pure] at h
  | some found =>
      simp only [Txn.bind_ok, Txn.write_ok, Txn.pure_ok, Option.some.injEq] at h
      obtain ⟨_, _, rfl, claimed, _, hselect, rfl, rfl⟩ := h
      obtain ⟨hfind, rfl⟩ := selectInbox_ok hselect
      refine ⟨Table.find_mem hfind, ?_⟩
      obtain ⟨hmem, hreceived⟩ := argmin_filter_mem hnext
      simp only [Bool.and_eq_true, decide_eq_true_eq] at hreceived
      have hfound := (hkeyed.update (p := InboxRow.isExpired a.now) InboxRow.expire_key).find hmem
      rw [find_updateInbox InboxRow.claim_key, hfound] at hfind
      simp only [Option.map_some, hreceived.1, decide_true, Bool.and_self, if_true,
        Option.some.injEq] at hfind
      rw [← hfind]
      rfl

theorem Asks.decision {a : Readings} {e : ChannelEvent} {envelope : ChannelEnvelope}
    {f : EventFacts} (h : x.Asks a e envelope) (hf : x.HasFacts a e f) :
    f.decision = ((x.policy envelope.platform).evaluate envelope.platform envelope.userId
      envelope.channelId envelope.action).decision := by
  cases h with
  | @telegram update entries updateId envelope epoch hentries hid henvelope =>
      cases hf with
      | @telegram _ entries' updateId' hentries' hid' =>
          obtain rfl : entries = entries' := Option.some.inj (hentries.symm.trans hentries')
          obtain rfl : updateId = updateId' := Except.ok.inj (hid.symm.trans hid')
          have hn := Telegram.normalized x.store.py x.telegramPolicy updateId a.receivedAt entries
          simp only [updateFacts]
          generalize normalizeTelegramUpdate x.store.py x.telegramPolicy updateId a.receivedAt
            entries = n at hn henvelope
          cases hn with
          | ignored => simp [Telegram.ignored] at henvelope
          | asked envelope' hplatform _ =>
              obtain rfl : envelope' = envelope := Option.some.inj henvelope
              simp [NormalizedTelegramUpdate.ofEnvelope, inEpoch, hplatform, policy]
  | @slack request n envelope hreceived hn hencode =>
      cases hf with
      | @slack _ n' hreceived' =>
          obtain rfl : n = n' :=
            Option.some.inj (Except.ok.inj (hreceived.symm.trans hreceived'))
          obtain ⟨hdecision, -⟩ := (SlackSocket.received_normalized hreceived).evaluated hn
          obtain ⟨hplatform, -, -, huser, hchannel, haction, -⟩ := SlackEnvelope.encode_ok hencode
          rw [huser, hchannel, ← haction, AuthorizationPolicy.evaluateText_ofString] at hdecision
          rw [hplatform]
          exact hdecision

/-- Two steps that are the same, or the arrivals of two refused events that `R` relates. -/
inductive Alike (x : ChannelAdapters) (R : EventFacts → EventFacts → Prop) :
    ChannelStep → ChannelStep → Prop
  | same (s : ChannelStep) : Alike x R s s
  | refused {e e' : ChannelEvent} {a : Readings} {f f' : EventFacts} : x.HasFacts a e f →
      x.HasFacts a e' f' → f.decision ≠ .allow → f'.decision ≠ .allow → R f f' →
      Alike x R (.event e a) (.event e' a)

/-- Of refused events that `R` relates the tables do not tell which has come. -/
structure DenyByDefault (x : ChannelAdapters) (R : EventFacts → EventFacts → Prop) : Prop where
  admitted : ∀ steps owner leaseSeconds platform a row t',
    claimInbox owner leaseSeconds platform a (x.run steps ⟨[], [], [], []⟩) = (.ok (some row), t') →
    ∃ e a' envelope, ChannelStep.event e a' ∈ steps ∧ x.Admits a' e row envelope
  stored : ∀ a e f t, x.HasFacts a e f → f.decision ≠ .allow →
    ∀ row ∈ (x.takes a e t).inbox, row ∈ t.inbox ∨ row.Refused
  alike : ∀ t steps steps', List.Forall₂ (x.Alike R) steps steps' → x.run steps t = x.run steps' t

/-- Events that agree; of the dropped ones also the reason, which is stored. -/
def AgreeInReason (f f' : EventFacts) : Prop :=
  f.Agree f' ∧ (f.decision = .ignored → f.reason = f'.reason)

theorem Alike.applies {s s' : ChannelStep} (h : x.Alike AgreeInReason s s') (t : ChannelTables) :
    x.applies s t = x.applies s' t := by
  cases h with
  | same => rfl
  | refused hf hf' hdecision _ hagree =>
      obtain rfl := hf.agree_eq hf' hagree.1 hagree.2
      exact takes_congr hf hf' hdecision t

theorem deny_by_default (x : ChannelAdapters) : x.DenyByDefault AgreeInReason where
  admitted steps owner leaseSeconds platform a row t' h := by
    have hinv := @DenyInv.run x [] steps _ denyInv_empty
    obtain ⟨hrow, hstatus⟩ := claimInbox_status hinv.keyed h
    let c : ChannelCall (Option InboxRow) := .claimInbox owner leaseSeconds platform
    have hstep := hinv.step (s := .call c a rfl)
    have ht' : x.applies (.call c a rfl) (x.run steps ⟨[], [], [], []⟩) = t' := by
      simp only [applies, c, ChannelCall.perform, h]
    rw [ht'] at hstep
    rcases hstep.rows row hrow with hrefused | ⟨e, a', envelope, he, hadmits⟩
    · exact absurd (hstatus.symm.trans hrefused.status) (by decide)
    · refine ⟨e, a', envelope, ?_, hadmits⟩
      simpa using he
  stored a e f t hf hdecision row hrow := by
    rcases takes_records (x := x) a e t with hsame | ⟨new, hinbox, hnew⟩
    · exact .inl (hsame ▸ hrow)
    · rw [hinbox] at hrow
      rcases mem_insertInbox hrow with hold | rfl
      · exact .inl hold
      · rcases hnew with hrefused | ⟨envelope, hadmits⟩
        · exact .inr hrefused
        · exact absurd ((hadmits.asks.decision hf).trans hadmits.allowed) hdecision
  alike t steps steps' h := by
    induction h generalizing t with
    | nil => rfl
    | cons hs _ ih =>
        rw [run, run, hs.applies t]
        exact ih _

end ChannelAdapters

/-! Two messages that are dropped for different reasons. -/

namespace Drops

def adapters : ChannelAdapters where
  socket :=
    { store :=
        { sha := .ofTable [("\x7b\"external_event_id\":\"E1\",\"type\":\"message\"\x7d",
            "29c604ba643c62d20c5b0c089416117d4d8e22aeffafbb0520886bda93c0298b")]
          py := ⟨fun _ => "", fun _ => "", fun _ => .ok 0, fun _ _ => false⟩
          telegramStreamKey := "default"
          authorizationPolicy := ⟨[], [], [], fun _ => none, fun _ => none⟩ }
      str := fun _ => ""
      authorizationPolicy := ⟨[], [], [], fun _ => none, fun _ => none⟩
      topLevelAsThreadRoot := true }
  telegramPolicy := ⟨[], [], [], fun _ => none, fun _ => none⟩
  streamKey := none

def text (s : String) : RawJson := .str (.ofString s)

/-- A message of the event `E1`, without a text and with some more entries. -/
def request (more : List (PyText × RawJson)) : SocketRequest where
  envelopeId := text "e1"
  type := text "events_api"
  payload := .obj [(.ofString "event_id", text "E1"), (.ofString "event", .obj
    ([(.ofString "type", text "message"), (.ofString "user", text "U"),
      (.ofString "channel", text "C"), (.ofString "ts", text "1")] ++ more))]

def byBot : SocketRequest := request [(.ofString "bot_id", text "B")]

def withoutText : SocketRequest := request []

def dropped (reason : String) : NormalizedSlackEvent :=
  SlackSocket.ignored (.ofString "E1") (.ofString "message") (.ofString "U") (.ofString "C") reason ""
    (some (.ofString "e1"))

def reasons (t : ChannelTables) : List String := t.inbox.map InboxRow.authReason

theorem byBot_received : adapters.socket.received byBot "" =
    .ok (some (dropped "bot and subtype messages are ignored")) := by rfl

theorem withoutText_received : adapters.socket.received withoutText "" =
    .ok (some (dropped "message identity, timestamp, or text is missing")) := by rfl

theorem reasons_differ :
    reasons (adapters.takes ⟨0, 0, ""⟩ (.slack byBot) ⟨[], [], [], []⟩) =
        ["bot and subtype messages are ignored"] ∧
      reasons (adapters.takes ⟨0, 0, ""⟩ (.slack withoutText) ⟨[], [], [], []⟩) =
        ["message identity, timestamp, or text is missing"] := by
  decide +kernel

end Drops

/-- The reason for which an event is dropped is stored, so that its content shows. -/
theorem drops_differ : ¬ ∀ x : ChannelAdapters, x.DenyByDefault EventFacts.Agree := by
  intro h
  have hsame := (h Drops.adapters).alike ⟨[], [], [], []⟩
    [.event (.slack Drops.byBot) ⟨0, 0, ""⟩] [.event (.slack Drops.withoutText) ⟨0, 0, ""⟩]
    (.cons (.refused (.slack Drops.byBot_received) (.slack Drops.withoutText_received) (by decide)
      (by decide) ⟨rfl, rfl, rfl, rfl, rfl, rfl⟩) .nil)
  simp only [ChannelAdapters.run, ChannelAdapters.applies] at hsame
  obtain ⟨hbot, htext⟩ := Drops.reasons_differ
  rw [hsame, htext] at hbot
  exact absurd hbot (by decide)

end Polaris
