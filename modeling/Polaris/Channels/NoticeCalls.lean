import Mathlib.Data.List.Dedup
import Polaris.Channels.NoticeKeys

namespace Polaris
open PyJson SortedDict ChannelStore

theorem itemsFinite_str (texts : List String) : PyVal.itemsFinite (texts.map .str) = true := by
  induction texts with
  | nil => rfl
  | cons text texts ih => simpa [PyVal.itemsFinite, PyVal.allFinite] using ih

theorem Table.find_isSome {α κ : Type} [DecidableEq κ] {key : α → κ} {rows : List α} {k : κ} :
    (Table.find key k rows).isSome = true ↔ k ∈ rows.map key := by
  simp [Table.find]

namespace OutboundMessage
variable {message : OutboundMessage}

theorem toDict_allFinite (h : PyVal.entriesFinite message.metadata = true) :
    message.toDict.allFinite = true := by
  cases hid : message.messageId <;> cases hquery : message.callbackQueryId <;>
    simp [toDict, dict, PyVal.allFinite, PyVal.entriesFinite, optStr, hid, hquery, h]

theorem content_allFinite : message.content.allFinite = true := by
  simp [content, dict, PyVal.allFinite, PyVal.entriesFinite]

end OutboundMessage

theorem completionNotice_finite {envelope : ChannelEnvelope} {runId suffix : String} {run : RunView}
    (h : PyVal.entriesFinite envelope.metadata = true) :
    PyVal.entriesFinite (completionNotice envelope runId run suffix).metadata = true := by
  rw [PyVal.entriesFinite_iff] at h ⊢
  intro e he
  rcases mem_setKey he with rfl | he
  · rfl
  · rcases mem_setKey he with rfl | he
    · rfl
    · exact h e he

/-! What the adapters make of a message. -/

/-- The parts of a message: they are of its platform, and their keys are different. -/
structure IsPrepared (message : OutboundMessage) (parts : List OutboundMessage) : Prop where
  nonempty : parts ≠ []
  platform : ∀ part ∈ parts, part.platform = message.platform
  keys : ∃ places : List (Option ℕ), places.Nodup ∧
    parts.map OutboundMessage.idempotencyKey = places.map (partKey message.idempotencyKey)
  finite : PyVal.entriesFinite message.metadata = true →
    ∀ part ∈ parts, PyVal.entriesFinite part.metadata = true

section
variable {message : OutboundMessage} {parts : List OutboundMessage}

theorem isPrepared_self : IsPrepared message [message] where
  nonempty := List.cons_ne_nil _ _
  platform := by simp
  keys := ⟨[none], List.nodup_singleton _, rfl⟩
  finite h := by simpa using h

theorem IsPrepared.keys_nodup (h : IsPrepared message parts) :
    (parts.map OutboundMessage.idempotencyKey).Nodup := by
  obtain ⟨places, hplaces, hkeys⟩ := h.keys
  rw [hkeys]
  exact hplaces.map partKey_injective

theorem IsPrepared.part (h : IsPrepared message parts) {part : OutboundMessage}
    (hpart : part ∈ parts) : ∃ place, part.idempotencyKey = partKey message.idempotencyKey place := by
  obtain ⟨places, -, hkeys⟩ := h.keys
  have hmem := List.mem_map_of_mem (f := OutboundMessage.idempotencyKey) hpart
  rw [hkeys] at hmem
  obtain ⟨place, -, hplace⟩ := List.mem_map.1 hmem
  exact ⟨place, hplace.symm⟩

theorem IsPrepared.map (h : IsPrepared message parts) {f : OutboundMessage → OutboundMessage}
    (hf : ∀ part, (f part).platform = part.platform ∧
      (f part).idempotencyKey = part.idempotencyKey ∧ (f part).metadata ⊆ part.metadata) :
    IsPrepared message (parts.map f) where
  nonempty hnil := h.nonempty (List.map_eq_nil_iff.1 hnil)
  platform part hpart := by
    obtain ⟨before, hbefore, rfl⟩ := List.mem_map.1 hpart
    exact (hf before).1.trans (h.platform before hbefore)
  keys := by
    obtain ⟨places, hplaces, hkeys⟩ := h.keys
    refine ⟨places, hplaces, ?_⟩
    rw [← hkeys, List.map_map]
    exact List.map_congr_left fun part _ => (hf part).2.1
  finite hfinite part hpart := by
    obtain ⟨before, hbefore, rfl⟩ := List.mem_map.1 hpart
    have hall := PyVal.entriesFinite_iff.1 (h.finite hfinite before hbefore)
    exact PyVal.entriesFinite_iff.2 fun e he => hall e ((hf before).2.2 he)

theorem chunkOutbound_isPrepared {limit : ℕ} (hlimit : 1 < limit) :
    ∃ parts, chunkOutbound message limit = .ok parts ∧ IsPrepared message parts := by
  cases hchunks : chunkText message.text.toList limit with
  | error e =>
      rcases chunkText_raises.1 ⟨e, hchunks⟩ with hlow | ⟨hone, -⟩
      · omega
      · omega
  | ok chunks =>
      have hne : chunks ≠ [] := by
        obtain ⟨pieces, ⟨-, hpieces⟩, hsame⟩ := chunkText_pieces hchunks
        have hpieces : pieces ≠ [] := by
          rcases hpieces with rfl | ⟨hpieces, -⟩
          · exact List.cons_ne_nil _ _
          · exact hpieces
        rcases hsame with rfl | ⟨hfenced, -⟩
        · exact hpieces
        · rintro rfl
          exact hpieces (List.forall₂_nil_right_iff.1 hfenced)
      by_cases hone : chunks.length = 1
      · exact ⟨[message], by simp [chunkOutbound, hchunks, hone, bind, Except.bind, pure, Except.pure],
          isPrepared_self⟩
      · refine ⟨chunks.mapIdx (message.chunk chunks.length),
          by simp [chunkOutbound, hchunks, hone, bind, Except.bind, pure, Except.pure], ?_, ?_, ?_, ?_⟩
        · simpa using hne
        · intro part hpart
          obtain ⟨i, hi, rfl⟩ := List.mem_mapIdx.1 hpart
          rfl
        · refine ⟨(List.range chunks.length).map some, List.nodup_range.map (Option.some_injective _), ?_⟩
          rw [List.map_map]
          refine List.ext_getElem (by simp) fun i hi _ => ?_
          simp [OutboundMessage.chunk, partKey]
        · intro hfinite part hpart
          obtain ⟨i, hi, rfl⟩ := List.mem_mapIdx.1 hpart
          exact hfinite

theorem telegram_isPrepared (hplatform : message.platform = .telegram)
    (hsend : message.operation = .send) :
    ∃ parts, TelegramAdapter.prepareOutbound message = .ok parts ∧ IsPrepared message parts := by
  obtain ⟨parts, hparts, hprepared⟩ := @chunkOutbound_isPrepared message telegramTextLimit (by decide)
  exact ⟨parts, by simp [TelegramAdapter.prepareOutbound, hplatform, hsend, hparts], hprepared⟩

theorem slack_isPrepared (hplatform : message.platform = .slack)
    (hsend : message.operation = .send) :
    ∃ parts, SlackAdapter.prepareOutbound message = .ok parts ∧ IsPrepared message parts := by
  by_cases hshort : message.text.toList.length ≤ SlackAdapter.textLimit
  · exact ⟨[message], by simp [SlackAdapter.prepareOutbound, hplatform, hshort], isPrepared_self⟩
  · obtain ⟨parts, hparts, hprepared⟩ :=
      @chunkOutbound_isPrepared message SlackAdapter.textLimit (by decide)
    by_cases hblocks : (lookup "blocks" message.metadata).isNone = true
    · refine ⟨parts, ?_, hprepared⟩
      simp [SlackAdapter.prepareOutbound, hplatform, hshort, hsend, hparts, hblocks, bind,
        Except.bind, pure, Except.pure]
    · refine ⟨parts.map SlackAdapter.withoutBlocks, ?_, hprepared.map fun part =>
        ⟨rfl, rfl, List.filter_subset_self _⟩⟩
      simp [SlackAdapter.prepareOutbound, hplatform, hshort, hsend, hparts, hblocks, bind,
        Except.bind, pure, Except.pure]

theorem checkPrepared_ok (h : IsPrepared message parts) :
    ChannelHarness.checkPrepared message parts = .ok parts := by
  have hplatform : parts.any (·.platform ≠ message.platform) = false := by
    refine List.any_eq_false.2 fun part hpart => ?_
    simpa using h.platform part hpart
  rw [ChannelHarness.checkPrepared, if_neg h.nonempty, if_neg (by rw [hplatform]; decide),
    if_neg (by simp [List.Nodup.dedup h.keys_nodup])]

theorem prepareOutbound_ok (harness : ChannelHarness) (hsend : message.operation = .send) :
    ∃ parts, harness.prepareOutbound message = .ok parts ∧ IsPrepared message parts := by
  obtain ⟨parts, hparts, hprepared⟩ : ∃ parts,
      ((harness.preparer message.platform).elim (.ok [message]) (· message)) = .ok parts ∧
        IsPrepared message parts := by
    cases hplatform : message.platform with
    | telegram =>
        by_cases henabled : harness.telegramEnabled = true
        · simpa [ChannelHarness.preparer, henabled] using telegram_isPrepared hplatform hsend
        · exact ⟨[message], by simp [ChannelHarness.preparer, henabled], isPrepared_self⟩
    | slack =>
        by_cases henabled : harness.slackEnabled = true
        · simpa [ChannelHarness.preparer, henabled] using slack_isPrepared hplatform hsend
        · exact ⟨[message], by simp [ChannelHarness.preparer, henabled], isPrepared_self⟩
  refine ⟨parts, ?_, hprepared⟩
  rw [ChannelHarness.prepareOutbound, hparts]
  exact checkPrepared_ok hprepared

end

/-! What a call makes of the outbox and of the notifications, whenever it is made. -/

def OutboxRow.timeless (row : OutboxRow) : OutboxRow := { row with createdAt := 0, updatedAt := 0 }

def NotificationRow.timeless (row : NotificationRow) : NotificationRow := { row with createdAt := 0 }

abbrev NoticeState := OnceEach.State String (Option OutboxRow) String (Option NotificationRow)

abbrev NoticeTask := OnceEach.Task String (Option OutboxRow) String (Option NotificationRow)

def Notifying.state (w : Notifying) : NoticeState where
  items := w.outbox.map fun row => (row.idempotencyKey, some row.timeless)
  marks := w.notifications.map fun row => (row.notificationKey, some row.timeless)

namespace ChannelStore
variable (store : ChannelStore)

/-- The row of a part that is enqueued, if there is one, with no instant in it. -/
def outboxEntry (part : OutboundMessage) : Option OutboxRow :=
  match canonicalJson part.toDict, sha256Hex store.sha part.content with
  | .ok json, .ok hash => some (pendingRow part json hash 0)
  | _, _ => none

def notificationEntry (key : String) (platform : Platform) (externalEventId : String)
    (outboxKeys : List String) : Option NotificationRow :=
  match canonicalJson (.seq .tuple (outboxKeys.map .str)) with
  | .ok json => some ⟨key, platform, externalEventId, json.text, 0⟩
  | .error _ => none

/-- Two rows have the same content as far as an enqueue compares it. -/
def SameContent (a b : Option OutboxRow) : Prop :=
  a.map (fun row => (row.contentHash, row.messageJson)) =
    b.map fun row => (row.contentHash, row.messageJson)

variable {store} {w w' : Notifying} {now : Timestamp}

/-- A message whose row is not there, or is there with the same content, is enqueued. -/
theorem enqueueOutboxLocked_of_found {message : OutboundMessage} {t : ChannelTables}
    {json : JsonColumn} {hash : String} {row : OutboxRow}
    (hjson : canonicalJson message.toDict = .ok json)
    (hhash : sha256Hex store.sha message.content = .ok hash)
    (hfound : (insertOutbox (pendingRow message json hash now) t).findOutbox
      message.idempotencyKey = some row)
    (hcontent : row.contentHash = hash) (htext : row.messageJson = json.text) :
    enqueueOutboxLocked store message now t =
      (.ok row, insertOutbox (pendingRow message json hash now) t) := by
  simp [enqueueOutboxLocked, hjson, hhash, hfound, hcontent, htext]

theorem mem_state_items {row : OutboxRow} (h : row ∈ w.outbox) :
    (row.idempotencyKey, some row.timeless) ∈ w.state.items :=
  List.mem_map_of_mem (f := fun row : OutboxRow => (row.idempotencyKey, some row.timeless)) h

theorem mem_state_keys {key : String} : key ∈ w.state.items.map Prod.fst ↔
    (Table.find OutboxRow.idempotencyKey key w.outbox).isSome = true := by
  rw [Table.find_isSome, Notifying.state, List.map_map]
  rfl

theorem enqueueOutbox_state {part : OutboundMessage} {q : Except PyError OutboxRow}
    (hfinite : PyVal.entriesFinite part.metadata = true)
    (hagrees : ∀ held ∈ w.state.items, held.1 = part.idempotencyKey →
      SameContent held.2 (store.outboxEntry part))
    (h : (NotifyCall.enqueueOutbox part).perform store now w = (q, w')) :
    (∃ row, q = .ok row) ∧ w'.state = w.state.put (part.idempotencyKey, store.outboxEntry part) ∧
      w'.inbox = w.inbox ∧ w'.runs = w.runs ∧ w'.visited = w.visited := by
  obtain ⟨json, hjson⟩ := canonicalJson_of_allFinite (OutboundMessage.toDict_allFinite hfinite)
  obtain ⟨content, hcontent⟩ := canonicalJson_of_allFinite (@OutboundMessage.content_allFinite part)
  have hhash : sha256Hex store.sha part.content = .ok (store.sha.hexdigest content.text) := by
    simp [sha256Hex, hcontent, bind, Except.bind, pure, Except.pure]
  have hentry : store.outboxEntry part =
      some (pendingRow part json (store.sha.hexdigest content.text) 0) := by
    simp only [outboxEntry, hjson, hhash]
  let new := pendingRow part json (store.sha.hexdigest content.text) now
  let t : ChannelTables := ⟨[], w.outbox, [], []⟩
  obtain ⟨row, hfound, hrow⟩ : ∃ row, (insertOutbox new t).findOutbox part.idempotencyKey = some row ∧
      row.contentHash = new.contentHash ∧ row.messageJson = new.messageJson := by
    unfold insertOutbox
    split
    · rename_i hthere
      obtain ⟨row, hrow⟩ := Option.isSome_iff_exists.1 hthere
      have hkey : row.idempotencyKey = part.idempotencyKey := Table.find_key hrow
      have hsame := hagrees _ (mem_state_items (Table.find_mem hrow)) hkey
      rw [hentry] at hsame
      exact ⟨row, hrow, by simpa [SameContent, OutboxRow.timeless, pendingRow, new] using hsame⟩
    · rename_i hnone
      refine ⟨new, ?_, rfl, rfl⟩
      have hnone' : Table.find OutboxRow.idempotencyKey part.idempotencyKey t.outbox = none :=
        Option.not_isSome_iff_eq_none.1 hnone
      rw [ChannelTables.findOutbox, Table.find_concat, hnone']
      simp [new, pendingRow]
  have henqueued : enqueueOutbox store part ⟨now, now, ""⟩ t = (.ok row, insertOutbox new t) :=
    Txn.atomically_ok.2 (enqueueOutboxLocked_of_found hjson hhash hfound hrow.1 hrow.2)
  have hperform : (NotifyCall.enqueueOutbox part).perform store now w =
      (.ok row, { w with outbox := (insertOutbox new t).outbox }) := by
    simp only [NotifyCall.perform, onOutbox]
    rw [show enqueueOutbox store part ⟨now, now, ""⟩ ⟨[], w.outbox, [], []⟩ = _ from henqueued]
  rw [hperform] at h
  obtain ⟨rfl, rfl⟩ := Prod.mk.inj h
  refine ⟨⟨row, rfl⟩, ?_, rfl, rfl, rfl⟩
  rw [OnceEach.State.put, hentry]
  by_cases hthere : (Table.find OutboxRow.idempotencyKey part.idempotencyKey w.outbox).isSome = true
  · have hsame : insertOutbox new t = t := if_pos hthere
    rw [if_pos (mem_state_keys.2 hthere), hsame]
  · have hadded : insertOutbox new t = { t with outbox := t.outbox ++ [new] } := if_neg hthere
    rw [if_neg (mt mem_state_keys.1 hthere), hadded]
    simp only [Notifying.state, t, List.map_append, List.map_cons, List.map_nil]
    rfl

theorem mem_state_marks {key : String} : key ∈ w.state.marks.map Prod.fst ↔
    (findNotification key w).isSome = true := by
  rw [findNotification, Table.find_isSome, Notifying.state, List.map_map]
  rfl

theorem recordNotification_state {key externalEventId : String} {platform : Platform}
    {outboxKeys : List String} {q : Except PyError Unit} (hkey : key ≠ "") (hkeys : outboxKeys ≠ [])
    (hdurable : ∀ k ∈ outboxKeys, k ∈ w.state.items.map Prod.fst)
    (hknown : (platform, externalEventId) ∈ w.inbox.map InboxRecord.rowKey)
    (hnew : key ∉ w.state.marks.map Prod.fst)
    (h : (NotifyCall.recordNotification key platform externalEventId outboxKeys).perform store now w
      = (q, w')) :
    q = .ok () ∧ w'.state = w.state.apply
        (.mark (key, notificationEntry key platform externalEventId outboxKeys)) ∧
      w'.inbox = w.inbox ∧ w'.runs = w.runs ∧ w'.visited = w.visited := by
  obtain ⟨json, hjson⟩ := @canonicalJson_of_allFinite (.seq .tuple (outboxKeys.map .str))
    (by simpa [PyVal.allFinite] using itemsFinite_str outboxKeys)
  have hentry : notificationEntry key platform externalEventId outboxKeys =
      some ⟨key, platform, externalEventId, json.text, 0⟩ := by
    simp only [notificationEntry, hjson]
  let new : NotificationRow := ⟨key, platform, externalEventId, json.text, now⟩
  have hnone : findNotification key w = none :=
    Option.not_isSome_iff_eq_none.1 (mt mem_state_marks.2 hnew)
  have hinsert : insertNotification new w = { w with notifications := w.notifications ++ [new] } := by
    rw [insertNotification, if_neg (by simp [new, hnone])]
  have hfound : findNotification key (insertNotification new w) = some new := by
    rw [hinsert, findNotification, Table.find_concat,
      show Table.find NotificationRow.notificationKey key w.notifications = none from hnone]
    simp [new]
  have hall : (outboxKeys.all fun k =>
      (Table.find OutboxRow.idempotencyKey k w.outbox).isSome) = true :=
    List.all_eq_true.2 fun k hk => mem_state_keys.1 (hdurable k hk)
  have hrow : (w.inbox.any fun record => record.rowKey = (platform, externalEventId)) = true := by
    obtain ⟨record, hrecord, hsame⟩ := List.mem_map.1 hknown
    exact List.any_eq_true.2 ⟨record, hrecord, by simpa using hsame⟩
  have hperform : (NotifyCall.recordNotification key platform externalEventId outboxKeys).perform
      store now w = (.ok (), insertNotification new w) := by
    change recordNotification key platform externalEventId outboxKeys now w = _
    simp only [recordNotification, Txn.bind_ok, Txn.require_ok, Txn.lift_ok, Txn.atomically_ok,
      Txn.read_ok, Txn.write_ok, Txn.getOr_ok]
    exact ⟨(), w, ⟨by simpa using hkey, rfl⟩, (), w, ⟨by simpa using hkeys, rfl⟩, json, w, ⟨hjson, rfl⟩,
      _, w, ⟨rfl, rfl⟩, (), w, ⟨hall, rfl⟩, _, w, ⟨rfl, rfl⟩, (), w, ⟨by rw [hrow, Bool.or_true], rfl⟩,
      (), insertNotification new w, rfl, _, _, ⟨hfound, rfl⟩, new, _, ⟨rfl, rfl⟩, by simp [new], rfl⟩
  rw [hperform] at h
  obtain ⟨rfl, rfl⟩ := Prod.mk.inj h
  rw [hinsert, hentry]
  refine ⟨rfl, ?_, rfl, rfl, rfl⟩
  simp only [Notifying.state, OnceEach.State.apply, List.map_append, List.map_cons, List.map_nil]
  rfl

end ChannelStore

end Polaris
