import Polaris.Channels.Inbox
import Polaris.Channels.Sending

namespace Polaris
open PyJson ChannelStore

/-- How far a processor is in `process_inbox_once`. -/
inductive HandlePhase where
  | idle
  | handling (record : InboxRow)
  | prepared (record : InboxRow) (batch : List OutboundMessage) (runId : Option String)
  | raised (record : InboxRow) (error : String)

structure InboxProcessor where
  owner : String
  platform : Platform
  leaseSeconds : ℚ
  phase : HandlePhase

namespace InboxProcessor

def claimCall (p : InboxProcessor) : ChannelCall (Option InboxRow) :=
  .claimInbox p.owner p.leaseSeconds (some p.platform)

def completeCall (p : InboxProcessor) (record : InboxRow) (batch : List OutboundMessage)
    (runId : Option String) : ChannelCall (List OutboxRow) :=
  .completeInboxWithOutbox (inboxKey record) p.owner batch runId

def failCall (p : InboxProcessor) (record : InboxRow) (error : String) : ChannelCall Unit :=
  .failInbox (inboxKey record) p.owner error none

def inPhase (p : InboxProcessor) (phase : HandlePhase) : InboxProcessor :=
  { p with phase := phase }

end InboxProcessor

def isCompleted (t : ChannelTables) (key : Platform × String) : Bool :=
  (t.findInbox key).any fun row => row.status = .completed

/-- The store with its processors, and how often each event has become complete. -/
structure Handling where
  tables : ChannelTables
  processors : List InboxProcessor
  completions : Platform × String → ℕ

namespace Handling

def setPhase (s : Handling) (n : ℕ) (p : InboxProcessor) (phase : HandlePhase) : Handling :=
  { s with processors := s.processors.set n (p.inPhase phase) }

def performs (s : Handling) (t : ChannelTables) : Handling :=
  { s with
    tables := t
    completions := fun key =>
      s.completions key + if !isCompleted s.tables key && isCompleted t key then 1 else 0 }

end Handling

/-- The processors take their steps in any order, between calls by anybody else. -/
inductive HandlingStep (store : ChannelStore) : Handling → Option Performed → Handling → Prop
  | calls {s : Handling} (i : Performed) :
      HandlingStep store s (some i) (s.performs (i.after store s.tables))
  | joins {s : Handling} (owner : String) (platform : Platform) (leaseSeconds : ℚ) :
      HandlingStep store s none
        { s with processors := s.processors ++ [⟨owner, platform, leaseSeconds, .idle⟩] }
  | claims {s : Handling} {n : ℕ} {p : InboxProcessor} {a : Readings} {record : InboxRow}
      {t : ChannelTables} : s.processors[n]? = some p → p.phase = .idle →
      p.claimCall.perform store a s.tables = (.ok (some record), t) →
      HandlingStep store s (some ⟨p.claimCall, a⟩) ((s.setPhase n p (.handling record)).performs t)
  | returns {s : Handling} {n : ℕ} {p : InboxProcessor} {record : InboxRow}
      (batch : List OutboundMessage) (runId : Option String) :
      s.processors[n]? = some p → p.phase = .handling record →
      HandlingStep store s none (s.setPhase n p (.prepared record batch runId))
  | raises {s : Handling} {n : ℕ} {p : InboxProcessor} {record : InboxRow} (error : String) :
      s.processors[n]? = some p → p.phase = .handling record →
      HandlingStep store s none (s.setPhase n p (.raised record error))
  | completes {s : Handling} {n : ℕ} {p : InboxProcessor} {record : InboxRow}
      {batch : List OutboundMessage} {runId : Option String} {a : Readings} {rows : List OutboxRow}
      {t : ChannelTables} : s.processors[n]? = some p → p.phase = .prepared record batch runId →
      (p.completeCall record batch runId).perform store a s.tables = (.ok rows, t) →
      HandlingStep store s (some ⟨p.completeCall record batch runId, a⟩)
        ((s.setPhase n p .idle).performs t)
  | refused {s : Handling} {n : ℕ} {p : InboxProcessor} {record : InboxRow}
      {batch : List OutboundMessage} {runId : Option String} {a : Readings} {e : PyError}
      {t : ChannelTables} : s.processors[n]? = some p → p.phase = .prepared record batch runId →
      (p.completeCall record batch runId).perform store a s.tables = (.error e, t) →
      HandlingStep store s (some ⟨p.completeCall record batch runId, a⟩)
        ((s.setPhase n p (.raised record e.message)).performs t)
  | fails {s : Handling} {n : ℕ} {p : InboxProcessor} {record : InboxRow} {error : String}
      {a : Readings} : s.processors[n]? = some p → p.phase = .raised record error →
      HandlingStep store s (some ⟨p.failCall record error, a⟩)
        ((s.setPhase n p .idle).performs ((p.failCall record error).perform store a s.tables).2)
  | crashes {s : Handling} {n : ℕ} {p : InboxProcessor} : s.processors[n]? = some p →
      HandlingStep store s none (s.setPhase n p .idle)

inductive HandlingReach (store : ChannelStore) : Handling → Prop
  | start : HandlingReach store ⟨⟨[], [], [], []⟩, [], fun _ => 0⟩
  | step {s s' : Handling} {i : Option Performed} :
      HandlingReach store s → HandlingStep store s i s' → HandlingReach store s'

/-- The lease of an event is there as long as the event is being processed. -/
structure InboxRow.Leased (row : InboxRow) : Prop where
  owner : row.leaseOwner.isSome ↔ row.status = .processing
  expiry : row.leaseExpiresAt.isSome ↔ row.status = .processing
  heartbeat : row.heartbeatAt.isSome ↔ row.status = .processing

namespace InboxMove
variable {a : Readings} {β : Type} {c : ChannelCall β} {key : Platform × String}
  {row row' : InboxRow} {r r' : Option InboxRow}

theorem leased (h : InboxMove a c key r (some row')) (hr : ∀ row, r = some row → row.Leased)
    (hfinish : ∀ key owner status, c.finishes = some (key, owner, status) → status ≠ .processing) :
    row'.Leased := by
  cases h with
  | same => exact hr _ rfl
  | ingested hstatus howner hexpiry hheartbeat =>
      have hidle : row'.status ≠ .processing := by rcases hstatus with h | h <;> simp [h]
      exact ⟨by simp [howner, hidle], by simp [hexpiry, hidle], by simp [hheartbeat, hidle]⟩
  | claimed => constructor <;> simp [InboxRow.claim]
  | @expired row hexpired =>
      have hidle : (row.expire a.now).status ≠ .processing := by
        simp only [InboxRow.expire]
        split <;> simp
      exact ⟨⟨fun h => by simp [InboxRow.expire] at h, fun h => absurd h hidle⟩,
        ⟨fun h => by simp [InboxRow.expire] at h, fun h => absurd h hidle⟩,
        ⟨fun h => by simp [InboxRow.expire] at h, fun h => absurd h hidle⟩⟩
  | reclaimed => constructor <;> simp [InboxRow.claim]
  | @extended _ _ _ row hprocessing =>
      obtain ⟨-, hstatus, -⟩ := InboxRow.isProcessing_iff.1 hprocessing
      have hbefore := hr _ rfl
      exact ⟨hbefore.owner, by simp [InboxRow.heartbeat, hstatus],
        by simp [InboxRow.heartbeat, hstatus]⟩
  | linked =>
      have hbefore := hr _ rfl
      exact ⟨hbefore.owner, hbefore.expiry, hbefore.heartbeat⟩
  | finished hfinishes =>
      have hdone := hfinish _ _ _ hfinishes
      constructor <;> simp [InboxRow.finish, hdone]

theorem completed (h : InboxMove a c key (some row) r') (hrow : row.status = .completed) :
    r' = some row := by
  cases h with
  | same => rfl
  | claimed hreceived => simp [hrow] at hreceived
  | expired hexpired => simp [InboxRow.isExpired, hrow] at hexpired
  | reclaimed hexpired => simp [InboxRow.isExpired, hrow] at hexpired
  | extended hprocessing => simp [InboxRow.isProcessing, hrow] at hprocessing
  | linked hprocessing => simp [hrow] at hprocessing
  | finished _ hprocessing => simp [InboxRow.isProcessing, hrow] at hprocessing

end InboxMove

theorem ChannelCall.finishes_status {β : Type} {c : ChannelCall β} {key : Platform × String}
    {owner : String} {status : InboxStatus} (h : c.finishes = some (key, owner, status)) :
    status ≠ .processing := by
  cases c <;> simp_all [ChannelCall.finishes] <;> simp [← h.2.2]

namespace ChannelStore
variable {store : ChannelStore} {t t' : ChannelTables} {key : Platform × String} {owner : String}
  {batch : List OutboundMessage} {runId : Option String} {a : Readings}

/-- The event goes from being processed by the owner, under a lease that still runs, to completed. -/
def Completes (key : Platform × String) (owner : String) (now : Timestamp) (t t' : ChannelTables) :
    Prop :=
  (∃ row, t.findInbox key = some row ∧ row.status = .processing ∧ row.leaseOwner = some owner ∧
    ∃ expiry, row.leaseExpiresAt = some expiry ∧ now < expiry) ∧
    ∃ row, t'.findInbox key = some row ∧ row.status = .completed

/-- The outbox has a row of the message. -/
def IsQueued (store : ChannelStore) (message : OutboundMessage) (t : ChannelTables) : Prop :=
  ∃ row json, t.findOutbox message.idempotencyKey = some row ∧
    canonicalJson message.toDict = .ok json ∧ row.messageJson = json.text ∧
      sha256Hex store.sha message.content = .ok row.contentHash

/-- What one attempt to complete an event with its messages does. -/
structure CompletesAtomically (store : ChannelStore) (key : Platform × String) (owner : String)
    (batch : List OutboundMessage) (runId : Option String) (a : Readings) (t : ChannelTables) :
    Prop where
  succeeds : ∀ r t', completeInboxWithOutbox store key owner batch runId a t = (r, t') →
    ((∃ rows, r = .ok rows) ↔ Completes key owner a.now t t')
  queues : ∀ rows t', completeInboxWithOutbox store key owner batch runId a t = (.ok rows, t') →
    ∀ message ∈ batch, IsQueued store message t'
  undoes : ∀ e t', completeInboxWithOutbox store key owner batch runId a t = (.error e, t') → t' = t

theorem enqueueAll_queues {now : Timestamp} {rows : List OutboxRow}
    (h : enqueueAll store now batch t = (.ok rows, t')) :
    ∀ message ∈ batch, IsQueued store message t' := by
  induction batch generalizing t rows with
  | nil => simp
  | cons message batch ih =>
      simp only [enqueueAll, Txn.bind_ok, Txn.pure_ok] at h
      obtain ⟨row, t₁, hrow, rest, t₂, hrest, -, rfl⟩ := h
      obtain ⟨json, hash, hjson, hhash, -, hfound, hsame, htext⟩ := enqueueOutboxLocked_ok hrow
      intro m hm
      rcases List.mem_cons.1 hm with rfl | hm
      · have hmove := enqueueAll_enqueued hrest m.idempotencyKey
        change Enqueued now _ (t₁.findOutbox _) (t₂.findOutbox _) at hmove
        rw [hfound] at hmove
        rcases hmove with hkept | ⟨hnone, -⟩
        · exact ⟨row, json, hkept, hjson, htext, hsame ▸ hhash⟩
        · simp at hnone
      · exact ih hrest m hm

theorem completesAtomically (hkeyed : InboxKeyed t) :
    CompletesAtomically store key owner batch runId a t := by
  have hundoes : ∀ e t', completeInboxWithOutbox store key owner batch runId a t = (.error e, t') →
      t' = t := by
    intro e t' h
    have hatomic := @ChannelCall.perform_atomic store a _
      (.completeInboxWithOutbox key owner batch runId) t e (congrArg Prod.fst h)
    change (completeInboxWithOutbox store key owner batch runId a t).2 = t at hatomic
    rwa [h] at hatomic
  have hok : ∀ rows t', completeInboxWithOutbox store key owner batch runId a t = (.ok rows, t') →
      Completes key owner a.now t t' ∧ ∀ message ∈ batch, IsQueued store message t' := by
    intro rows t' h
    simp only [completeInboxWithOutbox, Txn.atomically_ok, Txn.bind_ok, Txn.pure_ok] at h
    obtain ⟨rows, t₁, hall, _, t₂, hone, -, rfl⟩ := h
    have hinbox : t₁.inbox = t.inbox := by
      have hkeeps := @ChannelCall.enqueueAll_keeps store a.now batch t
      rwa [hall] at hkeeps
    have hkeyed₁ : InboxKeyed t₁ := by rwa [InboxKeyed, hinbox]
    obtain ⟨row, hrow, hprocessing⟩ := updateOneInbox_found hkeyed₁ hone
    obtain ⟨-, rfl⟩ := updateOneInbox_ok hone
    have hholds := hprocessing
    obtain ⟨rfl, hstatus, howner, hlease⟩ := InboxRow.isProcessing_iff.1 hprocessing
    refine ⟨⟨⟨row, ?_, hstatus, howner, hlease⟩, ?_⟩, fun m hm => enqueueAll_queues hall m hm⟩
    · rwa [ChannelTables.findInbox, ← hinbox]
    · rw [find_updateInbox InboxRow.finish_key, hrow, Option.map_some, if_pos hholds]
      exact ⟨_, rfl, rfl⟩
  refine ⟨fun r t' h => ⟨?_, ?_⟩, fun rows t' h => (hok rows t' h).2, hundoes⟩
  · rintro ⟨rows, rfl⟩
    exact (hok rows t' h).1
  · rintro ⟨⟨row, hrow, hprocessing, -⟩, row', hrow', hcompleted⟩
    cases r with
    | ok rows => exact ⟨rows, rfl⟩
    | error e =>
        obtain rfl := hundoes e t' h
        obtain rfl := Option.some.inj (hrow.symm.trans hrow')
        simp [hprocessing] at hcompleted

end ChannelStore

namespace Handling
variable {store : ChannelStore} {s s' : Handling} {i : Option Performed}

structure Inv (s : Handling) : Prop where
  keyed : InboxKeyed s.tables
  leased : ∀ key row, s.tables.findInbox key = some row → row.Leased
  once : ∀ key, s.completions key ≤ if isCompleted s.tables key then 1 else 0

theorem Inv.phase {n : ℕ} {p : InboxProcessor} {phase : HandlePhase} (h : s.Inv) :
    (s.setPhase n p phase).Inv := ⟨h.keyed, h.leased, h.once⟩

/-- What a call leaves of an event that is complete. -/
theorem Inv.stays {β : Type} {c : ChannelCall β} {a : Readings} {key : Platform × String}
    {row : InboxRow} (h : s.Inv) (hrow : s.tables.findInbox key = some row)
    (hcompleted : row.status = .completed) :
    ((c.perform store a s.tables).2).findInbox key = some row := by
  have hmove := (perform_inbox h.keyed (Prod.mk.eta (p := c.perform store a s.tables)).symm).1 key
  change InboxMove a c key (s.tables.findInbox key) (ChannelTables.findInbox _ key) at hmove
  rw [hrow] at hmove
  exact hmove.completed hcompleted

theorem Inv.performs {β : Type} {c : ChannelCall β} {a : Readings} {r : Except PyError β}
    {t : ChannelTables} (h : s.Inv) (hperform : c.perform store a s.tables = (r, t)) :
    (s.performs t).Inv := by
  obtain ⟨hmoves, hkeyed⟩ := perform_inbox h.keyed hperform
  refine ⟨hkeyed, fun key row hrow => ?_, fun key => ?_⟩
  · have hmove := hmoves key
    change InboxMove a c key _ (t.findInbox key) at hmove
    change t.findInbox key = some row at hrow
    rw [hrow] at hmove
    exact hmove.leased (fun before hbefore => h.leased key before hbefore)
      fun _ _ _ => ChannelCall.finishes_status
  · have honce := h.once key
    have hstays : isCompleted s.tables key = true → isCompleted t key = true := by
      intro hcompleted
      obtain ⟨row, hrow, hstatus⟩ := (Option.any_eq_true _ _).1 hcompleted
      have hkept := @Inv.stays store s _ c a key row h hrow (by simpa using hstatus)
      rw [hperform] at hkept
      simp only at hkept
      simpa [isCompleted, hkept] using hstatus
    change s.completions key + (if !isCompleted s.tables key && isCompleted t key then 1 else 0) ≤
      if isCompleted t key then 1 else 0
    cases hbefore : isCompleted s.tables key with
    | true => simpa [hbefore, hstays hbefore] using honce
    | false =>
        have hnone : s.completions key = 0 := by simpa [hbefore] using honce
        simp [hnone]

theorem Inv.step (h : s.Inv) (hstep : HandlingStep store s i s') : s'.Inv := by
  cases hstep with
  | calls i => exact h.performs (Prod.mk.eta (p := i.outcome store s.tables)).symm
  | joins => exact ⟨h.keyed, h.leased, h.once⟩
  | claims hp hidle hclaim => exact Inv.performs h.phase hclaim
  | returns => exact h.phase
  | raises => exact h.phase
  | completes hp hprepared hcomplete => exact Inv.performs h.phase hcomplete
  | refused hp hprepared hcomplete => exact Inv.performs h.phase hcomplete
  | fails => exact Inv.performs h.phase (Prod.mk.eta (p := ChannelCall.perform store _ _ s.tables)).symm
  | crashes => exact h.phase

theorem Inv.reach (h : HandlingReach store s) : s.Inv := by
  induction h with
  | start =>
      refine ⟨List.nodup_nil, fun key row hrow => ?_, fun key => Nat.zero_le _⟩
      simp [ChannelTables.findInbox, Table.find] at hrow
  | step _ hstep ih => exact ih.step hstep

theorem completed_stays (h : HandlingReach store s) (hstep : HandlingStep store s i s')
    {key : Platform × String} {row : InboxRow} (hrow : s.tables.findInbox key = some row)
    (hcompleted : row.status = .completed) : s'.tables.findInbox key = some row := by
  have hinv := Inv.reach h
  cases hstep with
  | calls i => exact hinv.stays hrow hcompleted
  | @claims n p a record t hp hidle hclaim =>
      have hkept := @Inv.stays store s _ p.claimCall a key row hinv hrow hcompleted
      rwa [hclaim] at hkept
  | @completes n p record batch runId a rows t hp hprepared hcomplete =>
      have hkept := @Inv.stays store s _ (p.completeCall record batch runId) a key row hinv hrow
        hcompleted
      rwa [hcomplete] at hkept
  | @refused n p record batch runId a e t hp hprepared hcomplete =>
      have hkept := @Inv.stays store s _ (p.completeCall record batch runId) a key row hinv hrow
        hcompleted
      rwa [hcomplete] at hkept
  | fails => exact hinv.stays hrow hcompleted
  | joins => exact hrow
  | returns => exact hrow
  | raises => exact hrow
  | crashes => exact hrow

end Handling

/-- In every state that the store and its processors can reach. -/
structure AtomicHandling (store : ChannelStore) (s : Handling) : Prop where
  completes : ∀ key owner batch runId a,
    CompletesAtomically store key owner batch runId a s.tables
  once : ∀ key, s.completions key ≤ 1
  stays : ∀ i s', HandlingStep store s i s' → ∀ key row, s.tables.findInbox key = some row →
    row.status = .completed → s'.tables.findInbox key = some row
  leased : ∀ key row, s.tables.findInbox key = some row → row.Leased

theorem atomic_handling {store : ChannelStore} {s : Handling} (h : HandlingReach store s) :
    AtomicHandling store s where
  completes _ _ _ _ _ := completesAtomically (Handling.Inv.reach h).keyed
  once key := by
    have honce := (Handling.Inv.reach h).once key
    split at honce <;> omega
  stays _ _ hstep _ _ hrow hcompleted := Handling.completed_stays h hstep hrow hcompleted
  leased := (Handling.Inv.reach h).leased

/-! A processor handles the one event of the inbox. -/

namespace Relay

def envelope : ChannelEnvelope where
  platform := .slack
  externalEventId := "event"
  eventType := "message"
  userId := "7"
  channelId := "7"
  threadKey := "slack:7"
  downstreamKey := "slack:event"
  text := some "go"
  messageId := none
  callbackQueryId := none
  callbackData := none
  action := "message"
  receivedAt := none
  metadata := []

def ingest : Performed := ⟨.ingestEnvelope envelope [] none none, ⟨1, 1, ""⟩⟩

def received : ChannelTables := ingest.after store ⟨[], [], [], []⟩

def handler : InboxProcessor := ⟨"relay", .slack, 60, .idle⟩

theorem reach_received : ∃ s, HandlingReach store s ∧ s.tables = received ∧
    s.processors = [handler] := by
  have hreceived := HandlingReach.start.step (@HandlingStep.calls store _ ingest)
  refine ⟨_, hreceived.step (.joins "relay" .slack 60), ?_, ?_⟩
  · dsimp only [Handling.performs, received]
  · simp only [Handling.performs, List.nil_append, handler]

theorem handles : (handler.claimCall.perform store ⟨2, 2, ""⟩ received).1.toOption.join.any
    (fun record => record.externalEventId = "event") = true := by decide +kernel

end Relay

theorem atomic_handling_received : ∃ (s : Handling) (n : ℕ) (record : InboxRow),
    (s.processors[n]?).map InboxProcessor.phase = some (.handling record) ∧
      record.externalEventId = "event" ∧ AtomicHandling Relay.store s := by
  have hhandles := Relay.handles
  obtain ⟨s, hreach, htables, hprocessors⟩ := Relay.reach_received
  rcases hclaim : Relay.handler.claimCall.perform Relay.store ⟨2, 2, ""⟩ Relay.received with
    ⟨_ | _ | record, t⟩
  · simp [hclaim, Except.toOption] at hhandles
  · simp [hclaim, Except.toOption] at hhandles
  · simp only [hclaim, Except.toOption, Option.join_some, Option.any_some, decide_eq_true_eq]
      at hhandles
    have hclaimed := hreach.step (@HandlingStep.claims Relay.store s 0 Relay.handler _ record t
      (by rw [hprocessors]; rfl) rfl (by rw [htables]; exact hclaim))
    refine ⟨_, 0, record, ?_, hhandles, atomic_handling hclaimed⟩
    simp [Handling.performs, Handling.setPhase, InboxProcessor.inPhase, hprocessors]

end Polaris
