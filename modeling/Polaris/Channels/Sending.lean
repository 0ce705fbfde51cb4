import Polaris.Channels.Outbox

namespace Polaris
open PyJson ChannelStore Relation

/-- What the adapter raises: whether the message may have been delivered, and the text. -/
structure SendFailure where
  deliveryUnknown : Bool
  message : String

/-- How far a processor is in `send_outbox_once`. -/
inductive SendPhase where
  | idle
  | claimed (record : OutboxRow)
  | sending (record : OutboxRow)
  | answered (record : OutboxRow) (result : Except SendFailure RemoteReceipt)

structure ChannelProcessor where
  owner : String
  platform : Platform
  leaseSeconds : ℚ
  phase : SendPhase

namespace ChannelProcessor

def claimCall (p : ChannelProcessor) : ChannelCall (Option OutboxRow) :=
  .claimOutbox p.owner p.leaseSeconds (some p.platform)

def markCall (p : ChannelProcessor) (record : OutboxRow) :
    Except SendFailure RemoteReceipt → ChannelCall OutboxRow
  | .ok receipt => .markOutboxSent record.message.idempotencyKey p.owner receipt
  | .error e =>
      if e.deliveryUnknown then
        .markOutboxUnknown record.message.idempotencyKey p.owner e.message
      else .markOutboxFailed record.message.idempotencyKey p.owner e.message

def inPhase (p : ChannelProcessor) (phase : SendPhase) : ChannelProcessor :=
  { p with phase := phase }

/-- The processor has claimed the row and has not sent it yet. -/
def holds (key : String) (p : ChannelProcessor) : Bool :=
  match p.phase with
  | .claimed record => record.idempotencyKey = key
  | _ => false

end ChannelProcessor

structure Performed where
  {β : Type}
  call : ChannelCall β
  readings : Readings

namespace Performed

def outcome (store : ChannelStore) (i : Performed) (t : ChannelTables) :
    Except PyError i.β × ChannelTables :=
  i.call.perform store i.readings t

def after (store : ChannelStore) (i : Performed) (t : ChannelTables) : ChannelTables :=
  (i.outcome store t).2

end Performed

/-- The row that a successful call puts back in the queue. -/
def retriedKey : {β : Type} → ChannelCall β → Except PyError β → Option String
  | _, .retryOutbox key _, .ok _ => some key
  | _, _, _ => none

/-- The store with its processors, and the keys of the rows that have been sent and retried. -/
structure Dispatch where
  tables : ChannelTables
  processors : List ChannelProcessor
  sends : List String
  retries : List String

namespace Dispatch

def setPhase (s : Dispatch) (n : ℕ) (p : ChannelProcessor) (phase : SendPhase) : Dispatch :=
  { s with processors := s.processors.set n (p.inPhase phase) }

end Dispatch

/-- The processors take their steps in any order, between calls by anybody else. -/
inductive DispatchStep (store : ChannelStore) : Dispatch → Option Performed → Dispatch → Prop
  | calls {s : Dispatch} (i : Performed) :
      DispatchStep store s (some i)
        { s with
          tables := i.after store s.tables
          retries := (retriedKey i.call (i.outcome store s.tables).1).toList ++ s.retries }
  | joins {s : Dispatch} (owner : String) (platform : Platform) (leaseSeconds : ℚ) :
      DispatchStep store s none
        { s with processors := s.processors ++ [⟨owner, platform, leaseSeconds, .idle⟩] }
  | claims {s : Dispatch} {n : ℕ} {p : ChannelProcessor} {a : Readings} {record : OutboxRow}
      {t : ChannelTables} : s.processors[n]? = some p → p.phase = .idle →
      p.claimCall.perform store a s.tables = (.ok (some record), t) →
      DispatchStep store s (some ⟨p.claimCall, a⟩)
        { s.setPhase n p (.claimed record) with tables := t }
  /-- The adapter is called. -/
  | sends {s : Dispatch} {n : ℕ} {p : ChannelProcessor} {record : OutboxRow} :
      s.processors[n]? = some p → p.phase = .claimed record →
      DispatchStep store s none
        { s.setPhase n p (.sending record) with sends := record.idempotencyKey :: s.sends }
  | answers {s : Dispatch} {n : ℕ} {p : ChannelProcessor} {record : OutboxRow}
      (result : Except SendFailure RemoteReceipt) :
      s.processors[n]? = some p → p.phase = .sending record →
      DispatchStep store s none (s.setPhase n p (.answered record result))
  | marks {s : Dispatch} {n : ℕ} {p : ChannelProcessor} {record : OutboxRow}
      {result : Except SendFailure RemoteReceipt} {a : Readings} :
      s.processors[n]? = some p → p.phase = .answered record result →
      DispatchStep store s (some ⟨p.markCall record result, a⟩)
        { s.setPhase n p .idle with tables := ((p.markCall record result).perform store a s.tables).2 }
  | crashes {s : Dispatch} {n : ℕ} {p : ChannelProcessor} : s.processors[n]? = some p →
      DispatchStep store s none (s.setPhase n p .idle)

inductive DispatchReach (store : ChannelStore) : Dispatch → Prop
  | start : DispatchReach store ⟨⟨[], [], [], []⟩, [], [], []⟩
  | step {s s' : Dispatch} {i : Option Performed} :
      DispatchReach store s → DispatchStep store s i s' → DispatchReach store s'

/-! The rows. -/

namespace OutboxRow

/-- The lease of a row is there as long as the row is being sent. -/
structure Leased (row : OutboxRow) : Prop where
  owner : row.leaseOwner.isSome ↔ row.status = .sending
  expiry : row.leaseExpiresAt.isSome ↔ row.status = .sending
  heartbeat : row.heartbeatAt.isSome ↔ row.status = .sending

/-- What a step may do to a row. -/
structure Follows (i : Option Performed) (key : String) (row row' : OutboxRow) : Prop where
  message : row'.message = row.message ∧ row'.messageJson = row.messageJson
  content : row'.contentHash = row.contentHash
  sent : row.status = .sent → row' = row
  unknown : row.status = .unknown → row'.status ≠ .unknown →
    (∃ sent note a, i = some ⟨.resolveOutbox key sent note, a⟩) ∨
      ∃ note a, i = some ⟨.retryOutbox key note, a⟩
  failed : row.status = .failed → row'.status ≠ .failed →
    ∃ note a, i = some ⟨.retryOutbox key note, a⟩

variable {a : Readings} {β : Type} {c : ChannelCall β} {key : String} {row row' : OutboxRow}

theorem isSending_status {owner : String} {now : Timestamp}
    (h : row.isSending key owner now = true) : row.status = .sending := by
  simp only [isSending, Bool.and_eq_true, decide_eq_true_eq] at h
  exact h.1.1.2

theorem isExpired_status {now : Timestamp} (h : row.isExpired now = true) :
    row.status = .sending := by
  simp only [isExpired, Bool.and_eq_true, decide_eq_true_eq] at h
  exact h.1

theorem Follows.refl {i : Option Performed} : Follows i key row row where
  message := ⟨rfl, rfl⟩
  content := rfl
  sent _ := rfl
  unknown h h' := absurd h h'
  failed h h' := absurd h h'

/-- A step on a row that is waiting or being sent. -/
theorem Follows.of_active {i : Option Performed} (hmessage : row'.message = row.message)
    (hjson : row'.messageJson = row.messageJson) (hcontent : row'.contentHash = row.contentHash)
    (hactive : row.status = .pending ∨ row.status = .sending) : Follows i key row row' where
  message := ⟨hmessage, hjson⟩
  content := hcontent
  sent h := by rcases hactive with h' | h' <;> simp [h] at h'
  unknown h := by rcases hactive with h' | h' <;> simp [h] at h'
  failed h := by rcases hactive with h' | h' <;> simp [h] at h'

end OutboxRow

namespace OutboxMove
open OutboxRow
variable {a : Readings} {β : Type} {c : ChannelCall β} {key : String} {row row' : OutboxRow}
  {r r' : Option OutboxRow}

theorem kept (h : OutboxMove a c key (some row) r') : ∃ row', r' = some row' := by
  cases h <;> exact ⟨_, rfl⟩

theorem follows (h : OutboxMove a c key (some row) (some row')) :
    Follows (some ⟨c, a⟩) key row row' := by
  cases h with
  | same => exact .refl
  | claimed hpending => exact .of_active rfl rfl rfl (.inl hpending)
  | expired hexpired => exact .of_active rfl rfl rfl (.inr (isExpired_status hexpired))
  | extended hsending => exact .of_active rfl rfl rfl (.inr (isSending_status hsending))
  | finished hsending => exact .of_active rfl rfl rfl (.inr (isSending_status hsending))
  | @resolved _ note sent _ hkey hunknown =>
      refine ⟨⟨rfl, rfl⟩, rfl, fun h => ?_, fun _ _ => .inl ⟨sent, note, a, rfl⟩, fun h => ?_⟩
      all_goals simp [hunknown] at h
  | @retried _ note _ hkey hretriable =>
      refine ⟨⟨rfl, rfl⟩, rfl, fun h => ?_, fun _ _ => .inr ⟨note, a, rfl⟩,
        fun _ _ => ⟨note, a, rfl⟩⟩
      rcases hretriable with h' | h' <;> simp [h] at h'

theorem leased (h : OutboxMove a c key r (some row')) (hr : ∀ row, r = some row → row.Leased) :
    row'.Leased := by
  cases h with
  | same => exact hr _ rfl
  | enqueued => constructor <;> simp [pendingRow]
  | claimed => constructor <;> simp [OutboxRow.claim]
  | expired => constructor <;> simp [OutboxRow.expire]
  | @extended _ _ _ _ before hsending =>
      have hstatus := isSending_status hsending
      have hbefore := hr _ rfl
      exact ⟨hbefore.owner, by simp [OutboxRow.heartbeat, hstatus],
        by simp [OutboxRow.heartbeat, hstatus]⟩
  | finished hsending hstatus =>
      have hdone : ∀ status ∈ [OutboxStatus.sent, .unknown, .failed], status ≠ .sending := by decide
      constructor <;> simp [OutboxRow.finish, hdone _ hstatus]
  | @resolved _ _ sent before _ hunknown =>
      have hbefore := hr _ rfl
      have hidle : (if sent then OutboxStatus.sent else .failed) ≠ .sending := by
        cases sent <;> decide
      refine ⟨?_, ?_, ?_⟩
      · simpa [OutboxRow.decide, hidle, hunknown] using hbefore.owner
      · simpa [OutboxRow.decide, hidle, hunknown] using hbefore.expiry
      · simpa [OutboxRow.decide, hidle, hunknown] using hbefore.heartbeat
  | @retried _ _ before _ hretriable =>
      have hbefore := hr _ rfl
      have hidle : before.status ≠ .sending := by rcases hretriable with h | h <;> simp [h]
      refine ⟨?_, ?_, ?_⟩
      · simpa [OutboxRow.decide, hidle] using hbefore.owner
      · simpa [OutboxRow.decide, hidle] using hbefore.expiry
      · simpa [OutboxRow.decide, hidle] using hbefore.heartbeat

end OutboxMove

/-- One for a row that has left the queue. -/
def takenOnce : Option OutboxRow → ℕ
  | none => 0
  | some row => if row.status = .pending then 0 else 1

theorem takenOnce_le (r : Option OutboxRow) : takenOnce r ≤ 1 := by
  cases r with
  | none => simp [takenOnce]
  | some row => by_cases h : row.status = .pending <;> simp [takenOnce, h]

/-- A row that is not in the queue has been taken out of it. -/
theorem takenOnce_le_of_ne {r : Option OutboxRow} {row : OutboxRow} {n : ℕ}
    (h : row.status ≠ .pending) : takenOnce r ≤ takenOnce (some row) + n := by
  have htaken := takenOnce_le r
  have hrow : takenOnce (some row) = 1 := by rw [takenOnce, if_neg h]
  omega

theorem OutboxMove.taken {a : Readings} {β : Type} {c : ChannelCall β} {key : String}
    {r r' : Option OutboxRow} (b : β) (h : OutboxMove a c key r r') :
    takenOnce r ≤ takenOnce r' + (retriedKey c (.ok b)).toList.count key := by
  cases h with
  | same => omega
  | enqueued => simp [takenOnce]
  | claimed => exact takenOnce_le_of_ne (by simp [OutboxRow.claim])
  | expired => exact takenOnce_le_of_ne (by simp [OutboxRow.expire])
  | extended => exact Nat.le_add_right _ _
  | finished hsending hstatus =>
      have hdone : ∀ status ∈ [OutboxStatus.sent, .unknown, .failed], status ≠ .pending := by decide
      exact takenOnce_le_of_ne (by simpa [OutboxRow.finish] using hdone _ hstatus)
  | @resolved _ _ sent =>
      have hdone : (if sent then OutboxStatus.sent else .failed) ≠ .pending := by
        cases sent <;> decide
      exact takenOnce_le_of_ne (by simpa [OutboxRow.decide] using hdone)
  | @retried _ _ before =>
      have htaken := takenOnce_le (some before)
      simp only [retriedKey, Option.toList_some, List.count_singleton_self]
      omega

theorem ChannelProcessor.markCall_retries (p : ChannelProcessor) (record : OutboxRow)
    (result : Except SendFailure RemoteReceipt) {r : Except PyError OutboxRow} :
    retriedKey (p.markCall record result) r = none := by
  cases result with
  | ok receipt => rfl
  | error e =>
      simp only [markCall]
      split <;> rfl

namespace Dispatch
variable {store : ChannelStore} {s s' : Dispatch} {i : Option Performed}

/-- What holds after every step: a row has been sent, or is about to be, once for each time that it
has left the queue. -/
structure Inv (s : Dispatch) : Prop where
  keyed : OutboxKeyed s.tables
  leased : ∀ key row, s.tables.findOutbox key = some row → row.Leased
  sends : ∀ key, s.sends.count key + s.processors.countP (ChannelProcessor.holds key) ≤
    takenOnce (s.tables.findOutbox key) + s.retries.count key

theorem countP_setPhase {n : ℕ} {p : ChannelProcessor} {phase : SendPhase} {key : String}
    (h : s.processors[n]? = some p) :
    (s.setPhase n p phase).processors.countP (ChannelProcessor.holds key) +
        (p.holds key).toNat =
      s.processors.countP (ChannelProcessor.holds key) + ((p.inPhase phase).holds key).toNat := by
  obtain ⟨hn, hp⟩ := List.getElem?_eq_some_iff.1 h
  have hheld : (p.holds key).toNat ≤ s.processors.countP (ChannelProcessor.holds key) := by
    cases hholds : p.holds key with
    | false => simp
    | true => exact List.countP_pos_iff.2 ⟨p, List.mem_of_getElem? h, hholds⟩
  rw [setPhase, List.countP_set hn, hp]
  cases hold : p.holds key <;> cases hnew : (p.inPhase phase).holds key <;> simp_all

/-- A processor whose new phase claims nothing. -/
theorem Inv.passes {n : ℕ} {p : ChannelProcessor} {phase : SendPhase} (h : s.Inv)
    (hp : s.processors[n]? = some p) (hphase : ∀ key, (p.inPhase phase).holds key = false) :
    (s.setPhase n p phase).Inv := by
  refine ⟨h.keyed, h.leased, fun key => ?_⟩
  have hsends := h.sends key
  have hcount := @countP_setPhase s n p phase key hp
  simp only [hphase, Bool.toNat_false] at hcount
  change s.sends.count key + _ ≤ takenOnce (s.tables.findOutbox key) + s.retries.count key
  omega

/-- A call of anybody, whose effect on the processors is yet to come. -/
theorem Inv.performs {β : Type} {c : ChannelCall β} {a : Readings} {r : Except PyError β}
    {t : ChannelTables} (h : s.Inv) (hperform : c.perform store a s.tables = (r, t)) :
    OutboxKeyed t ∧ (∀ key row, t.findOutbox key = some row → row.Leased) ∧
      ∀ key, takenOnce (s.tables.findOutbox key) ≤
        takenOnce (t.findOutbox key) + (retriedKey c r).toList.count key := by
  obtain ⟨hmoves, hkeyed⟩ := perform_outbox h.keyed hperform
  refine ⟨hkeyed, fun key row hrow => ?_, fun key => ?_⟩
  · have hmove := hmoves key
    change OutboxMove a c key _ (t.findOutbox key) at hmove
    rw [hrow] at hmove
    exact hmove.leased fun before hbefore => h.leased key before hbefore
  · cases r with
    | error e =>
        have hsame := c.perform_atomic s.tables e (congrArg Prod.fst hperform)
        rw [hperform] at hsame
        simp only at hsame
        rw [hsame]
        omega
    | ok b => exact (hmoves key).taken b

theorem claimOutbox_taken {owner : String} {leaseSeconds : ℚ} {platform : Option Platform}
    {a : Readings} {record : OutboxRow} {t t' : ChannelTables} (hkeyed : OutboxKeyed t)
    (h : claimOutbox owner leaseSeconds platform a t = (.ok (some record), t')) :
    takenOnce (t.findOutbox record.idempotencyKey) = 0 ∧
      takenOnce (t'.findOutbox record.idempotencyKey) = 1 := by
  rcases claimOutbox_ok hkeyed h with ⟨hnone, -⟩ | ⟨row, expires, -, hrow, hpending, hclaimed, rfl⟩
  · simp at hnone
  · obtain rfl := Option.some.inj hclaimed
    have hlive : row.isExpired a.now = false := by simp [OutboxRow.isExpired, hpending]
    rw [find_updateOutbox OutboxRow.claim_key, find_updateOutbox OutboxRow.expire_key]
    simp only [OutboxRow.claim_key, hrow]
    simp [takenOnce, hpending, hlive, isPending, OutboxRow.claim]

theorem Inv.step (h : s.Inv) (hstep : DispatchStep store s i s') : s'.Inv := by
  cases hstep with
  | calls i =>
      obtain ⟨hkeyed, hleased, htaken⟩ := h.performs (c := i.call) (a := i.readings)
        (Prod.mk.eta (p := i.outcome store s.tables)).symm
      refine ⟨hkeyed, hleased, fun key => ?_⟩
      have hsends := h.sends key
      have htaken := htaken key
      simp only [List.count_append, Performed.after]
      omega
  | joins owner platform leaseSeconds =>
      refine ⟨h.keyed, h.leased, fun key => ?_⟩
      have hsends := h.sends key
      simpa [List.countP_append, ChannelProcessor.holds] using hsends
  | @claims n p a record t hp hidle hclaim =>
      obtain ⟨hkeyed, hleased, htaken⟩ := h.performs hclaim
      refine ⟨hkeyed, hleased, fun key => ?_⟩
      have hsends := h.sends key
      have htaken : takenOnce (s.tables.findOutbox key) ≤ takenOnce (t.findOutbox key) := by
        simpa [ChannelProcessor.claimCall, retriedKey] using htaken key
      have hcount := @countP_setPhase s n p (.claimed record) key hp
      have hbefore : p.holds key = false := by simp [ChannelProcessor.holds, hidle]
      change s.sends.count key + (s.setPhase n p (.claimed record)).processors.countP
        (ChannelProcessor.holds key) ≤ takenOnce (t.findOutbox key) + s.retries.count key
      by_cases hkey : record.idempotencyKey = key
      · obtain ⟨hzero, hone⟩ := claimOutbox_taken h.keyed hclaim
        have hafter : (p.inPhase (.claimed record)).holds key = true := by
          simp [ChannelProcessor.holds, ChannelProcessor.inPhase, hkey]
        rw [hkey] at hzero hone
        simp only [hbefore, hafter, Bool.toNat_false, Bool.toNat_true] at hcount
        omega
      · have hafter : (p.inPhase (.claimed record)).holds key = false := by
          simp [ChannelProcessor.holds, ChannelProcessor.inPhase, hkey]
        simp only [hbefore, hafter, Bool.toNat_false] at hcount
        omega
  | @sends n p record hp hclaimed =>
      refine ⟨h.keyed, h.leased, fun key => ?_⟩
      have hsends := h.sends key
      have hcount := @countP_setPhase s n p (.sending record) key hp
      have hafter : (p.inPhase (.sending record)).holds key = false := rfl
      have hbefore : p.holds key = decide (record.idempotencyKey = key) := by
        simp [ChannelProcessor.holds, hclaimed]
      change (record.idempotencyKey :: s.sends).count key +
        (s.setPhase n p (.sending record)).processors.countP (ChannelProcessor.holds key) ≤
          takenOnce (s.tables.findOutbox key) + s.retries.count key
      rw [hbefore, hafter] at hcount
      by_cases hkey : record.idempotencyKey = key
      · subst hkey
        simp only [decide_true, Bool.toNat_true, Bool.toNat_false] at hcount
        rw [List.count_cons_self]
        omega
      · simp only [hkey, decide_false, Bool.toNat_false] at hcount
        rw [List.count_cons_of_ne hkey]
        omega
  | @answers n p record result hp hsending =>
      exact h.passes hp fun _ => rfl
  | @marks n p record result a hp hanswered =>
      obtain ⟨hkeyed, hleased, htaken⟩ := h.performs (c := p.markCall record result) (a := a)
        (Prod.mk.eta (p := (p.markCall record result).perform store a s.tables)).symm
      refine ⟨hkeyed, hleased, fun key => ?_⟩
      have hpassed := (@Inv.passes s n p .idle h hp fun _ => rfl).sends key
      have htaken := htaken key
      rw [p.markCall_retries record result] at htaken
      exact hpassed.trans (Nat.add_le_add_right htaken _)
  | @crashes n p hp => exact h.passes hp fun _ => rfl

theorem Inv.reach (h : DispatchReach store s) : s.Inv := by
  induction h with
  | start =>
      refine ⟨List.nodup_nil, fun key row hrow => ?_, fun key => Nat.zero_le _⟩
      simp [ChannelTables.findOutbox, Table.find] at hrow
  | step _ hstep ih => exact ih.step hstep

theorem follows (h : DispatchReach store s) (hstep : DispatchStep store s i s') {key : String}
    {row : OutboxRow} (hrow : s.tables.findOutbox key = some row) :
    ∃ row', s'.tables.findOutbox key = some row' ∧ row.Follows i key row' := by
  have hperforms : ∀ {β : Type} (c : ChannelCall β) (a : Readings),
      ∃ row', ((c.perform store a s.tables).2).findOutbox key = some row' ∧
        row.Follows (some ⟨c, a⟩) key row' := by
    intro β c a
    obtain ⟨hmoves, -⟩ := perform_outbox (Inv.reach h).keyed
      (Prod.mk.eta (p := c.perform store a s.tables)).symm
    have hmove := hmoves key
    change OutboxMove a c key (s.tables.findOutbox key) (ChannelTables.findOutbox _ key) at hmove
    rw [hrow] at hmove
    obtain ⟨row', hrow'⟩ := hmove.kept
    rw [hrow'] at hmove
    exact ⟨row', hrow', hmove.follows⟩
  cases hstep with
  | calls i => exact hperforms i.call i.readings
  | @claims n p a record t hp hidle hclaim =>
      obtain ⟨row', hrow', hfollows⟩ := hperforms p.claimCall a
      rw [hclaim] at hrow'
      exact ⟨row', hrow', hfollows⟩
  | marks => exact hperforms _ _
  | joins => exact ⟨row, hrow, .refl⟩
  | sends => exact ⟨row, hrow, .refl⟩
  | answers => exact ⟨row, hrow, .refl⟩
  | crashes => exact ⟨row, hrow, .refl⟩

end Dispatch

/-- In every state that the store and its processors can reach. -/
structure NoBlindResend (store : ChannelStore) (s : Dispatch) : Prop where
  sends : ∀ key, s.sends.count key ≤ 1 + s.retries.count key
  leased : ∀ key row, s.tables.findOutbox key = some row → row.Leased
  follows : ∀ i s', DispatchStep store s i s' → ∀ key row, s.tables.findOutbox key = some row →
    ∃ row', s'.tables.findOutbox key = some row' ∧ row.Follows i key row'

theorem no_blind_resend {store : ChannelStore} {s : Dispatch} (h : DispatchReach store s) :
    NoBlindResend store s where
  sends key := by
    have hsends := (Dispatch.Inv.reach h).sends key
    have htaken := takenOnce_le (s.tables.findOutbox key)
    omega
  leased := (Dispatch.Inv.reach h).leased
  follows _ _ hstep _ _ hrow := Dispatch.follows h hstep hrow

/-! A processor sends the one row of the outbox. -/

namespace Relay

def store : ChannelStore where
  sha := .ofTable [
    ("\x7b\x7d", "44136fa355b3678a1146ad16f7e8649e94fb4fc21fe77e8310c060f61caaff8a"),
    ("\x7b\"channel_id\":\"C1\",\"chunk_index\":0,\"operation\":\"send_message\"" ++
      ",\"parse_mode\":\"plain\",\"platform\":\"slack\",\"text\":\"done\"\x7d",
      "da26283527bb902d7259646ea80f468c98aaa75bab309f18e9b6ff919e540203")]
  py := ⟨fun _ => "", fun _ => "", fun _ => .ok 0, fun _ _ => false⟩
  telegramStreamKey := "default"
  authorizationPolicy := ⟨["7"], ["7"], ["message"], fun _ => none, fun _ => none⟩

def message : OutboundMessage where
  platform := .slack
  idempotencyKey := "reply"
  channelId := "C1"
  threadKey := "slack:C1"
  text := "done"
  operation := .send
  parseMode := .plain
  messageId := none
  callbackQueryId := none
  disableNotification := false
  chunkIndex := 0
  chunkCount := 1
  metadata := []

def enqueue : Performed := ⟨.enqueueOutbox message, ⟨1, 1, ""⟩⟩

def queued : ChannelTables := enqueue.after store ⟨[], [], [], []⟩

def relay : ChannelProcessor := ⟨"relay", .slack, 60, .idle⟩

theorem reach_queued : ∃ s, DispatchReach store s ∧ s.tables = queued ∧ s.processors = [relay] ∧
    s.sends = [] := by
  have hqueued := DispatchReach.start.step (@DispatchStep.calls store _ enqueue)
  refine ⟨_, hqueued.step (.joins "relay" .slack 60), ?_, ?_, ?_⟩
  · dsimp only [queued]
  · simp only [List.nil_append, relay]
  · dsimp only

theorem claims : (relay.claimCall.perform store ⟨2, 2, ""⟩ queued).1.toOption.join.any
    (fun record => record.idempotencyKey = "reply") = true := by decide +kernel

theorem reach_sent : ∃ s, DispatchReach store s ∧ s.sends = ["reply"] := by
  have hclaims := claims
  obtain ⟨s, hreach, htables, hprocessors, hsends⟩ := reach_queued
  rcases hclaim : relay.claimCall.perform store ⟨2, 2, ""⟩ queued with ⟨_ | _ | record, t⟩
  · simp [hclaim, Except.toOption] at hclaims
  · simp [hclaim, Except.toOption] at hclaims
  · simp only [hclaim, Except.toOption, Option.join_some, Option.any_some, decide_eq_true_eq]
      at hclaims
    have hclaimed := hreach.step (@DispatchStep.claims store s 0 relay _ record t
      (by rw [hprocessors]; rfl) rfl (by rw [htables]; exact hclaim))
    refine ⟨_, hclaimed.step (@DispatchStep.sends store _ 0 (relay.inPhase (.claimed record)) record
      (by simp [Dispatch.setPhase, hprocessors]) rfl), ?_⟩
    simp [Dispatch.setPhase, hclaims, hsends]

end Relay

theorem no_blind_resend_sent : ∃ s, s.sends = ["reply"] ∧ NoBlindResend Relay.store s := by
  obtain ⟨s, hreach, hsent⟩ := Relay.reach_sent
  exact ⟨s, hsent, no_blind_resend hreach⟩

end Polaris
