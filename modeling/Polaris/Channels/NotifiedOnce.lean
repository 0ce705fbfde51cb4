import Mathlib.Data.List.Flatten
import Polaris.Channels.NoticePass

namespace Polaris
open PyJson SortedDict ChannelStore OnceEach Program

/-! What a pass finds in the outbox under the keys of notifications. -/

/-- Whoever else uses the store and the service: rows of the inbox keep their envelopes and the runs
they are linked to, a run that has ended stays as it is, and replies and deliveries have other keys
than notifications. -/
structure OthersMove (w w' : Notifying) : Prop where
  keyed : (w'.inbox.map InboxRecord.rowKey).Nodup
  inbox : ∀ record ∈ w.inbox, ∃ record' ∈ w'.inbox, record'.envelope = record.envelope ∧
    ∀ runId, record.runId = some runId → record'.runId = some runId
  runs : ∀ runId, (w.runs runId).status.isTerminal = true → w'.runs runId = w.runs runId
  outbox : ∀ row' ∈ w'.outbox, IsNoticeKey row'.idempotencyKey → ∃ row ∈ w.outbox,
    row.idempotencyKey = row'.idempotencyKey ∧ SameContent (some row) (some row')
  notifications : w'.notifications = w.notifications

/-- Passes, each of them complete or stopped somewhere, with anything between them. -/
inductive NotifierReach (harness : ChannelHarness) : Notifying → Prop
  | start {w : Notifying} : (w.inbox.map InboxRecord.rowKey).Nodup →
      (∀ row ∈ w.outbox, ¬IsNoticeKey row.idempotencyKey) → w.notifications = [] →
      NotifierReach harness w
  | pass {w w' : Notifying} {pageSize : ℤ} {fuel : ℕ} : NotifierReach harness w →
      (linkedInbox w).length < fuel →
      Halts harness.system (harness.enqueueCompletionNotificationsOnce pageSize fuel) w w' →
      NotifierReach harness w'
  | others {w w' : Notifying} : NotifierReach harness w → OthersMove w w' → NotifierReach harness w'

/-- The row has been written for a notification that its run still has, or has had before it went
on. -/
def WrittenNotice (harness : ChannelHarness) (w : Notifying) (row : OutboxRow) : Prop :=
  ∃ record ∈ w.inbox, ∃ runId run suffix, record.runId = some runId ∧
    run.noticeSuffix = some suffix ∧ (run.status.isTerminal = true → w.runs runId = run) ∧
    ∃ part ∈ harness.parts (completionNotice record.envelope runId run suffix),
      part.idempotencyKey = row.idempotencyKey ∧
        SameContent (some row) (harness.store.outboxEntry part)

structure NotifyInv (harness : ChannelHarness) (w : Notifying) : Prop where
  keyed : (w.inbox.map InboxRecord.rowKey).Nodup
  written : ∀ row ∈ w.outbox, IsNoticeKey row.idempotencyKey → WrittenNotice harness w row

section
variable {harness : ChannelHarness} {w w' : Notifying}

theorem mem_tasks {runs : String → RunView} {records : List InboxRecord} {task : NoticeTask} :
    task ∈ harness.tasks runs records ↔ ∃ record ∈ records, ∃ runId suffix,
      record.runId = some runId ∧ (runs runId).noticeSuffix = some suffix ∧
        harness.noticeTask record runId (runs runId) suffix = task := by
  simp only [ChannelHarness.tasks, List.mem_filterMap, ChannelHarness.task, Option.bind_eq_some_iff,
    Option.map_eq_some_iff]
  constructor
  · rintro ⟨record, hrecord, runId, hrun, suffix, hsuffix, htask⟩
    exact ⟨record, hrecord, runId, suffix, hrun, hsuffix, htask⟩
  · rintro ⟨record, hrecord, runId, suffix, hrun, hsuffix, htask⟩
    exact ⟨record, hrecord, runId, hrun, suffix, hsuffix, htask⟩

theorem parts_key {envelope : ChannelEnvelope} {runId suffix : String} {run : RunView}
    {part : OutboundMessage}
    (h : part ∈ harness.parts (completionNotice envelope runId run suffix)) :
    ∃ place, part.idempotencyKey = partKey (notificationKey envelope suffix) place :=
  (@parts_spec harness (completionNotice envelope runId run suffix) rfl).2.part h

/-- The suffix tells the text, as long as a run that has ended stays as it is. -/
theorem completionNotice_congr {envelope : ChannelEnvelope} {runId suffix : String}
    {run run' : RunView} (h : run.noticeSuffix = some suffix) (h' : run'.noticeSuffix = some suffix)
    (hterminal : run.status.isTerminal = true → run' = run) :
    completionNotice envelope runId run suffix = completionNotice envelope runId run' suffix := by
  have happroval : "terminal" ≠ "approval:" ++ run'.approvalIds ∧
      "terminal" ≠ "approval:" ++ run.approvalIds := by
    constructor <;>
    · intro heq
      have hlist := congrArg String.toList heq
      simp at hlist
  rcases RunView.noticeSuffix_cases h with ⟨hended, rfl⟩ | ⟨hopen, -, -, rfl⟩
  · rw [hterminal hended]
  · rcases RunView.noticeSuffix_cases h' with ⟨-, hsuffix⟩ | ⟨hopen', -, -, hsuffix⟩
    · exact absurd hsuffix.symm happroval.2
    · have hids : run.approvalIds = run'.approvalIds := by
        have hlist := congrArg String.toList hsuffix
        rw [String.toList_append, String.toList_append, List.append_cancel_left_eq] at hlist
        exact String.toList_inj.1 hlist
      simp only [completionNotice, RunView.noticeText, hopen, hopen', hids, Bool.false_eq_true,
        if_false]

theorem rowKey_inj (h : (w.inbox.map InboxRecord.rowKey).Nodup) {record record' : InboxRecord}
    (hrecord : record ∈ w.inbox) (hrecord' : record' ∈ w.inbox)
    (hplatform : record.envelope.platform = record'.envelope.platform)
    (hevent : record.envelope.externalEventId = record'.envelope.externalEventId) :
    record = record' :=
  List.inj_on_of_nodup_map h hrecord hrecord' (Prod.ext hplatform hevent)

theorem sameContent_timeless {row : OutboxRow} {entry : Option OutboxRow} :
    SameContent (some row.timeless) entry ↔ SameContent (some row) entry := Iff.rfl

def noticeItems (harness : ChannelHarness) (w : Notifying) : List (String × Option OutboxRow) :=
  (harness.tasks w.runs (linkedInbox w)).flatMap Task.items

theorem mem_noticeTask_items {record : InboxRecord} {runId suffix : String} {run : RunView}
    {item : String × Option OutboxRow} :
    item ∈ (harness.noticeTask record runId run suffix).items ↔
      ∃ part ∈ harness.parts (completionNotice record.envelope runId run suffix),
        (part.idempotencyKey, harness.store.outboxEntry part) = item := List.mem_map

theorem rowKeys_pairwise (h : (w.inbox.map InboxRecord.rowKey).Nodup) :
    (linkedInbox w).Pairwise fun a b => a.rowKey ≠ b.rowKey := by
  have hrows : ((linkedRows w).map InboxRecord.rowKey).Nodup :=
    h.sublist (List.filter_sublist.map _)
  exact List.pairwise_map.1 ((Keyset.ordered_perm.map _).nodup_iff.2 hrows)

/-- Notifications of different rows have different keys, and so have their parts. -/
theorem tasks_apart (h : (w.inbox.map InboxRecord.rowKey).Nodup) :
    (harness.tasks w.runs (linkedInbox w)).Pairwise fun a b => a.mark.1 ≠ b.mark.1 ∧
      (a.items.map Prod.fst).Disjoint (b.items.map Prod.fst) := by
  rw [ChannelHarness.tasks, List.pairwise_filterMap]
  refine (rowKeys_pairwise h).imp fun {record record'} hne task htask task' htask' => ?_
  simp only [ChannelHarness.task, Option.bind_eq_some_iff, Option.map_eq_some_iff] at htask htask'
  obtain ⟨runId, -, suffix, hsuffix, rfl⟩ := htask
  obtain ⟨runId', -, suffix', hsuffix', rfl⟩ := htask'
  have hapart : ∀ part part', partKey (notificationKey record.envelope suffix) part ≠
      partKey (notificationKey record'.envelope suffix') part' := fun part part' heq => by
    obtain ⟨-, hplatform, hevent, -⟩ := noticeKey_inj (RunView.noticeSuffix_isNoticeSuffix hsuffix)
      (RunView.noticeSuffix_isNoticeSuffix hsuffix') heq
    exact hne (Prod.ext hplatform hevent)
  refine ⟨hapart none none, fun key hkey hkey' => ?_⟩
  obtain ⟨item, hitem, rfl⟩ := List.mem_map.1 hkey
  obtain ⟨item', hitem', hsame⟩ := List.mem_map.1 hkey'
  obtain ⟨part, hpart, rfl⟩ := mem_noticeTask_items.1 hitem
  obtain ⟨part', hpart', rfl⟩ := mem_noticeTask_items.1 hitem'
  obtain ⟨place, hplace⟩ := parts_key hpart
  obtain ⟨place', hplace'⟩ := parts_key hpart'
  exact hapart place place' (hplace.symm.trans (hsame.symm.trans hplace'))

theorem tasks_marks (h : (w.inbox.map InboxRecord.rowKey).Nodup) :
    ((harness.tasks w.runs (linkedInbox w)).map fun task => task.mark.1).Nodup :=
  List.pairwise_map.2 ((tasks_apart h).imp fun hpair => hpair.1)

theorem noticeItems_keys (h : (w.inbox.map InboxRecord.rowKey).Nodup) :
    ((noticeItems harness w).map Prod.fst).Nodup := by
  rw [noticeItems, List.map_flatMap, List.nodup_flatMap]
  refine ⟨fun task htask => ?_, (tasks_apart h).imp fun hpair => hpair.2⟩
  obtain ⟨record, -, runId, suffix, -, -, rfl⟩ := mem_tasks.1 htask
  have hprepared := (@parts_spec harness
    (completionNotice record.envelope runId (w.runs runId) suffix) rfl).2
  rw [ChannelHarness.noticeTask, List.map_map]
  exact hprepared.keys_nodup

/-- What is in the outbox under the key of a part has the content of the part. -/
theorem NotifyInv.agrees (h : NotifyInv harness w) :
    w.state.Agrees SameContent (noticeItems harness w) := by
  intro item hitem held hheld hkey
  obtain ⟨task, htask, hitem⟩ := List.mem_flatMap.1 hitem
  obtain ⟨record, hrecord, runId, suffix, hrun, hsuffix, rfl⟩ := mem_tasks.1 htask
  obtain ⟨part, hpart, rfl⟩ := mem_noticeTask_items.1 hitem
  obtain ⟨row, hrow, rfl⟩ := List.mem_map.1 hheld
  obtain ⟨place, hplace⟩ := parts_key hpart
  have hnotice := RunView.noticeSuffix_isNoticeSuffix hsuffix
  change row.idempotencyKey = part.idempotencyKey at hkey
  obtain ⟨record', hrecord', runId', run', suffix', hrun', hsuffix', hended, part', hpart', hkey',
    hcontent⟩ := h.written row hrow ⟨record.envelope, suffix, place, hnotice, hkey.trans hplace⟩
  obtain ⟨place', hplace'⟩ := parts_key hpart'
  obtain ⟨-, hplatform, hevent, rfl⟩ := noticeKey_inj
    (RunView.noticeSuffix_isNoticeSuffix hsuffix') hnotice
    (hplace'.symm.trans (hkey'.trans (hkey.trans hplace)))
  obtain rfl := rowKey_inj h.keyed hrecord' (mem_linkedInbox.1 hrecord).1 hplatform hevent
  obtain rfl := Option.some.inj (hrun'.symm.trans hrun)
  rw [completionNotice_congr hsuffix' hsuffix hended] at hpart'
  have hprepared := (@parts_spec harness
    (completionNotice record'.envelope runId' (w.runs runId') suffix') rfl).2
  obtain rfl : part' = part :=
    List.inj_on_of_nodup_map hprepared.keys_nodup hpart' hpart (hkey'.trans hkey)
  exact sameContent_timeless.2 hcontent

theorem NotifyInv.ready (h : NotifyInv harness w) :
    NoticesReady harness w (linkedInbox w) (noticeItems harness w) where
  known _ hrecord := (mem_linkedInbox.1 hrecord).1
  marks := tasks_marks h.keyed
  parts task htask _ hitem := List.mem_flatMap.2 ⟨task, htask, hitem⟩
  keys := noticeItems_keys h.keyed
  agrees := h.agrees

theorem NotifyInv.carries {pageSize : ℤ} {fuel : ℕ} (h : NotifyInv harness w) (hlow : 1 ≤ pageSize)
    (hhigh : pageSize ≤ 5000) (hfuel : (linkedInbox w).length < fuel) :
    Carries harness.system ChannelHarness.view
      (harness.enqueueCompletionNotificationsOnce pageSize fuel) w
      (.ok (w.state.due (harness.tasks w.runs (linkedInbox w))).length)
      (w.state.pending (harness.tasks w.runs (linkedInbox w))) (linkedInbox w) := by
  have hsplit : linkedInbox w = [] ++ linkedInbox w := rfl
  exact notifyFrom_carries hlow hhigh h.keyed hsplit hfuel h.ready

/-- What a pass has written by the time it is stopped. -/
theorem NotifyInv.writes (h : NotifyInv harness w) {k : ℕ}
    (hstate : w'.state =
      w.state.run ((w.state.pending (harness.tasks w.runs (linkedInbox w))).take k))
    (hinbox : w'.inbox = w.inbox) (hruns : w'.runs = w.runs) : NotifyInv harness w' where
  keyed := by rw [hinbox]; exact h.keyed
  written row hrow hnotice := by
    have hitem := mem_state_items hrow
    rw [hstate] at hitem
    rcases State.mem_run_items hitem with hold | hput
    · obtain ⟨before, hbefore, hsame⟩ := List.mem_map.1 hold
      obtain ⟨hkey, htimeless⟩ := Prod.mk.inj hsame
      obtain ⟨record, hrecord, runId, run, suffix, hrun, hsuffix, hended, part, hpart, hpartKey,
        hcontent⟩ := h.written before hbefore (by rwa [hkey])
      refine ⟨record, hinbox ▸ hrecord, runId, run, suffix, hrun, hsuffix,
        fun hterminal => by rw [hruns, hended hterminal], part, hpart, hpartKey.trans hkey, ?_⟩
      rw [← sameContent_timeless, ← htimeless]
      exact hcontent
    · obtain ⟨task, htask, hwrite⟩ := List.mem_flatMap.1 (List.mem_of_mem_take hput)
      obtain ⟨record, hrecord, runId, suffix, hrun, hsuffix, rfl⟩ := mem_tasks.1 htask
      have hmem : (row.idempotencyKey, some row.timeless) ∈
          (harness.noticeTask record runId (w.runs runId) suffix).items := by
        split at hwrite
        · cases hwrite
        · simpa [Task.writes] using hwrite
      obtain ⟨part, hpart, hsame⟩ := mem_noticeTask_items.1 hmem
      obtain ⟨hkey, hentry⟩ := Prod.mk.inj hsame
      refine ⟨record, hinbox ▸ (mem_linkedInbox.1 hrecord).1, runId, w.runs runId, suffix, hrun,
        hsuffix, fun _ => by rw [hruns], part, hpart, hkey, ?_⟩
      rw [← sameContent_timeless, ← hentry]
      exact sameContent_refl _

theorem NotifyInv.others (h : NotifyInv harness w) (hmove : OthersMove w w') :
    NotifyInv harness w' where
  keyed := hmove.keyed
  written row hrow hnotice := by
    obtain ⟨before, hbefore, hkey, hsame⟩ := hmove.outbox row hrow hnotice
    obtain ⟨record, hrecord, runId, run, suffix, hrun, hsuffix, hended, part, hpart, hpartKey,
      hcontent⟩ := h.written before hbefore (by rwa [hkey])
    obtain ⟨record', hrecord', henvelope, hlink⟩ := hmove.inbox record hrecord
    refine ⟨record', hrecord', runId, run, suffix, hlink runId hrun, hsuffix, fun hterminal => ?_,
      part, by rwa [henvelope], hpartKey.trans hkey, hsame.symm.trans hcontent⟩
    have hstays := hended hterminal
    rw [hmove.runs runId (by rwa [hstays]), hstays]

/-- A page size that the store refuses ends the pass before it has begun. -/
theorem pass_refused {pageSize : ℤ} {fuel : ℕ} (hsize : ¬(1 ≤ pageSize ∧ pageSize ≤ 5000))
    (hfuel : 0 < fuel) :
    (∀ r, Runs harness.system (harness.enqueueCompletionNotificationsOnce pageSize fuel) w r w' →
      r = .error (valueError "limit must be between 1 and 5000") ∧ w' = w) ∧
    (Halts harness.system (harness.enqueueCompletionNotificationsOnce pageSize fuel) w w' →
      w' = w) := by
  obtain ⟨fuel, rfl⟩ : ∃ n, fuel = n + 1 := ⟨fuel - 1, by omega⟩
  have hcall : ∀ {q v}, harness.system.exec (.listLinkedInbox pageSize none) w q v →
      q = .error (valueError "limit must be between 1 and 5000") ∧ v = w := by
    rintro q v ⟨now, hperform⟩
    have hguard : (decide (1 ≤ pageSize) && decide (pageSize ≤ 5000)) = false := by
      rw [← Bool.not_eq_true, Bool.and_eq_true, decide_eq_true_eq, decide_eq_true_eq]
      exact hsize
    have hfails : (NotifyCall.listLinkedInbox pageSize none).perform harness.store now w =
        (.error (valueError "limit must be between 1 and 5000"), w) := by
      refine Txn.bind_of_error ?_
      rw [Txn.require, hguard]
      rfl
    obtain ⟨rfl, rfl⟩ := Prod.mk.inj (hfails.symm.trans hperform)
    exact ⟨rfl, rfl⟩
  constructor
  · intro r hruns
    rcases runs_bind.1 hruns with ⟨page, v, hlist, -⟩ | ⟨e, rfl, hlist⟩
    · cases (hcall (runs_perform.1 hlist)).1
    · obtain ⟨he, rfl⟩ := hcall (runs_perform.1 hlist)
      exact ⟨by rw [Except.error.inj he], rfl⟩
  · intro hhalts
    rcases halts_bind.1 hhalts with hlist | ⟨page, v, hlist, -⟩
    · rcases halts_perform.1 hlist with rfl | ⟨q, hexec⟩
      · rfl
      · exact (hcall hexec).2
    · cases (hcall (runs_perform.1 hlist)).1

theorem NotifyInv.reach (h : NotifierReach harness w) : NotifyInv harness w := by
  induction h with
  | start hkeyed hnone _ => exact ⟨hkeyed, fun row hrow hnotice => absurd hnotice (hnone row hrow)⟩
  | @pass w w' pageSize fuel _ hfuel hhalts ih =>
      by_cases hsize : 1 ≤ pageSize ∧ pageSize ≤ 5000
      · obtain ⟨⟨k, hstate⟩, hframe⟩ := (ih.carries hsize.1 hsize.2 hfuel).halts hhalts
        exact ih.writes hstate (congrArg Prod.fst hframe) (congrArg Prod.snd hframe)
      · rw [(pass_refused hsize (by omega)).2 hhalts]
        exact ih
  | others _ hmove ih => exact ih.others hmove

/-! Nothing is ever taken out of the tables. -/

/-- The tables have grown, if they have changed at all. -/
def Grown (w w' : Notifying) : Prop :=
  w.outbox <+: w'.outbox ∧ w.notifications <+: w'.notifications

theorem Grown.refl (w : Notifying) : Grown w w := ⟨List.prefix_rfl, List.prefix_rfl⟩

theorem Grown.trans {w'' : Notifying} (h : Grown w w') (h' : Grown w' w'') : Grown w w'' :=
  ⟨h.1.trans h'.1, h.2.trans h'.2⟩

theorem insertOutbox_prefix (row : OutboxRow) (t : ChannelTables) :
    t.outbox <+: (insertOutbox row t).outbox := by
  unfold insertOutbox
  split
  · exact List.prefix_rfl
  · exact List.prefix_append _ _

theorem insertNotification_grown (row : NotificationRow) (w : Notifying) :
    Grown w (insertNotification row w) := by
  unfold insertNotification
  split
  · exact .refl w
  · exact ⟨List.prefix_rfl, List.prefix_append _ _⟩

theorem enqueueOutbox_prefix {store : ChannelStore} {message : OutboundMessage} {a : Readings}
    (t : ChannelTables) : t.outbox <+: (enqueueOutbox store message a t).2.outbox := by
  rcases h : enqueueOutbox store message a t with ⟨e | row, t'⟩
  · have hsame : t' = t := Txn.Atomic.state (Txn.atomically_atomic _) h
    exact hsame ▸ List.prefix_rfl
  · obtain ⟨json, hash, -, -, rfl, -⟩ := enqueueOutboxLocked_ok (Txn.atomically_ok.1 h)
    exact insertOutbox_prefix _ _

theorem onOutbox_grown {α : Type} {op : Op α} (h : ∀ t, t.outbox <+: (op t).2.outbox) :
    Txn.Within Grown (onOutbox op) := by
  intro w
  have hrows := h ⟨[], w.outbox, [], []⟩
  unfold onOutbox
  rcases hop : op ⟨[], w.outbox, [], []⟩ with ⟨r, t⟩
  rw [hop] at hrows
  exact ⟨hrows, List.prefix_rfl⟩

theorem grown_bind {α β : Type} {x : NotifyOp α} {f : α → NotifyOp β} (hx : Txn.Within Grown x)
    (hf : ∀ a, Txn.Within Grown (f a)) : Txn.Within Grown (x >>= f) :=
  Txn.Within.bind (R := Grown) Grown.trans hx hf

theorem grown_read_bind {α β : Type} {x : NotifyOp α} {f : α → NotifyOp β} (hx : Txn.ReadOnly x)
    (hf : ∀ a, Txn.Within Grown (f a)) : Txn.Within Grown (x >>= f) :=
  grown_bind (hx.within (R := Grown) .refl) hf

theorem perform_grown {store : ChannelStore} {now : Timestamp} {β : Type} (call : NotifyCall β) :
    Txn.Within Grown (call.perform store now) := by
  cases call with
  | listLinkedInbox limit after =>
      exact grown_read_bind (Txn.require_readOnly _ _) fun _ => fun w => .refl w
  | getRun record runId => exact fun w => ⟨List.prefix_rfl, List.prefix_rfl⟩
  | notificationExists key => exact fun w => .refl w
  | enqueueOutbox message => exact onOutbox_grown enqueueOutbox_prefix
  | recordNotification key platform externalEventId outboxKeys =>
      refine grown_read_bind (Txn.require_readOnly _ _) fun _ =>
        grown_read_bind (Txn.require_readOnly _ _) fun _ =>
          grown_read_bind (Txn.lift_readOnly _) fun keysJson =>
            Txn.Within.atomically (R := Grown) .refl ?_
      refine grown_read_bind (Txn.read_readOnly _) fun _ =>
        grown_read_bind (Txn.require_readOnly _ _) fun _ =>
          grown_read_bind (Txn.read_readOnly _) fun _ =>
            grown_read_bind (Txn.require_readOnly _ _) fun _ => ?_
      refine grown_bind (fun w => insertNotification_grown _ w) fun _ =>
        grown_read_bind (Txn.read_readOnly _) fun _ =>
          grown_read_bind (Txn.getOr_readOnly _ _) fun _ => fun w => .refl w

theorem Runs.grown {α : Type} {program : NotifyProgram α} {r : Except PyError α}
    (h : Runs harness.system program w r w') : Grown w w' := by
  induction h with
  | done => exact .refl _
  | @call β e k q r w v w'' hexec _ ih =>
      obtain ⟨now, hperform⟩ := hexec
      have hcall := @perform_grown harness.store now _ e w
      rw [hperform] at hcall
      exact hcall.trans ih

/-! Every notification once. -/

def lacksNotice (w : Notifying) (record : InboxRecord) : Bool :=
  record.runId.any fun runId => (w.runs runId).noticeSuffix.any fun suffix =>
    (findNotification (notificationKey record.envelope suffix) w).isNone

/-- The rows whose runs have ended, or wait for approval, and that have not been notified of it. -/
def dueRows (w : Notifying) : List InboxRecord := (linkedInbox w).filter (lacksNotice w)

theorem isMarked_noticeTask {record : InboxRecord} {runId suffix : String} {run : RunView} :
    w.state.isMarked (harness.noticeTask record runId run suffix) =
      (findNotification (notificationKey record.envelope suffix) w).isSome := by
  rw [State.isMarked, Bool.eq_iff_iff, decide_eq_true_iff]
  exact mem_state_marks

theorem task_due (record : InboxRecord) : lacksNotice w record = true ↔
    ∃ task, harness.task w.runs record = some task ∧ w.state.isMarked task = false := by
  cases hrun : record.runId with
  | none => simp [lacksNotice, ChannelHarness.task, hrun]
  | some runId =>
      cases hsuffix : (w.runs runId).noticeSuffix with
      | none => simp [lacksNotice, ChannelHarness.task, hrun, hsuffix]
      | some suffix =>
          simp [lacksNotice, ChannelHarness.task, hrun, hsuffix, isMarked_noticeTask]

theorem due_tasks (records : List InboxRecord) : w.state.due (harness.tasks w.runs records) =
    harness.tasks w.runs (records.filter (lacksNotice w)) := by
  induction records with
  | nil => rfl
  | cons record records ih =>
      have hsplit : harness.tasks w.runs (record :: records) =
          harness.tasks w.runs [record] ++ harness.tasks w.runs records :=
        @NoticesReady.tasks_append harness [record] records w.runs
      rw [hsplit, State.due_append, ih, tasks_singleton, List.filter_cons]
      by_cases hlacks : lacksNotice w record = true
      · obtain ⟨task, htask, hunmarked⟩ := (@task_due harness w record).1 hlacks
        rw [if_pos hlacks, htask, Option.toList_some, State.due_singleton]
        simp [hunmarked, ChannelHarness.tasks, htask]
      · rw [if_neg hlacks]
        cases htask : harness.task w.runs record with
        | none => rfl
        | some task =>
            have hmarked : w.state.isMarked task = true := by
              by_contra hunmarked
              exact hlacks (task_due record |>.2 ⟨task, htask, by simpa using hunmarked⟩)
            rw [Option.toList_some, State.due_singleton, if_pos hmarked, List.nil_append]

theorem length_tasks_due (w : Notifying) :
    (harness.tasks w.runs (dueRows w)).length = (dueRows w).length := by
  have hall : ∀ record ∈ dueRows w, (harness.task w.runs record).isSome = true := fun record hrecord => by
    obtain ⟨task, htask, -⟩ := (@task_due harness w record).1 (List.mem_filter.1 hrecord).2
    rw [htask]
    rfl
  generalize dueRows w = records at hall
  induction records with
  | nil => rfl
  | cons record records ih =>
      obtain ⟨hrecord, hrecords⟩ := List.forall_mem_cons.1 hall
      obtain ⟨task, htask⟩ := Option.isSome_iff_exists.1 hrecord
      have hrest := ih hrecords
      rw [ChannelHarness.tasks] at hrest ⊢
      rw [List.filterMap_cons_some htask, List.length_cons, List.length_cons, hrest]

/-- What a pass that comes to its end has done. -/
structure PassOutcome (harness : ChannelHarness) (w : Notifying) (r : Except PyError ℕ)
    (w' : Notifying) : Prop where
  visits : w'.visited = w.visited ++ linkedInbox w
  result : r = .ok (dueRows w).length
  outbox : ∃ rows, w'.outbox = w.outbox ++ rows ∧
    rows.map (fun row => (row.idempotencyKey, some row.timeless)) =
      ((harness.tasks w.runs (dueRows w)).flatMap Task.items).filter fun item =>
        item.1 ∉ w.outbox.map OutboxRow.idempotencyKey
  notifications : ∃ rows, w'.notifications = w.notifications ++ rows ∧
    rows.map (fun row => (row.notificationKey, some row.timeless)) =
      (harness.tasks w.runs (dueRows w)).map Task.mark
  unchanged : w'.inbox = w.inbox ∧ w'.runs = w.runs

/-- A pass notifies once, another one has nothing to do, and one that follows a stopped one makes up
for it. -/
structure NotifiesOnce (harness : ChannelHarness) (pageSize : ℤ) (fuel : ℕ) (w : Notifying) :
    Prop where
  rows : (linkedInbox w).Perm (w.inbox.filter (·.runId.isSome)) ∧
    ((linkedInbox w).map InboxRecord.rowKey).Nodup
  returns : ∃ r w', Runs harness.system (harness.enqueueCompletionNotificationsOnce pageSize fuel)
    w r w'
  first : ∀ {r w'}, Runs harness.system (harness.enqueueCompletionNotificationsOnce pageSize fuel)
    w r w' → PassOutcome harness w r w'
  second : ∀ {r w' r' w''},
    Runs harness.system (harness.enqueueCompletionNotificationsOnce pageSize fuel) w r w' →
    Runs harness.system (harness.enqueueCompletionNotificationsOnce pageSize fuel) w' r' w'' →
    r' = .ok 0 ∧ w''.outbox = w'.outbox ∧ w''.notifications = w'.notifications
  stopped : ∀ {w₁},
    Halts harness.system (harness.enqueueCompletionNotificationsOnce pageSize fuel) w w₁ →
    ∃ k, w₁.state = w.state.run
      (((harness.tasks w.runs (dueRows w)).flatMap Task.writes).take k)
  resumed : ∀ {r w' w₁ r₂ w₂},
    Runs harness.system (harness.enqueueCompletionNotificationsOnce pageSize fuel) w r w' →
    Halts harness.system (harness.enqueueCompletionNotificationsOnce pageSize fuel) w w₁ →
    Runs harness.system (harness.enqueueCompletionNotificationsOnce pageSize fuel) w₁ r₂ w₂ →
    w₂.outbox.map OutboxRow.timeless = w'.outbox.map OutboxRow.timeless ∧
      w₂.notifications.map NotificationRow.timeless = w'.notifications.map NotificationRow.timeless

theorem state_timeless (h : w'.state = w.state) :
    w'.outbox.map OutboxRow.timeless = w.outbox.map OutboxRow.timeless ∧
      w'.notifications.map NotificationRow.timeless = w.notifications.map NotificationRow.timeless := by
  have hitems := congrArg (fun s : NoticeState => s.items.map Prod.snd) h
  have hmarks := congrArg (fun s : NoticeState => s.marks.map Prod.snd) h
  simp only [Notifying.state, List.map_map] at hitems hmarks
  exact ⟨(Option.some_injective _).list_map (by rw [List.map_map, List.map_map]; exact hitems),
    (Option.some_injective _).list_map (by rw [List.map_map, List.map_map]; exact hmarks)⟩

theorem NotifyInv.outcome (h : NotifyInv harness w) {r : Except PyError ℕ}
    (hgrown : Grown w w')
    (hcarried : r = .ok (w.state.due (harness.tasks w.runs (linkedInbox w))).length ∧
      w'.state = w.state.run (w.state.pending (harness.tasks w.runs (linkedInbox w))) ∧
      w'.visited = w.visited ++ linkedInbox w ∧
      ChannelHarness.view.frame w' = ChannelHarness.view.frame w) : PassOutcome harness w r w' := by
  obtain ⟨hresult, hstate, hvisited, hframe⟩ := hcarried
  obtain ⟨⟨rows, hrows⟩, ⟨notices, hnotices⟩⟩ := hgrown
  have hmarks := @tasks_marks harness w h.keyed
  obtain ⟨hmarked, hitems⟩ := @State.run_pending _ _ _ _ w.state _ _ _ hmarks
  have hdue : w.state.due (harness.tasks w.runs (linkedInbox w)) =
      harness.tasks w.runs (dueRows w) := due_tasks _
  rw [← hstate, hdue] at hmarked hitems
  have hsublist : ((harness.tasks w.runs (dueRows w)).flatMap Task.items).Sublist
      (noticeItems harness w) := by
    rw [← hdue]
    exact List.filter_sublist.flatMap _
  rw [State.run_puts_fresh ((noticeItems_keys h.keyed).sublist (hsublist.map _))] at hitems
  refine ⟨hvisited, ?_, ⟨rows, hrows.symm, ?_⟩, ⟨notices, hnotices.symm, ?_⟩,
    Prod.mk.inj hframe⟩
  · rw [hresult, hdue]
    exact congrArg Except.ok (length_tasks_due w)
  · rw [Notifying.state, ← hrows, List.map_append] at hitems
    have hfresh := List.append_cancel_left hitems
    rw [hfresh, Notifying.state, List.map_map]
    rfl
  · rw [Notifying.state, ← hnotices, List.map_append] at hmarked
    exact List.append_cancel_left hmarked

theorem exists_runs {α : Type} (program : NotifyProgram α) :
    ∃ r w', Runs harness.system program w r w' := by
  induction program generalizing w with
  | done r => exact ⟨r, w, .done⟩
  | call e k ih =>
      obtain ⟨r, w', hrest⟩ := @ih (e.perform harness.store 0 w).1 (e.perform harness.store 0 w).2
      exact ⟨r, w', .call ⟨0, rfl⟩ hrest⟩

theorem Grown.eq_of_state (h : Grown w w') (hstate : w'.state = w.state) :
    w'.outbox = w.outbox ∧ w'.notifications = w.notifications := by
  obtain ⟨⟨rows, hrows⟩, ⟨notices, hnotices⟩⟩ := h
  have hitems := congrArg (fun s : NoticeState => s.items.length) hstate
  have hmarks := congrArg (fun s : NoticeState => s.marks.length) hstate
  simp only [Notifying.state, List.length_map, ← hrows, ← hnotices, List.length_append] at hitems hmarks
  obtain rfl : rows = [] := List.eq_nil_of_length_eq_zero (by omega)
  obtain rfl : notices = [] := List.eq_nil_of_length_eq_zero (by omega)
  exact ⟨by rw [← hrows, List.append_nil], by rw [← hnotices, List.append_nil]⟩

theorem notifies_once {pageSize : ℤ} {fuel : ℕ} (h : NotifierReach harness w) (hlow : 1 ≤ pageSize)
    (hhigh : pageSize ≤ 5000) (hfuel : (linkedInbox w).length < fuel) :
    NotifiesOnce harness pageSize fuel w := by
  have hinv := NotifyInv.reach h
  have hcarries := hinv.carries hlow hhigh hfuel
  have hmarks := @tasks_marks harness w hinv.keyed
  have hafter : ∀ {v k}, v.state =
      w.state.run ((w.state.pending (harness.tasks w.runs (linkedInbox w))).take k) →
      ChannelHarness.view.frame v = ChannelHarness.view.frame w →
      Carries harness.system ChannelHarness.view
        (harness.enqueueCompletionNotificationsOnce pageSize fuel) v
        (.ok (v.state.due (harness.tasks w.runs (linkedInbox w))).length)
        (v.state.pending (harness.tasks w.runs (linkedInbox w))) (linkedInbox w) := by
    intro v k hstate hframe
    obtain ⟨hinbox, hruns⟩ : v.inbox = w.inbox ∧ v.runs = w.runs := Prod.mk.inj hframe
    have hlinked : linkedInbox v = linkedInbox w := by
      rw [linkedInbox, linkedInbox, linkedRows, linkedRows, hinbox]
    have hagain := (hinv.writes hstate hinbox hruns).carries hlow hhigh (by rwa [hlinked])
    rwa [hlinked, hruns] at hagain
  refine ⟨⟨Keyset.ordered_perm, List.pairwise_map.2 (rowKeys_pairwise hinv.keyed)⟩, exists_runs _,
    fun hruns => hinv.outcome (Runs.grown hruns) (hcarries.runs hruns), ?_, ?_, ?_⟩
  · intro r w' r' w'' hruns hruns'
    obtain ⟨-, hstate, -, hframe⟩ := hcarries.runs hruns
    change w'.state = w.state.run _ at hstate
    have hall : w'.state = w.state.run ((w.state.pending (harness.tasks w.runs (linkedInbox w))).take
        (w.state.pending (harness.tasks w.runs (linkedInbox w))).length) := by
      rw [List.take_length, hstate]
    have hdone : w'.state.due (harness.tasks w.runs (linkedInbox w)) = [] := by
      rw [hstate]
      exact State.run_pending_marked hmarks
    obtain ⟨hresult, hstate', -⟩ := (hafter hall hframe).runs hruns'
    rw [hdone] at hresult
    rw [State.pending_eq_due, hdone] at hstate'
    exact ⟨hresult, (Runs.grown hruns').eq_of_state hstate'⟩
  · intro w₁ hhalts
    obtain ⟨⟨k, hstate⟩, -⟩ := hcarries.halts hhalts
    rw [State.pending_eq_due, due_tasks] at hstate
    exact ⟨k, hstate⟩
  · intro r w' w₁ r₂ w₂ hruns hhalts hruns'
    obtain ⟨⟨k, hstate⟩, hframe⟩ := hcarries.halts hhalts
    obtain ⟨-, hwhole, -⟩ := hcarries.runs hruns
    obtain ⟨-, hresumed, -⟩ := (hafter hstate hframe).runs hruns'
    change w₁.state = w.state.run _ at hstate
    change w'.state = w.state.run _ at hwhole
    change w₂.state = w₁.state.run _ at hresumed
    refine state_timeless ?_
    rw [hresumed, hwhole, hstate]
    exact State.run_resumed hmarks k

end

/-! One row, whose run has come to its end. -/

namespace Notice

def harness : ChannelHarness := ⟨Relay.store, true, true⟩

def record : InboxRecord where
  envelope :=
    { platform := .telegram
      externalEventId := "1:5"
      eventType := "message"
      userId := "7"
      channelId := "7"
      threadKey := "telegram:7"
      downstreamKey := "channel:telegram:1:5"
      text := some "summarise"
      messageId := some "5"
      callbackQueryId := none
      callbackData := none
      action := "message"
      receivedAt := none
      metadata := [] }
  runId := some "run_1"
  updatedAt := "2025-01-01T00:00:00.000000Z"
  finite := rfl

def world : Notifying where
  inbox := [record]
  outbox := []
  notifications := []
  runs _ := ⟨.completed, [], some "done"⟩
  visited := []

theorem reach : NotifierReach harness world := .start (by decide) (by simp [world]) rfl

end Notice

theorem notifies_once_completed : dueRows Notice.world = [Notice.record] ∧
    NotifiesOnce Notice.harness 500 2 Notice.world :=
  ⟨rfl, notifies_once Notice.reach (by decide) (by decide) (by decide)⟩

/-- The store takes pages of no more than 5000 rows. -/
theorem page_size_refused : ¬∀ (harness : ChannelHarness) (w : Notifying) (pageSize : ℤ) (fuel : ℕ),
    NotifierReach harness w → 1 ≤ pageSize → (linkedInbox w).length < fuel →
      NotifiesOnce harness pageSize fuel w := by
  intro hall
  have honce := hall Notice.harness Notice.world 5001 2 Notice.reach (by decide) (by decide)
  obtain ⟨r, w', hruns⟩ := honce.returns
  have hresult := (honce.first hruns).result
  rw [((pass_refused (by decide) (by decide)).1 r hruns).1] at hresult
  cases hresult

end Polaris
