import Polaris.Channels.NoticeCalls

namespace Polaris
open PyJson SortedDict ChannelStore OnceEach Program

namespace ChannelHarness
variable (harness : ChannelHarness)

def parts (message : OutboundMessage) : List OutboundMessage :=
  (harness.prepareOutbound message).toOption.getD []

/-- What a pass has to write for a row whose run has a notification. -/
def noticeTask (record : InboxRecord) (runId : String) (run : RunView) (suffix : String) :
    NoticeTask :=
  let notice := completionNotice record.envelope runId run suffix
  { items := (harness.parts notice).map fun part =>
      (part.idempotencyKey, harness.store.outboxEntry part)
    mark := (notice.idempotencyKey, notificationEntry notice.idempotencyKey record.envelope.platform
      record.envelope.externalEventId
      ((harness.parts notice).map OutboundMessage.idempotencyKey)) }

def task (runs : String → RunView) (record : InboxRecord) : Option NoticeTask :=
  record.runId.bind fun runId =>
    (runs runId).noticeSuffix.map (harness.noticeTask record runId (runs runId))

def tasks (runs : String → RunView) (records : List InboxRecord) : List NoticeTask :=
  records.filterMap (harness.task runs)

def view : View Notifying String (Option OutboxRow) String (Option NotificationRow) InboxRecord
    (List InboxRecord × (String → RunView)) where
  state := Notifying.state
  log := Notifying.visited
  frame w := (w.inbox, w.runs)

end ChannelHarness

section
variable {harness : ChannelHarness} {w : Notifying} {items : List (String × Option OutboxRow)}

theorem parts_spec {message : OutboundMessage} (hsend : message.operation = .send) :
    harness.prepareOutbound message = .ok (harness.parts message) ∧
      IsPrepared message (harness.parts message) := by
  obtain ⟨parts, hparts, hprepared⟩ := prepareOutbound_ok harness hsend
  have hsame : harness.parts message = parts := by
    simp [ChannelHarness.parts, hparts, Except.toOption]
  exact ⟨hsame ▸ hparts, hsame ▸ hprepared⟩

theorem sameContent_refl (row : Option OutboxRow) : SameContent row row := rfl

/-- The parts of a message, which go to the outbox one after the other. -/
theorem enqueueParts_carries {parts : List OutboundMessage}
    (hfinite : ∀ part ∈ parts, PyVal.entriesFinite part.metadata = true)
    (hitems : ∀ part ∈ parts, (part.idempotencyKey, harness.store.outboxEntry part) ∈ items)
    (hkeys : (items.map Prod.fst).Nodup) (hagrees : w.state.Agrees SameContent items) :
    Carries harness.system ChannelHarness.view (ChannelHarness.enqueueParts parts) w (.ok ())
      (parts.map fun part => .put (part.idempotencyKey, harness.store.outboxEntry part)) [] := by
  induction parts generalizing w with
  | nil => exact carries_done
  | cons part parts ih =>
      obtain ⟨hpart, hparts⟩ := List.forall_mem_cons.1 hfinite
      obtain ⟨hitem, hrest⟩ := List.forall_mem_cons.1 hitems
      change Carries _ _ (perform _ >>= _) _ _ ([_] ++ _) ([] ++ [])
      refine carries_perform_bind ?_
      rintro q w' ⟨now, hperform⟩
      obtain ⟨⟨row, rfl⟩, hstate, hinbox, hruns, hvisited⟩ := enqueueOutbox_state hpart
        (fun held hheld hkey => hagrees _ hitem held hheld hkey) hperform
      refine ⟨row, rfl, hstate, by simpa [ChannelHarness.view] using hvisited,
        by simp [ChannelHarness.view, hinbox, hruns], ih hparts hrest ?_⟩
      rw [hstate]
      exact hagrees.put sameContent_refl hkeys hitem

theorem notificationKey_ne {envelope : ChannelEnvelope} {suffix : String} :
    notificationKey envelope suffix ≠ "" := by
  intro hempty
  have hlist := congrArg String.toList hempty
  rw [notificationKey_toList] at hlist
  simp at hlist

theorem sendNotice_carries {record : InboxRecord} {runId suffix : String} {run : RunView}
    (hknown : record ∈ w.inbox)
    (hitems : ∀ item ∈ (harness.noticeTask record runId run suffix).items, item ∈ items)
    (hkeys : (items.map Prod.fst).Nodup) (hagrees : w.state.Agrees SameContent items)
    (hnew : w.state.isMarked (harness.noticeTask record runId run suffix) = false) :
    Carries harness.system ChannelHarness.view (harness.sendNotice record runId run suffix) w (.ok 1)
      (harness.noticeTask record runId run suffix).writes [] := by
  have hsend : (completionNotice record.envelope runId run suffix).operation = .send := rfl
  obtain ⟨hprepare, hprepared⟩ := @parts_spec harness _ hsend
  have hfinite := hprepared.finite (completionNotice_finite record.finite)
  have hparts : ∀ part ∈ harness.parts (completionNotice record.envelope runId run suffix),
      (part.idempotencyKey, harness.store.outboxEntry part) ∈ items := fun part hpart =>
    hitems _ (List.mem_map_of_mem hpart)
  rw [ChannelHarness.sendNotice]
  simp only [hprepare, ofExcept_ok_bind]
  have hwrites : (harness.noticeTask record runId run suffix).writes =
      ((harness.parts (completionNotice record.envelope runId run suffix)).map fun part =>
        .put (part.idempotencyKey, harness.store.outboxEntry part)) ++
      ([.mark (harness.noticeTask record runId run suffix).mark] ++ []) := by
    simp [Task.writes, ChannelHarness.noticeTask, Function.comp_def]
  rw [hwrites]
  change Carries _ _ (_ >>= _) _ _ (_ ++ _) ([] ++ ([] ++ []))
  refine (enqueueParts_carries hfinite hparts hkeys hagrees).bind fun w' hruns => ?_
  obtain ⟨-, hstate, -, hframe⟩ := (enqueueParts_carries hfinite hparts hkeys hagrees).runs hruns
  refine carries_perform_bind ?_
  rintro q w'' ⟨now, hperform⟩
  have hinbox : w'.inbox = w.inbox := congrArg Prod.fst hframe
  have hputs : w'.state = w.state.run
      ((harness.noticeTask record runId run suffix).items.map .put) := by
    rw [ChannelHarness.noticeTask, List.map_map]
    exact hstate
  have hdurable : ∀ k ∈ (harness.parts (completionNotice record.envelope runId run suffix)).map
      OutboundMessage.idempotencyKey, k ∈ w'.state.items.map Prod.fst := by
    intro k hk
    obtain ⟨part, hpart, rfl⟩ := List.mem_map.1 hk
    rw [hputs]
    exact State.mem_run_puts _ (List.mem_map_of_mem (f := fun part : OutboundMessage =>
      (part.idempotencyKey, harness.store.outboxEntry part)) hpart)
  have hnew' : (harness.noticeTask record runId run suffix).mark.1 ∉ w'.state.marks.map Prod.fst := by
    rw [hputs, State.run_puts_marks]
    simpa [State.isMarked] using hnew
  obtain ⟨rfl, hmark, hinbox', hruns', hvisited⟩ := recordNotification_state notificationKey_ne
    (fun hnil => hprepared.nonempty (List.map_eq_nil_iff.1 hnil)) hdurable
    (by rw [hinbox]; exact List.mem_map_of_mem hknown) hnew' hperform
  exact ⟨(), rfl, hmark, by simpa [ChannelHarness.view] using hvisited,
    by simp [ChannelHarness.view, hinbox', hruns'], carries_done⟩

/-- What a pass over some rows rests on: the notifications have keys of their own, and what is in the
outbox under them has their content. -/
structure NoticesReady (harness : ChannelHarness) (w : Notifying) (records : List InboxRecord)
    (items : List (String × Option OutboxRow)) : Prop where
  known : ∀ record ∈ records, record ∈ w.inbox
  marks : ((harness.tasks w.runs records).map fun task => task.mark.1).Nodup
  parts : ∀ task ∈ harness.tasks w.runs records, ∀ item ∈ task.items, item ∈ items
  keys : (items.map Prod.fst).Nodup
  agrees : w.state.Agrees SameContent items

namespace NoticesReady
variable {w' : Notifying} {record : InboxRecord} {records more : List InboxRecord}

theorem tasks_append {runs : String → RunView} : harness.tasks runs (records ++ more) =
    harness.tasks runs records ++ harness.tasks runs more := List.filterMap_append ..

theorem left (h : NoticesReady harness w (records ++ more) items) :
    NoticesReady harness w records items where
  known record hrecord := h.known record (List.mem_append_left _ hrecord)
  marks := by
    have hmarks := h.marks
    rw [tasks_append, List.map_append] at hmarks
    exact hmarks.of_append_left
  parts task htask := h.parts task (tasks_append ▸ List.mem_append_left _ htask)
  keys := h.keys
  agrees := h.agrees

/-- What is left after some of the writes. -/
theorem right (h : NoticesReady harness w (records ++ more) items)
    (hstate : w'.state = w.state.run (w.state.pending (harness.tasks w.runs records)))
    (hframe : ChannelHarness.view.frame w' = ChannelHarness.view.frame w) :
    NoticesReady harness w' more items := by
  obtain ⟨hinbox, hruns⟩ : w'.inbox = w.inbox ∧ w'.runs = w.runs := Prod.mk.inj hframe
  refine ⟨fun record hrecord => ?_, ?_, fun task htask => ?_, h.keys, ?_⟩
  · rw [hinbox]
    exact h.known record (List.mem_append_right _ hrecord)
  · have hmarks := h.marks
    rw [tasks_append, List.map_append] at hmarks
    rw [hruns]
    exact hmarks.of_append_right
  · rw [hruns] at htask
    exact h.parts task (tasks_append ▸ List.mem_append_right _ htask)
  · rw [hstate]
    refine h.agrees.run sameContent_refl h.keys fun item hitem => ?_
    obtain ⟨task, htask, hwrite⟩ := List.mem_flatMap.1 hitem
    split at hwrite
    · cases hwrite
    · have hput : item ∈ task.items := by simpa [Task.writes] using hwrite
      exact h.parts task (tasks_append ▸ List.mem_append_left _ htask) item hput

/-- The writes for the first rows leave what is pending for the others. -/
theorem pending_right (h : NoticesReady harness w (records ++ more) items)
    (hstate : w'.state = w.state.run (w.state.pending (harness.tasks w.runs records))) :
    w'.state.pending (harness.tasks w.runs more) = w.state.pending (harness.tasks w.runs more) ∧
      w'.state.due (harness.tasks w.runs more) = w.state.due (harness.tasks w.runs more) := by
  have hmarks := h.marks
  rw [tasks_append] at hmarks
  have hsame := @State.isMarked_run_pending _ _ _ _ w.state _ _ _ _ hmarks
  rw [← hstate] at hsame
  exact ⟨State.pending_congr hsame, State.due_congr hsame⟩

end NoticesReady

theorem tasks_singleton {runs : String → RunView} (record : InboxRecord) :
    harness.tasks runs [record] = (harness.task runs record).toList := by
  cases h : harness.task runs record <;> simp [ChannelHarness.tasks, h]

theorem notifyRecord_carries {record : InboxRecord} (h : NoticesReady harness w [record] items)
    (hlinked : record.runId.isSome = true) :
    Carries harness.system ChannelHarness.view (harness.notifyRecord record) w
      (.ok (w.state.due (harness.tasks w.runs [record])).length)
      (w.state.pending (harness.tasks w.runs [record])) [record] := by
  obtain ⟨runId, hrun⟩ := Option.isSome_iff_exists.1 hlinked
  have hparts := h.parts
  rw [tasks_singleton] at hparts ⊢
  simp only [ChannelHarness.task, hrun, Option.bind_some] at hparts ⊢
  simp only [ChannelHarness.notifyRecord, hrun]
  change Carries _ _ (perform _ >>= _) _ _ _ ([record] ++ [])
  refine carries_read_bind ?_
  rintro q w' ⟨now, hperform⟩
  obtain ⟨rfl, rfl⟩ := Prod.mk.inj hperform
  refine ⟨w.runs runId, rfl, rfl, rfl, rfl, ?_⟩
  cases hsuffix : (w.runs runId).noticeSuffix with
  | none => exact carries_done
  | some suffix =>
      simp only [hsuffix, Option.map_some, Option.toList_some, List.forall_mem_singleton] at hparts
      have hmarked : w.state.isMarked (harness.noticeTask record runId (w.runs runId) suffix) =
          (findNotification (notificationKey record.envelope suffix) w).isSome := by
        rw [State.isMarked, Bool.eq_iff_iff, decide_eq_true_iff]
        exact mem_state_marks
      rw [Option.map_some, Option.toList_some, State.pending_singleton, State.due_singleton]
      by_cases hknown : w.state.isMarked (harness.noticeTask record runId (w.runs runId) suffix) = true
      · rw [if_pos hknown, if_pos hknown]
        change Carries _ _ (perform _ >>= _) _ _ _ ([] ++ [])
        refine carries_read_bind ?_
        rintro q w' ⟨now, hperform⟩
        obtain ⟨rfl, rfl⟩ := Prod.mk.inj hperform
        refine ⟨true, congrArg Except.ok (hmarked.symm.trans hknown), rfl, (List.append_nil _).symm,
          rfl, carries_done⟩
      · rw [if_neg hknown, if_neg hknown]
        simp only [Bool.not_eq_true] at hknown
        change Carries _ _ (perform _ >>= _) _ _ _ ([] ++ [])
        refine carries_read_bind ?_
        rintro q w' ⟨now, hperform⟩
        obtain ⟨rfl, rfl⟩ := Prod.mk.inj hperform
        exact ⟨false, congrArg Except.ok (hmarked.symm.trans hknown), rfl, (List.append_nil _).symm,
          rfl, sendNotice_carries (h.known record (List.mem_singleton_self _)) hparts h.keys h.agrees
            hknown⟩

theorem notifyPage_carries {records : List InboxRecord} (h : NoticesReady harness w records items)
    (hlinked : ∀ record ∈ records, record.runId.isSome = true) :
    Carries harness.system ChannelHarness.view (harness.notifyPage records) w
      (.ok (w.state.due (harness.tasks w.runs records)).length)
      (w.state.pending (harness.tasks w.runs records)) records := by
  induction records generalizing w with
  | nil => exact carries_done
  | cons record records ih =>
      obtain ⟨hrecord, hrecords⟩ := List.forall_mem_cons.1 hlinked
      change NoticesReady harness w ([record] ++ records) items at h
      change Carries _ _ (_ >>= _) _ _ _ ([record] ++ records)
      have hsplit : harness.tasks w.runs (record :: records) =
          harness.tasks w.runs [record] ++ harness.tasks w.runs records :=
        @NoticesReady.tasks_append harness [record] records w.runs
      have hfirst := notifyRecord_carries h.left hrecord
      rw [hsplit, State.pending_append, State.due_append, List.length_append]
      refine hfirst.bind fun w' hruns => ?_
      obtain ⟨-, hstate, -, hframe⟩ := hfirst.runs hruns
      have hruns : w'.runs = w.runs := congrArg Prod.snd hframe
      obtain ⟨hpending, hdue⟩ := h.pending_right hstate
      have hrest := ih (h.right hstate hframe) hrecords
      rw [hruns, hpending, hdue] at hrest
      have hsum := hrest.bind (f := fun n => pure
        ((w.state.due (harness.tasks w.runs [record])).length + n)) fun _ _ => carries_done
      simpa only [List.append_nil] using hsum

/-! The pages. -/

def cursorKey (after : String × Platform × String) : String ×ₗ String ×ₗ String :=
  toLex (after.1, toLex (after.2.1.value, after.2.2))

theorem Platform.value_inj {p q : Platform} : p.value = q.value ↔ p = q := by
  cases p <;> cases q <;> simp [Platform.value]

theorem isAfter_iff {record : InboxRecord} {after : String × Platform × String} :
    record.isAfter after = true ↔ cursorKey after < record.sortKey := by
  rw [cursorKey, InboxRecord.sortKey, Prod.Lex.toLex_lt_toLex, Prod.Lex.toLex_lt_toLex,
    Platform.value_inj]
  simp only [InboxRecord.isAfter, Bool.or_eq_true, Bool.and_eq_true, decide_eq_true_eq]
  constructor
  · rintro ((h | ⟨h, hp⟩) | ⟨⟨h, hp⟩, he⟩)
    · exact .inl h
    · exact .inr ⟨h.symm, .inl hp⟩
    · exact .inr ⟨h.symm, .inr ⟨hp.symm, he⟩⟩
  · rintro (h | ⟨h, hp | ⟨hp, he⟩⟩)
    · exact .inl (.inl h)
    · exact .inl (.inr ⟨h.symm, hp⟩)
    · exact .inr ⟨⟨h.symm, hp.symm⟩, he⟩

def linkedRows (w : Notifying) : List InboxRecord := w.inbox.filter (·.runId.isSome)

/-- The linked rows in the order in which a pass comes to them. -/
def linkedInbox (w : Notifying) : List InboxRecord :=
  Keyset.ordered InboxRecord.sortKey (linkedRows w)

theorem mem_linkedInbox {record : InboxRecord} :
    record ∈ linkedInbox w ↔ record ∈ w.inbox ∧ record.runId.isSome = true := by
  rw [linkedInbox, Keyset.mem_ordered, linkedRows, List.mem_filter]

theorem sortKeys_nodup (h : (w.inbox.map InboxRecord.rowKey).Nodup) :
    ((linkedRows w).map InboxRecord.sortKey).Nodup := by
  have hrows : ((linkedRows w).map InboxRecord.rowKey).Nodup :=
    h.sublist (List.filter_sublist.map _)
  refine List.Nodup.of_map (fun key : String ×ₗ String ×ₗ String => ofLex (ofLex key).2) ?_
  rw [List.map_map]
  have hvalue : ((linkedRows w).map InboxRecord.rowKey).map (fun key => (key.1.value, key.2)) =
      (linkedRows w).map ((fun key : String ×ₗ String ×ₗ String => ofLex (ofLex key).2) ∘
        InboxRecord.sortKey) := List.map_map
  rw [← hvalue]
  refine hrows.map fun a b hab => ?_
  obtain ⟨hplatform, hevent⟩ := Prod.mk.inj hab
  exact Prod.ext (Platform.value_inj.1 hplatform) hevent

theorem listLinkedInbox_page {limit : ℤ} {after : Option (String × Platform × String)}
    (hlow : 1 ≤ limit) (hhigh : limit ≤ 5000) :
    ChannelStore.listLinkedInbox none limit after w =
      (.ok (Keyset.page InboxRecord.sortKey limit.toNat (after.map cursorKey) (linkedRows w)), w) := by
  have hlimit : (decide (1 ≤ limit) && decide (limit ≤ 5000)) = true := by simp [hlow, hhigh]
  have hrows : (w.inbox.filter fun record => record.runId.isSome &&
      (none : Option Platform).all (record.envelope.platform = ·) && after.all record.isAfter) =
      (linkedRows w).filter fun record => (after.map cursorKey).all (· < record.sortKey) := by
    rw [linkedRows, List.filter_filter]
    refine List.filter_congr fun record _ => ?_
    cases after with
    | none => simp
    | some after =>
        rw [Bool.eq_iff_iff]
        simp [isAfter_iff, and_comm]
  rw [Keyset.page, Keyset.ordered, ← hrows]
  simp only [ChannelStore.listLinkedInbox, Txn.bind_ok, Txn.require_ok, Txn.read_ok]
  exact ⟨(), w, ⟨hlimit, rfl⟩, rfl, rfl⟩

theorem notifyFrom_carries {pageSize : ℤ} {fuel : ℕ} {before rest : List InboxRecord}
    (hlow : 1 ≤ pageSize) (hhigh : pageSize ≤ 5000)
    (hkeyed : (w.inbox.map InboxRecord.rowKey).Nodup) (hsplit : linkedInbox w = before ++ rest)
    (hfuel : rest.length < fuel) (h : NoticesReady harness w rest items) :
    Carries harness.system ChannelHarness.view
      (harness.notifyFrom pageSize fuel (before.getLast?.map InboxRecord.cursor)) w
      (.ok (w.state.due (harness.tasks w.runs rest)).length)
      (w.state.pending (harness.tasks w.runs rest)) rest := by
  induction fuel generalizing w before rest with
  | zero => omega
  | succ fuel ih =>
      have hpage : Keyset.page InboxRecord.sortKey pageSize.toNat
          (before.getLast?.map InboxRecord.sortKey) (linkedRows w) = rest.take pageSize.toNat :=
        Keyset.page_after (sortKeys_nodup hkeyed) hsplit
      have hcursor : (before.getLast?.map InboxRecord.cursor).map cursorKey =
          before.getLast?.map InboxRecord.sortKey := by rw [Option.map_map]; rfl
      have hlist : ∀ now, (NotifyCall.listLinkedInbox pageSize
          (before.getLast?.map InboxRecord.cursor)).perform harness.store now w =
            (.ok (rest.take pageSize.toNat), w) := fun now => by
        rw [← hpage, ← hcursor]
        exact listLinkedInbox_page hlow hhigh
      have hlinked : ∀ record ∈ rest, record.runId.isSome = true := fun record hrecord =>
        (mem_linkedInbox.1 (hsplit ▸ List.mem_append_right _ hrecord)).2
      rw [ChannelHarness.notifyFrom]
      change Carries _ _ (perform _ >>= _) _ _ _ ([] ++ rest)
      refine carries_read_bind ?_
      rintro q w' ⟨now, hperform⟩
      obtain ⟨rfl, rfl⟩ := Prod.mk.inj ((hlist now).symm.trans hperform)
      refine ⟨_, rfl, rfl, (List.append_nil _).symm, rfl, ?_⟩
      have hparts : rest = rest.take pageSize.toNat ++ rest.drop pageSize.toNat :=
        (List.take_append_drop _ _).symm
      have hread : (rest.take pageSize.toNat).length = min pageSize.toNat rest.length :=
        List.length_take
      have hleft : (rest.drop pageSize.toNat).length = rest.length - pageSize.toNat :=
        List.length_drop
      generalize rest.take pageSize.toNat = page at hparts hread
      generalize rest.drop pageSize.toNat = more at hparts hleft
      subst hparts
      rw [List.length_append] at hread hleft hfuel
      cases hlast : page.getLast? with
      | none =>
          obtain rfl := List.getLast?_eq_none_iff.1 hlast
          obtain rfl : more = [] := List.eq_nil_of_length_eq_zero (by
            simp only [List.length_nil] at hread hleft
            omega)
          exact carries_done
      | some last =>
          have hsome : 0 < page.length := List.length_pos_iff.2 fun hnil => by simp [hnil] at hlast
          have hfirst := notifyPage_carries h.left fun record hrecord =>
            hlinked record (List.mem_append_left _ hrecord)
          rw [NoticesReady.tasks_append, State.pending_append, State.due_append, List.length_append]
          refine hfirst.bind fun w' hruns => ?_
          obtain ⟨-, hstate, -, hframe⟩ := hfirst.runs hruns
          obtain ⟨hinbox, hruns⟩ : w'.inbox = w.inbox ∧ w'.runs = w.runs := Prod.mk.inj hframe
          by_cases hshort : (page.length : ℤ) < pageSize
          · obtain rfl : more = [] := List.eq_nil_of_length_eq_zero (by omega)
            rw [if_pos hshort]
            exact carries_done
          · rw [if_neg hshort]
            have hgone : linkedInbox w' = (before ++ page) ++ more := by
              rw [List.append_assoc, ← hsplit, linkedInbox, linkedInbox, linkedRows, linkedRows, hinbox]
            have hlater := ih (by rwa [hinbox]) hgone (by omega) (h.right hstate hframe)
            obtain ⟨hpending, hdue⟩ := h.pending_right hstate
            rw [hruns, hpending, hdue, List.getLast?_append, hlast, Option.some_or, Option.map_some]
              at hlater
            have hsum := hlater.bind (f := fun n => pure
              ((w.state.due (harness.tasks w.runs page)).length + n)) fun _ _ => carries_done
            simpa only [List.append_nil] using hsum

end

end Polaris
