import Polaris.Journal.History
import Polaris.Library.Lease

namespace Polaris
open Relation Journal

abbrev LeaseEvent := Lease.Event String String Timestamp

abbrev Grant := Lease.Grant String Timestamp

def JournalCall.leaseEvents {β : Type} : JournalCall β → β → List LeaseEvent
  | .claimReadyStep workerId _ _, some r => [.granted r.id workerId (r.leaseExpiresAt.getD 0)]
  | .heartbeat stepId _ _, r => [.renewed stepId (r.leaseExpiresAt.getD 0)]
  | .commitStep stepId _ _ _, _ => [.ended stepId]
  | .failStep stepId _ _, _ => [.ended stepId]
  | .markUncertain stepId _ _, _ => [.ended stepId]
  | .cancelStep stepId _, _ => [.ended stepId]
  | .reclaimExpiredLeases _, rows => rows.map fun r => .ended r.id
  | _, _ => []

/-- The step and the worker of a call that needs the worker's lease: `cancel_step` does so
on a step that is LEASED or EXECUTING. -/
def JournalCall.leaseUse {β : Type} (j : Journal) :
    JournalCall β → Option (String × Option String)
  | .markExecuting stepId workerId => some (stepId, some workerId)
  | .heartbeat stepId workerId _ => some (stepId, some workerId)
  | .commitStep stepId workerId _ _ => some (stepId, some workerId)
  | .failStep stepId workerId _ => some (stepId, some workerId)
  | .markUncertain stepId workerId _ => some (stepId, some workerId)
  | .cancelStep stepId workerId =>
      if (j.findStep stepId).any fun r => r.status = .leased || r.status = .executing then
        some (stepId, workerId)
      else none
  | _ => none

def JournalCall.commits {β : Type} (stepId : String) : JournalCall β → Bool
  | .commitStep id _ _ _ => id = stepId
  | _ => false

namespace Issued

def leaseEvents (sha : Sha256) (i : Issued) (j : Journal) : List LeaseEvent :=
  match (i.outcome sha j).1 with
  | .ok b => i.call.leaseEvents b
  | .error _ => []

def succeeds (sha : Sha256) (i : Issued) (j : Journal) : Bool :=
  match (i.outcome sha j).1 with
  | .ok _ => true
  | .error _ => false

def commits (sha : Sha256) (stepId : String) (i : Issued) (j : Journal) : Bool :=
  i.call.commits stepId && i.succeeds sha j

end Issued

def leaseLogFrom (sha : Sha256) : Journal → List HonestCall → List LeaseEvent
  | _, [] => []
  | j, c :: calls => c.1.leaseEvents sha j ++ leaseLogFrom sha (c.1.after sha j) calls

def leaseLog (sha : Sha256) (calls : List HonestCall) : List LeaseEvent :=
  leaseLogFrom sha .empty calls

def commitsFrom (sha : Sha256) (stepId : String) : Journal → List HonestCall → ℕ
  | _, [] => 0
  | j, c :: calls =>
      (if c.1.commits sha stepId j then 1 else 0) + commitsFrom sha stepId (c.1.after sha j) calls

def isGrantOf (stepId : String) : LeaseEvent → Bool
  | .granted id _ _ => id = stepId
  | _ => false

def StepRecord.grant (r : StepRecord) : Option Grant := do
  return ⟨← r.leaseOwner, ← r.leaseExpiresAt⟩

def Journal.grant (stepId : String) (j : Journal) : Option Grant :=
  (j.findStep stepId).bind StepRecord.grant

section
variable {sha : Sha256} {a : Ambient} {calls more : List HonestCall} {j j' : Journal}
  {stepId workerId : String}

theorem leaseLog_concat (c : HonestCall) :
    leaseLog sha (calls ++ [c]) = leaseLog sha calls ++ c.1.leaseEvents sha (history sha calls) := by
  suffices h : ∀ j, leaseLogFrom sha j (calls ++ [c]) = leaseLogFrom sha j calls ++
      c.1.leaseEvents sha (runCalls sha (calls.map Subtype.val) j) from h .empty
  induction calls with
  | nil => intro j; simp [leaseLogFrom, runCalls]
  | cons d calls ih => intro j; simp [leaseLogFrom, ih, runCalls]

theorem commitsFrom_concat (c : HonestCall) :
    commitsFrom sha stepId .empty (calls ++ [c]) = commitsFrom sha stepId .empty calls +
      if c.1.commits sha stepId (history sha calls) then 1 else 0 := by
  suffices h : ∀ j, commitsFrom sha stepId j (calls ++ [c]) = commitsFrom sha stepId j calls +
      if c.1.commits sha stepId (runCalls sha (calls.map Subtype.val) j) then 1 else 0
    from h .empty
  induction calls with
  | nil => intro j; simp [commitsFrom, runCalls]
  | cons d calls ih => intro j; simp [commitsFrom, ih, runCalls, Nat.add_assoc]

theorem grant_recordChange {row r : StepRecord} {type : String} {column : JsonColumn}
    {now : Timestamp} (hrow : j.findStep row.id = some row) (hid : r.id = row.id) :
    (j.recordChange r type column now).grant stepId =
      if stepId = row.id then r.grant else j.grant stepId := by
  have hsome : (Table.find StepRecord.id r.id j.steps).isSome := by
    rw [hid]; exact Option.isSome_iff_exists.2 ⟨row, hrow⟩
  have hfind := Table.find_put (k := stepId) hsome
  rw [hid] at hfind
  simp only [Journal.grant, findStep, recordChange_steps]
  rw [hfind]
  split <;> rfl

theorem grant_of_row {row : StepRecord} (hrow : j.findStep stepId = some row) :
    j.grant stepId = row.grant := by simp [Journal.grant, hrow]

theorem grant_of_heldBy {row : StepRecord} (hheld : HeldBy a row workerId) :
    ∃ expiry, row.grant = some ⟨workerId, expiry⟩ ∧ a.checkedAt < expiry := by
  obtain ⟨howner, expiry, hexpiry, hlt⟩ := hheld
  exact ⟨expiry, by simp [StepRecord.grant, howner, hexpiry], hlt⟩

theorem grant_of_no_moves {allowed : MoveKind → Prop} (h : Moves allowed j j')
    (hnone : ∀ k, ¬ allowed k) : j'.grant stepId = j.grant stepId := by
  induction h with
  | refl => rfl
  | tail _ hmove ih =>
      rw [← ih]
      cases hmove with
      | idle _ hs => simp [Journal.grant, findStep, hs]
      | create row _ hnew hfresh hs =>
          simp only [Journal.grant, findStep, hs, Table.find_concat]
          cases Table.find StepRecord.id stepId _ with
          | some r => rfl
          | none => by_cases hid : row.id = stepId <;> simp [hid, StepRecord.grant, hnew.owner]
      | change _ _ hk => exact absurd hk (hnone _)

theorem grant_of_reclaimRows {now : Timestamp} {rows out : List StepRecord} (hk : j.StepsKeyed)
    (hrows : ∀ r ∈ rows, r ∈ j.steps ∧ expiredAt now r = true)
    (hids : Table.Keyed StepRecord.id rows) (h : reclaimRows now rows j = (.ok out, j')) :
    j'.grant stepId =
      (out.map fun r => (.ended r.id : LeaseEvent)).foldl (Lease.Event.apply stepId)
        (j.grant stepId) := by
  induction rows generalizing j out with
  | nil =>
      simp only [reclaimRows, Txn.pure_ok] at h
      obtain ⟨rfl, rfl⟩ := h
      rfl
  | cons row rows ih =>
      simp only [reclaimRows, Txn.bind_ok, Txn.pure_ok] at h
      obtain ⟨r, t, hchange, rest, _, hrest, rfl, rfl⟩ := h
      obtain ⟨hrow, hexpired⟩ := hrows row (by simp)
      have hactive : row.Active := by
        simp only [expiredAt, Bool.and_eq_true, Bool.or_eq_true, decide_eq_true_eq] at hexpired
        exact hexpired.1
      simp only [expiredAt, Bool.and_eq_true] at hexpired
      obtain ⟨rfl, column, rfl⟩ := changeStep_ok hk hrow (by simp [hexpired.2]) rfl rfl hchange
      obtain ⟨hnot, hids⟩ := List.nodup_cons.1 hids
      have hkeyed : (j.recordChange (row.expire (reclaimTarget row.safety)
          (reclaimReason (reclaimTarget row.safety)) now) "step.lease_expired" column now
          ).StepsKeyed := Table.Keyed.put hk
      rw [ih hkeyed ?_ hids hrest]
      · rw [grant_recordChange (hk.find hrow) (by rfl)]
        by_cases hid : stepId = row.id
        · simp [Lease.Event.apply, hid, StepRecord.grant]
        · have hne : ¬ row.id = stepId := fun heq => hid heq.symm
          simp [Lease.Event.apply, hid, hne]
      · intro s hs
        obtain ⟨hmem, hs'⟩ := hrows s (List.mem_cons_of_mem _ hs)
        refine ⟨Table.mem_put_of_ne hmem ?_, hs'⟩
        intro heq
        exact hnot (List.mem_map.2 ⟨s, hs, heq⟩)

theorem grant_after (hj : j.Invariant) (c : HonestCall) :
    (c.1.after sha j).grant stepId =
      (c.1.leaseEvents sha j).foldl (Lease.Event.apply stepId) (j.grant stepId) := by
  rcases c.1.outcome_cases sha j with ⟨b, h⟩ | ⟨⟨e, he⟩, h⟩
  · have hmoves := moves_of_perform hj.keyed c.2 h
    have hevents : c.1.leaseEvents sha j = c.1.call.leaseEvents b := by
      simp [Issued.leaseEvents, Issued.outcome, h]
    rw [hevents]
    obtain ⟨⟨call, a⟩, hhonest⟩ := c
    cases call
    case claimReadyStep =>
      obtain ⟨rfl, hsame⟩ | ⟨row, expiry, column, r, hfirst, -, rfl, rfl, hjournal⟩ :=
        claimReadyStep_ok hj.keyed h
      · rw [hsame]; rfl
      · rw [hjournal, grant_recordChange (hj.keyed.find (firstReady_some hfirst).1) (by rfl)]
        by_cases hid : stepId = row.id
        · simp [JournalCall.leaseEvents, Lease.Event.apply, hid, StepRecord.grant]
        · have hne : ¬ row.id = stepId := fun heq => hid heq.symm
          simp [JournalCall.leaseEvents, Lease.Event.apply, hid, hne]
    case markExecuting id workerId =>
      obtain ⟨row, column, hrow, -, -, rfl, hjournal⟩ := markExecuting_ok hj.keyed h
      obtain rfl : row.id = id := Table.find_key hrow
      rw [hjournal, grant_recordChange hrow (by rfl)]
      split
      · rename_i hid
        rw [hid, grant_of_row hrow]
        rfl
      · rfl
    case heartbeat id workerId leaseSeconds =>
      obtain ⟨row, expiry, column, hrow, hstatus, hheld, -, rfl, hjournal⟩ :=
        heartbeat_ok hj.keyed h
      obtain rfl : row.id = id := Table.find_key hrow
      rw [hjournal, grant_recordChange hrow (by rfl)]
      by_cases hid : stepId = row.id
      · obtain ⟨howner, t, ht, -⟩ := hheld
        rw [hid, grant_of_row hrow]
        simp [JournalCall.leaseEvents, Lease.Event.apply, StepRecord.grant, howner, ht]
      · have hne : ¬ row.id = stepId := fun heq => hid heq.symm
        simp [JournalCall.leaseEvents, Lease.Event.apply, hid, hne]
    case commitStep id workerId output receipt =>
      obtain ⟨row, outputJson, column, t, hrow, -, -, -, hadds, rfl, hjournal⟩ :=
        commitStep_ok hj.keyed h
      obtain rfl : row.id = id := Table.find_key hrow
      have hrow' : t.findStep row.id = some row := by
        obtain rfl | ⟨_, rfl, -⟩ := hadds <;> exact hrow
      have hquiet : Moves (fun _ => False) j t := moves_of_addsReceipt hadds
      have hsame : t.grant stepId = j.grant stepId := grant_of_no_moves hquiet fun _ => id
      rw [hjournal, grant_recordChange hrow' (by rfl), hsame]
      simp [JournalCall.leaseEvents, Lease.Event.apply, StepRecord.grant, eq_comm]
    case failStep id workerId error =>
      obtain ⟨row, errorJson, column, hrow, -, -, rfl, hjournal⟩ := failStep_ok hj.keyed h
      obtain rfl : row.id = id := Table.find_key hrow
      rw [hjournal, grant_recordChange hrow (by rfl)]
      simp [JournalCall.leaseEvents, Lease.Event.apply, StepRecord.grant, eq_comm]
    case markUncertain id workerId reason =>
      obtain ⟨row, errorJson, column, hrow, -, -, rfl, hjournal⟩ := markUncertain_ok hj.keyed h
      obtain rfl : row.id = id := Table.find_key hrow
      rw [hjournal, grant_recordChange hrow (by rfl)]
      simp [JournalCall.leaseEvents, Lease.Event.apply, StepRecord.grant, eq_comm]
    case cancelStep id workerId =>
      obtain ⟨row, column, hrow, -, -, rfl, hjournal⟩ := cancelStep_ok hj.keyed h
      obtain rfl : row.id = id := Table.find_key hrow
      rw [hjournal, grant_recordChange hrow (by rfl)]
      simp [JournalCall.leaseEvents, Lease.Event.apply, StepRecord.grant, eq_comm]
    case reclaimExpiredLeases now =>
      have h' : reclaimExpiredLeases a now j = (.ok b, Issued.after sha _ j) := h
      simp only [reclaimExpiredLeases, Txn.atomically_ok, Txn.bind_ok, Txn.read_ok] at h'
      obtain ⟨rows, _, ⟨rfl, rfl⟩, h'⟩ := h'
      refine grant_of_reclaimRows hj.keyed (fun r hr => by simpa using hr) ?_ h'
      have hfilter : Table.Keyed StepRecord.id (j.steps.filter (expiredAt (now.getD a.now))) :=
        List.Nodup.sublist (List.filter_sublist.map _) hj.keyed
      exact (((List.perm_insertionSort _ _).map StepRecord.id).nodup_iff).2 hfilter
    all_goals exact grant_of_no_moves hmoves fun _ => id
  · have hevents : c.1.leaseEvents sha j = [] := by simp [Issued.leaseEvents, he]
    rw [h, hevents]
    rfl

theorem grant_history (sha : Sha256) (calls : List HonestCall) (stepId : String) :
    (history sha calls).grant stepId = Lease.current stepId (leaseLog sha calls) := by
  induction calls using List.reverseRec with
  | nil => rfl
  | append_singleton calls c ih =>
      rw [history_concat, leaseLog_concat, Lease.current_append, ← ih]
      exact grant_after (history_invariant sha calls) c

theorem grant_of_use (hj : j.Invariant) (c : HonestCall) {actor : Option String}
    (huse : c.1.call.leaseUse j = some (stepId, actor)) (hsucc : c.1.succeeds sha j = true) :
    ∃ holder expiry, actor = some holder ∧ j.grant stepId = some ⟨holder, expiry⟩ ∧
      c.1.ambient.checkedAt < expiry := by
  rcases c.1.outcome_cases sha j with ⟨b, h⟩ | ⟨⟨e, he⟩, -⟩
  · obtain ⟨⟨call, a⟩, hhonest⟩ := c
    have hrow : ∃ row worker, j.findStep stepId = some row ∧ actor = some worker ∧
        HeldBy a row worker := by
      cases call <;> simp only [JournalCall.leaseUse, reduceCtorEq, Option.some.injEq,
        Prod.mk.injEq] at huse
      case markExecuting =>
        obtain ⟨row, -, hrow, -, hheld, -⟩ := markExecuting_ok hj.keyed h
        exact ⟨row, _, huse.1 ▸ hrow, huse.2.symm, hheld⟩
      case heartbeat =>
        obtain ⟨row, -, -, hrow, -, hheld, -⟩ := heartbeat_ok hj.keyed h
        exact ⟨row, _, huse.1 ▸ hrow, huse.2.symm, hheld⟩
      case commitStep =>
        obtain ⟨row, -, -, -, hrow, -, hheld, -⟩ := commitStep_ok hj.keyed h
        exact ⟨row, _, huse.1 ▸ hrow, huse.2.symm, hheld⟩
      case failStep =>
        obtain ⟨row, -, -, hrow, -, hheld, -⟩ := failStep_ok hj.keyed h
        exact ⟨row, _, huse.1 ▸ hrow, huse.2.symm, hheld⟩
      case markUncertain =>
        obtain ⟨row, -, -, hrow, -, hheld, -⟩ := markUncertain_ok hj.keyed h
        exact ⟨row, _, huse.1 ▸ hrow, huse.2.symm, hheld⟩
      case cancelStep =>
        obtain ⟨row, -, hrow, -, hheld, -⟩ := cancelStep_ok hj.keyed h
        split at huse
        · rename_i hactive
          simp only [Option.some.injEq, Prod.mk.injEq] at huse
          simp only [hrow, Option.any_some, Bool.or_eq_true, decide_eq_true_eq] at hactive
          obtain ⟨worker, hworker, hheld⟩ := hheld hactive
          exact ⟨row, worker, huse.1 ▸ hrow, huse.2 ▸ hworker, hheld⟩
        · simp at huse
    obtain ⟨row, worker, hfind, hactor, hheld⟩ := hrow
    obtain ⟨expiry, hgrant, hlt⟩ := grant_of_heldBy hheld
    exact ⟨worker, expiry, hactor, (grant_of_row hfind).trans hgrant, hlt⟩
  · simp [Issued.succeeds, he] at hsucc

theorem grants_counted (hj : j.Invariant) (c : HonestCall) :
    (c.1.after sha j).eventCount .lease stepId =
      j.eventCount .lease stepId + (c.1.leaseEvents sha j).countP (isGrantOf stepId) := by
  rcases c.1.outcome_cases sha j with ⟨b, h⟩ | ⟨⟨e, he⟩, h⟩
  · have hmoves := moves_of_perform hj.keyed c.2 h
    have hevents : c.1.leaseEvents sha j = c.1.call.leaseEvents b := by
      simp [Issued.leaseEvents, Issued.outcome, h]
    rw [hevents]
    obtain ⟨⟨call, a⟩, hhonest⟩ := c
    cases call
    case claimReadyStep =>
      obtain ⟨rfl, hsame⟩ | ⟨row, expiry, column, r, hfirst, -, rfl, rfl, hjournal⟩ :=
        claimReadyStep_ok hj.keyed h
      · rw [hsame]; rfl
      · rw [hjournal]
        by_cases hid : row.id = stepId
        · rw [eventCount_append_one (j := j) (l := .lease) rfl rfl (by simp [hid])]
          simp [JournalCall.leaseEvents, isGrantOf, hid]
        · rw [eventCount_append_other (j := j) rfl (by simp [hid])]
          simp [JournalCall.leaseEvents, isGrantOf, hid]
    all_goals
      rw [hmoves.eventCount_eq (by simp [JournalCall.kinds])]
      simp [JournalCall.leaseEvents, isGrantOf, List.countP_map, Function.comp_def]
  · have hevents : c.1.leaseEvents sha j = [] := by simp [Issued.leaseEvents, he]
    rw [h, hevents]
    rfl

theorem commits_counted (hj : j.Invariant) (c : HonestCall) :
    (c.1.after sha j).eventCount .commit stepId =
      j.eventCount .commit stepId + if c.1.commits sha stepId j then 1 else 0 := by
  rcases c.1.outcome_cases sha j with ⟨b, h⟩ | ⟨⟨e, he⟩, h⟩
  · have hmoves := moves_of_perform hj.keyed c.2 h
    have hcommits : c.1.commits sha stepId j = c.1.call.commits stepId := by
      simp [Issued.commits, Issued.succeeds, Issued.outcome, h]
    rw [hcommits]
    obtain ⟨⟨call, a⟩, hhonest⟩ := c
    cases call
    case commitStep id workerId output receipt =>
      obtain ⟨row, outputJson, column, t, hrow, -, -, -, hadds, rfl, hjournal⟩ :=
        commitStep_ok hj.keyed h
      obtain rfl : row.id = id := Table.find_key hrow
      have hquiet : Moves (fun _ => False) j t := moves_of_addsReceipt hadds
      have hsame : t.eventCount .commit stepId = j.eventCount .commit stepId :=
        hquiet.eventCount_eq id stepId
      rw [hjournal]
      by_cases hid : row.id = stepId
      · rw [eventCount_append_one (j := t) (l := .commit) rfl rfl (by simp [hid]), hsame]
        simp [JournalCall.commits, hid]
      · rw [eventCount_append_other (j := t) rfl (by simp [hid]), hsame]
        simp [JournalCall.commits, hid]
    all_goals
      rw [hmoves.eventCount_eq (by simp [JournalCall.kinds])]
      rfl
  · have hcommits : c.1.commits sha stepId j = false := by
      simp [Issued.commits, Issued.succeeds, he]
    rw [h, hcommits]
    rfl

theorem grants_history (sha : Sha256) (calls : List HonestCall) (stepId : String) :
    (leaseLog sha calls).countP (isGrantOf stepId) =
      (history sha calls).eventCount .lease stepId := by
  induction calls using List.reverseRec with
  | nil => rfl
  | append_singleton calls c ih =>
      rw [history_concat, leaseLog_concat, List.countP_append, ih]
      exact (grants_counted (history_invariant sha calls) c).symm

theorem commits_history (sha : Sha256) (calls : List HonestCall) (stepId : String) :
    commitsFrom sha stepId .empty calls = (history sha calls).eventCount .commit stepId := by
  induction calls using List.reverseRec with
  | nil => rfl
  | append_singleton calls c ih =>
      rw [history_concat, commitsFrom_concat, ih]
      exact (commits_counted (history_invariant sha calls) c).symm

theorem Journal.Invariant.commits_le_one (hj : j.Invariant) (stepId : String) :
    j.eventCount .commit stepId ≤ 1 := by
  by_cases hex : ∃ r ∈ j.steps, r.id = stepId
  · obtain ⟨r, hr, rfl⟩ := hex
    have := (hj.rows r hr).commits
    simp only [eventCounts] at this
    split at this <;> omega
  · have := congrFun (hj.eventCounts_fresh fun s hs hid => hex ⟨s, hs, hid⟩) .commit
    simp only [eventCounts] at this
    omega

theorem lease_safety (sha : Sha256) (calls : List HonestCall) :
    (∀ (c : HonestCall) stepId actor,
      c.1.call.leaseUse (history sha calls) = some (stepId, actor) →
      c.1.succeeds sha (history sha calls) = true →
      ∃ holder before expiry after, actor = some holder ∧
        leaseLog sha calls = before ++ .granted stepId holder expiry :: after ∧
        (∀ e ∈ after, e.turns stepId = false) ∧
        c.1.ambient.checkedAt < Lease.extended stepId expiry after) ∧
    (∀ stepId, commitsFrom sha stepId .empty calls ≤ 1) ∧
    (∀ (c : HonestCall) stepId holder before after,
      leaseLog sha calls = before ++ .ended stepId :: after →
      c.1.call.leaseUse (history sha calls) = some (stepId, some holder) →
      c.1.succeeds sha (history sha calls) = true →
      ∃ expiry, .granted stepId holder expiry ∈ after) ∧
    (∀ r ∈ (history sha calls).steps,
      r.safety = .reconcilable ∨ r.safety = .opaqueSideEffect →
      (leaseLog sha calls).countP (isGrantOf r.id) ≤ 1) := by
  have hj := history_invariant sha calls
  refine ⟨?_, ?_, ?_, ?_⟩
  · intro c stepId actor huse hsucc
    obtain ⟨holder, expiry, hactor, hgrant, hlt⟩ := grant_of_use hj c huse hsucc
    rw [grant_history] at hgrant
    obtain ⟨before, start, after, hlog, hquiet, hexpiry⟩ := Lease.current_some hgrant
    have hexpiry' : expiry = Lease.extended stepId start after := hexpiry
    exact ⟨holder, before, start, after, hactor, hlog, hquiet, hexpiry' ▸ hlt⟩
  · intro stepId
    rw [commits_history]
    exact hj.commits_le_one stepId
  · intro c stepId holder before after hlog huse hsucc
    obtain ⟨holder', expiry, hactor, hgrant, -⟩ := grant_of_use hj c huse hsucc
    obtain rfl := Option.some.inj hactor
    rw [grant_history, hlog] at hgrant
    exact Lease.granted_after_end hgrant
  · intro r hr hsafety
    rw [grants_history]
    exact ((hj.rows r hr).once hsafety).1

end

def JournalCall.worker {β : Type} : JournalCall β → Option String
  | .claimReadyStep workerId _ _ => some workerId
  | .markExecuting _ workerId => some workerId
  | .heartbeat _ workerId _ => some workerId
  | .commitStep _ workerId _ _ => some workerId
  | .failStep _ workerId _ => some workerId
  | .markUncertain _ workerId _ => some workerId
  | .cancelStep _ workerId => workerId
  | _ => none

def JournalCall.reclaims {β : Type} : JournalCall β → Bool
  | .reclaimExpiredLeases _ => true
  | _ => false

def InOrder (calls : List HonestCall) : Prop :=
  calls.Pairwise fun c d => ∀ s ∈ [c.1.ambient.checkedAt, c.1.ambient.now, c.1.ambient.leaseFrom],
    ∀ t ∈ [d.1.ambient.checkedAt, d.1.ambient.now, d.1.ambient.leaseFrom], s ≤ t

instance (calls : List HonestCall) : Decidable (InOrder calls) :=
  inferInstanceAs (Decidable (calls.Pairwise _))

/-- After its lease was reclaimed a worker changes the step only if it claimed it anew. -/
def WritesOnlyAfterClaim (sha : Sha256) : Prop :=
  ∀ (calls : List HonestCall) (reclaim : HonestCall) (later : List HonestCall) (c : HonestCall)
    stepId workerId expiry, InOrder (calls ++ reclaim :: later ++ [c]) →
    (history sha calls).grant stepId = some ⟨workerId, expiry⟩ →
    reclaim.1.call.reclaims = true →
    .ended stepId ∈ reclaim.1.leaseEvents sha (history sha calls) →
    c.1.call.worker = some workerId →
    (history sha (calls ++ reclaim :: later ++ [c])).findStep stepId ≠
      (history sha (calls ++ reclaim :: later)).findStep stepId →
    ∃ expiry, .granted stepId workerId expiry ∈
      leaseLogFrom sha (history sha (calls ++ [reclaim])) later

namespace Sample

def sha : Sha256 := .ofTable [
  ("\x7b\x7d", "44136fa355b3678a1146ad16f7e8649e94fb4fc21fe77e8310c060f61caaff8a"),
  ("\x7b\"input_hash\":\"44136fa355b3678a1146ad16f7e8649e94fb4fc21fe77e8310c060f61caaff8a\"," ++
    "\"kind\":\"tool\",\"name\":\"fetch\",\"safety\":\"idempotent\",\"sequence\":null\x7d",
    "f28c17313ea8befd6a6c0fa5a233f4c0cb9396e5867f497f4737fe75ec4626a2"),
  ("\x7b\"key\":\"f28c17313ea8befd6a6c0fa5a233f4c0cb9396e5867f497f4737fe75ec4626a2\"," ++
    "\"run_id\":\"run_55555555555555555555555555555555\"\x7d",
    "08fd0f38ccc8447ff6efa2a069a00bd41b10ea4c94425900e80a95788a4398e0")]

def stepId : String := "step_08fd0f38ccc8447ff6efa2a069a00bd41b10ea4c94425900e80a95788a4398e0"

def clock (t : Timestamp) : Ambient := ⟨t, t, t, "55555555555555555555555555555555"⟩

/-- A run, an idempotent step, and a lease of one second that starts at microsecond 3. -/
def leased : List HonestCall := [
  ⟨⟨.createRun "single" (dict []) (dict []) ⟨none, none, none, none⟩ none none, clock 1⟩, trivial⟩,
  ⟨⟨.createStep "run_55555555555555555555555555555555" "tool" "fetch" (dict []) "idempotent" none,
    clock 2⟩, trivial⟩,
  ⟨⟨.claimReadyStep "worker" 1 none, clock 3⟩, trivial⟩]

def reclaim : HonestCall := ⟨⟨.reclaimExpiredLeases none, clock 1000003⟩, trivial⟩

def cancel : HonestCall := ⟨⟨.cancelStep stepId (some "worker"), clock 1000004⟩, trivial⟩

end Sample

theorem not_writesOnlyAfterClaim : ¬ WritesOnlyAfterClaim Sample.sha := by
  intro h
  obtain ⟨expiry, hmem⟩ := h Sample.leased Sample.reclaim [] Sample.cancel Sample.stepId "worker"
    1000003 (by decide +kernel) (by decide +kernel) rfl (by decide +kernel) rfl
    (by decide +kernel)
  simp [leaseLogFrom] at hmem

end Polaris
