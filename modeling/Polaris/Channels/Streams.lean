import Mathlib.Logic.Relation
import Polaris.Channels.Inbox
import Polaris.Library.PyJsonRoundTrip

namespace Polaris
open PyJson ChannelStore

/-- A later epoch, or the same epoch and no smaller offset. -/
def OffsetRow.Precedes (row row' : OffsetRow) : Prop :=
  row.epoch < row'.epoch ∨ row.epoch = row'.epoch ∧ row.nextOffset ≤ row'.nextOffset

namespace OffsetRow
variable {row row' row'' : OffsetRow}

theorem Precedes.refl (row : OffsetRow) : row.Precedes row := .inr ⟨rfl, le_refl _⟩

theorem Precedes.trans (h : row.Precedes row') (h' : row'.Precedes row'') : row.Precedes row'' := by
  rcases h with h | ⟨hepoch, hoffset⟩
  · rcases h' with h' | ⟨hepoch', -⟩
    · exact .inl (h.trans h')
    · exact .inl (hepoch' ▸ h)
  · rcases h' with h' | ⟨hepoch', hoffset'⟩
    · exact .inl (hepoch ▸ h')
    · exact .inr ⟨hepoch.trans hepoch', hoffset.trans hoffset'⟩

end OffsetRow

/-- No stream is forgotten, and each moves forward. -/
def ChannelTables.OffsetsForward (t t' : ChannelTables) : Prop :=
  ∀ key row, t.findOffset key = some row → ∃ row', t'.findOffset key = some row' ∧ row.Precedes row'

namespace ChannelStore
variable {store : ChannelStore} {a : Readings} {t t' t'' : ChannelTables}

theorem offsetsForward_of_eq (h : t'.offsets = t.offsets) : t.OffsetsForward t' := by
  intro key row hrow
  exact ⟨row, by rwa [ChannelTables.findOffset, h], .refl row⟩

theorem offsetsForward_trans (h : t.OffsetsForward t') (h' : t'.OffsetsForward t'') :
    t.OffsetsForward t'' := by
  intro key row hrow
  obtain ⟨row', hrow', hprecedes⟩ := h key row hrow
  obtain ⟨row'', hrow'', hprecedes'⟩ := h' key row' hrow'
  exact ⟨row'', hrow'', hprecedes.trans hprecedes'⟩

theorem upsertOffset_forward {new : OffsetRow} {f : OffsetRow → OffsetRow}
    (hkey : ∀ r, (f r).streamKey = r.streamKey)
    (h : ∀ r, t.findOffset new.streamKey = some r → r.Precedes (f r)) :
    t.OffsetsForward (upsertOffset new f t) := by
  intro key row hrow
  unfold upsertOffset
  split
  · refine ⟨if row.streamKey = new.streamKey then f row else row, ?_, ?_⟩
    · simp only [ChannelTables.findOffset] at hrow ⊢
      rw [Table.find_updateWhere hkey, hrow]
      simp
    · split
      · rename_i hsame
        exact h row (hsame ▸ Table.find_key hrow ▸ hrow)
      · exact .refl row
  · exact ⟨row, Table.find_append_of_some hrow, .refl row⟩

theorem advanceOffset_forward (key : String) (nextOffset : ℤ) (now : Timestamp) :
    t.OffsetsForward (advanceOffset key nextOffset now t) :=
  upsertOffset_forward (fun _ => rfl) fun _ _ => .inr ⟨rfl, le_max_left _ _⟩

theorem bindTelegramIdentity_forward {botId : String} {streamKey : Option String} {n : ℕ}
    (h : bindTelegramIdentity store botId streamKey a t = (.ok n, t')) :
    t'.inbox = t.inbox ∧ t.OffsetsForward t' := by
  simp only [bindTelegramIdentity, Txn.bind_ok, Txn.require_ok, Txn.atomically_ok, Txn.read_ok] at h
  obtain ⟨_, _, ⟨-, rfl⟩, found, _, ⟨hfound, rfl⟩, h⟩ := h
  cases found with
  | none =>
      simp only [Txn.bind_ok, Txn.write_ok, Txn.pure_ok] at h
      obtain ⟨_, _, rfl, -, rfl⟩ := h
      refine ⟨rfl, fun key row hrow => ⟨row, Table.find_append_of_some hrow, .refl row⟩⟩
  | some row =>
      have hkey : row.streamKey = store.streamOf streamKey := Table.find_key hfound
      cases hbot : row.botId with
      | none =>
          simp only [hbot, Txn.bind_ok, Txn.write_ok, Txn.pure_ok] at h
          obtain ⟨_, _, rfl, -, rfl⟩ := h
          exact ⟨upsertOffset_inbox _ _ _,
            upsertOffset_forward (fun _ => rfl) fun r _ => .inr ⟨rfl, le_refl _⟩⟩
      | some previous =>
          simp only [hbot, Txn.ite_ok, Txn.bind_ok, Txn.write_ok, Txn.pure_ok] at h
          rcases h with ⟨-, _, _, rfl, -, rfl⟩ | ⟨-, -, rfl⟩
          · refine ⟨upsertOffset_inbox _ _ _, upsertOffset_forward (fun _ => rfl) fun r hr => ?_⟩
            -- the row that is read is the one that is written
            rw [hkey, hfound] at hr
            obtain rfl := Option.some.inj hr
            exact .inl (Nat.lt_succ_self _)
          · exact ⟨rfl, offsetsForward_of_eq rfl⟩

theorem beginTelegramEpoch_forward {nextOffset : ℤ} {streamKey : Option String} {n : ℕ}
    (h : beginTelegramEpoch store nextOffset streamKey a t = (.ok n, t')) :
    t'.inbox = t.inbox ∧ t.OffsetsForward t' := by
  simp only [beginTelegramEpoch, Txn.bind_ok, Txn.require_ok, Txn.atomically_ok, Txn.write_ok,
    Txn.read_ok, Txn.getOr_ok, Txn.pure_ok] at h
  obtain ⟨_, _, ⟨-, rfl⟩, _, _, rfl, _, _, ⟨-, rfl⟩, _, _, ⟨-, rfl⟩, -, rfl⟩ := h
  exact ⟨upsertOffset_inbox _ _ _,
    upsertOffset_forward (fun _ => rfl) fun _ _ => .inl (Nat.lt_succ_self _)⟩

theorem setTelegramOffset_forward {nextOffset : ℤ} {streamKey : Option String} {u : Unit}
    (h : setTelegramOffset store nextOffset streamKey a t = (.ok u, t')) :
    t'.inbox = t.inbox ∧ t.OffsetsForward t' := by
  simp only [setTelegramOffset, Txn.bind_ok, Txn.require_ok, Txn.atomically_ok, Txn.write_ok] at h
  obtain ⟨_, _, ⟨-, rfl⟩, rfl⟩ := h
  exact ⟨upsertOffset_inbox _ _ _, advanceOffset_forward _ _ _⟩

theorem Ingested.forward {update : List (String × PyVal)} {policy : Option AuthorizationPolicy}
    {streamKey : Option String} {result : IngestResult} {updateId : ℤ}
    {n : NormalizedTelegramUpdate} {epoch : ℕ} {row : InboxRow}
    (h : Ingested store update policy streamKey a t t' result updateId n epoch row) :
    t.OffsetsForward t' :=
  offsetsForward_trans (advanceOffset_forward _ _ _) (offsetsForward_of_eq h.offsets)

theorem requireUpdateId_nonneg {update : List (String × PyVal)} {updateId : ℤ}
    (h : requireUpdateId update = .ok updateId) : 0 ≤ updateId := by
  unfold requireUpdateId at h
  split at h
  · split at h
    · simp at h
    · obtain rfl := Except.ok.inj h
      omega
  · simp at h

theorem eventId_injective {epoch epoch' : ℕ} {updateId updateId' : ℤ} (hid : 0 ≤ updateId)
    (hid' : 0 ≤ updateId') (h : eventId epoch updateId = eventId epoch' updateId') :
    epoch = epoch' ∧ updateId = updateId' := by
  lift updateId to ℕ using hid
  lift updateId' to ℕ using hid'
  have hdigits : ∀ n : ℕ, (toString n).toList = Nat.toDigits 10 n := fun n => by
    simp [toString, Nat.repr]
  have hlist := congrArg (fun s => s.toList ++ [':']) h
  have hint : ∀ n : ℕ, (toString (n : ℤ)).toList = Nat.toDigits 10 n := hdigits
  simp only [eventId, String.toList_append, List.append_assoc, hdigits, hint] at hlist
  obtain ⟨hepoch, hrest⟩ := digits_of_separator (c := ':') (by decide) hlist
  exact ⟨hepoch, congrArg _ (digits_of_separator (by decide) hrest).1⟩

end ChannelStore

/-- An update that the store has taken, in the epoch that its stream was in. -/
structure Ingestion where
  streamKey : String
  epoch : ℕ
  updateId : ℤ
  update : List (String × PyVal)
  allowed : Bool
  duplicate : Bool

namespace Ingestion

def SameUpdate (i j : Ingestion) : Prop :=
  i.streamKey = j.streamKey ∧ i.epoch = j.epoch ∧ i.updateId = j.updateId

def key (i : Ingestion) : Platform × String := (.telegram, eventId i.epoch i.updateId)

def payload (i : Ingestion) : Except PyError JsonColumn := canonicalJson (dict i.update)

/-- The first update that was taken under the same epoch and update id. -/
def first (earlier : List Ingestion) (i : Ingestion) : Option Ingestion :=
  earlier.find? fun j => j.epoch = i.epoch ∧ j.updateId = i.updateId

/-- It was for the same stream and, where this update is allowed, it was allowed and the same. -/
def FirstAgrees (earlier : List Ingestion) (i : Ingestion) : Prop :=
  ∀ j, first earlier i = some j → j.streamKey = i.streamKey ∧
    (i.allowed = true → j.allowed = true ∧ j.payload = i.payload)

end Ingestion

/-- A store and the updates that it has taken so far. -/
structure Streams where
  tables : ChannelTables
  ingestions : List Ingestion

namespace Streams

def ingestion (store : ChannelStore) (s : Streams) (update : List (String × PyVal))
    (policy : Option AuthorizationPolicy) (streamKey : Option String) (a : Readings)
    (updateId : ℤ) (duplicate : Bool) : Ingestion where
  streamKey := store.streamOf streamKey
  epoch := (s.tables.findOffset (store.streamOf streamKey)).elim 0 OffsetRow.epoch
  updateId := updateId
  update := update
  allowed := (normalizeTelegramUpdate store.py (policy.getD store.authorizationPolicy) updateId
    a.receivedAt update).allowed.isSome
  duplicate := duplicate

def takes (s : Streams) (i : Ingestion) (t : ChannelTables) : Streams := ⟨t, s.ingestions ++ [i]⟩

def leaves (s : Streams) (t : ChannelTables) : Streams := ⟨t, s.ingestions⟩

end Streams

inductive StreamStep (store : ChannelStore) (s : Streams) : Option Ingestion → Streams → Prop
  | ingests {update : List (String × PyVal)} {policy : Option AuthorizationPolicy}
      {streamKey : Option String} {a : Readings} {updateId : ℤ} {result : IngestResult}
      {t : ChannelTables} {i : Ingestion} : requireUpdateId update = .ok updateId →
      ingestTelegramUpdate store update policy streamKey a s.tables = (.ok result, t) →
      i = s.ingestion store update policy streamKey a updateId result.duplicate →
      StreamStep store s (some i) (s.takes i t)
  | refuses {update : List (String × PyVal)} {policy : Option AuthorizationPolicy}
      {streamKey : Option String} {a : Readings} {e : PyError} {t : ChannelTables} :
      ingestTelegramUpdate store update policy streamKey a s.tables = (.error e, t) →
      StreamStep store s none (s.leaves t)
  | sets {nextOffset : ℤ} {streamKey : Option String} {a : Readings} {r : Except PyError Unit}
      {t : ChannelTables} : setTelegramOffset store nextOffset streamKey a s.tables = (r, t) →
      StreamStep store s none (s.leaves t)
  | begins {nextOffset : ℤ} {streamKey : Option String} {a : Readings} {r : Except PyError ℕ}
      {t : ChannelTables} : beginTelegramEpoch store nextOffset streamKey a s.tables = (r, t) →
      StreamStep store s none (s.leaves t)
  | binds {botId : String} {streamKey : Option String} {a : Readings} {r : Except PyError ℕ}
      {t : ChannelTables} : bindTelegramIdentity store botId streamKey a s.tables = (r, t) →
      StreamStep store s none (s.leaves t)

/-- The runs from an empty store in which every update that is taken meets a condition. -/
inductive StreamReach (store : ChannelStore) (C : List Ingestion → Ingestion → Prop) :
    Streams → Prop
  | start : StreamReach store C ⟨⟨[], [], [], []⟩, []⟩
  | step {s s' : Streams} {taken : Option Ingestion} : StreamReach store C s →
      StreamStep store s taken s' → (∀ i, taken = some i → C s.ingestions i) →
      StreamReach store C s'

/-- What holds of the updates that a store has taken. -/
structure NoUpdateLost (store : ChannelStore) (s : Streams) : Prop where
  duplicates : ∀ n (i : Ingestion), s.ingestions[n]? = some i → i.duplicate = true →
    ∃ (m : ℕ) (j : Ingestion), m < n ∧ s.ingestions[m]? = some j ∧ j.SameUpdate i
  kept : ∀ i ∈ s.ingestions, i.allowed = true → ∃ row json, i.payload = .ok json ∧
    s.tables.findInbox i.key = some row ∧ row.payload = some json
  own : ∀ i ∈ s.ingestions, ∀ j ∈ s.ingestions, i.key = j.key → i.SameUpdate j
  forward : ∀ s', Relation.ReflTransGen (fun s s' => ∃ taken, StreamStep store s taken s') s s' →
    ∀ key row, s.tables.findOffset key = some row → ∃ row', s'.tables.findOffset key = some row' ∧
      (row'.epoch = row.epoch → row.nextOffset ≤ row'.nextOffset)

namespace StreamStep
variable {store : ChannelStore} {s s' : Streams} {taken : Option Ingestion} {i : Ingestion}

/-- A step that takes no update leaves the inbox alone. -/
theorem takes_none (h : StreamStep store s none s') :
    s'.tables.inbox = s.tables.inbox ∧ s'.ingestions = s.ingestions ∧
      s.tables.OffsetsForward s'.tables := by
  have hatomic : ∀ {β : Type} {c : ChannelCall β} {a : Readings} {e : PyError} {t : ChannelTables},
      c.perform store a s.tables = (.error e, t) → t = s.tables := by
    intro β c a e t h
    have hsame := c.perform_atomic s.tables e (congrArg Prod.fst h)
    rwa [h] at hsame
  have hleaves : ∀ {t : ChannelTables}, t.inbox = s.tables.inbox ∧ s.tables.OffsetsForward t →
      (s.leaves t).tables.inbox = s.tables.inbox ∧ (s.leaves t).ingestions = s.ingestions ∧
        s.tables.OffsetsForward (s.leaves t).tables := fun h => ⟨h.1, rfl, h.2⟩
  cases h with
  | @refuses update policy streamKey a e t h =>
      obtain rfl := hatomic (c := .ingestTelegramUpdate update policy streamKey) h
      exact hleaves ⟨rfl, offsetsForward_of_eq rfl⟩
  | @sets nextOffset streamKey a r t h =>
      cases r with
      | error e =>
          obtain rfl := hatomic (c := .setTelegramOffset nextOffset streamKey) h
          exact hleaves ⟨rfl, offsetsForward_of_eq rfl⟩
      | ok u => exact hleaves (setTelegramOffset_forward h)
  | @begins nextOffset streamKey a r t h =>
      cases r with
      | error e =>
          obtain rfl := hatomic (c := .beginTelegramEpoch nextOffset streamKey) h
          exact hleaves ⟨rfl, offsetsForward_of_eq rfl⟩
      | ok n => exact hleaves (beginTelegramEpoch_forward h)
  | @binds botId streamKey a r t h =>
      cases r with
      | error e =>
          obtain rfl := hatomic (c := .bindTelegramIdentity botId streamKey) h
          exact hleaves ⟨rfl, offsetsForward_of_eq rfl⟩
      | ok n => exact hleaves (bindTelegramIdentity_forward h)

/-- A step that takes an update inserts a row under its key, unless there is one. -/
theorem takes_some (h : StreamStep store s (some i) s') :
    s'.ingestions = s.ingestions ++ [i] ∧ 0 ≤ i.updateId ∧
      i.duplicate = (s.tables.findInbox i.key).isSome ∧
      s.tables.OffsetsForward s'.tables ∧
      ∃ row, inboxKey row = i.key ∧ s'.tables.inbox = (insertInbox row s.tables).inbox ∧
        (i.allowed = true → ∃ json, i.payload = .ok json ∧ row.payload = some json) := by
  cases h with
  | @ingests update policy streamKey a updateId result t i hid h hi =>
      obtain ⟨updateId', n, epoch, row, hingested⟩ := ingestTelegramUpdate_ok h
      obtain rfl : updateId = updateId' := Except.ok.inj (hid.symm.trans hingested.id)
      have hkey : (Platform.telegram, eventId epoch updateId) = i.key := by
        rw [hi, hingested.current]
        rfl
      obtain ⟨hash, json, hrow⟩ := hingested.shape
      refine ⟨rfl, ?_, ?_, hingested.forward, row, ?_, hingested.inbox, fun hallowed => ?_⟩
      · rw [hi]
        exact requireUpdateId_nonneg hid
      · rw [← hkey, ← hingested.duplicate, hi]
        rfl
      · rw [← hkey, hrow]
        rfl
      · have hpayload := hingested.payload
        have hsome : n.allowed.isSome = true := by
          rw [hi] at hallowed
          rw [hingested.normalized]
          exact hallowed
        obtain ⟨envelope, henvelope⟩ := Option.isSome_iff_exists.1 hsome
        rw [henvelope, Option.map_some] at hpayload
        have hupdate : i.payload = canonicalJson (dict update) := by
          rw [hi]
          rfl
        rw [hupdate]
        cases hjson : canonicalJson (dict update) with
        | error e => simp [optJson, hjson] at hpayload
        | ok column =>
            refine ⟨column, rfl, ?_⟩
            simpa [optJson, hjson, eq_comm] using hpayload

theorem forward (h : StreamStep store s taken s') : s.tables.OffsetsForward s'.tables := by
  cases taken with
  | none => exact (takes_none h).2.2
  | some i => exact (takes_some h).2.2.2.1

end StreamStep

namespace Streams
variable {store : ChannelStore} {s s' : Streams} {taken : Option Ingestion}

theorem forward_of_steps
    (h : Relation.ReflTransGen (fun s s' => ∃ taken, StreamStep store s taken s') s s') :
    s.tables.OffsetsForward s'.tables := by
  induction h with
  | refl => exact offsetsForward_of_eq rfl
  | tail _ hstep ih =>
      obtain ⟨taken, hstep⟩ := hstep
      exact offsetsForward_trans ih hstep.forward

/-- One event id is one stream's, and each allowed update has a row that holds it. -/
structure Inv (s : Streams) : Prop where
  nonneg : ∀ i ∈ s.ingestions, 0 ≤ i.updateId
  logged : ∀ key row, s.tables.findInbox key = some row → ∃ i ∈ s.ingestions, i.key = key
  single : ∀ i ∈ s.ingestions, ∀ j ∈ s.ingestions, i.key = j.key → i.SameUpdate j
  kept : ∀ i ∈ s.ingestions, i.allowed = true → ∃ row json, i.payload = .ok json ∧
    s.tables.findInbox i.key = some row ∧ row.payload = some json
  duplicates : ∀ n (i : Ingestion), s.ingestions[n]? = some i → i.duplicate = true →
    ∃ (m : ℕ) (j : Ingestion), m < n ∧ s.ingestions[m]? = some j ∧ j.SameUpdate i

theorem Inv.leaves (h : Inv s) (hstep : StreamStep store s none s') : Inv s' := by
  obtain ⟨hinbox, hingestions, -⟩ := hstep.takes_none
  have hfind : s'.tables.findInbox = s.tables.findInbox := by
    funext key
    rw [ChannelTables.findInbox, hinbox]
    rfl
  exact {
    nonneg := hingestions ▸ h.nonneg
    logged := by simpa only [hingestions, hfind] using h.logged
    single := hingestions ▸ h.single
    kept := by simpa only [hingestions, hfind] using h.kept
    duplicates := hingestions ▸ h.duplicates }

/-- Either nothing was taken under the key of the update or the first such is the same update. -/
theorem Inv.first_cases {i : Ingestion} (h : Inv s) (hid : 0 ≤ i.updateId)
    (hfirst : Ingestion.FirstAgrees s.ingestions i) :
    (∀ j ∈ s.ingestions, j.key ≠ i.key) ∨ ∃ j ∈ s.ingestions, j.key = i.key ∧ j.SameUpdate i ∧
      (i.allowed = true → j.allowed = true ∧ j.payload = i.payload) := by
  cases hj : Ingestion.first s.ingestions i with
  | none =>
      refine .inl fun j hjmem hkey => ?_
      obtain ⟨hepoch, hsame⟩ := eventId_injective (h.nonneg j hjmem) hid (Prod.mk.inj hkey).2
      have hnone := List.find?_eq_none.1 hj j hjmem
      simp [hepoch, hsame] at hnone
  | some j =>
      obtain ⟨hstream, hallowed⟩ := hfirst j hj
      have hsame := List.find?_some hj
      simp only [decide_eq_true_eq] at hsame
      refine .inr ⟨j, List.mem_of_find?_eq_some hj, ?_, ⟨hstream, hsame.1, hsame.2⟩, hallowed⟩
      rw [Ingestion.key, hsame.1, hsame.2, Ingestion.key]

theorem Inv.takes {i : Ingestion} (h : Inv s) (hstep : StreamStep store s (some i) s')
    (hfirst : Ingestion.FirstAgrees s.ingestions i) : Inv s' := by
  obtain ⟨hingestions, hid, hduplicate, -, row, hrow, hinbox, hpayload⟩ := hstep.takes_some
  have hcases := h.first_cases hid hfirst
  -- what an insertion under the key of the update makes of the inbox
  have hfind : ∀ key, s'.tables.findInbox key =
      (s.tables.findInbox key).or (if key = i.key then some row else none) := by
    intro key
    rw [ChannelTables.findInbox, hinbox, insertInbox]
    split
    · rename_i hsome
      by_cases hkey : key = i.key
      · obtain ⟨r, hr⟩ := Option.isSome_iff_exists.1 hsome
        rw [hrow] at hr
        rw [hkey, hr]
        exact hr
      · simp [hkey, ChannelTables.findInbox]
    · rw [Table.find_concat, hrow]
      simp only [ChannelTables.findInbox, eq_comm]
  have hold : ∀ {key r}, s.tables.findInbox key = some r → s'.tables.findInbox key = some r := by
    intro key r hr
    rw [hfind, hr, Option.some_or]
  have hmem : ∀ {j}, j ∈ s'.ingestions ↔ j ∈ s.ingestions ∨ j = i := by simp [hingestions]
  have hsingle : ∀ j ∈ s.ingestions, j.key = i.key → j.SameUpdate i := by
    intro j hj hkey
    rcases hcases with hnone | ⟨j₀, hj₀, hkey₀, hsame₀, -⟩
    · exact absurd hkey (hnone j hj)
    · have hsame := h.single j hj j₀ hj₀ (hkey.trans hkey₀.symm)
      exact ⟨hsame.1.trans hsame₀.1, hsame.2.1.trans hsame₀.2.1, hsame.2.2.trans hsame₀.2.2⟩
  refine ⟨?_, ?_, ?_, ?_, ?_⟩
  · intro j hj
    rcases hmem.1 hj with hj | rfl
    · exact h.nonneg j hj
    · exact hid
  · intro key r hr
    rw [hfind] at hr
    rcases Option.or_eq_some_iff.1 hr with hr | ⟨-, hr⟩
    · obtain ⟨j, hj, hkey⟩ := h.logged key r hr
      exact ⟨j, hmem.2 (.inl hj), hkey⟩
    · split at hr
      · rename_i hkey
        exact ⟨i, hmem.2 (.inr rfl), hkey.symm⟩
      · simp at hr
  · intro j hj k hk hkey
    rcases hmem.1 hj with hj | rfl <;> rcases hmem.1 hk with hk | rfl
    · exact h.single j hj k hk hkey
    · exact hsingle j hj hkey
    · obtain ⟨hstream, hepoch, hupdate⟩ := hsingle k hk hkey.symm
      exact ⟨hstream.symm, hepoch.symm, hupdate.symm⟩
    · exact ⟨rfl, rfl, rfl⟩
  · intro j hj hallowed
    rcases hmem.1 hj with hj | rfl
    · obtain ⟨r, json, hjson, hr, hheld⟩ := h.kept j hj hallowed
      exact ⟨r, json, hjson, hold hr, hheld⟩
    · rcases hcases with hnone | ⟨j₀, hj₀, hkey₀, -, hagrees⟩
      · -- no row is under the key: the one that is inserted holds the payload
        obtain ⟨json, hjson, hheld⟩ := hpayload hallowed
        refine ⟨row, json, hjson, ?_, hheld⟩
        cases hr : s.tables.findInbox j.key with
        | none => rw [hfind, hr, Option.none_or, if_pos rfl]
        | some r =>
            obtain ⟨k, hk, hkey⟩ := h.logged _ _ hr
            exact absurd hkey (hnone k hk)
      · obtain ⟨hallowed₀, hpayload₀⟩ := hagrees hallowed
        obtain ⟨r, json, hjson, hr, hheld⟩ := h.kept j₀ hj₀ hallowed₀
        exact ⟨r, json, hpayload₀ ▸ hjson, hold (hkey₀ ▸ hr), hheld⟩
  · intro n j hj hdup
    rw [hingestions] at hj ⊢
    by_cases hn : n < s.ingestions.length
    · rw [List.getElem?_append_left hn] at hj
      obtain ⟨m, k, hm, hk, hsame⟩ := h.duplicates n j hj hdup
      exact ⟨m, k, hm, by rw [List.getElem?_append_left (hm.trans hn)]; exact hk, hsame⟩
    · rw [List.getElem?_append_right (Nat.not_lt.1 hn)] at hj
      obtain ⟨hlast, rfl⟩ := List.getElem?_eq_some_iff.1 hj
      -- the update is the new one: the row under its key was logged by an earlier one
      simp only [List.getElem_singleton] at hdup ⊢
      rw [hduplicate] at hdup
      obtain ⟨r, hr⟩ := Option.isSome_iff_exists.1 hdup
      obtain ⟨k, hk, hkey⟩ := h.logged _ _ hr
      obtain ⟨m, hm, hget⟩ := List.getElem_of_mem hk
      refine ⟨m, k, by omega, ?_, hsingle k hk hkey⟩
      rw [List.getElem?_append_left hm, List.getElem?_eq_getElem hm, hget]

theorem Inv.reach (h : StreamReach store Ingestion.FirstAgrees s) : Inv s := by
  induction h with
  | start => constructor <;> simp [ChannelTables.findInbox, Table.find]
  | @step s s' taken _ hstep hagrees ih =>
      cases taken with
      | none => exact ih.leaves hstep
      | some i => exact ih.takes hstep (hagrees i rfl)

end Streams

/-- As long as the first update under an event id was the same update, none is lost. -/
theorem no_update_lost {store : ChannelStore} {s : Streams}
    (h : StreamReach store Ingestion.FirstAgrees s) : NoUpdateLost store s where
  duplicates := (Streams.Inv.reach h).duplicates
  kept := (Streams.Inv.reach h).kept
  own := (Streams.Inv.reach h).single
  forward s' hsteps key row hrow := by
    obtain ⟨row', hrow', hprecedes⟩ := Streams.forward_of_steps hsteps key row hrow
    refine ⟨row', hrow', fun hepoch => ?_⟩
    rcases hprecedes with hlater | ⟨-, hoffset⟩
    · omega
    · exact hoffset

/-! Two bots whose updates have the same id. -/

namespace Bots

def store : ChannelStore where
  sha := .ofTable [
    ("\x7b\"message\":\x7b\"chat\":\x7b\"id\":7\x7d,\"from\":\x7b\"id\":7\x7d,\"text\":\"go\"\x7d,\"update_id\":1\x7d",
      "36d375c43834d612e890ac4bf0acd78c6fe516e8384291846ac7555278af576a")]
  py := ⟨fun v => if v = .int 7 then "7" else "", fun _ => "", fun _ => .ok 0, fun _ _ => false⟩
  telegramStreamKey := "first"
  authorizationPolicy := ⟨["7"], ["7"], ["message"], fun _ => none, fun _ => none⟩

def update : List (String × PyVal) :=
  [("update_id", .int 1), ("message", dict [("chat", dict [("id", .int 7)]),
    ("from", dict [("id", .int 7)]), ("text", .str "go")])]

def ingest (streamKey : String) : Op IngestResult :=
  ingestTelegramUpdate store update none (some streamKey) ⟨1, 1, ""⟩

def taken : ChannelTables := (ingest "first" ⟨[], [], [], []⟩).2

theorem ingest_first : ∃ result, ingest "first" ⟨[], [], [], []⟩ = (.ok result, taken) ∧
    result.duplicate = false := by
  have h : (ingest "first" ⟨[], [], [], []⟩).1.toOption.any
      (fun result => result.duplicate = false) = true := by decide +kernel
  rcases hr : ingest "first" ⟨[], [], [], []⟩ with ⟨_ | result, t⟩
  · simp [hr, Except.toOption] at h
  · refine ⟨result, ?_, by simpa [hr, Except.toOption] using h⟩
    rw [taken, hr]

theorem ingest_taken (streamKey : String)
    (h : (ingest streamKey taken).1.toOption.any (fun result => result.duplicate = true) = true) :
    ∃ result t, ingest streamKey taken = (.ok result, t) ∧ result.duplicate = true := by
  rcases hr : ingest streamKey taken with ⟨_ | result, t⟩
  · simp [hr, Except.toOption] at h
  · exact ⟨result, t, rfl, by simpa [hr, Except.toOption] using h⟩

/-- A run in which the update comes to the first bot and then to a bot that is given. -/
theorem reach_twice {C : List Ingestion → Ingestion → Prop} (streamKey : String)
    (h : (ingest streamKey taken).1.toOption.any (fun result => result.duplicate = true) = true)
    (hfirst : ∀ i : Ingestion, C [] i)
    (hsecond : ∀ i j : Ingestion, i.streamKey = "first" → i.allowed = true → i.update = update →
      j.streamKey = store.streamOf (some streamKey) → j.update = update → C [i] j) :
    ∃ (s : Streams) (i j : Ingestion), StreamReach store C s ∧ s.ingestions = [i, j] ∧
      i.streamKey = "first" ∧ j.streamKey = store.streamOf (some streamKey) ∧
      j.duplicate = true ∧ i.allowed = true := by
  obtain ⟨result, hresult, hduplicate⟩ := ingest_first
  obtain ⟨result', t, hresult', hduplicate'⟩ := ingest_taken streamKey h
  have hid : requireUpdateId update = .ok 1 := by decide +kernel
  have hreach := (@StreamReach.start store C).step (.ingests hid hresult rfl) fun i _ => hfirst i
  have hallowed : (normalizeTelegramUpdate store.py store.authorizationPolicy 1 ""
    update).allowed.isSome = true := by decide +kernel
  refine ⟨_, _, _, hreach.step (.ingests hid hresult' rfl) ?_, rfl, ?_⟩
  · rintro j hj
    obtain rfl := Option.some.inj hj
    exact hsecond _ _ rfl hallowed rfl rfl rfl
  · exact ⟨rfl, rfl, hduplicate', hallowed⟩

end Bots

theorem no_update_lost_repeated : ∃ (s : Streams) (i j : Ingestion), s.ingestions = [i, j] ∧
    i.allowed = true ∧ j.duplicate = true ∧ NoUpdateLost Bots.store s := by
  obtain ⟨s, i, j, hreach, hs, -, -, hduplicate, hallowed⟩ :=
    Bots.reach_twice (C := Ingestion.FirstAgrees) "first" (by decide +kernel)
      (fun i j hj => by simp [Ingestion.first] at hj) (by
        intro i j hi hallowed hupdate hj hupdate' k hk
        obtain rfl : k = i := by simpa using List.mem_of_find?_eq_some hk
        refine ⟨hi.trans hj.symm, fun _ => ⟨hallowed, ?_⟩⟩
        rw [Ingestion.payload, Ingestion.payload, hupdate, hupdate'])
  exact ⟨s, i, j, hs, hallowed, hduplicate, no_update_lost hreach⟩

/-- The update of a second bot is taken for the update of the first one. -/
theorem second_bot_merged :
    ¬ ∀ s, StreamReach Bots.store (fun _ _ => True) s → NoUpdateLost Bots.store s := by
  intro h
  obtain ⟨s, i, j, hreach, hs, hi, hj, hduplicate, -⟩ :=
    Bots.reach_twice (C := fun _ _ => True) "second" (by decide +kernel)
      (fun _ => trivial) fun _ _ _ _ _ _ _ => trivial
  obtain ⟨m, k, hm, hk, hsame, -⟩ := (h s hreach).duplicates 1 j (by rw [hs]; rfl) hduplicate
  obtain rfl : m = 0 := by omega
  obtain rfl : i = k := by simpa [hs] using hk
  have hstreams := hi.symm.trans (hsame.trans hj)
  exact absurd hstreams (by decide)

end Polaris
