import Polaris.Library.RevisionLog
import Polaris.Memory.Snapshot

namespace Polaris
open PyJson

structure MemoryRevision where
  entry : MemoryEntry
  operation : String

structure IndexRow where
  entryId : String
  scope : MemoryScope
  content : String

/-- The store with the table of its revisions and its search index. -/
structure MemoryTables extends MemoryStore where
  revisions : List MemoryRevision
  index : List IndexRow

def MemoryTables.empty : MemoryTables := ⟨⟨[], 0, []⟩, [], []⟩

/-- One `MemoryStore` object of those that are open on a database. -/
structure MemoryWriter where
  backend : MemoryBackend
  ftsAvailable : Bool

namespace MemoryWriter
variable (writer : MemoryWriter)

abbrev Op (β : Type) := Txn PyError MemoryTables β

def onStore {β : Type} (op : MemoryBackend.Op β) : Op β := fun t =>
  ((op t.toMemoryStore).1, { t with toMemoryStore := (op t.toMemoryStore).2 })

def insertRevision (entry : MemoryEntry) (operation : String) : Op Unit := do
  let taken ← Txn.read fun t => t.revisions.any fun v =>
    v.entry.id = entry.id && v.entry.revision = entry.revision
  Txn.require (!taken) ⟨.integrityError,
    "UNIQUE constraint failed: memory_revisions.entry_id, memory_revisions.revision"⟩
  Txn.write fun t => { t with revisions := t.revisions ++ [⟨entry, operation⟩] }

def insertIndex (entry : MemoryEntry) : Op Unit :=
  if writer.ftsAvailable && entry.blockedReason.isNone then
    Txn.write fun t => { t with index := t.index ++ [⟨entry.id, entry.scope, entry.content⟩] }
  else return ()

/-- `_replace_fts`; an entry that is removed has no content there. -/
def replaceIndex (entry : MemoryEntry) (content : Option String) : Op Unit :=
  if writer.ftsAvailable then do
    Txn.write fun t => { t with index := t.index.filter fun row => row.entryId ≠ entry.id }
    if content.isSome then writer.insertIndex entry else return ()
  else return ()

def appendInTransaction (a : Ambient) (scope : MemoryScope) (write : MemoryWrite) :
    Op MemoryEntry := do
  let entry ← onStore (writer.backend.appendInTransaction a scope write)
  insertRevision entry "append"
  writer.insertIndex entry
  return entry

def append (a : Ambient) (scope : MemoryScope) (write : MemoryWrite) : Op MemoryEntry :=
  Txn.atomically (writer.appendInTransaction a scope write)

def appendAll (scope : MemoryScope) : List (Ambient × MemoryWrite) → Op (List MemoryEntry)
  | [] => return []
  | (a, write) :: writes => do
      let entry ← writer.appendInTransaction a scope write
      return entry :: (← appendAll scope writes)

def appendMany (scope : MemoryScope) (writes : List (Ambient × MemoryWrite)) :
    Op (List MemoryEntry) := Txn.atomically (writer.appendAll scope writes)

def appendIdempotent (a : Ambient) (scope : MemoryScope) (write : MemoryWrite)
    (idempotencyKey : String) : Op MemoryEntry := do
  Txn.require (!isBlankText idempotencyKey)
    (MemoryBackend.validation "idempotency_key must be a non-empty string")
  let writeHash := writer.backend.writeIdentityHash write
  Txn.atomically do
    match ← Txn.read fun t => t.idempotency.find? fun row => row.idempotencyKey = idempotencyKey with
    | some row => do
        Txn.require (row.scope = scope && row.writeHash = writeHash)
          (MemoryBackend.conflict "idempotency key already exists with different memory content")
        onStore (MemoryBackend.getInTransaction scope row.entryId true)
    | none => do
        let entry ← writer.appendInTransaction a scope write
        Txn.write fun t => { t with
          toMemoryStore := MemoryBackend.addIdempotency ⟨idempotencyKey, entry.id, scope, writeHash⟩
            t.toMemoryStore }
        return entry

def appendReconciled (a : Ambient) (scope : MemoryScope) (write : MemoryWrite) :
    Op (MemoryEntry × Bool) := Txn.atomically do
  let equal ← Txn.read fun t => (MemoryBackend.activeEntries scope t.toMemoryStore).find? fun e =>
    e.contentHash = writer.backend.contentHash write.content
  match equal with
  | some entry => return (entry, false)
  | none => return (← writer.appendInTransaction a scope write, true)

def replace (a : Ambient) (scope : MemoryScope) (entryId : String)
    (replacement : MemoryBackend.Replacement) (expectedRevision : Option ℕ)
    (expectedHash : Option String) : Op MemoryEntry := Txn.atomically do
  let entry ← onStore (writer.backend.replace a scope entryId replacement expectedRevision
    expectedHash)
  insertRevision entry "replace"
  writer.replaceIndex entry (some entry.content)
  return entry

def remove (a : Ambient) (scope : MemoryScope) (entryId : String) (expectedRevision : Option ℕ)
    (expectedHash : Option String) : Op MemoryEntry := Txn.atomically do
  let current ← onStore (MemoryBackend.getInTransaction scope entryId true)
  if current.tombstoned then return current
  else
    let entry ← onStore (MemoryBackend.remove a scope entryId expectedRevision expectedHash)
    insertRevision entry "tombstone"
    writer.replaceIndex entry none
    return entry

def perform (a : Ambient) {β : Type} : MemoryCall β → Op β
  | .append scope write => writer.append a scope write
  | .appendMany scope writes => writer.appendMany scope writes
  | .appendIdempotent scope write key => writer.appendIdempotent a scope write key
  | .appendReconciled scope write => writer.appendReconciled a scope write
  | .replace scope entryId replacement revision hash =>
      writer.replace a scope entryId replacement revision hash
  | .remove scope entryId revision hash => writer.remove a scope entryId revision hash

end MemoryWriter

/-- A call of one of the writers. -/
structure MemoryIssued where
  {β : Type}
  writer : MemoryWriter
  ambient : Ambient
  call : MemoryCall β

namespace MemoryIssued

def outcome (i : MemoryIssued) (t : MemoryTables) : Except PyError i.β × MemoryTables :=
  i.writer.perform i.ambient i.call t

def after (i : MemoryIssued) (t : MemoryTables) : MemoryTables := (i.outcome t).2

end MemoryIssued

namespace MemoryTables

def history (calls : List MemoryIssued) : MemoryTables :=
  calls.foldl (fun t i => i.after t) .empty

def revisionsOf (entryId : String) (t : MemoryTables) : List MemoryEntry :=
  RevisionLog.valuesOf MemoryEntry.id entryId (t.revisions.map MemoryRevision.entry)

/-- The entries are the last of their revisions. -/
structure Consistent (t : MemoryTables) : Prop where
  keyed : Table.Keyed MemoryEntry.id t.entries
  revisions : ∀ e ∈ t.entries,
    (t.revisionsOf e.id).map MemoryEntry.revision = List.range' 1 e.revision
  current : ∀ e ∈ t.entries, (t.revisionsOf e.id).getLast? = some e
  scope : ∀ v ∈ t.revisions, ∀ e ∈ t.entries, v.entry.id = e.id → v.entry.scope = e.scope
  owned : ∀ v ∈ t.revisions, ∃ e ∈ t.entries, e.id = v.entry.id
  counted : t.generation = t.revisions.length

end MemoryTables

/-- The entry is the one that a call expects to change. -/
def MemoryCall.Expects {β : Type} (entry : MemoryEntry) : MemoryCall β → Prop
  | .replace _ entryId _ revision hash | .remove _ entryId revision hash =>
      entry.id = entryId ∧ (revision.isSome ∨ hash.isSome) ∧ (∀ n ∈ revision, entry.revision = n) ∧
        ∀ h ∈ hash, entry.contentHash = h
  | _ => False

namespace MemoryTables

/-- Every revision but a first one was written over the one that its call expected. -/
def NoLostUpdate (calls : List MemoryIssued) : Prop :=
  ∀ v ∈ (history calls).revisions, 1 < v.entry.revision → ∃ before i later,
    calls = before ++ i :: later ∧ v ∉ (history before).revisions ∧
      v ∈ (history (before ++ [i])).revisions ∧ ∃ old ∈ (history before).revisions,
        old.entry.id = v.entry.id ∧ v.entry.revision = old.entry.revision + 1 ∧
          i.call.Expects old.entry

/-- An entry that is removed stays as it is, and so do its revisions. -/
def TombstonesStay (calls : List MemoryIssued) : Prop :=
  ∀ before later, calls = before ++ later → ∀ e ∈ (history before).entries, e.tombstoned = true →
    e ∈ (history calls).entries ∧
      (history calls).revisionsOf e.id = (history before).revisionsOf e.id

/-- A call that raises leaves all of the tables as they were. -/
def FailsUnchanged (calls : List MemoryIssued) : Prop :=
  ∀ (i : MemoryIssued) (exc : PyError), (i.outcome (history calls)).1 = .error exc →
    i.after (history calls) = history calls

end MemoryTables

/-! What a call does to the tables. -/

namespace MemoryBackend
variable {backend : MemoryBackend} {a : Ambient} {scope : MemoryScope} {s s' : MemoryStore}
  {entryId : String} {entry : MemoryEntry} {revision : Option ℕ} {hash : Option String}

theorem appendInTransaction_ok {write : MemoryWrite}
    (h : backend.appendInTransaction a scope write s = (.ok entry, s')) :
    findEntry entry.id s = none ∧ entry.revision = 1 ∧ s' = changed (s.entries ++ [entry]) s := by
  simp only [appendInTransaction, Txn.bind_ok, Txn.read_ok, Txn.require_ok, Txn.write_ok,
    Txn.pure_ok] at h
  obtain ⟨_, _, ⟨rfl, rfl⟩, _, _, ⟨hfresh, rfl⟩, _, _, rfl, rfl, rfl⟩ := h
  exact ⟨Option.isNone_iff_eq_none.1 hfresh, rfl, rfl⟩

theorem getInTransaction_ok {includeTombstone : Bool}
    (h : getInTransaction scope entryId includeTombstone s = (.ok entry, s')) :
    entry ∈ s.entries ∧ entry.id = entryId ∧ entry.scope = scope ∧ s' = s := by
  simp only [getInTransaction, Txn.bind_ok, Txn.read_ok, Txn.getOr_ok] at h
  obtain ⟨_, _, ⟨rfl, rfl⟩, hfound, rfl⟩ := h
  have hmatches := List.find?_some hfound
  simp only [Bool.and_eq_true, decide_eq_true_eq] at hmatches
  exact ⟨List.mem_of_find?_eq_some hfound, hmatches.1.1, hmatches.1.2, rfl⟩

theorem checkExpected_ok {u : Unit} (h : checkExpected entry revision hash s = (.ok u, s')) :
    (revision.isSome ∨ hash.isSome) ∧ (∀ n ∈ revision, entry.revision = n) ∧
      (∀ h ∈ hash, entry.contentHash = h) ∧ s' = s := by
  simp only [checkExpected, Txn.bind_ok, Txn.require_ok, Bool.or_eq_true] at h
  obtain ⟨_, _, ⟨hgiven, rfl⟩, _, _, ⟨hrevision, rfl⟩, hhash, rfl⟩ := h
  refine ⟨hgiven, fun n hn => ?_, fun given hn => ?_, rfl⟩
  · rw [Option.mem_def.1 hn] at hrevision
    simpa using hrevision
  · rw [Option.mem_def.1 hn] at hhash
    simpa using hhash

/-- The entry that a call changes, and what becomes of it. -/
structure Revises (s : MemoryStore) (entryId : String) (revision : Option ℕ) (hash : Option String)
    (old entry : MemoryEntry) : Prop where
  found : old ∈ s.entries
  active : old.tombstoned = false
  expected : old.id = entryId ∧ (revision.isSome ∨ hash.isSome) ∧
    (∀ n ∈ revision, old.revision = n) ∧ ∀ h ∈ hash, old.contentHash = h
  id : entry.id = old.id
  scope : entry.scope = old.scope
  next : entry.revision = old.revision + 1

theorem replace_ok {replacement : Replacement}
    (h : backend.replace a scope entryId replacement revision hash s = (.ok entry, s')) :
    ∃ old, Revises s entryId revision hash old entry ∧ s' = replaceEntry entry s := by
  simp only [replace, Txn.bind_ok, Txn.atomically_ok, Txn.require_ok, Txn.lift_ok, Txn.write_ok,
    Txn.pure_ok] at h
  obtain ⟨old, t, hold, _, _, ⟨hactive, rfl⟩, _, _, hexpected, _, _, ⟨-, rfl⟩, _, _, rfl, rfl, rfl⟩ :=
    h
  obtain ⟨hgiven, hrevision, hhash, rfl⟩ := checkExpected_ok hexpected
  obtain ⟨hmem, hid, hscope, rfl⟩ := getInTransaction_ok hold
  exact ⟨old, ⟨hmem, by simpa using hactive, ⟨hid, hgiven, hrevision, hhash⟩, hid.symm, hscope.symm,
    rfl⟩, rfl⟩

theorem remove_ok (h : remove a scope entryId revision hash s = (.ok entry, s')) :
    (∃ old, Revises s entryId revision hash old entry ∧ s' = replaceEntry entry s) ∨
      getInTransaction scope entryId true s = (.ok entry, s') ∧ entry.tombstoned = true := by
  simp only [remove, Txn.bind_ok, Txn.atomically_ok, Txn.ite_ok, Txn.write_ok, Txn.pure_ok] at h
  obtain ⟨old, t, hold, ⟨hgone, rfl, rfl⟩ | ⟨hactive, _, _, hexpected, _, _, rfl, rfl, rfl⟩⟩ := h
  · exact .inr ⟨hold, hgone⟩
  · obtain ⟨hgiven, hrevision, hhash, rfl⟩ := checkExpected_ok hexpected
    obtain ⟨hmem, hid, -, rfl⟩ := getInTransaction_ok hold
    exact .inl ⟨old, ⟨hmem, by simpa using hactive, ⟨hid, hgiven, hrevision, hhash⟩, rfl, rfl, rfl⟩,
      rfl⟩

end MemoryBackend

namespace MemoryWriter
open MemoryBackend (findEntry Revises)
variable {writer : MemoryWriter} {a : Ambient} {scope : MemoryScope} {t t' : MemoryTables}
  {entry : MemoryEntry}

/-- The part of the tables that the revisions are about. -/
structure Agrees (t t' : MemoryTables) : Prop where
  entries : t'.entries = t.entries
  generation : t'.generation = t.generation
  revisions : t'.revisions = t.revisions

inductive Appended (t : MemoryTables) : MemoryTables → Prop
  | none {t' : MemoryTables} : Agrees t t' → Appended t t'
  | add {u t' : MemoryTables} {entry : MemoryEntry} : Appended t u →
      findEntry entry.id u.toMemoryStore = none → entry.revision = 1 →
      t'.entries = u.entries ++ [entry] → t'.generation = u.generation + 1 →
      t'.revisions = u.revisions ++ [⟨entry, "append"⟩] → Appended t t'

inductive Written (Expects : MemoryEntry → Prop) (t t' : MemoryTables) : Prop
  | appended : Appended t t' → Written Expects t t'
  | revised {old entry : MemoryEntry} {operation : String} : old ∈ t.entries →
      old.tombstoned = false → Expects old → entry.id = old.id → entry.scope = old.scope →
      entry.revision = old.revision + 1 → t'.entries = Table.put MemoryEntry.id entry t.entries →
      t'.generation = t.generation + 1 → t'.revisions = t.revisions ++ [⟨entry, operation⟩] →
      Written Expects t t'

theorem Appended.trans {u : MemoryTables} (h : Appended t u) (h' : Appended u t') :
    Appended t t' := by
  induction h' with
  | none hagrees =>
      cases h with
      | none hsame => exact .none ⟨hagrees.entries.trans hsame.entries,
          hagrees.generation.trans hsame.generation, hagrees.revisions.trans hsame.revisions⟩
      | add hbefore hfresh hfirst hentries hgeneration hrevisions =>
          exact .add hbefore hfresh hfirst (hagrees.entries.trans hentries)
            (hagrees.generation.trans hgeneration) (hagrees.revisions.trans hrevisions)
  | add _ hfresh hfirst hentries hgeneration hrevisions ih =>
      exact .add ih hfresh hfirst hentries hgeneration hrevisions

theorem onStore_ok {β : Type} {op : MemoryBackend.Op β} {b : β} :
    onStore op t = (.ok b, t') ↔ ∃ m, op t.toMemoryStore = (.ok b, m) ∧
      t' = { t with toMemoryStore := m } := by
  simp only [onStore, Prod.mk.injEq]
  constructor
  · rintro ⟨hok, rfl⟩
    exact ⟨_, Prod.ext hok rfl, rfl⟩
  · rintro ⟨m, hm, rfl⟩
    rw [hm]
    exact ⟨rfl, rfl⟩

theorem insertRevision_ok {operation : String} {u : Unit}
    (h : insertRevision entry operation t = (.ok u, t')) :
    t' = { t with revisions := t.revisions ++ [⟨entry, operation⟩] } := by
  simp only [insertRevision, Txn.bind_ok, Txn.read_ok, Txn.require_ok, Txn.write_ok] at h
  obtain ⟨_, _, ⟨-, rfl⟩, _, _, ⟨-, rfl⟩, rfl⟩ := h
  rfl

theorem insertIndex_ok {u : Unit} (h : writer.insertIndex entry t = (.ok u, t')) : Agrees t t' := by
  simp only [insertIndex, Txn.ite_ok, Txn.write_ok, Txn.pure_ok] at h
  obtain ⟨-, rfl⟩ | ⟨-, -, rfl⟩ := h <;> exact ⟨rfl, rfl, rfl⟩

theorem replaceIndex_ok {content : Option String} {u : Unit}
    (h : writer.replaceIndex entry content t = (.ok u, t')) : Agrees t t' := by
  simp only [replaceIndex, Txn.ite_ok, Txn.bind_ok, Txn.write_ok, Txn.pure_ok] at h
  obtain ⟨-, _, _, rfl, ⟨-, hinsert⟩ | ⟨-, -, rfl⟩⟩ | ⟨-, -, rfl⟩ := h
  · obtain ⟨hentries, hgeneration, hrevisions⟩ := insertIndex_ok hinsert
    exact ⟨hentries, hgeneration, hrevisions⟩
  · exact ⟨rfl, rfl, rfl⟩
  · exact ⟨rfl, rfl, rfl⟩

theorem appendInTransaction_appended {write : MemoryWrite}
    (h : writer.appendInTransaction a scope write t = (.ok entry, t')) : Appended t t' := by
  simp only [appendInTransaction, Txn.bind_ok, onStore_ok, Txn.pure_ok] at h
  obtain ⟨_, _, ⟨m, hstore, rfl⟩, _, _, hrevision, _, _, hindex, rfl, rfl⟩ := h
  obtain ⟨hfresh, hfirst, rfl⟩ := MemoryBackend.appendInTransaction_ok hstore
  obtain rfl := insertRevision_ok hrevision
  have hagrees := insertIndex_ok hindex
  exact .add (.none ⟨rfl, rfl, rfl⟩) hfresh hfirst hagrees.entries hagrees.generation
    hagrees.revisions

theorem appendAll_appended {writes : List (Ambient × MemoryWrite)} {entries : List MemoryEntry}
    (h : writer.appendAll scope writes t = (.ok entries, t')) : Appended t t' := by
  induction writes generalizing t entries with
  | nil =>
      simp only [appendAll, Txn.pure_ok] at h
      exact .none (h.2 ▸ ⟨rfl, rfl, rfl⟩)
  | cons write writes ih =>
      simp only [appendAll, Txn.bind_ok, Txn.pure_ok] at h
      obtain ⟨entry, u, hentry, rest, _, hrest, -, rfl⟩ := h
      exact (appendInTransaction_appended hentry).trans (ih hrest)

theorem written_of_revises {Expects : MemoryEntry → Prop} {entryId operation : String}
    {revision : Option ℕ} {hash : Option String} {old : MemoryEntry} {content : Option String}
    {u : MemoryTables} {x y : Unit} (hrevises : Revises t.toMemoryStore entryId revision hash old entry)
    (hexpects : Expects old) (hrevision : insertRevision entry operation
      { t with toMemoryStore := MemoryBackend.replaceEntry entry t.toMemoryStore } = (.ok x, u))
    (hindex : writer.replaceIndex entry content u = (.ok y, t')) : Written Expects t t' := by
  obtain rfl := insertRevision_ok hrevision
  have hagrees := replaceIndex_ok hindex
  exact .revised hrevises.found hrevises.active hexpects hrevises.id hrevises.scope hrevises.next
    hagrees.entries hagrees.generation hagrees.revisions

theorem perform_written {β : Type} {call : MemoryCall β} {b : β}
    (h : writer.perform a call t = (.ok b, t')) : Written (fun e => call.Expects e) t t' := by
  cases call with
  | append => exact .appended (appendInTransaction_appended (Txn.atomically_ok.1 h))
  | appendMany => exact .appended (appendAll_appended (Txn.atomically_ok.1 h))
  | appendIdempotent scope write key =>
      simp only [perform, appendIdempotent, Txn.bind_ok, Txn.require_ok, Txn.atomically_ok,
        Txn.read_ok] at h
      obtain ⟨_, _, ⟨-, rfl⟩, found, _, ⟨-, rfl⟩, h⟩ := h
      cases found with
      | some row =>
          simp only [Txn.bind_ok, Txn.require_ok, onStore_ok] at h
          obtain ⟨_, _, ⟨-, rfl⟩, m, hm, rfl⟩ := h
          obtain rfl := MemoryBackend.getInTransaction_same hm
          exact .appended (.none ⟨rfl, rfl, rfl⟩)
      | none =>
          simp only [Txn.bind_ok, Txn.write_ok, Txn.pure_ok] at h
          obtain ⟨entry, u, hentry, _, _, rfl, -, rfl⟩ := h
          exact .appended ((appendInTransaction_appended hentry).trans (.none ⟨rfl, rfl, rfl⟩))
  | appendReconciled =>
      simp only [perform, appendReconciled, Txn.bind_ok, Txn.atomically_ok, Txn.read_ok] at h
      obtain ⟨found, _, ⟨-, rfl⟩, h⟩ := h
      cases found with
      | some row =>
          simp only [Txn.pure_ok] at h
          exact .appended (.none (h.2 ▸ ⟨rfl, rfl, rfl⟩))
      | none =>
          simp only [Txn.bind_ok, Txn.pure_ok] at h
          obtain ⟨entry, _, hentry, -, rfl⟩ := h
          exact .appended (appendInTransaction_appended hentry)
  | replace =>
      simp only [perform, replace, Txn.bind_ok, Txn.atomically_ok, onStore_ok, Txn.pure_ok] at h
      obtain ⟨entry, _, ⟨m, hstore, rfl⟩, _, _, hrevision, _, _, hindex, -, rfl⟩ := h
      obtain ⟨old, hrevises, rfl⟩ := MemoryBackend.replace_ok hstore
      exact written_of_revises hrevises hrevises.expected hrevision hindex
  | remove =>
      simp only [perform, remove, Txn.bind_ok, Txn.atomically_ok, Txn.ite_ok, onStore_ok,
        Txn.pure_ok] at h
      obtain ⟨current, _, ⟨m, hcurrent, rfl⟩, ⟨-, -, rfl⟩ | ⟨hactive, entry, _, ⟨m', hstore, rfl⟩, _, _,
        hrevision, _, _, hindex, -, rfl⟩⟩ := h
      · obtain rfl := MemoryBackend.getInTransaction_same hcurrent
        exact .appended (.none ⟨rfl, rfl, rfl⟩)
      · obtain rfl := MemoryBackend.getInTransaction_same hcurrent
        rcases MemoryBackend.remove_ok hstore with ⟨old, hrevises, rfl⟩ | ⟨hagain, hgone⟩
        · exact written_of_revises hrevises hrevises.expected hrevision hindex
        · obtain ⟨hsame, -⟩ := Prod.mk.inj (hcurrent.symm.trans hagain)
          obtain rfl := Except.ok.inj hsame
          exact absurd hgone hactive

theorem perform_atomic {β : Type} (call : MemoryCall β) : Txn.Atomic (writer.perform a call) := by
  cases call with
  | appendIdempotent =>
      exact (Txn.require_readOnly _ _).bind_atomic fun _ => Txn.atomically_atomic _
  | _ => exact Txn.atomically_atomic _

end MemoryWriter

namespace MemoryTables
open MemoryWriter
variable {t t' : MemoryTables}

theorem consistent_iff : t.Consistent ↔
    RevisionLog.Logged MemoryEntry.id MemoryEntry.revision MemoryEntry.scope t.entries
      (t.revisions.map MemoryRevision.entry) ∧ t.generation = t.revisions.length := by
  constructor
  · intro h
    refine ⟨⟨h.keyed, h.revisions, h.current, fun v hv e he hid => ?_, fun v hv => ?_⟩, h.counted⟩
    · obtain ⟨r, hr, rfl⟩ := List.mem_map.1 hv
      exact h.scope r hr e he hid
    · obtain ⟨r, hr, rfl⟩ := List.mem_map.1 hv
      exact h.owned r hr
  · rintro ⟨h, hcounted⟩
    exact ⟨h.keyed, h.numbered, h.current,
      fun v hv e he hid => h.tagged v.entry (List.mem_map_of_mem hv) e he hid,
      fun v hv => h.owned v.entry (List.mem_map_of_mem hv), hcounted⟩

theorem consistent_empty : empty.Consistent := consistent_iff.2 ⟨.empty, rfl⟩

theorem Agrees.consistent (h : Agrees t t') (ht : t.Consistent) : t'.Consistent := by
  rw [consistent_iff, h.entries, h.generation, h.revisions]
  exact consistent_iff.1 ht

theorem Appended.consistent (h : Appended t t') (ht : t.Consistent) : t'.Consistent := by
  induction h with
  | none hagrees => exact Agrees.consistent hagrees ht
  | add _ hfresh hfirst hentries hgeneration hrevisions ih =>
      obtain ⟨hlogged, hcounted⟩ := consistent_iff.1 ih
      rw [consistent_iff, hentries, hgeneration, hrevisions, List.map_append, List.length_append,
        hcounted]
      exact ⟨hlogged.insert hfresh hfirst, rfl⟩

theorem Written.consistent {Expects : MemoryEntry → Prop} (h : Written Expects t t')
    (ht : t.Consistent) : t'.Consistent := by
  cases h with
  | appended happended => exact Appended.consistent happended ht
  | revised hold hactive hexpects hid hscope hnext hentries hgeneration hrevisions =>
      obtain ⟨hlogged, hcounted⟩ := consistent_iff.1 ht
      rw [consistent_iff, hentries, hgeneration, hrevisions, List.map_append, List.length_append,
        hcounted]
      exact ⟨hlogged.revise hold hid hnext hscope, rfl⟩

theorem Consistent.revision_le (h : t.Consistent) {v : MemoryRevision} {e : MemoryEntry}
    (hv : v ∈ t.revisions) (he : e ∈ t.entries) (hid : v.entry.id = e.id) :
    v.entry.revision ≤ e.revision :=
  ((consistent_iff.1 h).1.revision_le he (List.mem_map_of_mem hv) hid).2

/-- A new revision is the first of its entry, or it follows one that was expected. -/
theorem Written.revision {Expects : MemoryEntry → Prop} (h : Written Expects t t')
    (ht : t.Consistent) {v : MemoryRevision} (hv : v ∈ t'.revisions) (hlater : 1 < v.entry.revision) :
    v ∈ t.revisions ∨ v ∉ t.revisions ∧ ∃ old ∈ t.revisions, old.entry.id = v.entry.id ∧
      v.entry.revision = old.entry.revision + 1 ∧ Expects old.entry := by
  cases h with
  | appended happended =>
      refine .inl ?_
      induction happended with
      | none hagrees => rwa [hagrees.revisions] at hv
      | add _ _ hfirst _ _ hrevisions ih =>
          rw [hrevisions, List.mem_append] at hv
          rcases hv with hv | hv
          · exact ih hv
          · rw [List.mem_singleton.1 hv, hfirst] at hlater
            exact absurd hlater (lt_irrefl 1)
  | @revised old entry operation hold hactive hexpects hid hscope hnext hentries hgeneration hrevisions =>
      rw [hrevisions, List.mem_append] at hv
      rcases hv with hv | hv
      · exact .inl hv
      · obtain rfl := List.mem_singleton.1 hv
        have hlogged := (consistent_iff.1 ht).1
        obtain ⟨r, hr, hrold⟩ := List.mem_map.1 (hlogged.current_mem hold)
        refine .inr ⟨fun hmem => ?_, r, hr, ?_, ?_, ?_⟩
        · have hle := ht.revision_le hmem hold hid
          change entry.revision ≤ old.revision at hle
          omega
        · rw [hrold]
          exact hid.symm
        · rw [hrold]
          exact hnext
        · rw [hrold]
          exact hexpects

theorem Appended.kept (h : Appended t t') {e : MemoryEntry}
    (he : e ∈ t.entries) : e ∈ t'.entries ∧ t'.revisionsOf e.id = t.revisionsOf e.id := by
  induction h with
  | none hagrees => exact ⟨hagrees.entries ▸ he, by rw [revisionsOf, hagrees.revisions, revisionsOf]⟩
  | add hbefore hfresh _ hentries _ hrevisions ih =>
      rw [hentries, List.mem_append]
      refine ⟨.inl ih.1, ?_⟩
      have hother := Table.find_none hfresh e ih.1
      rw [revisionsOf, hrevisions, List.map_append, List.map_singleton,
        RevisionLog.valuesOf_append_of_ne (Ne.symm hother)]
      exact ih.2

theorem Written.kept {Expects : MemoryEntry → Prop} (h : Written Expects t t') (ht : t.Consistent)
    {e : MemoryEntry} (he : e ∈ t.entries) (hgone : e.tombstoned = true) :
    e ∈ t'.entries ∧ t'.revisionsOf e.id = t.revisionsOf e.id := by
  cases h with
  | appended happended => exact Appended.kept happended he
  | @revised old entry operation hold hactive hexpects hid hscope hnext hentries hgeneration hrevisions =>
      have hother : e.id ≠ entry.id := fun hsame => by
        obtain rfl := ht.keyed.eq_of_key he hold (hsame.trans hid)
        simp [hgone] at hactive
      rw [hentries, revisionsOf, hrevisions, List.map_append, List.map_singleton,
        RevisionLog.valuesOf_append_of_ne (Ne.symm hother)]
      exact ⟨Table.mem_put_of_ne he hother, rfl⟩

theorem after_written (i : MemoryIssued) (t : MemoryTables) :
    Written (fun e => i.call.Expects e) t (i.after t) := by
  unfold MemoryIssued.after MemoryIssued.outcome
  rcases hresult : i.writer.perform i.ambient i.call t with ⟨e | b, t'⟩
  · obtain rfl := (perform_atomic i.call).state hresult
    exact .appended (.none ⟨rfl, rfl, rfl⟩)
  · exact perform_written hresult

theorem history_concat {calls : List MemoryIssued} {i : MemoryIssued} :
    history (calls ++ [i]) = i.after (history calls) := by
  simp [history]

theorem history_consistent (calls : List MemoryIssued) : (history calls).Consistent := by
  induction calls using List.reverseRecOn with
  | nil => exact consistent_empty
  | append_singleton calls i ih =>
      rw [history_concat]
      exact Written.consistent (after_written i _) ih

theorem no_lost_update (calls : List MemoryIssued) : NoLostUpdate calls := by
  induction calls using List.reverseRecOn with
  | nil =>
      intro v hv
      simp [history, empty] at hv
  | append_singleton calls i ih =>
      intro v hv hlater
      have hv' := hv
      rw [history_concat] at hv'
      rcases Written.revision (after_written i _) (history_consistent calls) hv' hlater with
        hbefore | ⟨hnew, hold⟩
      · obtain ⟨before, j, later, rfl, hwritten⟩ := ih v hbefore hlater
        exact ⟨before, j, later ++ [i], by simp, hwritten⟩
      · exact ⟨calls, i, [], rfl, hnew, hv, hold⟩

theorem tombstones_stay (calls : List MemoryIssued) : TombstonesStay calls := by
  rintro before later rfl e he hgone
  induction later using List.reverseRecOn with
  | nil =>
      rw [List.append_nil]
      exact ⟨he, rfl⟩
  | append_singleton later i ih =>
      have hkept := Written.kept (after_written i _) (history_consistent (before ++ later)) ih.1 hgone
      rw [← List.append_assoc, history_concat]
      exact ⟨hkept.1, hkept.2.trans ih.2⟩

theorem memory_is_revision_log (calls : List MemoryIssued) :
    (history calls).Consistent ∧ NoLostUpdate calls ∧ TombstonesStay calls ∧ FailsUnchanged calls :=
  ⟨history_consistent calls, no_lost_update calls, tombstones_stay calls,
    fun i exc h => perform_atomic i.call _ exc h⟩

end MemoryTables

end Polaris
