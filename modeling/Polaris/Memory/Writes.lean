import Polaris.Memory.Revisions

namespace Polaris
open PyJson

/-! What a call writes into the entries and into the search index. -/

namespace MemoryEntry

/-- The entry as `backend` writes it, with the hash and the scan of its content. -/
structure Fresh (backend : MemoryBackend) (entry : MemoryEntry) : Prop where
  hash : entry.contentHash = backend.contentHash entry.content
  scanned : entry.blockedReason = backend.scanner.scan entry.content
  active : entry.tombstoned = false

/-- The entry without what `remove` leaves as it is. -/
structure Removes (old entry : MemoryEntry) : Prop where
  content : entry.content = old.content
  hash : entry.contentHash = old.contentHash
  scanned : entry.blockedReason = old.blockedReason
  gone : entry.tombstoned = true

def indexRow (entry : MemoryEntry) : IndexRow := ⟨entry.id, entry.scope, entry.content⟩

def isSearchable (entry : MemoryEntry) : Bool := !entry.tombstoned && entry.blockedReason.isNone

def searchRows (entry : MemoryEntry) : List IndexRow :=
  if entry.isSearchable then [entry.indexRow] else []

end MemoryEntry

namespace MemoryWriter
open MemoryEntry
open MemoryBackend (findEntry)

/-- The index of `writer` once it has written `entry`. -/
def indexed (writer : MemoryWriter) (entry : MemoryEntry) (index : List IndexRow) : List IndexRow :=
  if writer.ftsAvailable then
    index.filter (fun row => row.entryId ≠ entry.id) ++ entry.searchRows
  else index

inductive Stores (writer : MemoryWriter) (t : MemoryTables) : MemoryTables → Prop
  | same {t' : MemoryTables} : t'.entries = t.entries → t'.index = t.index → Stores writer t t'
  | append {u t' : MemoryTables} {entry : MemoryEntry} : Stores writer t u →
      findEntry entry.id u.toMemoryStore = none → entry.Fresh writer.backend →
      t'.entries = u.entries ++ [entry] →
      t'.index = u.index ++ (if writer.ftsAvailable then entry.searchRows else []) →
      Stores writer t t'
  | put {t' : MemoryTables} {old entry : MemoryEntry} : old ∈ t.entries → old.tombstoned = false →
      entry.id = old.id → entry.Fresh writer.backend ∨ old.Removes entry →
      t'.entries = Table.put MemoryEntry.id entry t.entries →
      t'.index = writer.indexed entry t.index → Stores writer t t'

end MemoryWriter

namespace MemoryBackend
variable {backend : MemoryBackend} {a : Ambient} {scope : MemoryScope} {s s' : MemoryStore}
  {entryId : String} {entry : MemoryEntry} {revision : Option ℕ} {hash : Option String}

theorem appendInTransaction_fresh {write : MemoryWrite}
    (h : backend.appendInTransaction a scope write s = (.ok entry, s')) : entry.Fresh backend := by
  simp only [appendInTransaction, Txn.bind_ok, Txn.read_ok, Txn.require_ok, Txn.write_ok,
    Txn.pure_ok] at h
  obtain ⟨_, _, ⟨rfl, rfl⟩, _, _, ⟨-, rfl⟩, _, _, rfl, rfl, rfl⟩ := h
  exact ⟨rfl, rfl, rfl⟩

/-- The row that `replace` writes over `old`. -/
structure Replaces (backend : MemoryBackend) (scope : MemoryScope) (entryId : String)
    (replacement : Replacement) (revision : Option ℕ) (old entry : MemoryEntry) (s : MemoryStore) :
    Prop where
  found : old ∈ s.entries
  key : old.id = entryId ∧ old.scope = scope
  active : old.tombstoned = false
  expected : ∀ n ∈ revision, old.revision = n
  same : entry.id = entryId ∧ entry.scope = scope
  fresh : entry.Fresh backend
  value : ∃ content, entry.content = content.1 ∧ replacement.normalized entryId old =
    .ok (content, entry.kind, entry.trustLevel, entry.provenance)

theorem replace_replaces {replacement : Replacement}
    (h : backend.replace a scope entryId replacement revision hash s = (.ok entry, s')) :
    ∃ old, Replaces backend scope entryId replacement revision old entry s ∧
      s' = replaceEntry entry s := by
  simp only [replace, Txn.bind_ok, Txn.atomically_ok, Txn.require_ok, Txn.lift_ok, Txn.write_ok,
    Txn.pure_ok] at h
  obtain ⟨old, t, hold, _, _, ⟨hactive, rfl⟩, _, _, hexpected, ⟨content, kind, trust, provenance⟩, _,
    ⟨hvalue, rfl⟩, _, _, rfl, rfl, rfl⟩ := h
  obtain ⟨-, hrevision, -, rfl⟩ := checkExpected_ok hexpected
  obtain ⟨hmem, hid, hscope, rfl⟩ := getInTransaction_ok hold
  exact ⟨old, ⟨hmem, ⟨hid, hscope⟩, by simpa using hactive, hrevision, ⟨rfl, rfl⟩, ⟨rfl, rfl, rfl⟩,
    content, rfl, hvalue⟩, rfl⟩

theorem remove_removes (h : remove a scope entryId revision hash s = (.ok entry, s')) :
    (∃ old, old ∈ s.entries ∧ old.tombstoned = false ∧ entry.id = old.id ∧ old.Removes entry ∧
      s' = replaceEntry entry s) ∨
      getInTransaction scope entryId true s = (.ok entry, s') ∧ entry.tombstoned = true := by
  simp only [remove, Txn.bind_ok, Txn.atomically_ok, Txn.ite_ok, Txn.write_ok, Txn.pure_ok] at h
  obtain ⟨old, t, hold, ⟨hgone, rfl, rfl⟩ | ⟨hactive, _, _, hexpected, _, _, rfl, rfl, rfl⟩⟩ := h
  · exact .inr ⟨hold, hgone⟩
  · obtain ⟨-, -, -, rfl⟩ := checkExpected_ok hexpected
    obtain ⟨hmem, -, -, rfl⟩ := getInTransaction_ok hold
    exact .inl ⟨old, hmem, by simpa using hactive, rfl, ⟨rfl, rfl, rfl, rfl⟩, rfl⟩

end MemoryBackend

namespace MemoryWriter
open MemoryEntry
variable {writer : MemoryWriter} {a : Ambient} {scope : MemoryScope} {t t' : MemoryTables}
  {entry : MemoryEntry}

theorem insertIndex_index {u : Unit} (hactive : entry.tombstoned = false)
    (h : writer.insertIndex entry t = (.ok u, t')) : t'.entries = t.entries ∧
      t'.index = t.index ++ (if writer.ftsAvailable then entry.searchRows else []) := by
  simp only [insertIndex, Txn.ite_ok, Txn.write_ok, Txn.pure_ok, Bool.and_eq_true] at h
  obtain ⟨⟨hfts, hsafe⟩, rfl⟩ | ⟨hskipped, -, rfl⟩ := h
  · simp [hfts, searchRows, isSearchable, hactive, hsafe, indexRow]
  · refine ⟨rfl, ?_⟩
    cases hfts : writer.ftsAvailable with
    | false => simp
    | true =>
        have hblocked : entry.blockedReason.isNone = false :=
          Bool.eq_false_iff.2 fun hsafe => hskipped ⟨hfts, hsafe⟩
        simp [searchRows, isSearchable, hblocked]

theorem replaceIndex_index {content : Option String} {u : Unit}
    (hcontent : content.isSome = !entry.tombstoned)
    (h : writer.replaceIndex entry content t = (.ok u, t')) :
    t'.entries = t.entries ∧ t'.index = writer.indexed entry t.index := by
  simp only [replaceIndex, Txn.ite_ok, Txn.bind_ok, Txn.write_ok, Txn.pure_ok] at h
  obtain ⟨hfts, _, _, rfl, ⟨hsome, hinsert⟩ | ⟨hnone, -, rfl⟩⟩ | ⟨hoff, -, rfl⟩ := h
  · have hactive : entry.tombstoned = false := by simpa [hsome] using hcontent
    obtain ⟨hentries, hindex⟩ := insertIndex_index hactive hinsert
    refine ⟨hentries, ?_⟩
    rw [hindex]
    simp [indexed, hfts]
  · have hgone : entry.tombstoned = true := by
      cases hc : content with
      | none => simpa [hc] using hcontent
      | some c => simp [hc] at hnone
    simp [indexed, hfts, searchRows, isSearchable, hgone]
  · simp [indexed, hoff]

theorem Stores.trans {u : MemoryTables} (h : Stores writer t u)
    (hentries : t'.entries = u.entries) (hindex : t'.index = u.index) : Stores writer t t' := by
  cases h with
  | same hsame hkept => exact .same (hentries.trans hsame) (hindex.trans hkept)
  | append hbefore hnew hfresh hrows hrest =>
      exact .append hbefore hnew hfresh (hentries.trans hrows) (hindex.trans hrest)
  | put hold hactive hid hkind hrows hrest =>
      exact .put hold hactive hid hkind (hentries.trans hrows) (hindex.trans hrest)

theorem appendInTransaction_stores {u : MemoryTables} {write : MemoryWrite} (hu : Stores writer t u)
    (h : writer.appendInTransaction a scope write u = (.ok entry, t')) : Stores writer t t' := by
  simp only [appendInTransaction, Txn.bind_ok, onStore_ok, Txn.pure_ok] at h
  obtain ⟨_, _, ⟨m, hstore, rfl⟩, _, _, hrevision, _, _, hindex, rfl, rfl⟩ := h
  have hfresh := MemoryBackend.appendInTransaction_fresh hstore
  obtain ⟨hnew, -, rfl⟩ := MemoryBackend.appendInTransaction_ok hstore
  obtain rfl := insertRevision_ok hrevision
  obtain ⟨hentries, hrows⟩ := insertIndex_index hfresh.active hindex
  exact .append hu hnew hfresh hentries hrows

theorem appendAll_stores {writes : List (Ambient × MemoryWrite)} {entries : List MemoryEntry}
    {u : MemoryTables} (hu : Stores writer t u)
    (h : writer.appendAll scope writes u = (.ok entries, t')) : Stores writer t t' := by
  induction writes generalizing u entries with
  | nil =>
      simp only [appendAll, Txn.pure_ok] at h
      exact h.2 ▸ hu
  | cons write writes ih =>
      simp only [appendAll, Txn.bind_ok, Txn.pure_ok] at h
      obtain ⟨entry, v, hentry, rest, _, hrest, -, rfl⟩ := h
      exact ih (appendInTransaction_stores hu hentry) hrest

theorem replace_stores {entryId : String} {replacement : MemoryBackend.Replacement}
    {revision : Option ℕ} {hash : Option String}
    (h : writer.replace a scope entryId replacement revision hash t = (.ok entry, t')) :
    ∃ old, MemoryBackend.Replaces writer.backend scope entryId replacement revision old entry
        t.toMemoryStore ∧ t'.entries = Table.put MemoryEntry.id entry t.entries ∧
      t'.index = writer.indexed entry t.index := by
  simp only [replace, Txn.bind_ok, Txn.atomically_ok, onStore_ok, Txn.pure_ok] at h
  obtain ⟨_, _, ⟨m, hstore, rfl⟩, _, _, hrevision, _, _, hindex, rfl, rfl⟩ := h
  obtain ⟨old, hreplaces, rfl⟩ := MemoryBackend.replace_replaces hstore
  obtain rfl := insertRevision_ok hrevision
  obtain ⟨hentries, hrows⟩ :=
    replaceIndex_index (by simp [hreplaces.fresh.active]) hindex
  exact ⟨old, hreplaces, hentries, hrows⟩

theorem remove_stores {entryId : String} {revision : Option ℕ} {hash : Option String}
    (h : writer.remove a scope entryId revision hash t = (.ok entry, t')) : Stores writer t t' := by
  simp only [remove, Txn.bind_ok, Txn.atomically_ok, Txn.ite_ok, onStore_ok, Txn.pure_ok] at h
  obtain ⟨current, _, ⟨m, hcurrent, rfl⟩, ⟨-, -, rfl⟩ | ⟨hactive, entry, _, ⟨m', hstore, rfl⟩, _, _,
    hrevision, _, _, hindex, -, rfl⟩⟩ := h
  · obtain rfl := MemoryBackend.getInTransaction_same hcurrent
    exact .same rfl rfl
  · obtain rfl := MemoryBackend.getInTransaction_same hcurrent
    rcases MemoryBackend.remove_removes hstore with
      ⟨old, hold, hold', hid, hremoves, rfl⟩ | ⟨hagain, hgone⟩
    · obtain rfl := insertRevision_ok hrevision
      obtain ⟨hentries, hrows⟩ := replaceIndex_index (by simp [hremoves.gone]) hindex
      exact .put hold hold' hid (.inr hremoves) hentries hrows
    · obtain ⟨hsame, -⟩ := Prod.mk.inj (hcurrent.symm.trans hagain)
      obtain rfl := Except.ok.inj hsame
      exact absurd hgone hactive

theorem perform_stores {β : Type} {call : MemoryCall β} {b : β}
    (h : writer.perform a call t = (.ok b, t')) : Stores writer t t' := by
  cases call with
  | append => exact appendInTransaction_stores (.same rfl rfl) (Txn.atomically_ok.1 h)
  | appendMany => exact appendAll_stores (.same rfl rfl) (Txn.atomically_ok.1 h)
  | appendIdempotent scope write key =>
      simp only [perform, appendIdempotent, Txn.bind_ok, Txn.require_ok, Txn.atomically_ok,
        Txn.read_ok] at h
      obtain ⟨_, _, ⟨-, rfl⟩, found, _, ⟨-, rfl⟩, h⟩ := h
      cases found with
      | some row =>
          simp only [Txn.bind_ok, Txn.require_ok, onStore_ok] at h
          obtain ⟨_, _, ⟨-, rfl⟩, m, hm, rfl⟩ := h
          obtain rfl := MemoryBackend.getInTransaction_same hm
          exact .same rfl rfl
      | none =>
          simp only [Txn.bind_ok, Txn.write_ok, Txn.pure_ok] at h
          obtain ⟨entry, u, hentry, _, _, rfl, -, rfl⟩ := h
          exact (appendInTransaction_stores (.same rfl rfl) hentry).trans rfl rfl
  | appendReconciled =>
      simp only [perform, appendReconciled, Txn.bind_ok, Txn.atomically_ok, Txn.read_ok] at h
      obtain ⟨found, _, ⟨-, rfl⟩, h⟩ := h
      cases found with
      | some row =>
          simp only [Txn.pure_ok] at h
          exact h.2 ▸ .same rfl rfl
      | none =>
          simp only [Txn.bind_ok, Txn.pure_ok] at h
          obtain ⟨entry, _, hentry, -, rfl⟩ := h
          exact appendInTransaction_stores (.same rfl rfl) hentry
  | replace =>
      obtain ⟨old, hreplaces, hentries, hindex⟩ := replace_stores h
      exact .put hreplaces.found hreplaces.active (hreplaces.same.1.trans hreplaces.key.1.symm)
        (.inl hreplaces.fresh) hentries hindex
  | remove => exact remove_stores h

theorem after_stores (i : MemoryIssued) (t : MemoryTables) : Stores i.writer t (i.after t) := by
  unfold MemoryIssued.after MemoryIssued.outcome
  rcases hresult : i.writer.perform i.ambient i.call t with ⟨e | b, t'⟩
  · obtain rfl := (perform_atomic i.call).state hresult
    exact .same rfl rfl
  · exact perform_stores hresult

/-! Entries keep the hash of their content. -/

def Intact (sha : Sha256) (t : MemoryTables) : Prop :=
  ∀ e ∈ t.entries, e.contentHash = sha.hexdigest e.content

theorem Stores.intact (h : Stores writer t t') (ht : Intact writer.backend.sha t) :
    Intact writer.backend.sha t' := by
  induction h with
  | same hentries => exact fun e he => ht e (hentries ▸ he)
  | append _ _ hfresh hentries _ ih =>
      intro e he
      rw [hentries, List.mem_append, List.mem_singleton] at he
      rcases he with he | rfl
      · exact ih e he
      · exact hfresh.hash
  | put hold _ _ hkind hentries _ =>
      intro e he
      rw [hentries, Table.mem_put] at he
      rcases he with ⟨rfl, -⟩ | ⟨he, -⟩
      · rcases hkind with hfresh | hremoves
        · exact hfresh.hash
        · rw [hremoves.hash, hremoves.content]
          exact ht _ hold
      · exact ht e he

end MemoryWriter

end Polaris
