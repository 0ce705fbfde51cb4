import Mathlib.Algebra.Order.BigOperators.Group.List
import Mathlib.Data.List.Perm.Basic
import Polaris.Memory.Recall
import Polaris.Memory.Writes

namespace Polaris
open MemoryEntry

namespace MemoryTables

/-- `_configure_fts` where the search can be had: rows that are missing are added, and those that are
there stay. -/
def configureFts (t : MemoryTables) : MemoryTables :=
  { t with
    index := t.index ++ (t.entries.filter fun e => !e.tombstoned &&
      (!(t.index.any fun row => row.entryId = e.id) && e.blockedReason.isNone)).map indexRow }

/-- A row for each entry that can be found, with the content that it has. -/
def searchable (t : MemoryTables) : List IndexRow := t.entries.flatMap searchRows

end MemoryTables

/-- Stores are opened on one database, with the full-text search or without it, used and closed. -/
inductive StoreEvent where
  | opens (writer : MemoryWriter)
  | calls {β : Type} (place : ℕ) (ambient : Ambient) (call : MemoryCall β)
  | closes (place : ℕ)

/-- A database and the stores that are open on it. -/
structure OpenStores where
  tables : MemoryTables
  stores : List MemoryWriter

namespace OpenStores

def empty : OpenStores := ⟨.empty, []⟩

def after (s : OpenStores) : StoreEvent → OpenStores
  | .opens writer => ⟨if writer.ftsAvailable then s.tables.configureFts else s.tables,
      s.stores ++ [writer]⟩
  | .calls place ambient call =>
      match s.stores[place]? with
      | some writer => ⟨MemoryIssued.after ⟨writer, ambient, call⟩ s.tables, s.stores⟩
      | none => s
  | .closes place => ⟨s.tables, s.stores.eraseIdx place⟩

def history (events : List StoreEvent) : OpenStores := events.foldl after .empty

/-- Some store is open with the full-text search. -/
def Searches (s : OpenStores) : Prop := ∃ writer ∈ s.stores, writer.ftsAvailable = true

instance (s : OpenStores) : Decidable s.Searches := by
  unfold Searches
  infer_instance

end OpenStores

/-- What FTS5 documents of a query: one result for each row whose content matches. -/
def SearchEngine.Reads (engine : SearchEngine) (accepts : String → String → Bool) : Prop :=
  ∀ query rows, ((engine.rank query rows).map Prod.fst).Perm
    ((rows.filter fun row => accepts query row.content).map IndexRow.entryId)

namespace MemoryTables

/-- The entry is found by its content. -/
structure Current (accepts : String → String → Bool) (query : String) (scope : MemoryScope)
    (t : MemoryTables) (e : MemoryEntry) : Prop where
  stored : e ∈ t.entries
  scope : e.scope = scope
  active : e.isSearchable = true
  accepted : accepts query e.content = true

/-- The index holds the entries as they are, so that the search finds them by what they are. -/
structure MirrorsStore (t : MemoryTables) : Prop where
  rows : t.index.Perm t.searchable
  onlyCurrent : ∀ engine accepts, SearchEngine.Reads engine accepts → ∀ query scope limit,
    ∀ r ∈ MemoryWriter.matched engine query scope limit t, Current accepts query scope t r.1
  everyCurrent : ∀ engine accepts, SearchEngine.Reads engine accepts → ∀ query scope limit,
    t.entries.length ≤ limit → ∀ e, Current accepts query scope t e →
      ∃ r ∈ MemoryWriter.matched engine query scope limit t, r.1 = e

end MemoryTables

namespace OpenStores

def MirrorsThroughout (events : List StoreEvent) : Prop :=
  ∀ before later, events = before ++ later → (history before).Searches →
    (history before).tables.MirrorsStore

/-- What could be found when a store was last open with the search. -/
def lastSearchable (events : List StoreEvent) : List IndexRow :=
  (events.foldl (fun (p : OpenStores × List IndexRow) event =>
    let s := p.1.after event
    (s, if s.Searches then s.tables.searchable else p.2)) (.empty, [])).2

/-- What a store with the search finds when it opens can still be found as it was, and what such a
store can find is changed by no store that is open without the search. -/
def Admits (before : List StoreEvent) : StoreEvent → Prop
  | .opens writer => writer.ftsAvailable = true →
      ∀ row ∈ lastSearchable before, row ∈ (history before).tables.searchable
  | .calls place ambient call => (history before).Searches →
      ∀ writer, (history before).stores[place]? = some writer → writer.ftsAvailable = false →
        (MemoryIssued.after ⟨writer, ambient, call⟩ (history before).tables).searchable.Perm
          (history before).tables.searchable
  | .closes _ => True

def KeepsSearchable (events : List StoreEvent) : Prop :=
  ∀ before event later, events = before ++ event :: later → Admits before event

end OpenStores

/-! The rows of the entries. -/

theorem MemoryEntry.mem_searchRows {entry : MemoryEntry} {row : IndexRow} :
    row ∈ entry.searchRows ↔ entry.isSearchable = true ∧ row = entry.indexRow := by
  cases h : entry.isSearchable <;> simp [searchRows, h]

namespace MemoryTables
variable {t t' : MemoryTables}

theorem mem_searchable {row : IndexRow} :
    row ∈ t.searchable ↔ ∃ e ∈ t.entries, e.isSearchable = true ∧ row = e.indexRow := by
  simp only [searchable, List.mem_flatMap, mem_searchRows]

theorem searchable_eq_map :
    t.searchable = (t.entries.filter isSearchable).map indexRow := by
  unfold searchable
  induction t.entries with
  | nil => rfl
  | cons e entries ih =>
      rw [List.flatMap_cons, ih]
      cases h : e.isSearchable <;> simp [searchRows, h]

theorem searchable_keyed (h : Table.Keyed MemoryEntry.id t.entries) :
    Table.Keyed IndexRow.entryId t.searchable := by
  rw [Table.Keyed, searchable_eq_map, List.map_map]
  exact h.sublist (List.filter_sublist.map _)

theorem searchable_nodup (h : Table.Keyed MemoryEntry.id t.entries) : t.searchable.Nodup :=
  List.Nodup.of_map _ (searchable_keyed h)

theorem searchable_filter (entryId : String) :
    (t.entries.filter fun e => e.id ≠ entryId).flatMap searchRows =
      t.searchable.filter fun row => row.entryId ≠ entryId := by
  unfold searchable
  induction t.entries with
  | nil => rfl
  | cons e entries ih =>
      rw [List.flatMap_cons, List.filter_append, ← ih]
      by_cases hsame : e.id = entryId <;> cases hsearch : e.isSearchable <;>
        simp [hsame, searchRows, hsearch, indexRow]

theorem searchable_put {old entry : MemoryEntry} (h : Table.Keyed MemoryEntry.id t.entries)
    (hold : old ∈ t.entries) (hid : entry.id = old.id)
    (hentries : t'.entries = Table.put MemoryEntry.id entry t.entries) :
    t'.searchable.Perm
      (t.searchable.filter (fun row => row.entryId ≠ entry.id) ++ entry.searchRows) := by
  rw [searchable, hentries]
  refine ((Table.put_perm h hold hid.symm).flatMap_right _).trans ?_
  rw [List.flatMap_append, List.flatMap_singleton, searchable_filter]

theorem configureFts_searchable : t.configureFts.searchable = t.searchable := rfl

/-- Where no row is stale, the missing ones complete the index. -/
theorem configureFts_perm (h : Table.Keyed MemoryEntry.id t.entries) (hnodup : t.index.Nodup)
    (hcurrent : ∀ row ∈ t.index, row ∈ t.searchable) : t.configureFts.index.Perm t.searchable := by
  have hmissing : ((t.entries.filter fun e => !e.tombstoned &&
      (!(t.index.any fun row => row.entryId = e.id) && e.blockedReason.isNone)).map indexRow) =
      t.searchable.filter fun row => !(t.index.any fun r => r.entryId = row.entryId) := by
    rw [searchable_eq_map, List.filter_map, List.filter_filter]
    congr 1
    refine List.filter_congr fun e _ => ?_
    simp only [isSearchable, Function.comp, Bool.and_assoc, Bool.and_comm]
    rfl
  have hkept : t.index.Perm
      (t.searchable.filter fun row => t.index.any fun r => r.entryId = row.entryId) := by
    refine (List.perm_ext_iff_of_nodup hnodup ((searchable_nodup h).filter _)).2 fun row => ?_
    rw [List.mem_filter, List.any_eq_true]
    constructor
    · exact fun hrow => ⟨hcurrent row hrow, row, hrow, by simp⟩
    · rintro ⟨hrow, r, hr, hid⟩
      rw [(searchable_keyed h).eq_of_key hrow (hcurrent r hr) (of_decide_eq_true hid).symm]
      exact hr
  rw [configureFts, hmissing]
  exact (hkept.append_right _).trans (List.filter_append_perm _ _)

/-! What the search finds in an index that holds the entries as they are. -/

theorem filter_id_length (h : Table.Keyed MemoryEntry.id t.entries) (entryId : String)
    (p : MemoryEntry → Bool) : (t.entries.filter fun e => e.id = entryId && p e).length ≤ 1 := by
  have hids : ((t.entries.filter fun e => e.id = entryId && p e).map MemoryEntry.id) =
      List.replicate (t.entries.filter fun e => e.id = entryId && p e).length entryId := by
    refine List.eq_replicate_iff.2 ⟨List.length_map .., fun k hk => ?_⟩
    obtain ⟨e, he, rfl⟩ := List.mem_map.1 hk
    simp only [List.mem_filter, Bool.and_eq_true, decide_eq_true_eq] at he
    exact he.2.1
  have hnodup : ((t.entries.filter fun e => e.id = entryId && p e).map MemoryEntry.id).Nodup :=
    h.sublist (List.filter_sublist.map _)
  rw [hids] at hnodup
  exact List.nodup_replicate.1 hnodup

theorem mirrorsStore_of_perm (h : Table.Keyed MemoryEntry.id t.entries)
    (hrows : t.index.Perm t.searchable) : t.MirrorsStore where
  rows := hrows
  onlyCurrent := by
    intro engine accepts hreads query scope limit r hr
    have hjoined := (List.mem_insertionSort _).1 (List.mem_of_mem_take hr)
    obtain ⟨found, hfound, hjoin⟩ := List.mem_flatMap.1 hjoined
    obtain ⟨e, he, rfl⟩ := List.mem_map.1 hjoin
    simp only [List.mem_filter, Bool.and_eq_true, decide_eq_true_eq] at he
    obtain ⟨hstored, ⟨hid, hscope⟩, -⟩ := he
    obtain ⟨row, hrow, hkey⟩ :=
      List.mem_map.1 ((hreads query t.index).mem_iff.1 (List.mem_map_of_mem hfound))
    obtain ⟨hindexed, haccepts⟩ := List.mem_filter.1 hrow
    obtain ⟨e', hstored', hactive, rfl⟩ := mem_searchable.1 (hrows.mem_iff.1 hindexed)
    obtain rfl := h.eq_of_key hstored' hstored (hkey.trans hid.symm)
    exact ⟨hstored, hscope, hactive, haccepts⟩
  everyCurrent := by
    intro engine accepts hreads query scope limit hlimit e hcurrent
    have hindexed : e.indexRow ∈ t.index :=
      hrows.mem_iff.2 (mem_searchable.2 ⟨e, hcurrent.stored, hcurrent.active, rfl⟩)
    have hid : e.id ∈ (engine.rank query t.index).map Prod.fst :=
      (hreads query t.index).mem_iff.2 (List.mem_map.2
        ⟨e.indexRow, List.mem_filter.2 ⟨hindexed, hcurrent.accepted⟩, rfl⟩)
    obtain ⟨found, hfound, hkey⟩ := List.mem_map.1 hid
    have hactive : e.tombstoned = false := by
      have := hcurrent.active
      simp only [isSearchable, Bool.and_eq_true, Bool.not_eq_true'] at this
      exact this.1
    refine ⟨(e, found.2), ?_, rfl⟩
    rw [MemoryWriter.matched, List.take_of_length_le]
    · refine (List.mem_insertionSort _).2 (List.mem_flatMap.2 ⟨found, hfound, List.mem_map.2 ⟨e, ?_, rfl⟩⟩)
      simp [hcurrent.stored, hcurrent.scope, hkey, hactive]
    · rw [List.length_insertionSort, List.length_flatMap]
      calc ((engine.rank query t.index).map fun r => ((t.entries.filter fun e =>
              e.id = r.1 && e.scope = scope && !e.tombstoned).map fun e => (e, r.2)).length).sum
          ≤ ((engine.rank query t.index).map fun r => ((t.entries.filter fun e =>
              e.id = r.1 && e.scope = scope && !e.tombstoned).map fun e => (e, r.2)).length).length • 1 := by
            refine List.sum_le_card_nsmul _ _ fun n hn => ?_
            obtain ⟨r, -, rfl⟩ := List.mem_map.1 hn
            simpa [Bool.and_assoc] using filter_id_length h r.1 fun e => e.scope = scope && !e.tombstoned
        _ = ((engine.rank query t.index).map Prod.fst).length := by simp
        _ ≤ t.index.length := by
            rw [(hreads query t.index).length_eq, List.length_map]
            exact List.length_filter_le ..
        _ ≤ t.entries.length := by
            rw [hrows.length_eq, searchable_eq_map, List.length_map]
            exact List.length_filter_le ..
        _ ≤ limit := hlimit

end MemoryTables

namespace MemoryWriter
variable {writer : MemoryWriter} {t t' : MemoryTables}

theorem Stores.index_of_off (h : Stores writer t t') (hoff : writer.ftsAvailable = false) :
    t'.index = t.index := by
  induction h with
  | same _ hindex => exact hindex
  | append _ _ _ _ hindex ih =>
      rw [hindex, ih]
      simp [hoff]
  | put _ _ _ _ _ hindex =>
      rw [hindex]
      simp [indexed, hoff]

theorem Stores.index_perm (h : Stores writer t t') (hon : writer.ftsAvailable = true)
    (hkeyed : Table.Keyed MemoryEntry.id t.entries) (hrows : t.index.Perm t.searchable) :
    t'.index.Perm t'.searchable := by
  induction h with
  | same hentries hindex =>
      rw [hindex, MemoryTables.searchable, hentries]
      exact hrows
  | append _ _ _ hentries hindex ih =>
      rw [hindex, MemoryTables.searchable, hentries, List.flatMap_append, List.flatMap_singleton,
        if_pos hon]
      exact ih.append_right _
  | put hold _ hid _ hentries hindex =>
      rw [hindex, indexed, if_pos hon]
      exact ((hrows.filter _).append_right _).trans
        (MemoryTables.searchable_put hkeyed hold hid hentries).symm

end MemoryWriter

/-! Runs of stores on one database. -/

namespace OpenStores
open MemoryTables

section
variable {s : OpenStores} {events : List StoreEvent} {event : StoreEvent}

theorem history_concat : history (events ++ [event]) = (history events).after event := by
  simp [history]

theorem fold_history (events : List StoreEvent) (p : OpenStores × List IndexRow) :
    (events.foldl (fun (p : OpenStores × List IndexRow) event =>
      let s := p.1.after event
      (s, if s.Searches then s.tables.searchable else p.2)) p).1 = events.foldl after p.1 := by
  induction events generalizing p with
  | nil => rfl
  | cons event events ih => exact ih _

theorem lastSearchable_concat : lastSearchable (events ++ [event]) =
    if (history (events ++ [event])).Searches then (history (events ++ [event])).tables.searchable
    else lastSearchable events := by
  simp only [lastSearchable, List.foldl_append, List.foldl_cons, List.foldl_nil, fold_history,
    history]

theorem after_consistent (h : s.tables.Consistent) : (s.after event).tables.Consistent := by
  cases event with
  | opens writer =>
      simp only [after]
      split
      · exact @MemoryTables.Agrees.consistent s.tables _ ⟨rfl, rfl, rfl⟩ h
      · exact h
  | calls place ambient call =>
      simp only [after]
      split
      · exact Written.consistent (after_written _ _) h
      · exact h
  | closes place => exact h

theorem history_consistent (events : List StoreEvent) : (history events).tables.Consistent := by
  induction events using List.reverseRecOn with
  | nil => exact consistent_empty
  | append_singleton events event ih =>
      rw [history_concat]
      exact after_consistent ih

theorem lastSearchable_nodup (events : List StoreEvent) : (lastSearchable events).Nodup := by
  induction events using List.reverseRecOn with
  | nil => exact List.nodup_nil
  | append_singleton events event ih =>
      rw [lastSearchable_concat]
      split
      · exact searchable_nodup (history_consistent _).keyed
      · exact ih

theorem searches_of_eraseIdx {place : ℕ} (h : (s.after (.closes place)).Searches) : s.Searches := by
  obtain ⟨writer, hwriter, hfts⟩ := h
  exact ⟨writer, List.mem_of_mem_eraseIdx hwriter, hfts⟩

/-- Only a store with the search writes into the index. -/
theorem after_index (h : ¬ (s.after event).Searches) :
    (s.after event).tables.index = s.tables.index := by
  cases event with
  | opens writer =>
      have hoff : writer.ftsAvailable = false :=
        Bool.eq_false_iff.2 fun hon => h ⟨writer, by simp [after], hon⟩
      simp [after, hoff]
  | calls place ambient call =>
      cases hplace : s.stores[place]? with
      | none => simp [after, hplace]
      | some writer =>
          simp only [after, hplace] at h ⊢
          have hoff : writer.ftsAvailable = false :=
            Bool.eq_false_iff.2 fun hon => h ⟨writer, List.mem_of_getElem? hplace, hon⟩
          exact (MemoryWriter.after_stores _ _).index_of_off hoff
  | closes place => rfl

theorem MirrorsThroughout.of_append {more : List StoreEvent}
    (h : MirrorsThroughout (events ++ more)) : MirrorsThroughout events := by
  rintro before later rfl
  exact h before (later ++ more) (by simp)

theorem mirrorsThroughout_concat : MirrorsThroughout (events ++ [event]) ↔
    MirrorsThroughout events ∧ ((history (events ++ [event])).Searches →
      (history (events ++ [event])).tables.MirrorsStore) := by
  refine ⟨fun h => ⟨h.of_append, h _ [] (by simp)⟩, ?_⟩
  rintro ⟨hevents, hlast⟩ before later hsplit
  rcases List.eq_nil_or_concat later with rfl | ⟨later, last, rfl⟩
  · rw [List.append_nil] at hsplit
    exact hsplit ▸ hlast
  · rw [List.concat_eq_append, ← List.append_assoc] at hsplit
    exact hevents before later (List.append_inj_left' hsplit rfl)

theorem keepsSearchable_concat : KeepsSearchable (events ++ [event]) ↔
    KeepsSearchable events ∧ Admits events event := by
  constructor
  · refine fun h => ⟨?_, h events event [] (by simp)⟩
    rintro before step later rfl
    exact h before step (later ++ [event]) (by simp)
  · rintro ⟨hevents, hlast⟩ before step later hsplit
    rcases List.eq_nil_or_concat later with rfl | ⟨later, last, rfl⟩
    · obtain ⟨rfl, hstep⟩ := List.append_inj' hsplit rfl
      obtain rfl := List.singleton_injective hstep
      exact hlast
    · refine hevents before step later ?_
      rw [List.concat_eq_append, ← List.cons_append, ← List.append_assoc] at hsplit
      exact List.append_inj_left' hsplit rfl

/-- The index is what it was when a store was last open with the search. -/
theorem index_perm_lastSearchable (h : MirrorsThroughout events) :
    (history events).tables.index.Perm (lastSearchable events) := by
  induction events using List.reverseRecOn with
  | nil => exact .refl _
  | append_singleton events event ih =>
      obtain ⟨hevents, hlast⟩ := mirrorsThroughout_concat.1 h
      rw [lastSearchable_concat]
      by_cases hsearches : (history (events ++ [event])).Searches
      · rw [if_pos hsearches]
        exact (hlast hsearches).rows
      · rw [if_neg hsearches, history_concat, after_index (history_concat ▸ hsearches)]
        exact ih hevents

/-- Where the index has held the entries so far, one more event keeps it so exactly if it is admitted. -/
theorem mirrors_after_iff (h : MirrorsThroughout events) :
    ((history (events ++ [event])).Searches →
      (history (events ++ [event])).tables.MirrorsStore) ↔ Admits events event := by
  have hindex := index_perm_lastSearchable h
  have hkeyed := (history_consistent events).keyed
  have hkeyed' := (history_consistent (events ++ [event])).keyed
  have hbefore : (history events).Searches →
      (history events).tables.index.Perm (history events).tables.searchable :=
    fun hsearches => (h events [] (by simp) hsearches).rows
  suffices hrows : ((history (events ++ [event])).Searches →
      (history (events ++ [event])).tables.index.Perm
        (history (events ++ [event])).tables.searchable) ↔ Admits events event from
    ⟨fun hmirrors => hrows.1 fun hsearches => (hmirrors hsearches).rows,
      fun hadmits hsearches => mirrorsStore_of_perm hkeyed' (hrows.2 hadmits hsearches)⟩
  rw [history_concat]
  cases event with
  | opens writer =>
      cases hfts : writer.ftsAvailable with
      | false =>
          have hsame : ((history events).after (.opens writer)).Searches → (history events).Searches := by
            rintro ⟨other, hother, hon⟩
            rcases List.mem_append.1 hother with hother | hother
            · exact ⟨other, hother, hon⟩
            · rw [List.mem_singleton.1 hother, hfts] at hon
              simp at hon
          simp only [Admits, hfts]
          refine ⟨fun _ hfalse => by simp at hfalse, fun _ hsearches => ?_⟩
          simpa [after, hfts] using hbefore (hsame hsearches)
      | true =>
          have hsearches : ((history events).after (.opens writer)).Searches :=
            ⟨writer, by simp [after], hfts⟩
          have htables : ((history events).after (.opens writer)).tables =
              (history events).tables.configureFts := by simp [after, hfts]
          rw [htables, configureFts_searchable]
          simp only [Admits, hfts, true_implies]
          constructor
          · intro hrows row hrow
            exact (hrows hsearches).mem_iff.1 (List.mem_append_left _ (hindex.mem_iff.2 hrow))
          · intro hadmits _
            exact configureFts_perm hkeyed (hindex.nodup_iff.2 (lastSearchable_nodup events))
              fun row hrow => hadmits row (hindex.mem_iff.1 hrow)
  | calls place ambient call =>
      cases hplace : (history events).stores[place]? with
      | none =>
          simp only [Admits, hplace, after]
          exact ⟨fun _ _ writer hnone => by simp at hnone, fun _ => hbefore⟩
      | some writer =>
          have hstores := MemoryWriter.after_stores ⟨writer, ambient, call⟩ (history events).tables
          have hsame : ((history events).after (.calls place ambient call)).Searches ↔
              (history events).Searches := by simp only [Searches, after, hplace]
          rw [hsame]
          simp only [Admits, hplace, Option.some.injEq, forall_eq', after]
          refine forall_congr' fun hsearches => ?_
          cases hfts : writer.ftsAvailable with
          | true =>
              refine ⟨fun _ hfalse => by simp at hfalse, fun _ => ?_⟩
              exact hstores.index_perm hfts hkeyed (hbefore hsearches)
          | false =>
              rw [hstores.index_of_off hfts]
              exact ⟨fun hrows _ => hrows.symm.trans (hbefore hsearches),
                fun hrows => (hbefore hsearches).trans (hrows rfl).symm⟩
  | closes place =>
      exact ⟨fun _ => trivial, fun _ hsearches => hbefore (searches_of_eraseIdx hsearches)⟩

/-- The index holds the entries throughout a run exactly if nothing that could be found is changed
behind it. -/
theorem mirrorsThroughout_iff (events : List StoreEvent) :
    MirrorsThroughout events ↔ KeepsSearchable events := by
  induction events using List.reverseRecOn with
  | nil =>
      refine ⟨fun _ before event later hsplit => by simp at hsplit, fun _ before later hsplit => ?_⟩
      obtain ⟨rfl, rfl⟩ := List.append_eq_nil_iff.1 hsplit.symm
      rintro ⟨writer, hwriter, -⟩
      simp [history, empty] at hwriter
  | append_singleton events event ih =>
      rw [mirrorsThroughout_concat, keepsSearchable_concat, ← ih]
      exact and_congr_right fun h => mirrors_after_iff h

end

/-! A note that is indexed, and then changed by a store without the search. -/

namespace Changed

def sha : Sha256 := .ofTable [
  ("likes tea", "50f5f279425da6b804f2885cc042bf9ee88aabfd6c1f13b27cd37e38f9084bb8"),
  ("likes coffee", "f737382be6e75611aa84cb5690997136368c5aaf72e0a487bbb4fae764df34cb")]

def writer (ftsAvailable : Bool) : MemoryWriter :=
  ⟨⟨sha, ⟨⟨fun _ _ => false, fun _ _ text => text⟩, []⟩⟩, ftsAvailable⟩

def scope : MemoryScope := ⟨.defaultProfile, .defaultProfile⟩

def clock (t : Timestamp) : Ambient := ⟨t, t, t, "55555555555555555555555555555555"⟩

def events : List StoreEvent := [
  .opens (writer true),
  .calls 0 (clock 1) (.append scope
    ⟨⟨"likes tea", by decide⟩, .preference, .userAsserted, none, ⟨none, none, none⟩⟩),
  .closes 0,
  .opens (writer false),
  .calls 0 (clock 2) (.replace scope "55555555555555555555555555555555"
    (.content ⟨"likes coffee", by decide⟩ none none none none none) (some 1) none),
  .closes 0,
  .opens (writer true)]

theorem evaluated : (history events).Searches ∧
    (history events).tables.index.map IndexRow.content = ["likes tea"] ∧
    (history events).tables.searchable.map IndexRow.content = ["likes coffee"] := by
  decide +kernel

end Changed

theorem not_every_index_mirrors : ¬ ∀ events, MirrorsThroughout events := by
  intro h
  obtain ⟨hsearches, hindex, hsearchable⟩ := Changed.evaluated
  have hrows := (h Changed.events Changed.events [] (by simp) hsearches).rows.map IndexRow.content
  rw [hindex, hsearchable, List.perm_singleton] at hrows
  exact absurd hrows (by decide)

end OpenStores

end Polaris
