import Mathlib.Data.List.ReduceOption
import Polaris.Memory.ContextBlock
import Polaris.Memory.Recall
import Polaris.Service.Submission

namespace Polaris
open PyJson

/-- `add_configured_secrets`; empty texts are no secrets. -/
def ThreatScanner.addConfiguredSecrets (secrets : List String) (scanner : ThreatScanner) :
    ThreatScanner :=
  { scanner with
    configuredSecrets := scanner.configuredSecrets ++ secrets.filter (· ≠ "") }

namespace MemoryBackend
variable (backend : MemoryBackend)

def addConfiguredSecrets (secrets : List String) : MemoryBackend :=
  { backend with
    scanner := backend.scanner.addConfiguredSecrets secrets }

def storedEntries (scope : MemoryScope) (includeTombstones : Bool) (limit : Option ℤ)
    (s : MemoryStore) : Except PyError (List MemoryEntry) :=
  if limit.any (· < 0) then .error (validation "limit must be non-negative")
  else
    let rows := (s.entries.filter fun e =>
      e.scope = scope && (includeTombstones || !e.tombstoned)).insertionSort fun a b => entryBefore a b
    .ok (limit.elim rows fun n => rows.take n.toNat)

def listEntries (scope : MemoryScope) (includeTombstones : Bool) (limit : Option ℤ)
    (s : MemoryStore) : Except PyError (List MemoryEntry) := do
  return (← storedEntries scope includeTombstones limit s).map backend.safeEntry

def findByHash (scope : MemoryScope) (digest : String) (s : MemoryStore) : Option MemoryEntry :=
  (activeEntries scope s).find? fun e => e.contentHash = digest

/-- Content that is shown only as the marker of the store. -/
def isUnsafe (entry : MemoryEntry) : Bool :=
  entry.blockedReason.any (· ≠ "") || (backend.scanner.scan entry.content).isSome ||
    backend.contentHash entry.content ≠ entry.contentHash

/-- `selectWithin` by the size that the content has as it is shown. -/
def selectRows (budget : ℕ) : ℕ → List MemoryEntry → List MemoryEntry
  | _, [] => []
  | used, entry :: entries =>
      let size := (backend.safeEntry entry).content.length
      if budget < used + size then selectRows budget used entries
      else entry :: selectRows budget (used + size) entries

end MemoryBackend

namespace AgentService

def unsafeMarker : String := "[BLOCKED: unsafe memory content]"

def safeMemoryEntry (entry : MemoryEntry) : MemoryEntry :=
  if entry.blockedReason.isNone then entry else { entry with content := unsafeMarker }

section
variable (svc : AgentService) (ftsAvailable : Bool)

def addConfiguredSecrets (secrets : List String) : AgentService :=
  { svc with
    memory := svc.memory.addConfiguredSecrets secrets }

def memoryStore : MemoryWriter := ⟨svc.memory, ftsAvailable⟩

def memoryList (scope : Option MemoryScope) (profileId subjectKey : Option String)
    (includeTombstones : Bool) (limit : Option ℤ) (t : MemoryTables) :
    Except PyError (List MemoryEntry) := do
  let selected ← svc.resolveMemoryScope scope profileId subjectKey
  return (← svc.memory.listEntries selected includeTombstones limit t.toMemoryStore).map
    safeMemoryEntry

def memorySearch (engine : SearchEngine) (scope : Option MemoryScope) (query : String)
    (profileId subjectKey : Option String) (limit : ℤ) (t : MemoryTables) :
    Except PyError (List MemoryHit) := do
  let selected ← svc.resolveMemoryScope scope profileId subjectKey
  return (← (svc.memoryStore ftsAvailable).recall engine query selected limit t).map fun hit =>
    { hit with entry := safeMemoryEntry hit.entry }

/-- The entry that the store finds under the key, or the one that it writes. -/
def addedEntry (a : Ambient) (scope : Option MemoryScope) (profileId subjectKey : Option String)
    (write : MemoryWrite) (idempotencyKey : Option String) : MemoryWriter.Op MemoryEntry := do
  let selected ← Txn.lift (svc.resolveMemoryScope scope profileId subjectKey)
  match idempotencyKey with
  | some key => (svc.memoryStore ftsAvailable).appendIdempotent a selected write key
  | none => (svc.memoryStore ftsAvailable).append a selected write

def memoryAdd (a : Ambient) (scope : Option MemoryScope) (profileId subjectKey : Option String)
    (write : MemoryWrite) (idempotencyKey : Option String) : MemoryWriter.Op MemoryEntry := do
  return safeMemoryEntry (← svc.addedEntry ftsAvailable a scope profileId subjectKey write idempotencyKey)

end

end AgentService

/-- The operations that return the content of entries. -/
inductive OutwardCall where
  | get (scope : MemoryScope) (entryId : String) (includeTombstone : Bool)
  | list (scope : MemoryScope) (includeTombstones : Bool) (limit : Option ℤ)
  | findByHash (scope : MemoryScope) (digest : String)
  | «recall» (query : String) (scope : MemoryScope) (limit : ℤ)
  | sessionSnapshot (scope : MemoryScope) (charBudget : ℤ) (tokenBudget : Option ℤ)
  | renderPromptContext (snapshot : MemorySnapshot) (charBudget tokenBudget : Option ℤ)
  | appendIdempotent (scope : MemoryScope) (write : MemoryWrite) (idempotencyKey : String)
  | appendReconciled (scope : MemoryScope) (write : MemoryWrite)
  | memoryAdd (scope : Option MemoryScope) (profileId subjectKey : Option String)
      (write : MemoryWrite) (idempotencyKey : Option String)
  | memoryList (scope : Option MemoryScope) (profileId subjectKey : Option String)
      (includeTombstones : Bool) (limit : Option ℤ)
  | memorySearch (scope : Option MemoryScope) (query : String)
      (profileId subjectKey : Option String) (limit : ℤ)

namespace MemoryWriter
variable (writer : MemoryWriter) (engine : SearchEngine)

/-- The entries of the hits, as they are stored. -/
def recalledEntries (query : String) (scope : MemoryScope) (limit : ℤ) (t : MemoryTables) :
    Except PyError (List MemoryEntry) :=
  if isBlankText query then .error (MemoryBackend.validation "query must be non-empty")
  else if limit < 0 then .error (MemoryBackend.validation "limit must be non-negative")
  else if limit = 0 then .ok []
  else if writer.ftsAvailable then
    if engine.ftsQuery query = "" then .ok []
    else .ok (((addCompromised writer engine query
      (t.entries.filter fun e => e.scope = scope && !e.tombstoned)
      (candidates (matched engine (engine.ftsQuery query) scope limit.toNat t))).insertionSort
        fun a b => scoredBefore a b).take limit.toNat |>.map Prod.fst)
  else .ok ((engine.ranked query scope t.toMemoryStore).take limit.toNat)

end MemoryWriter

/-- How an entry passes from its row to the caller. -/
inductive OutwardPath where
  | raw
  | scanned
  | masked
  | scannedMasked

/-- Some of the texts is part of the content. -/
def Exposes (secrets : List String) (content : String) : Prop :=
  ∃ secret ∈ secrets, ThreatScanner.isWithin secret content = true

instance (secrets : List String) (content : String) : Decidable (Exposes secrets content) := by
  unfold Exposes
  infer_instance

namespace AgentService

def entriesOf {α : Type} (entries : α → List MemoryEntry) : Except PyError α → List MemoryEntry
  | .ok v => entries v
  | .error _ => []

section
variable (svc : AgentService) (ftsAvailable : Bool) (engine : SearchEngine) (a : Ambient)
  (t : MemoryTables)

/-- The store appends only where it finds no entry. -/
def foundIdempotent (scope : MemoryScope) (write : MemoryWrite) (idempotencyKey : String) :
    List MemoryEntry :=
  if t.idempotency.any fun row => row.idempotencyKey = idempotencyKey then
    entriesOf (fun e => [e])
      ((svc.memoryStore ftsAvailable).appendIdempotent a scope write idempotencyKey t).1
  else []

def foundReconciled (scope : MemoryScope) (write : MemoryWrite) : List MemoryEntry :=
  entriesOf (fun r => if r.2 then [] else [r.1])
    ((svc.memoryStore ftsAvailable).appendReconciled a scope write t).1

/-- The contents that a call returns; a rendering returns those on its lines. -/
def contents : OutwardCall → List String
  | .get scope entryId includeTombstone =>
      (entriesOf (fun e => [e])
        (MemoryBackend.getInTransaction scope entryId includeTombstone t.toMemoryStore).1).map
          MemoryEntry.content
  | .list scope includeTombstones limit =>
      (entriesOf id (svc.memory.listEntries scope includeTombstones limit t.toMemoryStore)).map
        MemoryEntry.content
  | .findByHash scope digest =>
      (MemoryBackend.findByHash scope digest t.toMemoryStore).toList.map MemoryEntry.content
  | .recall query scope limit =>
      (entriesOf (List.map MemoryHit.entry)
        ((svc.memoryStore ftsAvailable).recall engine query scope limit t)).map MemoryEntry.content
  | .sessionSnapshot scope charBudget tokenBudget =>
      (entriesOf MemorySnapshot.entries
        (svc.memory.snapshotOf scope charBudget tokenBudget t.toMemoryStore)).map MemoryEntry.content
  | .renderPromptContext snapshot charBudget tokenBudget =>
      (entriesOf (svc.memory.shownWithin snapshot)
        (MemoryBackend.renderBudget charBudget tokenBudget)).map
          fun e => (svc.memory.safeEntry e).content
  | .appendIdempotent scope write key =>
      (svc.foundIdempotent ftsAvailable a t scope write key).map MemoryEntry.content
  | .appendReconciled scope write =>
      (svc.foundReconciled ftsAvailable a t scope write).map MemoryEntry.content
  | .memoryAdd scope profileId subjectKey write key =>
      (entriesOf (fun e => [e])
        (svc.memoryAdd ftsAvailable a scope profileId subjectKey write key t).1).map
          MemoryEntry.content
  | .memoryList scope profileId subjectKey includeTombstones limit =>
      (entriesOf id (svc.memoryList scope profileId subjectKey includeTombstones limit t)).map
        MemoryEntry.content
  | .memorySearch scope query profileId subjectKey limit =>
      (entriesOf (List.map MemoryHit.entry)
        (svc.memorySearch ftsAvailable engine scope query profileId subjectKey limit t)).map
          MemoryEntry.content

/-- The rows that a call returns. -/
def selected : OutwardCall → List MemoryEntry
  | .get scope entryId includeTombstone => entriesOf (fun e => [e])
      (MemoryBackend.getInTransaction scope entryId includeTombstone t.toMemoryStore).1
  | .list scope includeTombstones limit =>
      entriesOf id (MemoryBackend.storedEntries scope includeTombstones limit t.toMemoryStore)
  | .findByHash scope digest => (MemoryBackend.findByHash scope digest t.toMemoryStore).toList
  | .recall query scope limit =>
      entriesOf id ((svc.memoryStore ftsAvailable).recalledEntries engine query scope limit t)
  | .sessionSnapshot scope charBudget tokenBudget =>
      entriesOf (fun budget => svc.memory.selectRows budget 0
        (MemoryBackend.activeEntries scope t.toMemoryStore))
        (MemoryBackend.snapshotBudget charBudget tokenBudget)
  | .renderPromptContext snapshot charBudget tokenBudget =>
      entriesOf (svc.memory.shownWithin snapshot)
        (MemoryBackend.renderBudget charBudget tokenBudget)
  | .appendIdempotent scope write key => svc.foundIdempotent ftsAvailable a t scope write key
  | .appendReconciled scope write => svc.foundReconciled ftsAvailable a t scope write
  | .memoryAdd scope profileId subjectKey write key => entriesOf (fun e => [e])
      (svc.addedEntry ftsAvailable a scope profileId subjectKey write key t).1
  | .memoryList scope profileId subjectKey includeTombstones limit =>
      entriesOf id (svc.resolveMemoryScope scope profileId subjectKey >>= fun selected =>
        MemoryBackend.storedEntries selected includeTombstones limit t.toMemoryStore)
  | .memorySearch scope query profileId subjectKey limit =>
      entriesOf id (svc.resolveMemoryScope scope profileId subjectKey >>= fun selected =>
        (svc.memoryStore ftsAvailable).recalledEntries engine query selected limit t)

def present : OutwardPath → MemoryEntry → MemoryEntry
  | .raw, entry => entry
  | .scanned, entry => svc.memory.safeEntry entry
  | .masked, entry => safeMemoryEntry entry
  | .scannedMasked, entry => safeMemoryEntry (svc.memory.safeEntry entry)

/-- What keeps the texts out of what is returned of an entry. -/
def Guarded (secrets : List String) (entry : MemoryEntry) : OutwardPath → Prop
  | .raw => ¬ Exposes secrets entry.content
  | .scanned =>
      if svc.memory.isUnsafe entry then ¬ Exposes secrets blockedContent else "" ∉ secrets
  | .masked =>
      if entry.blockedReason.isNone then ¬ Exposes secrets entry.content
      else ¬ Exposes secrets unsafeMarker
  | .scannedMasked =>
      if svc.memory.isUnsafe entry || entry.blockedReason.isSome then ¬ Exposes secrets unsafeMarker
      else "" ∉ secrets

/-- The service after each of the calls of `add_configured_secrets`. -/
def scanningFor (passed : List (List String)) : AgentService :=
  passed.foldl (fun svc secrets => svc.addConfiguredSecrets secrets) svc

end

end AgentService

def OutwardCall.path : OutwardCall → OutwardPath
  | .get .. | .findByHash .. | .appendIdempotent .. | .appendReconciled .. => .raw
  | .list .. | .recall .. | .sessionSnapshot .. | .renderPromptContext .. => .scanned
  | .memoryAdd .. => .masked
  | .memoryList .. | .memorySearch .. => .scannedMasked

/-! What a scan leaves. -/

namespace ThreatScanner
variable {scanner : ThreatScanner} {content secret : String}

theorem isWithin_of_scan (h : scanner.scan content = none) (hsecret : secret ∈ scanner.configuredSecrets)
    (hne : secret ≠ "") : isWithin secret content = false := by
  unfold scan at h
  simp only [ite_eq_left_iff, reduceCtorEq, imp_false, not_not, List.append_eq_nil_iff] at h
  by_contra hwithin
  have hany : scanner.orderedSecrets.any (isWithin · content) = true :=
    List.any_eq_true.2 ⟨secret, mem_orderedSecrets.2 ⟨hsecret, hne⟩, by simpa using hwithin⟩
  rw [if_pos hany] at h
  simp at h

theorem names_ne_empty : ∀ p ∈ injectionPatterns ++ secretPatterns, p.name ≠ "" := by
  decide +kernel

theorem joined_ne_empty {reasons : List String} (hne : reasons ≠ [])
    (h : ∀ name ∈ reasons, name ≠ "") : ";".intercalate reasons ≠ "" := by
  cases reasons with
  | nil => exact absurd rfl hne
  | cons name names =>
      have hname := h name List.mem_cons_self
      cases names with
      | nil => simpa using hname
      | cons other names =>
          rw [String.intercalate_cons_cons]
          intro hjoined
          rw [String.append_eq_empty_iff, String.append_eq_empty_iff] at hjoined
          exact hname hjoined.1.1

theorem scan_ne_empty : scanner.scan content ≠ some "" := by
  unfold scan
  dsimp only
  generalize hreasons : List.map Pattern.name _ ++ _ = reasons
  have hnames : ∀ name ∈ reasons, name ≠ "" := by
    rw [← hreasons]
    intro name hname
    rcases List.mem_append.1 hname with hname | hname
    · obtain ⟨p, hp, rfl⟩ := List.mem_map.1 hname
      exact names_ne_empty p (List.mem_filter.1 hp).1
    · split at hname
      · rw [List.mem_singleton.1 hname]
        decide
      · simp at hname
  by_cases hnone : reasons = []
  · simp [hnone]
  · rw [if_neg hnone]
    intro h
    refine joined_ne_empty ?_ (fun name hname => hnames name (List.mem_dedup.1 hname))
      (Option.some.inj h)
    simpa using hnone

end ThreatScanner

namespace MemoryBackend
variable {backend : MemoryBackend} {entry : MemoryEntry}

theorem safeEntry_of_safe (h : backend.isUnsafe entry = false) : backend.safeEntry entry = entry ∧
    backend.scanner.scan entry.content = none := by
  simp only [isUnsafe, Bool.or_eq_false_iff, Option.isSome_eq_false_iff,
    Option.isNone_iff_eq_none, decide_eq_false_iff_not, not_not] at h
  obtain ⟨⟨hstored, hscan⟩, hhash⟩ := h
  refine ⟨?_, hscan⟩
  have hempty : ∀ reason ∈ entry.blockedReason, reason = "" := by
    intro reason hreason
    rw [Option.mem_def.1 hreason] at hstored
    simpa using hstored
  unfold safeEntry
  split
  · rfl
  · rw [hscan]
    cases hreason : entry.blockedReason with
    | none => simp [hhash, List.reduceOption]
    | some reason => simp [hhash, List.reduceOption, hempty reason hreason]

theorem safeEntry_of_unsafe (h : backend.isUnsafe entry = true) :
    (backend.safeEntry entry).content = blockedContent ∧
      (backend.safeEntry entry).blockedReason.isSome = true := by
  unfold safeEntry
  split
  next hmarked => exact hmarked
  next =>
    rw [if_neg]
    · exact ⟨rfl, rfl⟩
    · intro hreasons
      simp only [List.append_eq_nil_iff, List.filter_eq_nil_iff] at hreasons
      obtain ⟨hnone, hhash⟩ := hreasons
      simp only [isUnsafe, Bool.or_eq_true, decide_eq_true_eq] at h
      rcases h with (hstored | hscan) | hchanged
      · cases hreason : entry.blockedReason with
        | none => simp [hreason] at hstored
        | some reason =>
            rw [hreason] at hstored hnone
            exact hnone reason (by simp [List.reduceOption]) hstored
      · obtain ⟨reason, hreason⟩ := Option.isSome_iff_exists.1 hscan
        refine hnone reason (by simp [List.reduceOption, hreason, List.mem_filterMap]) ?_
        simpa using fun hempty => ThreatScanner.scan_ne_empty (hempty ▸ hreason)
      · simp [hchanged] at hhash

theorem listEntries_eq {scope : MemoryScope} {includeTombstones : Bool} {limit : Option ℤ}
    {s : MemoryStore} : backend.listEntries scope includeTombstones limit s =
      (storedEntries scope includeTombstones limit s).map (List.map backend.safeEntry) := by
  simp only [listEntries, Bind.bind, Except.bind, Pure.pure, Except.pure]
  cases storedEntries scope includeTombstones limit s <;> rfl

theorem selectWithin_map {budget used : ℕ} {entries : List MemoryEntry} :
    selectWithin budget used (entries.map backend.safeEntry) =
      (backend.selectRows budget used entries).map backend.safeEntry := by
  induction entries generalizing used with
  | nil => rfl
  | cons entry entries ih =>
      simp only [List.map_cons, selectWithin, selectRows]
      split
      · exact ih
      · rw [List.map_cons, ih]

end MemoryBackend

namespace MemoryWriter
variable {writer : MemoryWriter} {engine : SearchEngine}

theorem recall_entries {query : String} {scope : MemoryScope} {limit : ℤ} {t : MemoryTables} :
    (writer.recall engine query scope limit t).map (List.map MemoryHit.entry) =
      (writer.recalledEntries engine query scope limit t).map (List.map writer.backend.safeEntry) := by
  unfold «recall» recalledEntries
  split
  · rfl
  split
  · rfl
  split
  · rfl
  split
  · by_cases hquery : engine.ftsQuery query = "" <;>
      simp [recallFts, hquery, Except.map, Function.comp_def]
  · simp [recallLike, Except.map, Function.comp_def]

end MemoryWriter

namespace AgentService

section
variable {svc : AgentService} {ftsAvailable : Bool} {engine : SearchEngine} {a : Ambient}
  {t : MemoryTables} {secrets : List String} {entry : MemoryEntry} {call : OutwardCall}

theorem entriesOf_map {α β : Type} {f : α → β} {entries : β → List MemoryEntry}
    {r : Except PyError α} : entriesOf entries (r.map f) = entriesOf (fun v => entries (f v)) r := by
  cases r <;> rfl

theorem map_entriesOf {α β : Type} {f : MemoryEntry → β} {entries : α → List MemoryEntry}
    {r : Except PyError α} : (entriesOf entries r).map f =
      (match r with
        | .ok v => (entries v).map f
        | .error _ => []) := by
  cases r <;> rfl

/-- A call returns the contents of the rows that it selects, as its path presents them. -/
theorem contents_eq : svc.contents ftsAvailable engine a t call =
    (svc.selected ftsAvailable engine a t call).map fun e => (svc.present call.path e).content := by
  cases call with
  | get | findByHash | renderPromptContext | appendIdempotent | appendReconciled => rfl
  | list scope includeTombstones limit =>
      simp only [contents, selected, MemoryBackend.listEntries_eq, entriesOf_map, map_entriesOf]
      cases MemoryBackend.storedEntries scope includeTombstones limit t.toMemoryStore with
      | error exc => rfl
      | ok rows => simp [OutwardCall.path, present]
  | «recall» query scope limit =>
      have hrecall := @MemoryWriter.recall_entries (svc.memoryStore ftsAvailable) engine query scope
        limit t
      have hentries : entriesOf (List.map MemoryHit.entry) ((svc.memoryStore ftsAvailable).recall engine
          query scope limit t) = entriesOf id (((svc.memoryStore ftsAvailable).recall engine query scope
            limit t).map (List.map MemoryHit.entry)) := by
        rw [entriesOf_map]
        rfl
      simp only [contents, selected]
      rw [hentries, hrecall, entriesOf_map]
      simp only [map_entriesOf]
      cases (svc.memoryStore ftsAvailable).recalledEntries engine query scope limit t with
      | error exc => rfl
      | ok rows => simp [OutwardCall.path, present, memoryStore]
  | sessionSnapshot scope charBudget tokenBudget =>
      simp only [contents, selected, MemoryBackend.snapshotOf, map_entriesOf]
      cases MemoryBackend.snapshotBudget charBudget tokenBudget with
      | error exc => rfl
      | ok budget =>
          simp [Bind.bind, Except.bind, Pure.pure, Except.pure, MemoryBackend.sessionSnapshot,
            MemoryBackend.list, MemoryBackend.selectWithin_map, OutwardCall.path, present]
  | memoryAdd scope profileId subjectKey write key =>
      simp only [contents, selected, memoryAdd, Bind.bind, Txn.bind, Pure.pure, Txn.pure]
      rcases svc.addedEntry ftsAvailable a scope profileId subjectKey write key t with ⟨exc | e, t'⟩ <;>
        rfl
  | memoryList scope profileId subjectKey includeTombstones limit =>
      simp only [contents, selected, memoryList, MemoryBackend.listEntries_eq, Bind.bind, Except.bind,
        Pure.pure, Except.pure]
      cases svc.resolveMemoryScope scope profileId subjectKey with
      | error exc => rfl
      | ok scope =>
          dsimp only
          cases MemoryBackend.storedEntries scope includeTombstones limit t.toMemoryStore with
          | error exc => rfl
          | ok rows => simp [Except.map, entriesOf, OutwardCall.path, present]
  | memorySearch scope query profileId subjectKey limit =>
      simp only [contents, selected, memorySearch, Bind.bind, Except.bind, Pure.pure, Except.pure]
      cases svc.resolveMemoryScope scope profileId subjectKey with
      | error exc => rfl
      | ok scope =>
          have hrecall := @MemoryWriter.recall_entries (svc.memoryStore ftsAvailable) engine query scope
            limit t
          dsimp only
          cases hhits : (svc.memoryStore ftsAvailable).recall engine query scope limit t with
          | error exc =>
              rw [hhits] at hrecall
              cases hrows : (svc.memoryStore ftsAvailable).recalledEntries engine query scope limit t with
              | error exc' => rfl
              | ok rows => simp [hrows, Except.map] at hrecall
          | ok hits =>
              rw [hhits] at hrecall
              cases hrows : (svc.memoryStore ftsAvailable).recalledEntries engine query scope limit t with
              | error exc' => simp [hrows, Except.map] at hrecall
              | ok rows =>
                  simp only [hrows, Except.map, Except.ok.injEq] at hrecall
                  simp only [entriesOf, id, List.map_map]
                  have hmasked := congrArg (List.map fun e => (safeMemoryEntry e).content) hrecall
                  simpa [Function.comp_def, OutwardCall.path, present, memoryStore] using hmasked

/-- After all of the calls the scanner looks for what each of them passed. -/
theorem mem_scanningFor {before later : List (List String)} {secret : String}
    (hsecret : secret ∈ secrets) (hne : secret ≠ "") :
    secret ∈ (svc.scanningFor (before ++ secrets :: later)).memory.scanner.configuredSecrets := by
  have hkept : ∀ (passed : List (List String)) (svc : AgentService),
      secret ∈ svc.memory.scanner.configuredSecrets →
        secret ∈ (svc.scanningFor passed).memory.scanner.configuredSecrets := by
    intro passed
    induction passed with
    | nil => exact fun _ h => h
    | cons more passed ih => exact fun svc h => ih _ (List.mem_append_left _ h)
  rw [scanningFor, List.foldl_append, List.foldl_cons]
  exact hkept later _ (List.mem_append_right _ (List.mem_filter.2 ⟨hsecret, by simpa using hne⟩))

theorem exposes_of_empty {content : String} (h : "" ∈ secrets) : Exposes secrets content :=
  ⟨"", h, List.any_eq_true.2 ⟨content.toList, (List.mem_tails _ _).2 List.suffix_rfl, by simp⟩⟩

theorem exposes_of_scan {content : String}
    (hconfigured : ∀ secret ∈ secrets, secret ≠ "" →
      secret ∈ svc.memory.scanner.configuredSecrets)
    (h : svc.memory.scanner.scan content = none) : Exposes secrets content ↔ "" ∈ secrets := by
  refine ⟨?_, exposes_of_empty⟩
  rintro ⟨secret, hsecret, hwithin⟩
  by_contra hempty
  have hne : secret ≠ "" := fun he => hempty (he ▸ hsecret)
  rw [ThreatScanner.isWithin_of_scan h (hconfigured secret hsecret hne) hne] at hwithin
  simp at hwithin

theorem present_guarded {path : OutwardPath}
    (hconfigured : ∀ secret ∈ secrets, secret ≠ "" →
      secret ∈ svc.memory.scanner.configuredSecrets) :
    ¬ Exposes secrets (svc.present path entry).content ↔ svc.Guarded secrets entry path := by
  cases path with
  | raw => rfl
  | scanned =>
      simp only [present, Guarded]
      cases hrefused : svc.memory.isUnsafe entry with
      | true => rw [(MemoryBackend.safeEntry_of_unsafe hrefused).1, if_pos rfl]
      | false =>
          obtain ⟨hsafe, hscan⟩ := MemoryBackend.safeEntry_of_safe hrefused
          rw [hsafe, if_neg (by simp), exposes_of_scan hconfigured hscan]
  | masked =>
      simp only [present, Guarded, safeMemoryEntry]
      split <;> rfl
  | scannedMasked =>
      simp only [present, Guarded, safeMemoryEntry]
      cases hrefused : svc.memory.isUnsafe entry with
      | true =>
          have hreason := (MemoryBackend.safeEntry_of_unsafe hrefused).2
          rw [if_neg (by simp [Option.isSome_iff_ne_none.1 hreason]), if_pos (by simp)]
      | false =>
          obtain ⟨hsafe, hscan⟩ := MemoryBackend.safeEntry_of_safe hrefused
          rw [hsafe]
          cases hreason : entry.blockedReason with
          | none => simp [exposes_of_scan hconfigured hscan]
          | some reason => simp

/-- Nothing that a call returns later holds a text that was passed to `add_configured_secrets`. -/
def HidesSecrets (svc : AgentService) (ftsAvailable : Bool) (engine : SearchEngine) (a : Ambient)
    (t : MemoryTables) (secrets : List String) (call : OutwardCall) : Prop :=
  ∀ content ∈ svc.contents ftsAvailable engine a t call, ¬ Exposes secrets content

end

/-! A password that was remembered before it was configured as a secret. -/

namespace Password

def sha : Sha256 := .ofTable [("hunter2 opens the door",
  "194b1ac5af73c22b31ab2d1ec2a67ac5c54c5abae9af967190221fd89a6ce55e")]

def service : AgentService where
  py := ⟨fun _ => "", fun _ => "", fun _ => .error (typeError "int"), fun _ _ => false⟩
  memory := ⟨sha, ⟨⟨fun _ _ => false, fun _ _ text => text⟩, []⟩⟩
  providers := []
  tools := ⟨[], []⟩
  config := ⟨[], ⟨false, .defaultProfile, 4000⟩⟩

def engine : SearchEngine := ⟨fun c => [c.toLower], fun query => [query], fun _ _ => []⟩

def clock : Ambient := ⟨1, 1, 1, "55555555555555555555555555555555"⟩

def scope : MemoryScope := ⟨.defaultProfile, .defaultProfile⟩

def tables : MemoryTables := MemoryIssued.after ⟨service.memoryStore false, clock, .append scope
  ⟨⟨"hunter2 opens the door", by decide⟩, .fact, .userAsserted, none, ⟨none, none, none⟩⟩⟩ .empty

theorem returned : "hunter2 opens the door" ∈ (service.scanningFor [["hunter2"]]).contents false engine
    clock tables (.get scope "55555555555555555555555555555555" false) := by
  decide +kernel

end Password

end AgentService

end Polaris
