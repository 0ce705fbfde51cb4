import Polaris.Library.PyJsonAscii
import Polaris.Library.Table
import Polaris.Library.Transaction
import Polaris.Journal.Steps
import Polaris.Memory.Security

namespace Polaris
open PyJson

structure IdempotencyRow where
  idempotencyKey : String
  entryId : String
  scope : MemoryScope
  writeHash : String
deriving DecidableEq

structure MemoryStore where
  entries : List MemoryEntry
  generation : ℕ
  idempotency : List IdempotencyRow
deriving DecidableEq

/-- What a `MemoryStore` object has besides the database. -/
structure MemoryBackend where
  sha : Sha256
  scanner : ThreatScanner

namespace MemoryBackend
variable (backend : MemoryBackend)

abbrev Op (β : Type) := Txn PyError MemoryStore β

def contentHash (content : String) : String := backend.sha.hexdigest content

def entryIdentity (entry : MemoryEntry) : PyVal :=
  dict [("id", .str entry.id), ("revision", .int entry.revision),
    ("content_hash", .str entry.contentHash), ("blocked_reason", optStr entry.blockedReason)]

/-- The text that identifies the entries of a snapshot. -/
def snapshotIdentity (entries : List MemoryEntry) : String :=
  asciiJson (.seq .list (entries.map entryIdentity))

def snapshotHash (entries : List MemoryEntry) : String :=
  backend.sha.hexdigest (snapshotIdentity entries)

def writeIdentityHash (write : MemoryWrite) : String :=
  backend.sha.hexdigest (asciiJson (dict [("content", .str write.content),
    ("kind", .str write.kind.value), ("trust_level", .str write.trustLevel.value),
    ("entry_id", optStr (write.entryId.map Subtype.val)),
    ("provenance_run_id", optStr write.provenance.runId),
    ("provenance_session_id", optStr write.provenance.sessionId),
    ("provenance_message_id", optStr write.provenance.messageId)]))

def splitReasons (s : String) : List String := (s.splitOn ";")

def safeEntry (entry : MemoryEntry) : MemoryEntry :=
  if entry.content = blockedContent ∧ entry.blockedReason.isSome then entry
  else
    let reasons := [entry.blockedReason, backend.scanner.scan entry.content].reduceOption.filter
      (· ≠ "") ++ if backend.contentHash entry.content ≠ entry.contentHash then
        ["integrity:content_hash_mismatch"] else []
    if reasons = [] then entry
    else { entry with
      content := blockedContent,
      blockedReason := some (";".intercalate (splitReasons (";".intercalate reasons)).dedup) }

def conflict (message : String) : PyError := ⟨.other "MemoryConflictError", message⟩

def validation (message : String) : PyError := ⟨.other "MemoryValidationError", message⟩

def missing (message : String) : PyError := ⟨.other "MemoryNotFoundError", message⟩

def findEntry (entryId : String) (s : MemoryStore) : Option MemoryEntry :=
  Table.find MemoryEntry.id entryId s.entries

/-- Every change of an entry counts as a new generation. -/
def changed (entries : List MemoryEntry) (s : MemoryStore) : MemoryStore :=
  { s with
    entries := entries, generation := s.generation + 1 }

def appendInTransaction (a : Ambient) (scope : MemoryScope) (write : MemoryWrite) :
    Op MemoryEntry := do
  let entryId := write.entryId.elim a.uuid Subtype.val
  let entry : MemoryEntry := ⟨entryId, scope, write.content, write.kind, write.trustLevel,
    write.provenance, a.now, a.now, 1, backend.contentHash write.content,
    backend.scanner.scan write.content, false⟩
  let taken ← Txn.read (findEntry entryId)
  Txn.require taken.isNone (conflict ("memory id already exists: " ++ entryId))
  Txn.write fun s => changed (s.entries ++ [entry]) s
  return entry

def append (a : Ambient) (scope : MemoryScope) (write : MemoryWrite) : Op MemoryEntry :=
  Txn.atomically (appendInTransaction backend a scope write)

def appendAll (scope : MemoryScope) : List (Ambient × MemoryWrite) → Op (List MemoryEntry)
  | [] => return []
  | (a, write) :: writes => do
      let entry ← appendInTransaction backend a scope write
      return entry :: (← appendAll scope writes)

def appendMany (scope : MemoryScope) (writes : List (Ambient × MemoryWrite)) :
    Op (List MemoryEntry) := Txn.atomically (appendAll backend scope writes)

def getInTransaction (scope : MemoryScope) (entryId : String) (includeTombstone : Bool) :
    Op MemoryEntry := do
  let found ← Txn.read fun s => s.entries.find? fun e =>
    e.id = entryId && e.scope = scope && (includeTombstone || !e.tombstoned)
  Txn.getOr found (missing ("memory not found in scope: " ++ entryId))

def addIdempotency (row : IdempotencyRow) (s : MemoryStore) : MemoryStore :=
  { s with
    idempotency := s.idempotency ++ [row] }

def appendIdempotent (a : Ambient) (scope : MemoryScope) (write : MemoryWrite)
    (idempotencyKey : String) : Op MemoryEntry := do
  Txn.require (!isBlankText idempotencyKey)
    (validation "idempotency_key must be a non-empty string")
  let writeHash := backend.writeIdentityHash write
  Txn.atomically do
    match ← Txn.read fun s => s.idempotency.find? fun row => row.idempotencyKey = idempotencyKey with
    | some row => do
        Txn.require (row.scope = scope && row.writeHash = writeHash)
          (conflict "idempotency key already exists with different memory content")
        getInTransaction scope row.entryId true
    | none => do
        let entry ← appendInTransaction backend a scope write
        Txn.write (addIdempotency ⟨idempotencyKey, entry.id, scope, writeHash⟩)
        return entry

/-- `ORDER BY created_at, id` -/
def entryBefore (a b : MemoryEntry) : Bool :=
  a.createdAt < b.createdAt || (a.createdAt = b.createdAt && !(b.id < a.id))

def activeEntries (scope : MemoryScope) (s : MemoryStore) : List MemoryEntry :=
  (s.entries.filter fun e => e.scope = scope && !e.tombstoned).insertionSort
    fun a b => entryBefore a b

def appendReconciled (a : Ambient) (scope : MemoryScope) (write : MemoryWrite) :
    Op (MemoryEntry × Bool) := Txn.atomically do
  let equal ← Txn.read fun s => (activeEntries scope s).find? fun e =>
    e.contentHash = backend.contentHash write.content
  match equal with
  | some entry => return (entry, false)
  | none => return (← appendInTransaction backend a scope write, true)

def checkExpected (entry : MemoryEntry) (expectedRevision : Option ℕ)
    (expectedHash : Option String) : Op Unit := do
  Txn.require (expectedRevision.isSome || expectedHash.isSome)
    (validation "expected_revision or expected_hash is required")
  Txn.require (expectedRevision.all (entry.revision = ·))
    (conflict ("revision conflict: expected " ++ toString (expectedRevision.getD 0) ++ ", found " ++
      toString entry.revision))
  Txn.require (expectedHash.all (entry.contentHash = ·)) (conflict "content hash conflict")

/-- The new value of an entry: a whole write, or a content with what is given next to it. -/
inductive Replacement where
  | write (write : MemoryWrite)
  | content (text : NonBlank) (kind : Option MemoryKind) (trustLevel : Option TrustLevel)
      (runId sessionId messageId : Option (Option String))

def Replacement.normalized (entryId : String) (current : MemoryEntry) :
    Replacement → Except PyError (NonBlank × MemoryKind × TrustLevel × Provenance)
  | .write w =>
      if w.entryId.all (·.1 = entryId) then .ok (w.content, w.kind, w.trustLevel, w.provenance)
      else .error (validation "MemoryWrite.entry_id does not match target entry")
  | .content text kind trustLevel runId sessionId messageId =>
      .ok (text, kind.getD current.kind, trustLevel.getD current.trustLevel,
        ⟨runId.getD current.provenance.runId, sessionId.getD current.provenance.sessionId,
          messageId.getD current.provenance.messageId⟩)

def replaceEntry (row : MemoryEntry) (s : MemoryStore) : MemoryStore :=
  changed (Table.put MemoryEntry.id row s.entries) s

def replace (a : Ambient) (scope : MemoryScope) (entryId : String) (replacement : Replacement)
    (expectedRevision : Option ℕ) (expectedHash : Option String) : Op MemoryEntry :=
  Txn.atomically do
    let current ← getInTransaction scope entryId true
    Txn.require (!current.tombstoned) (missing ("active memory not found: " ++ entryId))
    checkExpected current expectedRevision expectedHash
    let (content, kind, trustLevel, provenance) ← Txn.lift (replacement.normalized entryId current)
    let row : MemoryEntry := ⟨entryId, scope, content, kind, trustLevel, provenance,
      current.createdAt, a.now, current.revision + 1, backend.contentHash content,
      backend.scanner.scan content, false⟩
    Txn.write (replaceEntry row)
    return row

def remove (a : Ambient) (scope : MemoryScope) (entryId : String) (expectedRevision : Option ℕ)
    (expectedHash : Option String) : Op MemoryEntry := Txn.atomically do
  let current ← getInTransaction scope entryId true
  if current.tombstoned then return current
  else
    checkExpected current expectedRevision expectedHash
    let row := { current with
      tombstoned := true, updatedAt := a.now, revision := current.revision + 1 }
    Txn.write (replaceEntry row)
    return row

end MemoryBackend

end Polaris
