import Polaris.Library.Program
import Polaris.Memory.Writes

namespace Polaris
open PyJson PyVal SortedDict Program

def MemoryKind.ofValue (text : String) : Except PyError MemoryKind :=
  match [MemoryKind.user, .agent, .fact, .preference].find? fun kind => kind.value = text with
  | some kind => .ok kind
  | none => .error ⟨.valueError, Journal.pyRepr text ++ " is not a valid MemoryKind"⟩

def TrustLevel.ofValue (text : String) : Except PyError TrustLevel :=
  match [TrustLevel.userAsserted, .modelInferred, .verified].find? fun level => level.value = text with
  | some level => .ok level
  | none => .error ⟨.valueError, Journal.pyRepr text ++ " is not a valid TrustLevel"⟩

abbrev ToolArguments := List (String × PyVal)

namespace ToolArguments
variable (arguments : ToolArguments)

def string (name : String) : Except PyError NonBlank :=
  match lookup name arguments with
  | some (.str s) =>
      if h : isBlankText s = false then .ok ⟨s, h⟩
      else .error ⟨.valueError, name ++ " must be a non-empty string"⟩
  | _ => .error ⟨.valueError, name ++ " must be a non-empty string"⟩

def optionalString (name : String) : Except PyError (Option String) :=
  match lookup name arguments with
  | none | some .null => .ok none
  | some (.str s) => .ok (some s)
  | _ => .error (typeError (name ++ " must be a string"))

def integer (name : String) : Except PyError ℤ :=
  match lookup name arguments with
  | some (.int n) => .ok n
  | _ => .error (typeError (name ++ " must be an integer"))

end ToolArguments

def entryResult (entry : MemoryEntry) (status : String) : PyVal :=
  dict [("status", .str status), ("id", .str entry.id), ("revision", .int entry.revision),
    ("content_hash", .str entry.contentHash), ("blocked", .bool entry.blockedReason.isSome),
    ("tombstoned", .bool entry.tombstoned)]

/-- What the tools ask of the store. -/
inductive StoreCall : Type → Type where
  | get (scope : MemoryScope) (entryId : String) (includeTombstone : Bool) : StoreCall MemoryEntry
  | replace (scope : MemoryScope) (entryId : String) (write : MemoryWrite) (expectedRevision : ℤ)
      (expectedHash : Option String) : StoreCall MemoryEntry

namespace StoreCall

/-- No entry has a revision below zero. -/
def refuse (scope : MemoryScope) (entryId : String) (expectedRevision : ℤ) :
    MemoryWriter.Op MemoryEntry := do
  let current ← MemoryWriter.onStore (MemoryBackend.getInTransaction scope entryId true)
  Txn.require (!current.tombstoned) (MemoryBackend.missing ("active memory not found: " ++ entryId))
  Txn.fail (MemoryBackend.conflict ("revision conflict: expected " ++ toString expectedRevision ++
    ", found " ++ toString current.revision))

def perform (writer : MemoryWriter) (a : Ambient) {β : Type} : StoreCall β → MemoryWriter.Op β
  | .get scope entryId includeTombstone =>
      MemoryWriter.onStore (MemoryBackend.getInTransaction scope entryId includeTombstone)
  | .replace scope entryId write expectedRevision expectedHash =>
      if 0 ≤ expectedRevision then
        writer.replace a scope entryId (.write write) (some expectedRevision.toNat) expectedHash
      else refuse scope entryId expectedRevision

end StoreCall

structure MemoryTools where
  py : PyBuiltins
  writer : MemoryWriter
  scope : MemoryScope

namespace MemoryTools
variable (tools : MemoryTools) (arguments : ToolArguments)

def writeFromArguments : Except PyError MemoryWrite := do
  let content ← arguments.string "content"
  let kind ← MemoryKind.ofValue (((lookup "kind" arguments).map tools.py.strOf).getD
    MemoryKind.fact.value)
  let trustLevel ← TrustLevel.ofValue (((lookup "trust_level" arguments).map tools.py.strOf).getD
    TrustLevel.userAsserted.value)
  let runId ← arguments.optionalString "provenance_run_id"
  let sessionId ← arguments.optionalString "provenance_session_id"
  let messageId ← arguments.optionalString "provenance_message_id"
  return ⟨content, kind, trustLevel, none, ⟨runId, sessionId, messageId⟩⟩

def revise : Program StoreCall PyError PyVal := do
  let entryId ← .ofExcept (arguments.string "id")
  let write ← .ofExcept (tools.writeFromArguments arguments)
  let current ← perform (.get tools.scope entryId false)
  let desiredHash := tools.writer.backend.contentHash write.content
  if current.contentHash = desiredHash then return entryResult current "already_applied"
  else
    let expectedRevision ← .ofExcept (arguments.integer "expected_revision")
    let expectedHash ← .ofExcept (arguments.optionalString "expected_hash")
    match ← (perform (.replace tools.scope entryId write expectedRevision expectedHash)).attempt with
    | .ok entry => return entryResult entry "applied"
    | .error exc =>
        if exc.cls = .other "MemoryConflictError" then
          let current ← perform (.get tools.scope entryId false)
          if current.contentHash ≠ desiredHash then .throw exc
          else return entryResult current "already_applied"
        else .throw exc

def reconcileRevise : Program StoreCall PyError PyVal := do
  let entryId ← .ofExcept (arguments.string "id")
  match ← (perform (.get tools.scope entryId true)).attempt with
  | .error exc =>
      if exc.cls = .other "MemoryNotFoundError" then return dict [("status", .str "not_applied")]
      else .throw exc
  | .ok current =>
      let desired ← .ofExcept (arguments.string "content")
      if current.tombstoned = false ∧
          current.contentHash = tools.writer.backend.contentHash desired then
        return entryResult current "already_applied"
      else
        let expectedRevision ← .ofExcept (arguments.integer "expected_revision")
        if (current.revision : ℤ) = expectedRevision then
          return dict [("status", .str "not_applied"), ("revision", .int current.revision)]
        else return dict [("status", .str "conflict"), ("revision", .int current.revision)]

/-- A call of any store that is open on the database. -/
def Others (sha : Sha256) (t t' : MemoryTables) : Prop :=
  ∃ i : MemoryIssued, i.writer.backend.sha = sha ∧ t' = i.after t

/-- Others may come before each call of a tool. -/
def system : System StoreCall PyError MemoryTables where
  exec e t r t' := ∃ u a, Relation.ReflTransGen (Others tools.writer.backend.sha) t u ∧
    e.perform tools.writer a u = (r, t')
  env := Others tools.writer.backend.sha

end MemoryTools

end Polaris
