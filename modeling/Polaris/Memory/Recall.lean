import Mathlib.Order.WithBot
import Mathlib.Algebra.Order.Ring.Rat
import Polaris.Library.Like
import Polaris.Memory.Revisions

namespace Polaris
open PyJson

/-- What Python and SQLite make of a query: `str.casefold` of a character, the words that `\w+`
finds, and the ids of the indexed rows that match a query of FTS5 with their `bm25`. -/
structure SearchEngine where
  fold : Char → List Char
  words : String → List String
  rank : String → List IndexRow → List (String × ℚ)

structure MemoryHit where
  entry : MemoryEntry
  score : WithBot ℚ
  searchBackend : String

/-! Python's `in`, `count` and `find` on texts. -/

namespace Text

def within (needle text : List Char) : Bool := text.tails.any needle.isPrefixOf

/-- `passed` more characters belong to the occurrence that was counted last. -/
def countFrom (needle : List Char) : ℕ → List Char → ℕ
  | 0, [] => if needle = [] then 1 else 0
  | _ + 1, [] => 0
  | passed + 1, _ :: cs => countFrom needle passed cs
  | 0, c :: cs =>
      if needle.isPrefixOf (c :: cs) then countFrom needle (needle.length - 1) cs + 1
      else countFrom needle 0 cs

def count (needle text : List Char) : ℕ := countFrom needle 0 text

def findFrom (needle : List Char) : ℕ → List Char → ℤ
  | n, [] => if needle = [] then n else -1
  | n, c :: cs => if needle.isPrefixOf (c :: cs) then n else findFrom needle (n + 1) cs

/-- The first position, `-1` where there is none. -/
def find (needle text : List Char) : ℤ := findFrom needle 0 text

/-- `str.replace` of one character -/
def replaceChar (old : Char) (new text : List Char) : List Char :=
  text.flatMap fun c => if c = old then new else [c]

end Text

namespace SearchEngine
variable (engine : SearchEngine)

def casefold (s : String) : List Char := s.toList.flatMap engine.fold

def ftsQuery (query : String) : String :=
  " AND ".intercalate ((engine.words query).map fun token =>
    "\"" ++ String.ofList (Text.replaceChar '"' ['"', '"'] token.toList) ++ "\"")

/-! The search without an index. -/

def likePattern (query : String) : List Char :=
  '%' :: (Text.replaceChar '_' ['\\', '_'] (Text.replaceChar '%' ['\\', '%']
    (Text.replaceChar '\\' ['\\', '\\'] (engine.casefold query))) ++ ['%'])

/-- `lower(content) LIKE ? ESCAPE '\'`, where both sides take only ASCII letters of either case for
equal. -/
def isCandidate (query : String) (entry : MemoryEntry) : Bool :=
  Like.like (fun c d => c.toLower = d.toLower) '\\' (engine.likePattern query)
    (entry.content.toList.map Char.toLower)

def occurrences (query : String) (entry : MemoryEntry) : ℕ :=
  Text.count (engine.casefold query) (engine.casefold entry.content)

def position (query : String) (entry : MemoryEntry) : ℤ :=
  Text.find (engine.casefold query) (engine.casefold entry.content)

def updatedBefore (a b : MemoryEntry) : Bool :=
  a.updatedAt < b.updatedAt || (a.updatedAt = b.updatedAt && !(b.id < a.id))

def rankedBefore (query : String) (a b : MemoryEntry) : Bool :=
  engine.occurrences query b < engine.occurrences query a ||
    (engine.occurrences query a = engine.occurrences query b &&
      (engine.position query a < engine.position query b ||
        (engine.position query a = engine.position query b && updatedBefore a b)))

def ranked (query : String) (scope : MemoryScope) (s : MemoryStore) : List MemoryEntry :=
  (s.entries.filter fun e => e.scope = scope && !e.tombstoned &&
    engine.isCandidate query e).insertionSort fun a b => engine.rankedBefore query a b

end SearchEngine

namespace MemoryWriter
variable (writer : MemoryWriter) (engine : SearchEngine)

def recallLike (query : String) (scope : MemoryScope) (limit : ℕ) (t : MemoryTables) :
    List MemoryHit :=
  ((engine.ranked query scope t.toMemoryStore).take limit).map fun e =>
    ⟨writer.backend.safeEntry e, (engine.occurrences query e : ℚ), "like"⟩

/-! The search with an index. -/

abbrev Scored := MemoryEntry × WithBot ℚ

/-- The rows that match, `ORDER BY rank, e.updated_at DESC, e.id LIMIT ?`. -/
def matched (query : String) (scope : MemoryScope) (limit : ℕ) (t : MemoryTables) :
    List (MemoryEntry × ℚ) :=
  (((engine.rank query t.index).flatMap fun r => (t.entries.filter fun e =>
      e.id = r.1 && e.scope = scope && !e.tombstoned).map fun e => (e, r.2)).insertionSort
    fun a b => a.2 < b.2 || (a.2 = b.2 && (b.1.updatedAt < a.1.updatedAt ||
      (b.1.updatedAt = a.1.updatedAt && !(b.1.id < a.1.id))))).take limit

def isCompromised (entry : MemoryEntry) : Bool :=
  entry.blockedReason.isSome || writer.backend.contentHash entry.content ≠ entry.contentHash ||
    (writer.backend.scanner.scan entry.content).isSome

/-- `dict`: a later row of an entry gives the score. -/
def candidates (rows : List (MemoryEntry × ℚ)) : List Scored :=
  rows.foldl (fun found r =>
    if found.any fun x => x.1.id = r.1.id then
      found.map fun x => if x.1.id = r.1.id then (r.1, ((-r.2 : ℚ) : WithBot ℚ)) else x
    else found ++ [(r.1, ((-r.2 : ℚ) : WithBot ℚ))]) []

def addCompromised (query : String) (entries : List MemoryEntry) (found : List Scored) :
    List Scored :=
  entries.foldl (fun found e =>
    if writer.isCompromised e && Text.within (engine.casefold query) (engine.casefold e.content) &&
        !(found.any fun x => x.1.id = e.id) then found ++ [(e, ⊥)]
    else found) found

def scoredBefore (a b : Scored) : Bool :=
  b.2 < a.2 || (a.2 = b.2 && SearchEngine.updatedBefore a.1 b.1)

def recallFts (query : String) (scope : MemoryScope) (limit : ℕ) (t : MemoryTables) :
    List MemoryHit :=
  let ftsQuery := engine.ftsQuery query
  if ftsQuery = "" then []
  else
    let found := candidates (matched engine ftsQuery scope limit t)
    let audited := addCompromised writer engine query
      (t.entries.filter fun e => e.scope = scope && !e.tombstoned) found
    ((audited.insertionSort fun a b => scoredBefore a b).take limit).map fun x =>
      ⟨writer.backend.safeEntry x.1, x.2, "fts5"⟩

def «recall» (query : String) (scope : MemoryScope) (limit : ℤ) (t : MemoryTables) :
    Except PyError (List MemoryHit) :=
  if isBlankText query then .error (MemoryBackend.validation "query must be non-empty")
  else if limit < 0 then .error (MemoryBackend.validation "limit must be non-negative")
  else if limit = 0 then .ok []
  else if writer.ftsAvailable then .ok (recallFts writer engine query scope limit.toNat t)
  else .ok (recallLike writer engine query scope limit.toNat t)

end MemoryWriter

end Polaris
