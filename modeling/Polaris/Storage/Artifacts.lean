import Mathlib.Logic.Function.Basic
import Mathlib.Logic.Relation
import Mathlib.Tactic.Simps.Basic
import Polaris.Journal.Records

namespace Polaris
open Relation

namespace ArtifactStore

abbrev Content := List UInt8

/-- `[0-9a-f]{64}` -/
def isSha256 (text : String) : Bool :=
  text.toList.length = 64 && text.toList.all fun c => c.isDigit || (decide ('a' ≤ c) && decide (c ≤ 'f'))

/-- A store: `hashlib.sha256(data).hexdigest()` and the URI of its root. -/
structure Store where
  hexdigest : Content → String
  isSha256 : ∀ data, isSha256 (hexdigest data) = true
  rootUri : String

/-- The files below the root. -/
inductive Name where
  | artifact (sha256 : String)
  | temporary (sha256 : String) (token : ℕ)
deriving DecidableEq, Repr

/-- Files are inodes that names refer to; a directory is named by its parts below the root. -/
structure Disk where
  contents : ℕ → Content
  used : ℕ
  entries : Name → Option ℕ
  directories : List String → Bool

namespace Disk

@[simps]
def create (name : Name) (disk : Disk) : Disk :=
  { disk with
    contents := Function.update disk.contents disk.used []
    entries := Function.update disk.entries name (some disk.used)
    used := disk.used + 1 }

@[simps]
def append (inode : ℕ) (chunk : Content) (disk : Disk) : Disk :=
  { disk with contents := Function.update disk.contents inode (disk.contents inode ++ chunk) }

@[simps]
def link (inode : ℕ) (name : Name) (disk : Disk) : Disk :=
  { disk with entries := Function.update disk.entries name (some inode) }

@[simps]
def unlink (name : Name) (disk : Disk) : Disk :=
  { disk with entries := Function.update disk.entries name none }

@[simps]
def mkdir (parts : List String) (disk : Disk) : Disk :=
  { disk with directories := Function.update disk.directories parts true }

end Disk

structure StoredArtifact where
  sha256 : String
  sizeBytes : ℕ
  uri : String
deriving DecidableEq, Repr

def shard (sha256 : String) : String := String.ofList (sha256.toList.take 2)

def subshard (sha256 : String) : String := String.ofList ((sha256.toList.drop 2).take 2)

/-- `path_for` of a store in which there are no links -/
def pathFor (sha256 : String) : Except PyError Name :=
  if isSha256 sha256 then .ok (.artifact sha256)
  else .error ⟨.valueError, "sha256 must be 64 lowercase hexadecimal characters"⟩

def fileNotFoundError : PyError := ⟨.other "FileNotFoundError", "No such file or directory"⟩

def fileExistsError : PyError := ⟨.other "FileExistsError", "File exists"⟩

def artifactNotFoundError (sha256 : String) : PyError :=
  ⟨.other "ArtifactNotFoundError", "artifact " ++ Journal.pyRepr sha256 ++ " was not found"⟩

def artifactIntegrityError (sha256 : String) : PyError :=
  ⟨.other "ArtifactIntegrityError",
    "artifact " ++ Journal.pyRepr sha256 ++ " failed SHA-256 verification"⟩

/-- The file system call that a put makes next. -/
inductive Stage where
  | checking
  | openingFound
  | readingFound (inode : ℕ)
  | makingParent
  | makingShard
  | makingShardAgain
  | makingParentAgain
  | openingTemporary
  | writing (inode : ℕ) (rest : Content)
  | syncing (inode : ℕ)
  | closing (inode : ℕ)
  /-- The handle is closed while an exception is raised; what it still holds may be written. -/
  | abandoning (inode : ℕ) (rest : Content) (e : PyError)
  | linking
  | openingWinner
  | readingWinner (inode : ℕ)
  | openingDirectory
  | syncingDirectory
  | closingDirectory (failure : Option PyError)
  | unlinking (result : Except PyError Unit)
  | finished (result : Except PyError StoredArtifact)
  | crashed

def Stage.isOver : Stage → Bool
  | .finished _ => true
  | .crashed => true
  | _ => false

/-- A call of `put`, named by the token of its temporary file. -/
structure Put where
  data : Content
  stage : Stage

section
variable (store : Store)

def stored (data : Content) : StoredArtifact :=
  let sha256 := store.hexdigest data
  ⟨sha256, data.length, store.rootUri ++ "/" ++ shard sha256 ++ "/" ++ subshard sha256 ++ "/" ++ sha256⟩

def begin (data : Content) : Stage :=
  match pathFor (store.hexdigest data) with
  | .ok _ => .checking
  | .error e => .finished (.error e)

/-- `_verify_path` of what was read -/
def verifies (sha256 : String) (content : Content) : Bool := store.hexdigest content = sha256

/-- What the next call does, when it works: `size` is how much a write takes. -/
def attempt (data : Content) (token size : ℕ) (disk : Disk) : Stage → Disk × Except PyError Stage
  | .checking =>
      (disk, .ok (if (disk.entries (.artifact (store.hexdigest data))).isSome then .openingFound
        else .makingParent))
  | .openingFound =>
      (disk, match disk.entries (.artifact (store.hexdigest data)) with
        | none => .error fileNotFoundError
        | some inode => .ok (.readingFound inode))
  | .readingFound inode =>
      (disk, .ok (.finished (if verifies store (store.hexdigest data) (disk.contents inode) then
          .ok (stored store data)
        else .error (artifactIntegrityError (store.hexdigest data)))))
  | .makingParent | .makingParentAgain =>
      let sha256 := store.hexdigest data
      if disk.directories [shard sha256, subshard sha256] then (disk, .error fileExistsError)
      else if disk.directories [shard sha256] then
        (disk.mkdir [shard sha256, subshard sha256], .ok .openingTemporary)
      else (disk, .error fileNotFoundError)
  | .makingShard | .makingShardAgain =>
      let sha256 := store.hexdigest data
      if disk.directories [shard sha256] then (disk, .error fileExistsError)
      else (disk.mkdir [shard sha256], .ok .makingParentAgain)
  | .openingTemporary =>
      let sha256 := store.hexdigest data
      if !disk.directories [shard sha256, subshard sha256] then (disk, .error fileNotFoundError)
      else if (disk.entries (.temporary sha256 token)).isSome then (disk, .error fileExistsError)
      else (disk.create (.temporary sha256 token), .ok (.writing disk.used data))
  | .writing inode rest =>
      if rest = [] then (disk, .ok (.syncing inode))
      else (disk.append inode (rest.take (size + 1)), .ok (.writing inode (rest.drop (size + 1))))
  | .syncing inode => (disk, .ok (.closing inode))
  | .closing _ => (disk, .ok .linking)
  | .abandoning inode rest e => (disk.append inode (rest.take size), .ok (.unlinking (.error e)))
  | .linking =>
      let sha256 := store.hexdigest data
      match disk.entries (.temporary sha256 token) with
      | none => (disk, .error fileNotFoundError)
      | some inode =>
          if (disk.entries (.artifact sha256)).isSome then (disk, .error fileExistsError)
          else (disk.link inode (.artifact sha256), .ok .openingDirectory)
  | .openingWinner =>
      (disk, match disk.entries (.artifact (store.hexdigest data)) with
        | none => .error fileNotFoundError
        | some inode => .ok (.readingWinner inode))
  | .readingWinner inode =>
      (disk, .ok (if verifies store (store.hexdigest data) (disk.contents inode) then .openingDirectory
        else .unlinking (.error (artifactIntegrityError (store.hexdigest data)))))
  | .openingDirectory => (disk, .ok .syncingDirectory)
  | .syncingDirectory => (disk, .ok (.closingDirectory none))
  | .closingDirectory failure => (disk, .ok (.unlinking (failure.elim (.ok ()) .error)))
  | .unlinking result =>
      (disk.unlink (.temporary (store.hexdigest data) token),
        .ok (.finished (result.map fun _ => stored store data)))
  | .finished result => (disk, .ok (.finished result))
  | .crashed => (disk, .ok .crashed)

/-- What the code does with an `OSError` of the call. -/
def raised (data : Content) (disk : Disk) (e : PyError) : Stage → Stage
  -- `Path.exists` answers no where the file is not found
  | .checking => if e.cls = fileNotFoundError.cls then .makingParent else .finished (.error e)
  | .openingFound | .readingFound _ =>
      .finished (.error (if e.cls = fileNotFoundError.cls then
        artifactNotFoundError (store.hexdigest data) else e))
  | .makingParent =>
      if e.cls = fileNotFoundError.cls then .makingShard
      else if disk.directories [shard (store.hexdigest data), subshard (store.hexdigest data)] then
        .openingTemporary
      else .finished (.error e)
  -- the root is there, and its `mkdir` with `exist_ok` passes
  | .makingShard =>
      if e.cls = fileNotFoundError.cls then .makingShardAgain
      else if disk.directories [shard (store.hexdigest data)] then .makingParentAgain
      else .finished (.error e)
  | .makingShardAgain =>
      if e.cls = fileNotFoundError.cls then .finished (.error e)
      else if disk.directories [shard (store.hexdigest data)] then .makingParentAgain
      else .finished (.error e)
  | .makingParentAgain =>
      if e.cls = fileNotFoundError.cls then .finished (.error e)
      else if disk.directories [shard (store.hexdigest data), subshard (store.hexdigest data)] then
        .openingTemporary
      else .finished (.error e)
  | .openingTemporary => .unlinking (.error e)
  | .writing inode rest => .abandoning inode rest e
  | .syncing inode => .abandoning inode [] e
  | .closing _ => .unlinking (.error e)
  | .abandoning _ _ _ => .unlinking (.error e)
  | .linking => if e.cls = fileExistsError.cls then .openingWinner else .unlinking (.error e)
  | .openingWinner | .readingWinner _ =>
      .unlinking (.error (if e.cls = fileNotFoundError.cls then
        artifactNotFoundError (store.hexdigest data) else e))
  | .openingDirectory => .unlinking (.ok ())
  | .syncingDirectory => .closingDirectory (some e)
  | .closingDirectory _ => .unlinking (.error e)
  | .unlinking result =>
      if e.cls = fileNotFoundError.cls then .finished (result.map fun _ => stored store data)
      else .finished (.error e)
  | .finished result => .finished result
  | .crashed => .crashed

/-- A call works, or fails with an `OSError` before or after its effect, or the process crashes
before or after it. -/
inductive Choice where
  | works (size : ℕ)
  | fails (size : ℕ) (effect : Bool) (e : PyError)
  | crashes (size : ℕ) (effect : Bool)

def advance (token : ℕ) (put : Put) (choice : Choice) (disk : Disk) : Disk × Stage :=
  match choice with
  | .works size =>
      let (disk', answer) := attempt store put.data token size disk put.stage
      (disk', match answer with
        | .ok stage => stage
        | .error e => raised store put.data disk' e put.stage)
  | .fails size effect e =>
      let disk' := if effect then (attempt store put.data token size disk put.stage).1 else disk
      (disk', raised store put.data disk' e put.stage)
  | .crashes size effect =>
      (if effect then (attempt store put.data token size disk put.stage).1 else disk, .crashed)

/-- The files, and the puts of all processes by their tokens. -/
structure System where
  disk : Disk
  puts : ℕ → Option Put

inductive Step : System → System → Prop
  | start {s : System} {token : ℕ} (data : Content) : s.puts token = none →
      Step s ⟨s.disk, Function.update s.puts token (some ⟨data, begin store data⟩)⟩
  | run {s : System} {token : ℕ} {put : Put} (choice : Choice) : s.puts token = some put →
      put.stage.isOver = false →
      Step s ⟨(advance store token put choice s.disk).1, Function.update s.puts token
        (some ⟨put.data, (advance store token put choice s.disk).2⟩)⟩

def get (sha256 : String) (disk : Disk) : Except PyError Content := do
  let name ← pathFor sha256
  match disk.entries name with
  | none => .error (artifactNotFoundError sha256)
  | some inode =>
      if verifies store sha256 (disk.contents inode) then return disk.contents inode
      else .error (artifactIntegrityError sha256)

end

end ArtifactStore

end Polaris
