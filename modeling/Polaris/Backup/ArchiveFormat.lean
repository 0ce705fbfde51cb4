import Mathlib.Data.List.Sort
import Mathlib.Order.Lex
import Polaris.Backup.Disk
import Polaris.Library.FileTree
import Polaris.Library.PosixPath
import Polaris.Providers.Base

namespace Polaris.BackupArchive
open PyJson PosixPath FileTree

abbrev StateTree := FileTree.Tree FileName Bytes

abbrev StateNode := FileTree.Node Bytes

/-- A message, and the member or manifest path that it names. -/
inductive ArchiveError where
  | backupFormatError (message : String) (subject : PyText)
  | backupError (message : String) (subject : PyText)
  | osError
  | valueError
deriving DecidableEq

/-! Extraction. -/

inductive MemberType where
  | regular
  | directory
  | symlink
  | hardlink
  | device
  | fifo
  | other
deriving DecidableEq

/-- `none` is a content that cannot be read to its end. -/
structure TarInfo where
  name : PyText
  type : MemberType
  content : Option Bytes

/-- The members that can be read; after them the archive ends, or is damaged. -/
structure TarFile where
  members : List TarInfo
  damaged : Bool

def unsafePath (seen : List PyText) (name : PyText) : Bool :=
  isAbsolute name || parts name = [] || dotdot ∈ parts name || name ≠ joined (parts name) ||
    name ∈ seen

def invalidArchive : ArchiveError := .backupFormatError "invalid backup archive: " []

def unsupported (name : PyText) : ArchiveError :=
  .backupFormatError "unsupported archive member: " name

def extractFile (t : StateTree) (path : FilePath) (content : Option Bytes) :
    Except ArchiveError StateTree :=
  match content with
  | none => .error invalidArchive
  | some bytes => (place t (path, .file bytes)).elim (.error invalidArchive) .ok

def extractMember (t : StateTree) (seen : List PyText) (member : TarInfo) :
    Except ArchiveError StateTree :=
  if unsafePath seen member.name then
    .error (.backupFormatError "unsafe archive path: " member.name)
  else
    -- `resolve` raises on a text that is no path; nothing that is there is a link
    match member.type, ofParts (parts member.name) with
    | .symlink, _ | .hardlink, _ | .device, _ | .fifo, _ => .error (unsupported member.name)
    | _, none => .error .valueError
    | .directory, some path => (place t (path, .directory)).elim (.error invalidArchive) .ok
    | .regular, some path => extractFile t path member.content
    | .other, some _ => .error (unsupported member.name)

def extractMembers (damaged : Bool) (t : StateTree) (seen : List PyText) :
    List TarInfo → Except ArchiveError StateTree
  | [] => if damaged then .error invalidArchive else .ok t
  | member :: members =>
      match extractMember t seen member with
      | .error e => .error e
      | .ok t => extractMembers damaged t (member.name :: seen) members

/-- `_safe_extract` to a directory that has just been made. -/
def safeExtract (archive : TarFile) : Except ArchiveError StateTree :=
  extractMembers archive.damaged [] [] archive.members

/-! The manifest. -/

def fileName (text : String) (h : isFileName (PyText.ofString text) = true) : FileName :=
  ⟨PyText.ofString text, h⟩

def manifestName : FileName := fileName "manifest.json" (by decide +kernel)

def stateDirectory : FileName := fileName "state" (by decide +kernel)

def configName : FileName := fileName "config.json" (by decide +kernel)

def journalName : FileName := fileName "journal.sqlite3" (by decide +kernel)

def artifactsName : FileName := fileName "artifacts" (by decide +kernel)

def stateFile : FilePath × StateNode → Option (FilePath × Bytes)
  | (p, .file content) => if stateDirectory ∈ p.head? then some (p, content) else none
  | (_, .directory) => none

def text (s : String) : RawJson := .str (PyText.ofString s)

def field (name : String) (value : RawJson) : PyText × RawJson := (PyText.ofString name, value)

section Manifest
variable (sha : Bytes → String)

/-- An entry for a file; the keys are written in their order. -/
def manifestFile (file : FilePath × Bytes) : RawJson :=
  .obj [field "path" (.str (posix file.1)),
    field "provenance" (.str (file.1.tail.head?.elim [] FileName.text)),
    field "sha256" (text (sha file.2)),
    field "size" (.int file.2.length)]

def isBefore (e f : FilePath × StateNode) : Prop := texts e.1 ≤ texts f.1

instance : DecidableRel isBefore := fun e f => inferInstanceAs (Decidable (texts e.1 ≤ texts f.1))

/-- The order of `sorted(rglob)`, in which a directory comes before what is in it. -/
def inOrder (t : StateTree) : StateTree := t.insertionSort isBefore

def manifestFiles (t : StateTree) : List RawJson :=
  ((inOrder t).filterMap stateFile).map (manifestFile sha)

def manifestOf (createdAt : String) (files : List RawJson) : RawJson :=
  .obj [field "created_at" (text createdAt),
    field "credentials_included" (.bool false),
    field "credentials_notice" (text ("API tokens and environment secrets are excluded; " ++
      "credentials must be re-established after import.")),
    field "files" (.arr files),
    field "format" (text "polaris-backup"),
    field "version" (.int 1)]

end Manifest

/-- What `json.dumps` with an indentation writes, and what the bytes of a file are read as. -/
structure ManifestText where
  dumps : RawJson → Bytes
  loads : Bytes → Option RawJson
  loads_dumps : ∀ createdAt sha t,
    loads (dumps (manifestOf createdAt (manifestFiles sha t))) =
      some (manifestOf createdAt (manifestFiles sha t))

section Verification
variable (py : PyBuiltins) (json : ManifestText) (sha : Bytes → String)

/-- `isinstance(value, int)` -/
def integerOf : RawJson → Option ℤ
  | .int n => some n
  | .bool b => some (if b then 1 else 0)
  | _ => none

/-- `value == 1` -/
def isOne : RawJson → Bool
  | .int n => n = 1
  | .bool b => b
  | .float x => py.floatIs x 1
  | _ => false

def isText (expected : String) : RawJson → Bool
  | .str t => t = PyText.ofString expected
  | _ => false

structure ListedFile where
  path : PyText
  digest : PyText
  size : ℤ

def listedFile : RawJson → Option ListedFile
  | .obj fields =>
      match RawJson.get "path" fields, RawJson.get "sha256" fields,
          integerOf (RawJson.get "size" fields) with
      | .str path, .str digest, some size => some ⟨path, digest, size⟩
      | _, _, _ => none
  | _ => none

/-- The regular file at these parts; a text that is no path leads to none. -/
def fileAt (t : StateTree) (ps : List PyText) : Option Bytes :=
  match (ofParts ps).bind fun p => t.lookup p with
  | some (.file content) => some content
  | _ => none

def unsafeEntry (path : PyText) : Bool :=
  isAbsolute path || parts path = [] || (parts path).head? ≠ some stateDirectory.text ||
    dotdot ∈ parts path

def matchesFile (f : ListedFile) (content : Bytes) : Bool :=
  (content.length : ℤ) = f.size && PyText.ofString (sha content) = f.digest

def verifyEntry (t : StateTree) (expected : List PyText) (item : RawJson) :
    Except ArchiveError PyText :=
  match listedFile item with
  | none => .error (.backupFormatError "backup manifest contains an invalid file entry" [])
  | some f =>
      if f.path ∈ expected then
        .error (.backupFormatError "backup manifest contains an invalid file entry" [])
      else if unsafeEntry f.path then
        .error (.backupFormatError "backup manifest contains an unsafe path" [])
      else if (fileAt t (parts f.path)).any (matchesFile sha f) then .ok f.path
      else .error (.backupFormatError "backup file failed verification: " f.path)

def verifyEntries (t : StateTree) (expected : List PyText) :
    List RawJson → Except ArchiveError (List PyText)
  | [] => .ok expected
  | item :: items =>
      match verifyEntry sha t expected item with
      | .error e => .error e
      | .ok path => verifyEntries t (path :: expected) items

def actualPaths (t : StateTree) : List PyText := (t.filterMap stateFile).map fun f => posix f.1

def requiredPaths : List PyText :=
  [posix [stateDirectory, configName], posix [stateDirectory, journalName]]

def sameSet (xs ys : List PyText) : Bool := xs.all (· ∈ ys) && ys.all (· ∈ xs)

/-- `manifest["files"]` of what the manifest's file is read as. -/
def readManifest (t : StateTree) : Except ArchiveError (List (PyText × RawJson) × RawJson) :=
  match (fileAt t [manifestName.text]).bind json.loads with
  | some (.obj manifest) =>
      match manifest.lookup (PyText.ofString "files") with
      | some files => .ok (manifest, files)
      | none => .error (.backupFormatError "backup manifest is invalid: " [])
  | _ => .error (.backupFormatError "backup manifest is invalid: " [])

def verifyManifest (t : StateTree) : Except ArchiveError (List RawJson) :=
  match readManifest json t with
  | .error e => .error e
  | .ok (manifest, files) =>
      match files with
      | .arr items =>
          if isText "polaris-backup" (RawJson.get "format" manifest) &&
              isOne py (RawJson.get "version" manifest) &&
              t.lookup [stateDirectory] = some .directory then
            match verifyEntries sha t [] items with
            | .error e => .error e
            | .ok expected =>
                if !sameSet (actualPaths t) expected then
                  .error (.backupFormatError "backup contents do not match the manifest" [])
                else if !requiredPaths.all (· ∈ expected) then
                  .error (.backupFormatError "backup is missing required state files" [])
                else .ok items
          else .error (.backupFormatError "backup manifest format is invalid" [])
      | _ => .error (.backupFormatError "backup manifest format is invalid" [])

end Verification

/-! The export. -/

inductive SourceType where
  | symlink
  | directory
  | file (content : Bytes)
  | other

def stageArtifact (secret : FilePath → Bool) (t : StateTree) (source : FilePath × SourceType) :
    Except ArchiveError StateTree :=
  let target := stateDirectory :: artifactsName :: source.1
  match source.2 with
  | .symlink => .error (.backupError "artifact symlinks are not supported: " (posix source.1))
  | kind =>
      if secret source.1 then .ok t
      else
        match kind with
        | .directory => (place t (target, .directory)).elim (.error .osError) .ok
        | .file content => (place t (target, .file content)).elim (.error .osError) .ok
        | _ => .error (.backupError "unsupported artifact type: " (posix source.1))

def stageArtifacts (secret : FilePath → Bool) (t : StateTree) :
    List (FilePath × SourceType) → Except ArchiveError StateTree
  | [] => .ok t
  | source :: sources =>
      match stageArtifact secret t source with
      | .error e => .error e
      | .ok t => stageArtifacts secret t sources

/-- The state directory before its artifacts. -/
def stagedCore (config snapshot : Bytes) : StateTree :=
  [([stateDirectory], .directory), ([stateDirectory, configName], .file config),
    ([stateDirectory, journalName], .file snapshot),
    ([stateDirectory, artifactsName], .directory)]

def stageState (secret : FilePath → Bool) (config snapshot : Bytes)
    (artifacts : List (FilePath × SourceType)) : Except ArchiveError StateTree :=
  stageArtifacts secret (stagedCore config snapshot) artifacts

def tarInfo : FilePath × StateNode → TarInfo
  | (p, .directory) => ⟨posix p, .directory, none⟩
  | (p, .file content) => ⟨posix p, .regular, some content⟩

def manifestMember (json : ManifestText) (sha : Bytes → String) (createdAt : String)
    (t : StateTree) : FilePath × StateNode :=
  ([manifestName], .file (json.dumps (manifestOf createdAt (manifestFiles sha t))))

def exportArchive (json : ManifestText) (sha : Bytes → String) (createdAt : String)
    (t : StateTree) : TarFile :=
  ⟨(manifestMember json sha createdAt t :: inOrder t).map tarInfo, false⟩

end Polaris.BackupArchive
