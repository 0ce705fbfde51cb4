import Mathlib.Data.List.Dedup
import Polaris.Library.Asking
import Polaris.Library.LinkedCalls
import Polaris.Library.PosixPath
import Polaris.Tools.HttpFetch

namespace Polaris.Filesystem
open PyJson PosixPath LinkedTree

abbrev Content := List UInt8

abbrev FileTree := LinkedTree.Tree FileName Content

structure Files where
  tree : FileTree
  wellFormed : tree.WellFormed

/-- The parts of an absolute path; no file has a name that is none. -/
abbrev TextPath := List PyText

inductive ToolError where
  | filesystemToolError (message : String)
  | pathAccessError (message : String)
  | fileConflictError (message : String)
  | fileNotFoundError
  | osError
  | unicodeError
  | valueError (message : String)
  | runtimeError
deriving DecidableEq

def ToolError.isOSError : ToolError → Bool
  | .fileNotFoundError | .osError => true
  | _ => false

/-! The calls of `pathlib`, `os` and `tempfile`. -/

inductive FsCall : Type → Type where
  | isSymlink (path : TextPath) : FsCall Bool
  | pathExists (path : TextPath) : FsCall Bool
  | isFile (path : TextPath) : FsCall Bool
  | isDir (path : TextPath) : FsCall Bool
  | resolve (path : TextPath) : FsCall FilePath
  | size (path : TextPath) : FsCall ℕ
  | readBytes (path : TextPath) : FsCall Content
  | iterdir (path : TextPath) : FsCall (List FileName)
  | mkdirParents (path : TextPath) : FsCall Unit
  | createTemporary (directory : TextPath) : FsCall TextPath
  | writeTemporary (path : TextPath) (content : Content) : FsCall Unit
  | flushTemporary (path : TextPath) : FsCall Unit
  | fsyncTemporary (path : TextPath) : FsCall Unit
  | closeTemporary (path : TextPath) : FsCall Unit
  | replace (source target : TextPath) : FsCall Unit
  | openDirectory (path : TextPath) : FsCall Unit
  | fsyncDirectory (path : TextPath) : FsCall Unit
  | closeDirectory (path : TextPath) : FsCall Unit
  | unlink (path : TextPath) : FsCall Unit

/-- The calls that `_atomic_write` makes after the replacement. -/
def FsCall.syncsDirectory {β : Type} : FsCall β → Bool
  | .openDirectory _ | .fsyncDirectory _ | .closeDirectory _ => true
  | _ => false

/-- `tempfile` goes on until it has a name that is free. -/
structure TemporaryNames where
  name : FileTree → FilePath → FileName
  free : ∀ (t : FileTree) (q : FilePath), t.node (q ++ [name t q]) = none

section Kernel

def linkLimit : ℕ := 40

def lookUp (t : FileTree) (path : TextPath) : Option (Node FileName Content) :=
  (ofParts path).bind (stat t linkLimit)

def lookUpLink (t : FileTree) (path : TextPath) : Option (Node FileName Content) :=
  (ofParts path).bind (lstat t linkLimit)

def placeOf (t : FileTree) (path : TextPath) : Option FilePath :=
  (ofParts path).bind (place t linkLimit)

def isFileNode : Node FileName Content → Bool
  | .file _ => true
  | _ => false

def isDirectoryNode : Node FileName Content → Bool
  | .directory => true
  | _ => false

def resolveStep (t : FileTree) (path : TextPath) : Except ToolError FilePath :=
  match ofParts path with
  | none => .error .unicodeError
  | some q =>
      match realPath t t.entries.length [] (down q) with
      | none => .error .osError
      | some resolved => .ok resolved

def sizeStep (t : FileTree) (path : TextPath) : Except ToolError ℕ :=
  match lookUp t path with
  | some (.file content) => .ok content.length
  | some _ => .ok 0
  | none => .error .osError

def readStep (t : FileTree) (path : TextPath) : Except ToolError Content :=
  match lookUp t path with
  | some (.file content) => .ok content
  | _ => .error .osError

def iterdirStep (t : FileTree) (path : TextPath) : Except ToolError (List FileName) :=
  match (ofParts path).bind (follow t linkLimit) with
  | none => .error .osError
  | some q => if t.isDirectory q then .ok (t.children q) else .error .osError

def mkdirStep (t : FileTree) (path : TextPath) : Except ToolError Unit × FileTree :=
  match ofParts path with
  | none => (.error .unicodeError, t)
  | some q =>
      match makeDirectories linkLimit t [] q with
      | (made, true) => (.ok (), made)
      | (made, false) => (.error .osError, made)

def createStep (names : TemporaryNames) (t : FileTree) (directory : TextPath) :
    Except ToolError TextPath × FileTree :=
  match (ofParts directory).bind (follow t linkLimit) with
  | none => (.error .osError, t)
  | some q =>
      if t.isDirectory q then
        (.ok (directory ++ [(names.name t q).text]), t.set (q ++ [names.name t q]) (.file []))
      else (.error .osError, t)

def writeStep (t : FileTree) (path : TextPath) (content : Content) :
    Except ToolError Unit × FileTree :=
  match placeOf t path with
  | none => (.error .osError, t)
  | some q => (.ok (), t.set q (.file content))

def replaceStep (t : FileTree) (source target : TextPath) : Except ToolError Unit × FileTree :=
  if ofParts target = none then (.error .unicodeError, t)
  else
    match placeOf t source, placeOf t target with
    | some s, some d =>
        if s = d then (.ok (), t)
        else
          match t.node s, t.node d with
          | none, _ | some .directory, _ | _, some .directory => (.error .osError, t)
          | some n, _ => (.ok (), (t.set d n).erase s)
    | _, _ => (.error .osError, t)

def openStep (t : FileTree) (path : TextPath) : Except ToolError Unit :=
  if (lookUp t path).isSome then .ok () else .error .osError

def unlinkStep (t : FileTree) (path : TextPath) : Except ToolError Unit × FileTree :=
  match placeOf t path with
  | none => (.error .fileNotFoundError, t)
  | some q =>
      match t.node q with
      | none => (.error .fileNotFoundError, t)
      | some .directory => (.error .osError, t)
      | some _ => (.ok (), t.erase q)

def callStep (names : TemporaryNames) {β : Type} :
    FsCall β → FileTree → Except ToolError β × FileTree
  | .isSymlink path, t => (.ok ((lookUpLink t path).any Node.isLink), t)
  | .pathExists path, t => (.ok (lookUp t path).isSome, t)
  | .isFile path, t => (.ok ((lookUp t path).any isFileNode), t)
  | .isDir path, t => (.ok ((lookUp t path).any isDirectoryNode), t)
  | .resolve path, t => (resolveStep t path, t)
  | .size path, t => (sizeStep t path, t)
  | .readBytes path, t => (readStep t path, t)
  | .iterdir path, t => (iterdirStep t path, t)
  | .mkdirParents path, t => mkdirStep t path
  | .createTemporary directory, t => createStep names t directory
  | .writeTemporary path content, t => writeStep t path content
  | .flushTemporary _, t => (.ok (), t)
  | .fsyncTemporary _, t => (.ok (), t)
  | .closeTemporary _, t => (.ok (), t)
  | .replace source target, t => replaceStep t source target
  | .openDirectory path, t => (openStep t path, t)
  | .fsyncDirectory _, t => (.ok (), t)
  | .closeDirectory _, t => (.ok (), t)
  | .unlink path, t => unlinkStep t path

/-- What a call that does not end may have done: some of the directories, or some of the bytes. -/
def Partly {β : Type} : FsCall β → FileTree → FileTree → Prop
  | .mkdirParents path, t, t' =>
      ∃ q k, ofParts path = some q ∧ t' = (makeDirectories linkLimit t [] (q.take k)).1
  | .writeTemporary path _, t, t' | .flushTemporary path, t, t' =>
      ∃ q content, placeOf t path = some q ∧ t' = t.set q (.file content)
  | _, _, _ => False

/-- The calls after the replacement fail, or those before it. -/
def disk (names : TemporaryNames) (late : Bool) : Program.Device FsCall ToolError FileTree where
  step := callStep names
  torn e t t' := t' = t ∨ t' = (callStep names e t).2 ∨ Partly e t t'
  fails e t err t' :=
    e.syncsDirectory = late ∧ err.isOSError = true ∧ (t' = t ∨ Partly e t t')

end Kernel

/-! What Python computes without the file system. -/

/-- `os.path.expanduser` of one part, SHA-256 and strict Base64 decoding. -/
structure Python where
  expanduser : PyText → PyText
  hexdigest : Content → String
  b64decode : PyText → Option Content

inductive ArgValue where
  | str (text : PyText)
  | null
  | other
deriving DecidableEq

structure ToolArguments where
  path : Option ArgValue
  content : Option ArgValue
  contentBase64 : Option ArgValue
  expectedPreviousHash : Option ArgValue
  expectedSha256 : Option ArgValue
  encoding : Option ArgValue

structure PurePath where
  slashes : ℕ
  tail : List PyText

/-- A path that begins with exactly two slashes has a root of its own. -/
def purePath (text : PyText) : PurePath :=
  let leading := (text.takeWhile (· = slash)).length
  ⟨if 2 < leading then 1 else leading, parts text⟩

def isHome (part : PyText) : Bool := part.head? = some (CodePoint.ofChar '~')

def expandUser (python : Python) (path : PurePath) : Except ToolError PurePath :=
  match path.slashes, path.tail with
  | 0, first :: rest =>
      if isHome first then
        if isHome (python.expanduser first) then .error .runtimeError
        else
          let home := purePath (python.expanduser first)
          .ok ⟨home.slashes, home.tail ++ rest⟩
      else .ok path
  | _, _ => .ok path

/-- `os.path.abspath` of the parts of an absolute path -/
def normalise (done : TextPath) : List PyText → TextPath
  | [] => done
  | part :: rest =>
      if part = dotdot then normalise done.dropLast rest else normalise (done ++ [part]) rest

structure FilesystemTools where
  roots : List FilePath
  maxReadBytes : ℕ
  maxListEntries : ℕ
  roots_ne_nil : roots ≠ []
  maxReadBytes_pos : 0 < maxReadBytes
  maxListEntries_pos : 0 < maxListEntries

/-- `str(path)` -/
def pathText (path : TextPath) : PyText := slash :: [slash].intercalate path

def inside (path : TextPath) (root : FilePath) : Bool := (texts root).isPrefixOf path

section Roots

def stepOf (part : PyText) : Option (Step FileName) :=
  if part = dotdot then some .up
  else if h : isFileName part then some (.down ⟨part, h⟩) else none

def resolveRoot (python : Python) (t : FileTree) (cwd : FilePath) (root : PyText) :
    Except ToolError FilePath := do
  let path ← expandUser python (purePath root)
  match path.tail.mapM stepOf with
  | none => .error .unicodeError
  | some steps =>
      match realPath t t.entries.length (if path.slashes = 0 then cwd else []) steps with
      | none => .error .osError
      | some resolved =>
          if t.isDirectory resolved then .ok resolved
          else .error (.valueError "filesystem roots must be directories")

def validatedRoots (python : Python) (t : FileTree) (cwd : FilePath) (roots : List PyText) :
    Except ToolError (List FilePath) := do
  let result ← roots.mapM (resolveRoot python t cwd)
  if result = [] then .error (.valueError "at least one filesystem root is required")
  else .ok result.eraseDups

def filesystemTools (python : Python) (t : FileTree) (cwd : FilePath) (roots : List PyText)
    (maxReadBytes maxListEntries : ℤ) : Except ToolError FilesystemTools := do
  let roots ← validatedRoots python t cwd roots
  if h : roots ≠ [] ∧ 0 < maxReadBytes ∧ 0 < maxListEntries then
    .ok ⟨roots, maxReadBytes.toNat, maxListEntries.toNat, h.1, by omega, by omega⟩
  else .error (.valueError "filesystem limits must be positive")

end Roots

section Arguments
variable (python : Python)

def pathValue (arguments : ToolArguments) : Except ToolError PyText :=
  match arguments.path with
  | some (.str value) =>
      if value = [] ∨ value.any (fun c => c.val = 0) then
        .error (.pathAccessError "path must be a non-empty string without NUL")
      else .ok value
  | _ => .error (.pathAccessError "path must be a non-empty string without NUL")

def content (arguments : ToolArguments) : Except ToolError Content :=
  match arguments.content, arguments.contentBase64 with
  | none, none | some _, some _ =>
      .error (.filesystemToolError "provide exactly one of content or content_base64")
  | some (.str text), none => text.encode.elim (.error .unicodeError) fun s => .ok s.toUTF8.toList
  | some _, none => .error (.filesystemToolError "content must be a string")
  | none, some (.str encoded) =>
      (python.b64decode encoded).elim
        (.error (.filesystemToolError "content_base64 is invalid")) .ok
  | none, some _ => .error (.filesystemToolError "content_base64 must be a string")

def isHexDigit (c : Char) : Bool := c ∈ "0123456789abcdefABCDEF".toList

def hashValue : ArgValue → Except ToolError (Option String)
  | .null => .ok none
  | .str text =>
      match text.encode with
      | some value =>
          if value.length = 64 ∧ value.toList.all isHexDigit then .ok (some value.toLower)
          else .error (.filesystemToolError "expected previous hash must be SHA-256 or null")
      | none => .error (.filesystemToolError "expected previous hash must be SHA-256 or null")
  | .other => .error (.filesystemToolError "expected previous hash must be SHA-256 or null")

/-- The outer `none`: no expectation was supplied; the inner: that there is no file. -/
def expectedHash (arguments : ToolArguments) : Except ToolError (Option (Option String)) :=
  match arguments.expectedPreviousHash, arguments.expectedSha256 with
  | some _, some _ => .error (.filesystemToolError "provide only one expected previous hash")
  | none, none => .ok none
  | some value, none | none, some value => (hashValue value).map some

structure Receipt where
  path : PyText
  sha256 : String
  size : ℕ
deriving DecidableEq

def receipt (path : TextPath) (data : Content) : Receipt :=
  ⟨pathText path, python.hexdigest data, data.length⟩

end Arguments

section Paths
variable (tools : FilesystemTools) (python : Python)

/-- Below `//` there is no root. -/
def candidates (path : PurePath) : List TextPath :=
  match path.slashes with
  | 0 => tools.roots.map fun root => texts root ++ path.tail
  | 1 => [path.tail]
  | _ => []

def lexicalPath (value : PyText) : Except ToolError (TextPath × FilePath) := do
  let candidate ← expandUser python (purePath value)
  let found := (candidates tools candidate).findSome? fun item =>
    (tools.roots.find? (inside (normalise [] item))).map fun root => (normalise [] item, root)
  found.elim (.error (.pathAccessError "path escapes configured roots")) .ok

end Paths

/-! The tools. -/

abbrev Op (α : Type) := Program FsCall ToolError α

def ask {β : Type} (e : FsCall β) : Op β := Program.perform e

/-- `except OSError as exc: raise error from exc` -/
def raising {α : Type} (error : ToolError) (p : Op α) : Op α :=
  p.mapError fun err => if err.isOSError then error else err

section Resolving
variable (tools : FilesystemTools) (python : Python)

def existingPath (value : PyText) : Op FilePath := do
  let found ← Program.ofExcept (lexicalPath tools python value)
  let resolved ← raising (.pathAccessError "path does not exist") (ask (.resolve found.1))
  if inside (texts resolved) found.2 then return resolved
  else Program.throw (.pathAccessError "path escapes configured roots through a symlink")

/-- The first ancestor that exists, of a path whose parts are given from its end; the root of the
file system always does. -/
def probeUp (root : FilePath) : List PyText → Op TextPath
  | [] => do
      let _ ← ask (.pathExists [])
      return []
  | name :: above => do
      let present ← ask (.pathExists (name :: above).reverse)
      if present then return (name :: above).reverse
      else
        let broken ← ask (.isSymlink (name :: above).reverse)
        if broken then
          Program.throw (.pathAccessError "write path contains a broken symlink")
        else if (name :: above).reverse = texts root then return (name :: above).reverse
        else probeUp root above

def checkProbe (candidate : TextPath) (root : FilePath) : Op Unit := do
  let linked ← ask (.isSymlink candidate)
  if linked then Program.throw (.pathAccessError "write target may not be a symlink")
  else
    let probe ← probeUp root candidate.dropLast.reverse
    let resolved ←
      raising (.pathAccessError "write parent cannot be resolved") (ask (.resolve probe))
    if inside (texts resolved) root then return ()
    else Program.throw (.pathAccessError "write path escapes configured roots through a symlink")

def checkTarget (target : TextPath) (root : FilePath) : Op FilePath := do
  let checked ←
    raising (.pathAccessError "write target cannot be resolved") (ask (.resolve target))
  if inside (texts checked) root then
    let present ← ask (.isFile (texts checked))
    if present then return checked
    else Program.throw (.pathAccessError "write target is not a root-scoped file")
  else Program.throw (.pathAccessError "write target is not a root-scoped file")

def existingTarget (candidate : TextPath) (root : FilePath) : Op TextPath := do
  let present ← ask (.pathExists candidate)
  if present then
    let resolved ← checkTarget candidate root
    return texts resolved
  else return candidate

def makeParent (candidate : TextPath) : Op FilePath :=
  raising (.filesystemToolError "write parent could not be created") do
    ask (.mkdirParents candidate.dropLast)
    ask (.resolve candidate.dropLast)

def checkedIn (parent : FilePath) (candidate : TextPath) (root : FilePath) : Op TextPath :=
  if inside (texts parent) root then do
    let target := texts parent ++ candidate.getLast?.toList
    let linked ← ask (.isSymlink target)
    if linked then Program.throw (.pathAccessError "write target may not be a symlink")
    else
      let present ← ask (.pathExists target)
      if present then
        let _ ← checkTarget target root
        return target
      else return target
  else Program.throw (.pathAccessError "write path escapes configured roots through a symlink")

def preparedTarget (candidate : TextPath) (root : FilePath) : Op TextPath := do
  let parent ← makeParent candidate
  checkedIn parent candidate root

def writePath (value : PyText) (createParent : Bool) : Op TextPath := do
  let found ← Program.ofExcept (lexicalPath tools python value)
  checkProbe found.1 found.2
  if createParent then preparedTarget found.1 found.2 else existingTarget found.1 found.2

end Resolving

section Reading
variable (tools : FilesystemTools) (python : Python)

def readBytes (path : TextPath) (maximum : ℕ) : Op Content := do
  let data ← raising (.filesystemToolError "file could not be read") do
    let size ← ask (.size path)
    if maximum < size then
      Program.throw (.filesystemToolError "file exceeds the configured read limit")
    else ask (.readBytes path)
  if maximum < data.length then
    Program.throw (.filesystemToolError "file exceeds the configured read limit")
  else return data

structure ReadResult where
  path : PyText
  content : PyText
  encoding : String
  sha256 : String
  size : ℕ
deriving DecidableEq

def decoded (data : Content) (encoding : ArgValue) : Except ToolError (PyText × String) :=
  if encoding = .str (PyText.ofString "utf-8") then
    match String.fromUTF8? ⟨data.toArray⟩ with
    | some text => .ok (PyText.ofString text, "utf-8")
    | none =>
        .error (.filesystemToolError "file is not valid UTF-8; request base64 encoding")
  else if encoding = .str (PyText.ofString "base64") then
    .ok (PyText.ofString (String.ofList (HTTPFetch.b64encode data)), "base64")
  else .error (.filesystemToolError "encoding must be utf-8 or base64")

def readFile (arguments : ToolArguments) : Op ReadResult := do
  let value ← Program.ofExcept (pathValue arguments)
  let path ← existingPath tools python value
  let present ← ask (.isFile (texts path))
  if present then
    let data ← readBytes (texts path) tools.maxReadBytes
    let shown ← Program.ofExcept
      (decoded data (arguments.encoding.getD (.str (PyText.ofString "utf-8"))))
    return ⟨pathText (texts path), shown.1, shown.2, python.hexdigest data, data.length⟩
  else Program.throw (.pathAccessError "path is not a file")

inductive EntryType where
  | symlink
  | file (size : ℕ) (sha256 : String)
  | directory
  | other
deriving DecidableEq

structure ListedEntry where
  name : PyText
  path : PyText
  type : EntryType
deriving DecidableEq

def entryType (child : TextPath) : Op EntryType := do
  let linked ← ask (.isSymlink child)
  if linked then return .symlink
  else
    let isFile ← ask (.isFile child)
    if isFile then
      let data ← readBytes child tools.maxReadBytes
      return .file data.length (python.hexdigest data)
    else
      let isDirectory ← ask (.isDir child)
      return if isDirectory then .directory else .other

def listEntries (path : FilePath) : List FileName → Op (List ListedEntry)
  | [] => return []
  | name :: names => do
      let type ← entryType tools python (texts (path ++ [name]))
      let rest ← listEntries path names
      return ⟨name.text, pathText (texts (path ++ [name])), type⟩ :: rest

structure ListResult where
  path : PyText
  entries : List ListedEntry
  count : ℕ
deriving DecidableEq

def listDirectory (arguments : ToolArguments) : Op ListResult := do
  let value ← Program.ofExcept (pathValue arguments)
  let path ← existingPath tools python value
  let present ← ask (.isDir (texts path))
  if present then
    let children ← raising (.filesystemToolError "directory could not be listed")
      (ask (.iterdir (texts path)))
    if tools.maxListEntries < children.length then
      Program.throw (.filesystemToolError "directory exceeds the configured entry limit")
    else
      let sorted := children.mergeSort fun a b => decide (a.text ≤ b.text)
      let entries ← listEntries tools python path sorted
      return ⟨pathText (texts path), entries, entries.length⟩
  else Program.throw (.pathAccessError "path is not a directory")

end Reading

section Writing
variable (tools : FilesystemTools) (python : Python)

/-- The hash and the size of what is there. -/
def current (path : TextPath) : Op (Option (String × ℕ)) := do
  let present ← ask (.pathExists path)
  if present then
    let data ← raising (.filesystemToolError "current file could not be read")
      (ask (.readBytes path))
    return some (python.hexdigest data, data.length)
  else return none

def writeDraft (temporary : TextPath) (data : Content) : Op Unit :=
  Program.thenAlways
    (do
      ask (.writeTemporary temporary data)
      ask (.flushTemporary temporary)
      ask (.fsyncTemporary temporary))
    (ask (.closeTemporary temporary))

def placeDraft (temporary path : TextPath) (data : Content) : Op Unit := do
  writeDraft temporary data
  let linked ← ask (.isSymlink path)
  if linked then Program.throw (.pathAccessError "write target became a symlink")
  else ask (.replace temporary path)

/-- `with contextlib.suppress(FileNotFoundError)` -/
def discard (temporary : TextPath) : Op Unit :=
  (ask (.unlink temporary)).andThen fun
    | .error .fileNotFoundError => .done (.ok ())
    | r => .done r

def syncDirectory (directory : TextPath) : Op Unit := do
  ask (.openDirectory directory)
  Program.thenAlways (ask (.fsyncDirectory directory)) (ask (.closeDirectory directory))

def atomicWriteError (err : ToolError) : ToolError :=
  if err.isOSError then .filesystemToolError "atomic write failed" else err

def atomicWrite (path : TextPath) (data : Content) : Op Unit :=
  (ask (.createTemporary path.dropLast)).andThen fun
    | .error err => .done (.error (atomicWriteError err))
    | .ok temporary =>
        (placeDraft temporary path data).andThen fun
          | .error err =>
              (discard temporary).andThen fun r =>
                .done (r.bind fun _ => .error (atomicWriteError err))
          | .ok () => (syncDirectory path.dropLast).mapError atomicWriteError

structure WriteResult where
  receipt : Receipt
  written : Bool
  found : Bool
  previous : Option (Option String × Option ℕ)
deriving DecidableEq

def writeOver (value : PyText) (data : Content) (present : Option (String × ℕ)) :
    Op WriteResult := do
  let path ← writePath tools python value true
  let checked ← current python path
  if checked.map Prod.fst = some (python.hexdigest data) then
    return ⟨receipt python path data, false, true, none⟩
  else if checked.map Prod.fst ≠ present.map Prod.fst then
    Program.throw (.fileConflictError "current file changed while preparing the atomic write")
  else
    atomicWrite path data
    return ⟨receipt python path data, true, present.isSome,
      some (present.map Prod.fst, checked.map Prod.snd)⟩

def writeFile (arguments : ToolArguments) : Op WriteResult := do
  let value ← Program.ofExcept (pathValue arguments)
  let path ← writePath tools python value false
  let data ← Program.ofExcept (content python arguments)
  let present ← current python path
  if present.map Prod.fst = some (python.hexdigest data) then
    return ⟨receipt python path data, false, true, none⟩
  else
    let expected ← Program.ofExcept (expectedHash arguments)
    if expected.any (· ≠ present.map Prod.fst) then
      Program.throw
        (.fileConflictError "current file hash does not match expected previous hash")
    else writeOver tools python value data present

structure ReconcileResult where
  found : Bool
  path : PyText
  desiredSha256 : String
  current : Option (String × ℕ)
  receipt : Option Receipt
deriving DecidableEq

def reconcileWrite (arguments : ToolArguments) : Op ReconcileResult := do
  let value ← Program.ofExcept (pathValue arguments)
  let path ← writePath tools python value false
  let desired ← Program.ofExcept (content python arguments)
  let present ← current python path
  let found := decide (present.map Prod.fst = some (python.hexdigest desired))
  return ⟨found, pathText path, python.hexdigest desired, present,
    if found then some (receipt python path desired) else none⟩

end Writing

end Polaris.Filesystem
