import Polaris.Library.Faults

namespace Polaris

abbrev Bytes := List UInt8

inductive Entry where
  | file (content : Bytes)
  | directory
  deriving DecidableEq

/-- What a directory holds, by the path under it. -/
abbrev Directory := List (String × Entry)

def Directory.file (d : Directory) (name : String) : Option Bytes :=
  match d.lookup name with
  | some (.file content) => some content
  | _ => none

inductive RestorePhase where
  | prepared
  | oldMoved
  | dataInstalled
  | configPrepared
  | configInstalled
  deriving DecidableEq

def RestorePhase.late : RestorePhase → Bool
  | .configPrepared | .configInstalled => true
  | _ => false

/-- The paths of a transaction are the places of the disk; the three of the external configuration
are there together or not at all. -/
structure RestoreTransaction where
  phase : RestorePhase
  targetExisted : Bool
  external : Bool
  configExisted : Bool
  deriving DecidableEq

inductive Tree where
  | target
  | old
  | replacement
  deriving DecidableEq

inductive ConfigFile where
  | config
  | oldConfig
  | stagedConfig
  deriving DecidableEq

/-- A marker text that is not a transaction is `some none`. -/
structure Disk where
  tree : Tree → Option Directory
  workspace : Bool
  marker : Option (Option RestoreTransaction)
  temporary : Option (Option RestoreTransaction)
  configDirectory : Bool
  file : ConfigFile → Option Bytes

namespace Disk

def setTree (d : Disk) (p : Tree) (x : Option Directory) : Disk :=
  { d with tree := fun q => if q = p then x else d.tree q }

def setFile (d : Disk) (p : ConfigFile) (x : Option Bytes) : Disk :=
  { d with file := fun q => if q = p then x else d.file q }

variable {d : Disk} {p q : Tree} {f g : ConfigFile} {x : Option Directory} {y : Option Bytes}

@[simp] theorem tree_setTree : (d.setTree p x).tree q = if q = p then x else d.tree q := rfl
@[simp] theorem file_setTree : (d.setTree p x).file = d.file := rfl
@[simp] theorem marker_setTree : (d.setTree p x).marker = d.marker := rfl
@[simp] theorem configDirectory_setTree : (d.setTree p x).configDirectory = d.configDirectory := rfl
@[simp] theorem workspace_setTree : (d.setTree p x).workspace = d.workspace := rfl
@[simp] theorem file_setFile : (d.setFile f y).file g = if g = f then y else d.file g := rfl
@[simp] theorem tree_setFile : (d.setFile f y).tree = d.tree := rfl
@[simp] theorem marker_setFile : (d.setFile f y).marker = d.marker := rfl
@[simp] theorem configDirectory_setFile : (d.setFile f y).configDirectory = d.configDirectory := rfl
@[simp] theorem workspace_setFile : (d.setFile f y).workspace = d.workspace := rfl

@[simp] theorem setFile_setFile {z : Option Bytes} :
    (d.setFile f y).setFile f z = d.setFile f z := by
  simp only [setFile, Disk.mk.injEq, true_and]
  funext q
  by_cases h : q = f <;> simp [h]

theorem setFile_self (h : d.file f = y) : d.setFile f y = d := by
  obtain ⟨tree, workspace, marker, temporary, configDirectory, file⟩ := d
  simp only [setFile, Disk.mk.injEq, true_and]
  funext q
  by_cases hq : q = f
  · rw [if_pos hq, hq]
    exact h.symm
  · rw [if_neg hq]

theorem setTree_self (h : d.tree p = x) : d.setTree p x = d := by
  obtain ⟨tree, workspace, marker, temporary, configDirectory, file⟩ := d
  simp only [setTree, Disk.mk.injEq, and_true]
  funext q
  by_cases hq : q = p
  · rw [if_pos hq, hq]
    exact h.symm
  · rw [if_neg hq]

end Disk

inductive BackupFailure where
  | osError (detail : String)
  | backupError (message : String)
  | existingStateError (message : String)
  deriving DecidableEq

inductive Source where
  | file (p : ConfigFile)
  | entry (p : Tree) (name : String)

inductive FsCall : Type → Type where
  | treeExists (p : Tree) : FsCall Bool
  | fileExists (p : ConfigFile) : FsCall Bool
  | workspaceExists : FsCall Bool
  | markerExists : FsCall Bool
  | configDirectoryExists : FsCall Bool
  | stat (p : Tree) : FsCall Bool
  | statFile (p : ConfigFile) : FsCall Bool
  | isDirectory (p : Tree) : FsCall Bool
  | isEmpty (p : Tree) : FsCall Bool
  | hasEntry (p : Tree) (name : String) : FsCall Bool
  | fsyncTree (p : Tree) : FsCall Unit
  | fsyncParent : FsCall Unit
  | fsyncConfigDirectory : FsCall Unit
  | renameTree (p q : Tree) : FsCall Unit
  | renameFile (p q : ConfigFile) : FsCall Unit
  | rmtree (p : Tree) : FsCall Unit
  | rmtreeWorkspace : FsCall Unit
  | mkdirConfigDirectory : FsCall Unit
  | unlink (p : ConfigFile) (missingOk : Bool) : FsCall Unit
  | read (p : Source) : FsCall Bytes
  | create (p : ConfigFile) : FsCall Unit
  | write (p : ConfigFile) (content : Bytes) : FsCall Unit
  | chmod (p : ConfigFile) : FsCall Unit
  | fsync (p : ConfigFile) : FsCall Unit
  | createTemporary : FsCall Unit
  | writeTemporary (t : RestoreTransaction) : FsCall Unit
  | fsyncTemporary : FsCall Unit
  | replaceMarker : FsCall Unit
  | chmodMarker : FsCall Unit
  | unlinkTemporary : FsCall Unit
  | readMarker : FsCall (Option RestoreTransaction)
  | unlinkMarker : FsCall Unit
  | mkdirWorkspace : FsCall Unit
  | stage (state : Directory) : FsCall Unit

namespace FsCall

def noEntry : BackupFailure := .osError "No such file or directory"

def fileThere : BackupFailure := .osError "File exists"

def notEmpty : BackupFailure := .osError "Directory not empty"

def need (there : Bool) (d d' : Disk) : Except BackupFailure Unit × Disk :=
  if there then (.ok (), d') else (.error noEntry, d)

def content (d : Disk) : Source → Option Bytes
  | .file p => d.file p
  | .entry p name => (d.tree p).bind (·.file name)

/-- Each temporary has a fresh name, so a call that creates one never finds an older one there. -/
def exec : {β : Type} → FsCall β → Disk → Except BackupFailure β × Disk
  | _, .treeExists p, d => (.ok (d.tree p).isSome, d)
  | _, .fileExists p, d => (.ok (d.file p).isSome, d)
  | _, .workspaceExists, d => (.ok d.workspace, d)
  | _, .markerExists, d => (.ok d.marker.isSome, d)
  | _, .configDirectoryExists, d => (.ok d.configDirectory, d)
  | _, .stat p, d => (.ok (d.tree p).isSome, d)
  | _, .statFile p, d => (.ok (d.file p).isSome, d)
  | _, .isDirectory p, d => (.ok (d.tree p).isSome, d)
  | _, .isEmpty p, d =>
      match d.tree p with
      | some entries => (.ok entries.isEmpty, d)
      | none => (.error noEntry, d)
  | _, .hasEntry p name, d => (.ok ((d.tree p).any fun x => (x.lookup name).isSome), d)
  | _, .fsyncTree p, d => need (d.tree p).isSome d d
  | _, .fsyncParent, d => (.ok (), d)
  | _, .fsyncConfigDirectory, d => need d.configDirectory d d
  | _, .renameTree p q, d =>
      match d.tree p, d.tree q with
      | none, _ => (.error noEntry, d)
      | some _, some (_ :: _) => (.error notEmpty, d)
      | some entries, _ => (.ok (), (d.setTree p none).setTree q (some entries))
  | _, .renameFile p q, d =>
      match d.file p with
      | none => (.error noEntry, d)
      | some bytes => (.ok (), (d.setFile p none).setFile q (some bytes))
  | _, .rmtree p, d => need (d.tree p).isSome d (d.setTree p none)
  | _, .rmtreeWorkspace, d =>
      need d.workspace d { d.setTree .replacement none with workspace := false }
  | _, .mkdirConfigDirectory, d => (.ok (), { d with configDirectory := true })
  | _, .unlink p missingOk, d => need (missingOk || (d.file p).isSome) d (d.setFile p none)
  | _, .read p, d =>
      match content d p with
      | some bytes => (.ok bytes, d)
      | none => (.error noEntry, d)
  | _, .create p, d =>
      if (d.file p).isSome then (.error fileThere, d)
      else need d.configDirectory d (d.setFile p (some []))
  | _, .write p bytes, d => (.ok (), d.setFile p (some bytes))
  | _, .chmod p, d => need (d.file p).isSome d d
  | _, .fsync p, d => need (d.file p).isSome d d
  | _, .createTemporary, d => (.ok (), { d with temporary := some none })
  | _, .writeTemporary t, d => (.ok (), { d with temporary := some (some t) })
  | _, .fsyncTemporary, d => need d.temporary.isSome d d
  | _, .replaceMarker, d =>
      match d.temporary with
      | some text => (.ok (), { d with marker := some text, temporary := none })
      | none => (.error noEntry, d)
  | _, .chmodMarker, d => need d.marker.isSome d d
  | _, .unlinkTemporary, d => (.ok (), { d with temporary := none })
  | _, .readMarker, d =>
      match d.marker with
      | some text => (.ok text, d)
      | none => (.error noEntry, d)
  | _, .unlinkMarker, d => need d.marker.isSome d { d with marker := none }
  | _, .mkdirWorkspace, d => (.ok (), { d with workspace := true })
  | _, .stage state, d => (.ok (), d.setTree .replacement (some state))

/-- A tree removal may stop after any of the entries, a write after any prefix; what else a call
changes, it changes at once. -/
def torn : {β : Type} → FsCall β → Disk → Disk → Prop
  | _, .rmtree p, d, d' =>
      ∃ entries rest, d.tree p = some entries ∧ rest.Sublist entries ∧ d' = d.setTree p (some rest)
  | _, .rmtreeWorkspace, d, d' =>
      d' = d.setTree .replacement none ∨ ∃ entries rest, d.tree .replacement = some entries ∧
        rest.Sublist entries ∧ d' = d.setTree .replacement (some rest)
  | _, .write p bytes, d, d' => ∃ n, d' = d.setFile p (some (bytes.take n))
  | _, .writeTemporary _, d, d' => d' = { d with temporary := some none }
  | _, .stage state, d, d' => ∃ rest, rest.Sublist state ∧ d' = d.setTree .replacement (some rest)
  | _, _, d, d' => d' = d

/-- An existence test answers no where the system refuses it, so it never fails. -/
def fallible : {β : Type} → FsCall β → Bool
  | _, .treeExists _ => false
  | _, .fileExists _ => false
  | _, .workspaceExists => false
  | _, .markerExists => false
  | _, .configDirectoryExists => false
  | _, _ => true

def fails {β : Type} (e : FsCall β) (d : Disk) (err : BackupFailure) (d' : Disk) : Prop :=
  e.fallible = true ∧ (∃ detail, err = .osError detail) ∧ torn e d d'

end FsCall

abbrev disk : Program.Device FsCall BackupFailure Disk := ⟨FsCall.exec, FsCall.torn, FsCall.fails⟩

abbrev Restore (α : Type) := Program FsCall BackupFailure α

end Polaris
