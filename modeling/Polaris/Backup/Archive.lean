import Polaris.Backup.Disk

namespace Polaris
namespace BackupManager
open Program FsCall

def requireDirectory (p : Tree) (description : String) : Restore Unit := do
  if ← perform (.isDirectory p) then pure ()
  else throw (.backupError (description ++ " is not a directory"))

def removeTree (p : Tree) : Restore Unit := do
  requireDirectory p "restore state"
  perform (.rmtree p)

def fsyncTree (p : Tree) : Restore Unit := do
  requireDirectory p "staged replacement"
  perform (.fsyncTree p)

def writePrivate (t : RestoreTransaction) : Restore Unit := do
  perform .createTemporary
  perform (.writeTemporary t)
  perform .fsyncTemporary

def persistRestoreTransaction (t : RestoreTransaction) : Restore Unit :=
  (do writePrivate t
      perform .replaceMarker
      perform .chmodMarker
      perform .fsyncParent : Restore Unit).andThen fun r => do
    perform .unlinkTemporary
    ofExcept r

def copyFileDurable (source : Source) (destination : ConfigFile) : Restore Unit :=
  (do let bytes ← perform (.read source)
      perform (.create destination)
      perform (.write destination bytes)
      perform (.chmod destination)
      perform (.fsync destination) : Restore Unit).andThen fun
    | .error (.osError detail) => do
        perform (.unlink destination true)
        throw (.osError detail)
    | r => ofExcept r

/-- What an interrupted body leaves its caller: the transaction in the phase that it had reached, and
the error if a step raised one. -/
structure Attempt where
  transaction : RestoreTransaction
  failure : Option String
  deriving DecidableEq

def trying (t : RestoreTransaction) (p : Restore Unit) (next : Restore Attempt) : Restore Attempt :=
  p.andThen fun
    | .ok () => next
    | .error (.osError detail) => pure ⟨t, some detail⟩
    | .error e => throw e

def saveConfig (t : RestoreTransaction) : Restore Unit := do
  if t.configExisted && !(← perform (.fileExists .oldConfig)) then
    copyFileDurable (.file .config) .oldConfig
    perform .fsyncConfigDirectory
  else pure ()

def stageConfig (t : RestoreTransaction) : Restore Unit := do
  perform .mkdirConfigDirectory
  saveConfig t
  perform (.unlink .stagedConfig true)
  copyFileDurable (.entry .target "config.json") .stagedConfig

def placeConfig : Restore Unit := do
  perform (.renameFile .stagedConfig .config)
  perform .fsyncConfigDirectory

def installExternalConfig (t : RestoreTransaction) : Restore Attempt :=
  trying t (stageConfig t) <|
  let t := { t with phase := .configPrepared }
  trying t (persistRestoreTransaction t) <|
  trying t placeConfig <|
  let t := { t with phase := .configInstalled }
  trying t (persistRestoreTransaction t) <|
  pure ⟨t, none⟩

def moveOld (t : RestoreTransaction) : Restore Unit := do
  if t.targetExisted then
    perform (.renameTree .target .old)
    perform .fsyncParent
  else pure ()

def moveReplacement : Restore Unit := do
  perform (.renameTree .replacement .target)
  perform .fsyncParent

def installState (t : RestoreTransaction) : Restore Attempt :=
  trying t (moveOld t) <|
  let t := { t with phase := .oldMoved }
  trying t (persistRestoreTransaction t) <|
  trying t moveReplacement <|
  let t := { t with phase := .dataInstalled }
  trying t (persistRestoreTransaction t) <|
  if t.external then installExternalConfig t else pure ⟨t, none⟩

def restoreConfigFile (t : RestoreTransaction) : Restore Unit := do
  if ← perform (.fileExists .oldConfig) then
    perform (.renameFile .oldConfig .config)
    perform .fsyncConfigDirectory
  else if (!t.configExisted && t.phase.late) && (← perform (.fileExists .config)) then
    perform (.unlink .config false)
    perform .fsyncConfigDirectory
  else pure ()

def restoreExternalConfig (t : RestoreTransaction) : Restore Unit :=
  if t.external then do
    restoreConfigFile t
    perform (.unlink .stagedConfig true)
  else pure ()

def removeOld : Restore Unit := do
  if ← perform (.treeExists .old) then
    removeTree .old
    perform .fsyncParent
  else pure ()

def removeReplacement : Restore Unit := do
  if ← perform (.treeExists .replacement) then removeTree .replacement else pure ()

def cleanupRestoreWorkspace : Restore Unit := do
  if ← perform .workspaceExists then perform .rmtreeWorkspace else pure ()

def removeConfigCopies (t : RestoreTransaction) : Restore Unit :=
  if t.external then do
    perform (.unlink .stagedConfig true)
    perform (.unlink .oldConfig true)
    if ← perform .configDirectoryExists then perform .fsyncConfigDirectory else pure ()
  else pure ()

def finalizeRestoreTransaction (t : RestoreTransaction) : Restore Unit := do
  requireDirectory .target "restore target"
  removeOld
  removeReplacement
  cleanupRestoreWorkspace
  removeConfigCopies t
  perform .unlinkMarker
  perform .fsyncParent

def renameOld : Restore Unit := do
  perform (.renameTree .old .target)
  perform .fsyncParent

def removeTarget : Restore Unit := do
  if ← perform (.treeExists .target) then
    removeTree .target
    perform .fsyncParent
  else pure ()

def restoreData : Restore Unit := do
  if ← perform (.treeExists .old) then
    removeTarget
    renameOld
  else if !(← perform (.treeExists .target)) && (← perform (.treeExists .replacement)) then
    moveReplacement
  else pure ()

def rollbackRestoreTransaction (t : RestoreTransaction) : Restore Unit := do
  restoreExternalConfig t
  restoreData
  if ← perform (.treeExists .target) then finalizeRestoreTransaction t else pure ()

def externalConfigExists (external : Bool) : Restore Bool :=
  if external then perform (.statFile .config) else pure false

/-- The part of `replaceState` before its `try`. -/
def beginRestore (external : Bool) : Restore RestoreTransaction := do
  let targetExisted ← perform (.stat .target)
  let configExisted ← externalConfigExists external
  let t : RestoreTransaction := ⟨.prepared, targetExisted, external, configExisted⟩
  fsyncTree .replacement
  persistRestoreTransaction t
  pure t

def reportedAs (message : String) (p : Restore Unit) : Restore Unit :=
  p.andThen fun
    | .error (.osError detail) => throw (.backupError (message ++ detail))
    | r => ofExcept r

def undoState (t : RestoreTransaction) (detail : String) : Restore Unit := do
  reportedAs "could not install imported state and rollback is incomplete: "
    (rollbackRestoreTransaction t)
  throw (.backupError ("could not atomically install imported state: " ++ detail))

def endRestore (a : Attempt) : Restore Unit :=
  match a.failure with
  | some detail => undoState a.transaction detail
  | none => reportedAs "imported state is durable but restore cleanup is incomplete: "
      (finalizeRestoreTransaction a.transaction)

def replaceState (external : Bool) : Restore Unit := do
  let t ← beginRestore external
  let a ← installState t
  endRestore a

def resumeInstall (t : RestoreTransaction) : Restore RestoreTransaction := do
  let a ← installExternalConfig t
  match a.failure with
  | some detail => throw (.osError detail)
  | none => pure a.transaction

def installReplacement (t : RestoreTransaction) : Restore RestoreTransaction := do
  requireDirectory .replacement "staged replacement"
  fsyncTree .replacement
  moveReplacement
  let t := { t with phase := .dataInstalled }
  persistRestoreTransaction t
  if t.external then resumeInstall t else pure t

def resumeRestore (t : RestoreTransaction) (targetExists oldExists replacementExists : Bool) :
    Restore RestoreTransaction :=
  if !targetExists && oldExists then do
    restoreExternalConfig t
    renameOld
    pure t
  else if targetExists then do
    requireDirectory .target "restore target"
    if t.phase ≠ .prepared ∧ t.external = true then resumeInstall t else pure t
  else if replacementExists then installReplacement t
  else throw (.backupError
    "interrupted restore has no target, previous state, or staged replacement")

def recoverTransaction (t : RestoreTransaction) : Restore Unit := do
  let targetExists ← perform (.treeExists .target)
  let oldExists ← perform (.treeExists .old)
  let replacementExists ← perform (.treeExists .replacement)
  reportedAs "could not recover interrupted restore: " do
    let t ← resumeRestore t targetExists oldExists replacementExists
    finalizeRestoreTransaction t

def readRestoreTransaction : Restore RestoreTransaction := do
  let text ← reportedAsMarker (perform .readMarker)
  match text with
  | some t => pure t
  | none => throw (.backupError "restore transaction marker is invalid")
where
  reportedAsMarker (p : Restore (Option RestoreTransaction)) : Restore (Option RestoreTransaction) :=
    p.andThen fun
      | .error (.osError detail) =>
          throw (.backupError ("restore transaction marker is invalid: " ++ detail))
      | r => ofExcept r

def recoverRestoreTransaction : Restore Unit := do
  if ← perform .markerExists then
    let t ← readRestoreTransaction
    recoverTransaction t
  else pure ()

def hasExistingState (external : Bool) : Restore Bool := do
  recoverRestoreTransaction
  if ← configFileExists then pure true
  else if ← perform (.stat .target) then do
    let empty ← perform (.isEmpty .target)
    pure !empty
  else pure false
where
  configFileExists : Restore Bool :=
    if external then perform (.statFile .config)
    else perform (.hasEntry .target "config.json")

/-- What an archive decrypts, verifies and rewrites to: a state directory with its configuration. -/
structure Archive where
  state : Directory
  config : Bytes
  rewritten : state.file "config.json" = some config

/-- The part of `importArchive` before `replaceState`. -/
def stageArchive (external force : Bool) (archive : Archive) : Restore Unit := do
  if (← hasExistingState external) && !force then
    throw (.existingStateError "local state already exists; use --force to replace it")
  else pure ()
  perform .mkdirWorkspace
  perform (.stage archive.state)

def removeWorkspace : Restore Unit := do
  if ← perform .markerExists then pure ()
  else if ← perform .workspaceExists then perform .rmtreeWorkspace else pure ()

/-- The workspace is removed without regard to errors. -/
def closeImport (r : Except BackupFailure Unit) : Restore Unit :=
  removeWorkspace.andThen fun _ => ofExcept r

def importArchive (external force : Bool) (archive : Archive) : Restore Unit := do
  stageArchive external force archive
  (replaceState external).andThen closeImport

end BackupManager
end Polaris
