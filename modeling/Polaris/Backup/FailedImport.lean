import Polaris.Backup.Rollback

namespace Polaris
namespace BackupManager
open Program FsCall

section
variable {s : Before} {archive : Archive} {force b : Bool} {t : RestoreTransaction} {d d' : Disk}

/-- No restore is going on. -/
structure AtRest (s : Before) (d : Disk) : Prop where
  target : d.tree .target = s.data
  old : d.tree .old = none
  marker : d.marker = none
  untouched : Untouched s d

structure Staged (s : Before) (state : Directory) (d : Disk) : Prop extends AtRest s d where
  replacement : d.tree .replacement = some state

theorem Staged.interrupted {state : Directory} (h : Staged s state d) : Interrupted s state d :=
  .inl h.marker

theorem hasExistingState_complete (h : d.marker = none) :
    ∃ r, (hasExistingState s.external).complete disk d = (.ok r, d) := by
  have hrecover : recoverRestoreTransaction.complete disk d = (.ok (), d) := by
    refine (complete_bind_ok (a := false) (v := d) ?_).trans rfl
    simp [complete, perform, exec, h]
  have hconfig : ∃ r, (hasExistingState.configFileExists s.external).complete disk d =
      (.ok r, d) := by
    rw [hasExistingState.configFileExists]
    split <;> exact ⟨_, rfl⟩
  obtain ⟨r, hr⟩ := hconfig
  rw [hasExistingState, complete_bind_ok hrecover, complete_bind_ok hr]
  cases r with
  | true => exact ⟨true, rfl⟩
  | false =>
      rw [if_neg (by simp)]
      rw [complete_bind_ok (a := (d.tree .target).isSome) (v := d) rfl]
      cases htarget : d.tree .target with
      | none => exact ⟨false, rfl⟩
      | some entries =>
          rw [if_pos (by simp), complete_bind_ok (a := entries.isEmpty) (v := d)]
          · exact ⟨_, rfl⟩
          · simp [complete, perform, exec, htarget]

theorem stageArchive_staged (h : AtRest s d)
    (hstage : (stageArchive s.external force archive).complete disk d = (.ok (), d')) :
    Staged s archive.state d' := by
  obtain ⟨r, hr⟩ := hasExistingState_complete (s := s) h.marker
  rw [stageArchive, complete_bind_ok hr] at hstage
  cases hcase : r && !force with
  | true =>
      rw [if_pos (by exact hcase)] at hstage
      cases congrArg Prod.fst hstage
  | false =>
      rw [if_neg (by simp [hcase])] at hstage
      obtain rfl : (({ d with workspace := true } : Disk).setTree .replacement
          (some archive.state)) = d' := congrArg Prod.snd hstage
      exact ⟨⟨by simp [h.target], by simp [h.old], h.marker, h.untouched⟩, by simp⟩

theorem externalConfigExists_keeps {state : Directory} {F : BackupFailure → Disk → Prop}
    (h : Staged s state d) (hF : b = true → ∀ detail, F (.osError detail) d) :
    (externalConfigExists s.external).Keeps disk (Interrupted s state) b
      (Ends b (fun r d' => d' = d ∧ (s.external = true → r = s.config.isSome)) F) d := by
  cases hexternal : s.external with
  | false => exact keeps_pure ⟨rfl, by simp⟩
  | true =>
      refine atomic rfl ⟨rfl, fun _ => ?_⟩ h.interrupted h.interrupted (fun _ h' => h')
        fun hb _ => hF hb
      rw [(h.untouched hexternal).1]

theorem beginRestore_keeps {state : Directory} (h : Staged s state d) :
    (beginRestore s.external).Keeps disk (Interrupted s state) b
      (Ends b (fun t d' => Early s state t d' ∧ Waiting s state d') (Failed b fun _ => True)) d := by
  refine atomic_bind rfl h.interrupted h.interrupted (fun _ h' => h') (failed trivial) ?_
  refine Keeps.bind (externalConfigExists_keeps h fun hb detail => ⟨hb, ⟨detail, rfl⟩, trivial⟩) ?_
  rintro r x ⟨hx, hr⟩
  subst hx
  have ht : Describes s ⟨.prepared, (x.tree .target).isSome, s.external, r⟩ :=
    ⟨rfl, congrArg Option.isSome h.target, hr⟩
  have hwaiting : Waiting s state x := ⟨h.target, h.old, h.replacement⟩
  have hearly : ∀ y, Marked ⟨.prepared, (x.tree .target).isSome, s.external, r⟩ x y →
      Early s state ⟨.prepared, (x.tree .target).isSome, s.external, r⟩ y ∧ Waiting s state y := by
    rintro _ ⟨y, rfl⟩
    exact ⟨⟨ht, ⟨_, rfl, ht⟩, .inl hwaiting, h.untouched⟩, hwaiting⟩
  refine Keeps.bind (A := fun _ y => y = x) ?_ ?_
  · refine Keeps.bind (A := fun _ y => y = x) ?_ ?_
    · refine atomic_bind (a := true) ?_ h.interrupted h.interrupted (fun _ h' => h')
        (failed trivial) (keeps_pure rfl)
      simp [exec, h.replacement]
    · rintro _ y hy
      subst hy
      refine atomic (a := ()) ?_ rfl h.interrupted h.interrupted (fun _ h' => h') (failed trivial)
      simp [exec, need, h.replacement]
  rintro _ y hy
  subst hy
  refine Keeps.bind ((persistRestoreTransaction_keeps ?_ fun z hz => (hearly z hz).1.midway.interrupted).ends
    (fun _ _ h' => h') fun _ _ h' => ⟨h'.1, h'.2.1, trivial⟩) fun _ z hz => keeps_pure (hearly z hz)
  rintro _ ⟨z, rfl⟩
  exact .inl h.marker

theorem closeImport_fst {r : Except BackupFailure Unit} :
    ((closeImport r).complete disk d).1 = r := by
  rw [closeImport, complete_andThen]
  rfl

theorem closeImport_done {r : Except BackupFailure Unit} (hmarker : d.marker = none)
    (hworkspace : d.workspace = false) : (closeImport r).complete disk d = (r, d) := by
  simp [closeImport, removeWorkspace, bind_def, perform, complete, exec, hmarker, hworkspace,
    Program.andThen, Program.ofExcept, pure]

end

/-- An import in which one step of `replaceState` fails, before its `try` or in it, and no other step
of the import does. -/
inductive FailedImport (external force : Bool) (archive : Archive) (d : Disk) :
    Bool → Except BackupFailure Unit → Disk → Prop
  | beforeTry {e : BackupFailure} {d₀ d₁ : Disk} :
      (stageArchive external force archive).complete disk d = (.ok (), d₀) →
      Faulty disk (beginRestore external) d₀ (.error e) d₁ →
      FailedImport external force archive d false ((closeImport (.error e)).complete disk d₁).1
        ((closeImport (.error e)).complete disk d₁).2
  | inTry {t : RestoreTransaction} {a : Attempt} {d₀ d₁ d₂ : Disk} :
      (stageArchive external force archive).complete disk d = (.ok (), d₀) →
      (beginRestore external).complete disk d₀ = (.ok t, d₁) →
      Faulty disk (installState t) d₁ (.ok a) d₂ →
      FailedImport external force archive d true
        (((endRestore a).andThen closeImport).complete disk d₂).1
        (((endRestore a).andThen closeImport).complete disk d₂).2

section
variable {s : Before} {archive : Archive} {force inTry : Bool} {d d' : Disk}
  {r : Except BackupFailure Unit}

theorem FailedImport.faulty (h : FailedImport s.external force archive d inTry r d') :
    Faulty disk (importArchive s.external force archive) d r d' := by
  cases h with
  | beforeTry hstage hfault =>
      have hreplace : Faulty disk (replaceState s.external) _ _ _ := Faulty.andThen hfault
      exact Faulty.after hstage (Faulty.andThen hreplace)
  | inTry hstage hbegin hfault =>
      have hinstall : Faulty disk (do
          let a ← installState _
          endRestore a : Restore Unit) _ _ _ := Faulty.andThen hfault
      have hreplace : Faulty disk (replaceState s.external) _ _ _ := Faulty.after hbegin hinstall
      rw [complete_andThen]
      exact Faulty.after hstage (Faulty.andThen hreplace)

/-- The import changed nothing. -/
def Unchanged (s : Before) (d : Disk) : Prop :=
  d.tree .target = s.data ∧ (s.external = true → d.file .config = s.config)

def NothingLeft (s : Before) (d : Disk) : Prop :=
  d.marker = none ∧ d.tree .old = none ∧ (s.external = true → d.file .oldConfig = none)

theorem rollback_complete {state : Directory} {t : RestoreTransaction} (h : Midway s state t d) :
    ∃ d', (rollbackRestoreTransaction t).complete disk d = (.ok (), d') ∧
      Finished s (Before.dataOr s state) s.config d' := by
  have hends := (rollbackRestoreTransaction_keeps (b := false) h).complete
  obtain ⟨r, d', hrun⟩ : ∃ r d', (rollbackRestoreTransaction t).complete disk d = (r, d') :=
    ⟨_, _, rfl⟩
  rw [hrun] at hends
  cases r with
  | ok => exact ⟨d', hrun, hends.2⟩
  | error e => simp [Ends, Failed] at hends

theorem undoState_complete {state : Directory} {t : RestoreTransaction} (h : Midway s state t d)
    (detail : String) :
    ∃ d', (undoState t detail).complete disk d =
        (.error (.backupError ("could not atomically install imported state: " ++ detail)), d') ∧
      Finished s (Before.dataOr s state) s.config d' := by
  obtain ⟨d', hrun, hfinished⟩ := rollback_complete h
  refine ⟨d', ?_, hfinished⟩
  rw [undoState, complete_bind_ok (a := ()) (v := d')]
  · rfl
  · rw [reportedAs, complete_andThen, hrun]
    rfl

/-- A failed import changes nothing exactly where the data directory was there before it and the step
that fails is one of the `try`. -/
theorem failed_import_changes_nothing (hd : AtRest s d)
    (h : FailedImport s.external force archive d inTry r d') :
    (∃ message, r = .error (.backupError message)) ∧ Unchanged s d' ∧ NothingLeft s d' ↔
      s.data.isSome = true ∧ inTry = true := by
  cases h with
  | @beforeTry e d₀ d₁ hstage hfault =>
      have hstaged := stageArchive_staged hd hstage
      obtain ⟨-, -, ⟨detail, rfl⟩, -⟩ := (beginRestore_keeps hstaged).faulty hfault
      simp [closeImport_fst]
  | @inTry t a d₀ d₁ d₂ hstage hbegin hfault =>
      have hstaged := stageArchive_staged hd hstage
      have hbegun := (beginRestore_keeps (b := true) hstaged).complete
      rw [hbegin] at hbegun
      obtain ⟨-, hearly, hwaiting⟩ := hbegun
      obtain ⟨a', ha', hends⟩ :=
        (installState_keeps hearly hwaiting archive.rewritten).faulty hfault
      obtain rfl := Except.ok.inj ha'
      rcases hends with ⟨-, hb, -⟩ | ⟨hfailure, -, -, hmidway⟩
      · cases hb
      obtain ⟨detail, hdetail⟩ := Option.isSome_iff_exists.1 hfailure
      obtain ⟨d₃, hundo, hfinished⟩ := undoState_complete hmidway detail
      have hend : ((endRestore a).andThen closeImport).complete disk d₂ =
          (.error (.backupError ("could not atomically install imported state: " ++ detail)), d₃) := by
        rw [complete_andThen, endRestore, hdetail, hundo]
        exact closeImport_done hfinished.marker hfinished.workspace
      rw [hend]
      cases hdata : s.data with
      | none => simp [Unchanged, hfinished.target, hdata]
      | some entries =>
          refine iff_of_true ⟨⟨_, rfl⟩, ⟨?_, fun hx => (hfinished.config hx).1⟩,
            hfinished.marker, hfinished.old, fun hx => (hfinished.config hx).2.1⟩ ⟨rfl, rfl⟩
          rw [hfinished.target, Before.dataOr, hdata]
          rfl

end

section Samples

def emptyDisk : Disk := ⟨fun _ => none, false, none, none, false, fun _ => none⟩

def sampleState : Directory := [("config.json", .file [123, 125])]

theorem sampleState_rewritten : sampleState.file "config.json" = some [123, 125] := by decide

def sampleArchive : Archive := ⟨sampleState, [123, 125], sampleState_rewritten⟩

def usedDisk : Disk :=
  { emptyDisk with
    tree := fun
      | .target => some [("journal.sqlite3", .file [1])]
      | _ => none
    configDirectory := true
    file := fun
      | .config => some [2]
      | _ => none }

def usedBefore : Before := ⟨true, some [("journal.sqlite3", .file [1])], some [2]⟩

theorem failed_import_changes_nothing_used : ∃ r d',
    FailedImport true true sampleArchive usedDisk true r d' ∧
      (∃ message, r = .error (.backupError message)) ∧ Unchanged usedBefore d' ∧
      NothingLeft usedBefore d' := by
  have hrest : AtRest usedBefore usedDisk := ⟨rfl, rfl, rfl, fun _ => ⟨rfl, rfl⟩⟩
  have hfails : disk.fails (.renameTree .target .old)
      ((beginRestore true).complete disk ((stageArchive true true sampleArchive).complete disk
        usedDisk).2).2 (.osError "Input/output error") _ := ⟨rfl, ⟨_, rfl⟩, rfl⟩
  have hfault : Faulty disk (installState ⟨.prepared, true, true, true⟩) _
      (.ok ⟨⟨.prepared, true, true, true⟩, some "Input/output error"⟩) _ := .fails hfails
  have h : FailedImport usedBefore.external true sampleArchive usedDisk true _ _ :=
    .inTry rfl rfl hfault
  exact ⟨_, _, h, (failed_import_changes_nothing hrest h).2 ⟨rfl, rfl⟩⟩

/-- An import into a directory that is not there leaves the imported state where it fails. -/
theorem failed_import_installs : ¬ ∀ (s : Before) (archive : Archive) (force inTry : Bool)
    (d d' : Disk) (r : Except BackupFailure Unit), AtRest s d →
      FailedImport s.external force archive d inTry r d' →
        (∃ message, r = .error (.backupError message)) ∧ Unchanged s d' ∧ NothingLeft s d' := by
  intro hall
  have hrest : AtRest ⟨false, none, none⟩ emptyDisk := ⟨rfl, rfl, rfl, fun h => by cases h⟩
  have hfails : disk.fails .createTemporary
      ((beginRestore false).complete disk ((stageArchive false false sampleArchive).complete disk
        emptyDisk).2).2 (.osError "No space left on device") _ := ⟨rfl, ⟨_, rfl⟩, rfl⟩
  have hfault : Faulty disk (installState ⟨.prepared, false, false, false⟩) _
      (.ok ⟨⟨.oldMoved, false, false, false⟩, some "No space left on device"⟩) _ := .fails hfails
  have h : FailedImport false false sampleArchive emptyDisk true _ _ := .inTry rfl rfl hfault
  have htarget := (hall _ _ _ _ _ _ _ hrest h).2.1.1
  cases htarget

end Samples

end BackupManager
end Polaris
