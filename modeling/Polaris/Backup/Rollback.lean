import Polaris.Backup.Install

namespace Polaris
namespace BackupManager
open Program FsCall

section
variable {s : Before} {state : Directory} {t : RestoreTransaction} {d d' : Disk}

/-- The data directory and the configuration file are what the restore leaves; what remains is to
clean up. -/
structure Settled (s : Before) (entries : Directory) (c : Option Bytes) (d : Disk) : Prop where
  recorded : Recorded s d
  target : d.tree .target = some entries
  config : s.external = true → d.file .config = c
  present : s.external = true → s.config.isSome = true → c.isSome = true

section
variable {b : Bool} {entries : Directory} {c : Option Bytes}

theorem Settled.interrupted (h : Settled s entries c d) : Interrupted s state d :=
  .inr ⟨h.recorded, sound_of_target h.target fun hx hc => h.config hx ▸ h.present hx hc⟩

theorem Settled.setTree (h : Settled s entries c d) {p : Tree} (hp : p ≠ .target)
    {x : Option Directory} : Settled s entries c (d.setTree p x) :=
  ⟨h.recorded, by simp [Ne.symm hp, h.target], h.config, h.present⟩

theorem Settled.setFile (h : Settled s entries c d) {p : ConfigFile} (hp : p ≠ .config)
    {x : Option Bytes} : Settled s entries c (d.setFile p x) :=
  ⟨h.recorded, h.target, by simpa [Ne.symm hp] using h.config, h.present⟩

theorem removeTree_keeps {I : Disk → Prop} {p : Tree} (hI : I d) (hleft : ∀ x, I (d.setTree p x))
    (hthere : (d.tree p).isSome = true) :
    (removeTree p).Keeps disk I b
      (Ends b (fun _ d' => d' = d.setTree p none) (Failed b fun _ => True)) d := by
  refine Keeps.bind (A := fun _ d' => d' = d) ?_ ?_
  · refine atomic_bind (a := true) (x := d) ?_ hI hI (fun _ h' => h') (failed trivial) ?_
    · simp [exec, hthere]
    · exact keeps_pure rfl
  · rintro _ x rfl
    refine keeps_perform (a := ()) (v := x.setTree p none) ?_ rfl (hleft none) ?_ ?_
    · simp [exec, need, hthere]
    · rintro y ⟨_, rest, -, -, rfl⟩
      exact hleft _
    · rintro hb err y ⟨-, hdetail, _, rest, -, -, rfl⟩
      exact ⟨hleft _, hb, hdetail, trivial⟩

/-- What a restore leaves behind when it has cleaned up. -/
structure Finished (s : Before) (entries : Directory) (c : Option Bytes) (d : Disk) : Prop where
  target : d.tree .target = some entries
  old : d.tree .old = none
  replacement : d.tree .replacement = none
  workspace : d.workspace = false
  marker : d.marker = none
  config : s.external = true →
    d.file .config = c ∧ d.file .oldConfig = none ∧ d.file .stagedConfig = none

theorem Finished.interrupted (h : Finished s entries c d) : Interrupted s state d := .inl h.marker

theorem removeOld_keeps (h : Settled s entries c d) :
    removeOld.Keeps disk (Interrupted s state) b
      (Ends b (fun _ d' => Settled s entries c d' ∧ d'.tree .old = none)
        (Failed b fun _ => True)) d := by
  refine test_bind rfl (fun _ h' => h') rfl h.interrupted ?_
  cases hold : (d.tree .old).isSome with
  | false => exact keeps_pure ⟨h, by simpa using hold⟩
  | true =>
      have hdone : Settled s entries c (d.setTree .old none) := h.setTree (by simp)
      refine Keeps.bind (removeTree_keeps h.interrupted (fun _ => (h.setTree (by simp)).interrupted) hold) ?_
      rintro _ _ rfl
      exact atomic (a := ()) (x := d.setTree .old none) rfl ⟨hdone, by simp⟩ hdone.interrupted
        hdone.interrupted (fun _ h' => h') (failed trivial)

theorem removeReplacement_keeps (h : Settled s entries c d) (hold : d.tree .old = none) :
    removeReplacement.Keeps disk (Interrupted s state) b
      (Ends b (fun _ d' => Settled s entries c d' ∧ d'.tree .old = none ∧ d'.tree .replacement = none)
        (Failed b fun _ => True)) d := by
  refine test_bind rfl (fun _ h' => h') rfl h.interrupted ?_
  cases hthere : (d.tree .replacement).isSome with
  | false => exact keeps_pure ⟨h, hold, by simpa using hthere⟩
  | true =>
      refine (removeTree_keeps h.interrupted (fun _ => (h.setTree (by simp)).interrupted)
        hthere).ends ?_ (fun _ _ h' => h')
      rintro _ _ rfl
      exact ⟨h.setTree (by simp), by simp [hold], by simp⟩

theorem cleanupRestoreWorkspace_keeps (h : Settled s entries c d) (hold : d.tree .old = none)
    (hreplacement : d.tree .replacement = none) :
    cleanupRestoreWorkspace.Keeps disk (Interrupted s state) b
      (Ends b (fun _ d' => Settled s entries c d' ∧ d'.tree .old = none ∧
          d'.tree .replacement = none ∧ d'.workspace = false)
        (Failed b fun _ => True)) d := by
  refine test_bind rfl (fun _ h' => h') rfl h.interrupted ?_
  cases hthere : d.workspace with
  | false => exact keeps_pure ⟨h, hold, hreplacement, hthere⟩
  | true =>
      have hleft : ∀ x, Settled s entries c (d.setTree .replacement x) := fun x => h.setTree (by simp)
      have hdone : Settled s entries c { d.setTree .replacement none with workspace := false } :=
        ⟨h.recorded, (hleft none).target, h.config, h.present⟩
      have htorn : ∀ y, torn .rmtreeWorkspace d y → Interrupted s state y := by
        rintro y (rfl | ⟨_, rest, -, -, rfl⟩) <;> exact (hleft _).interrupted
      refine keeps_perform (a := ()) ?_ ⟨hdone, by simp [hold], by simp, rfl⟩ hdone.interrupted htorn ?_
      · simp [exec, need, hthere]
      · rintro hb err y ⟨-, hdetail, hy⟩
        exact ⟨htorn y hy, hb, hdetail, trivial⟩

theorem removeConfigCopies_keeps (ht : t.external = s.external) (h : Settled s entries c d)
    (hold : d.tree .old = none) (hreplacement : d.tree .replacement = none)
    (hworkspace : d.workspace = false) :
    (removeConfigCopies t).Keeps disk (Interrupted s state) b
      (Ends b (fun _ d' => Recorded s d' ∧ Finished s entries c { d' with marker := none })
        (Failed b fun _ => True)) d := by
  cases hexternal : s.external with
  | false =>
      simp only [removeConfigCopies, ht, hexternal, Bool.false_eq_true, if_false]
      exact keeps_pure ⟨h.recorded, h.target, hold, hreplacement, hworkspace, rfl, by simp [hexternal]⟩
  | true =>
      simp only [removeConfigCopies, ht, hexternal, if_true]
      have h₁ : Settled s entries c (d.setFile .stagedConfig none) := h.setFile (by simp)
      have h₂ : Settled s entries c ((d.setFile .stagedConfig none).setFile .oldConfig none) :=
        h₁.setFile (by simp)
      have hdone : Recorded s ((d.setFile .stagedConfig none).setFile .oldConfig none) ∧
          Finished s entries c
            { (d.setFile .stagedConfig none).setFile .oldConfig none with marker := none } :=
        ⟨h.recorded, h.target, hold, hreplacement, hworkspace, rfl,
          fun hx => ⟨by simpa using h.config hx, by simp, by simp⟩⟩
      refine atomic_bind (a := ()) ?_ h.interrupted h₁.interrupted (fun _ h' => h')
        (failed trivial) ?_
      · simp [exec, need]
      refine atomic_bind (a := ()) ?_ h₁.interrupted h₂.interrupted (fun _ h' => h')
        (failed trivial) ?_
      · simp [exec, need]
      refine test_bind rfl (fun _ h' => h') rfl h₂.interrupted ?_
      by_cases hdir : d.configDirectory = true
      · rw [if_pos (by exact hdir)]
        refine atomic (a := ()) ?_ hdone h₂.interrupted h₂.interrupted (fun _ h' => h')
          (failed trivial)
        simp [exec, need, hdir]
      · rw [if_neg (by exact hdir)]
        exact keeps_pure hdone

theorem finalizeRestoreTransaction_keeps (ht : t.external = s.external)
    (h : Settled s entries c d) :
    (finalizeRestoreTransaction t).Keeps disk (Interrupted s state) b
      (Ends b (fun _ => Finished s entries c) (Failed b fun _ => True)) d := by
  refine Keeps.bind (A := fun _ d' => d' = d) ?_ ?_
  · refine atomic_bind (a := true) ?_ h.interrupted h.interrupted (fun _ h' => h') (failed trivial)
      (keeps_pure rfl)
    simp [exec, h.target]
  rintro _ d rfl
  refine Keeps.bind (removeOld_keeps h) ?_
  rintro _ d₁ ⟨h₁, hold⟩
  refine Keeps.bind (removeReplacement_keeps h₁ hold) ?_
  rintro _ d₂ ⟨h₂, hold, hreplacement⟩
  refine Keeps.bind (cleanupRestoreWorkspace_keeps h₂ hold hreplacement) ?_
  rintro _ d₃ ⟨h₃, hold, hreplacement, hworkspace⟩
  refine Keeps.bind (removeConfigCopies_keeps ht h₃ hold hreplacement hworkspace) ?_
  rintro _ d₄ ⟨hrecorded, hdone⟩
  have h₄ : Interrupted s state d₄ := .inr ⟨hrecorded, sound_of_target hdone.target
    fun hx hc => (hdone.config hx).1 ▸ h.present hx hc⟩
  obtain ⟨m, hm, -⟩ := hrecorded
  refine atomic_bind (a := ()) ?_ h₄ hdone.interrupted (fun _ h' => h') (failed trivial) ?_
  · simp [exec, need, hm]
  · exact atomic (a := ()) rfl hdone hdone.interrupted hdone.interrupted (fun _ h' => h')
      (failed trivial)

end

/-- The configuration file is what it was, the data still to be put back. -/
structure BackTo (s : Before) (state : Directory) (d : Disk) : Prop where
  recorded : Recorded s d
  place : Waiting s state d ∨ Moved s state d ∨ Installed s state d
  untouched : Untouched s d

theorem BackTo.interrupted (h : BackTo s state d) : Interrupted s state d := by
  refine .inr ⟨h.recorded, fun hx hc => (h.untouched hx).1 ▸ hc, fun ht => ?_,
    fun hx _ => h.untouched hx⟩
  rcases h.place with ⟨htarget, hold, hreplacement⟩ | ⟨hsome, -, hold, -⟩ | ⟨htarget, -, -⟩
  · exact .inr ⟨htarget ▸ ht, hold, hreplacement⟩
  · exact .inl ⟨hsome, hold⟩
  · simp [ht] at htarget

theorem Midway.place_of (h : Midway s state t d) :
    Waiting s state d ∨ Moved s state d ∨ Installed s state d := by
  rcases h.place with ⟨hplace, -⟩ | ⟨hplace, -⟩
  · exact hplace.imp_right .inl
  · exact .inr (.inr hplace)

theorem Midway.undoable (h : Midway s state t d) (hexternal : s.external = true) :
    Undoable s t d := by
  rcases h.place with ⟨-, huntouched⟩ | ⟨-, hconfig⟩
  · obtain ⟨hconfig, hold⟩ := huntouched hexternal
    exact ⟨fun _ => .inl hconfig, fun x hx => by simp [hold] at hx⟩
  · exact (hconfig hexternal).1

section
variable {b : Bool}

theorem restoreConfigFile_keeps (h : Midway s state t d) (hexternal : s.external = true) :
    (restoreConfigFile t).Keeps disk (Interrupted s state) b
      (Ends b (fun _ => BackTo s state) (Failed b fun _ => True)) d := by
  have hundo := h.undoable hexternal
  have hexisted := h.describes.config hexternal
  refine test_bind rfl (fun _ h' => h') rfl h.interrupted ?_
  cases hold : d.file .oldConfig with
  | some x =>
      obtain ⟨hsaved, hdir⟩ := hundo.saved x hold
      have hback : BackTo s state ((d.setFile .oldConfig none).setFile .config (some x)) :=
        ⟨h.recorded, h.place_of, fun _ => ⟨by simp [hsaved], by simp⟩⟩
      refine atomic_bind (a := ()) ?_ h.interrupted hback.interrupted (fun _ h' => h')
        (failed trivial) ?_
      · simp [exec, hold]
      · refine atomic (a := ()) ?_ hback hback.interrupted hback.interrupted (fun _ h' => h')
          (failed trivial)
        simp [exec, need, hdir]
  | none =>
      refine test_bind rfl (fun _ h' => h') rfl h.interrupted ?_
      by_cases hcase : (!t.configExisted && t.phase.late && (d.file .config).isSome) = true
      · rw [if_pos (by exact hcase)]
        obtain ⟨⟨hnot, hlate⟩, hthere⟩ : (t.configExisted = false ∧ t.phase.late = true) ∧
            (d.file .config).isSome = true := by simpa using hcase
        have hnone : s.config = none := by simpa [hexisted] using hnot
        have hdir : d.configDirectory = true := by
          rcases hundo.kept hold with hkept | ⟨-, -, hdir⟩
          · simp [hkept, hnone] at hthere
          · exact hdir
        have hback : BackTo s state (d.setFile .config none) :=
          ⟨h.recorded, h.place_of, fun _ => ⟨by simp [hnone], by simp [hold]⟩⟩
        refine atomic_bind (a := ()) ?_ h.interrupted hback.interrupted (fun _ h' => h')
          (failed trivial) ?_
        · simp [exec, need, hthere]
        · refine atomic (a := ()) ?_ hback hback.interrupted hback.interrupted (fun _ h' => h')
            (failed trivial)
          simp [exec, need, hdir]
      · rw [if_neg (by exact hcase)]
        refine keeps_pure ⟨h.recorded, h.place_of, fun _ => ⟨?_, hold⟩⟩
        rcases hundo.kept hold with hkept | ⟨hnone, hlate, -⟩
        · exact hkept
        · simpa [hexisted, hnone, hlate] using hcase

theorem restoreExternalConfig_keeps (h : Midway s state t d) :
    (restoreExternalConfig t).Keeps disk (Interrupted s state) b
      (Ends b (fun _ => BackTo s state) (Failed b fun _ => True)) d := by
  cases hexternal : s.external with
  | false =>
      have ht : t.external = false := h.describes.external.trans hexternal
      simp only [restoreExternalConfig, ht, Bool.false_eq_true, if_false]
      exact keeps_pure ⟨h.recorded, h.place_of, fun hx => by simp [hexternal] at hx⟩
  | true =>
      have ht : t.external = true := h.describes.external.trans hexternal
      simp only [restoreExternalConfig, ht, if_true]
      refine Keeps.bind (restoreConfigFile_keeps h hexternal) ?_
      intro _ d₁ h₁
      have hdone : BackTo s state (d₁.setFile .stagedConfig none) :=
        ⟨h₁.recorded, h₁.place, by simpa [Untouched] using h₁.untouched⟩
      refine atomic (a := ()) ?_ hdone h₁.interrupted hdone.interrupted (fun _ h' => h')
        (failed trivial)
      simp [exec, need]

/-- The data directory that a rollback ends with. -/
def Before.dataOr (s : Before) (state : Directory) : Directory := s.data.getD state

theorem renameOld_keeps {entries : Directory} (hrecorded : Recorded s d) (huntouched : Untouched s d)
    (hdata : s.data = some entries) (htarget : d.tree .target = none) (hold : d.tree .old = s.data) :
    renameOld.Keeps disk (Interrupted s state) b
      (Ends b (fun _ => Settled s (Before.dataOr s state) s.config) (Failed b fun _ => True)) d := by
  have hI : Interrupted s state d := .inr ⟨hrecorded, fun hx hc => (huntouched hx).1 ▸ hc,
    fun _ => .inl ⟨by simp [hdata], hold⟩, fun hx _ => huntouched hx⟩
  have hdone : Settled s (Before.dataOr s state) s.config
      ((d.setTree .old none).setTree .target (some entries)) :=
    ⟨hrecorded, by simp [Before.dataOr, hdata], fun hx => (huntouched hx).1, fun _ => id⟩
  refine atomic_bind (a := ()) ?_ hI hdone.interrupted (fun _ h' => h') (failed trivial) ?_
  · simp [exec, hold, hdata, htarget]
  · exact atomic (a := ()) rfl hdone hdone.interrupted hdone.interrupted (fun _ h' => h')
      (failed trivial)

theorem removeTarget_keeps {entries : Directory} (h : BackTo s state d)
    (hdata : s.data = some entries) (hold : d.tree .old = s.data) :
    removeTarget.Keeps disk (Interrupted s state) b
      (Ends b (fun _ d' => d' = d.setTree .target none) (Failed b fun _ => True)) d := by
  have hleft : ∀ y, Interrupted s state (d.setTree .target y) := fun y =>
    .inr ⟨h.recorded, fun hx hc => (h.untouched hx).1 ▸ hc,
      fun _ => .inl ⟨by simp [hdata], by simp [hold]⟩, fun hx _ => h.untouched hx⟩
  refine test_bind rfl (fun _ h' => h') rfl h.interrupted ?_
  cases htarget : (d.tree .target).isSome with
  | false => exact keeps_pure (Disk.setTree_self (by simpa using htarget)).symm
  | true =>
      refine Keeps.bind (removeTree_keeps h.interrupted hleft htarget) ?_
      rintro _ _ rfl
      exact atomic (a := ()) rfl rfl (hleft none) (hleft none) (fun _ h' => h') (failed trivial)

theorem restoreData_old {entries : Directory} (h : BackTo s state d) (hdata : s.data = some entries)
    (hold : d.tree .old = s.data) :
    restoreData.Keeps disk (Interrupted s state) b
      (Ends b (fun _ => Settled s (Before.dataOr s state) s.config) (Failed b fun _ => True)) d := by
  refine test_bind rfl (fun _ h' => h') rfl h.interrupted ?_
  rw [if_pos (by simp [hold, hdata])]
  refine Keeps.bind (removeTarget_keeps h hdata hold) ?_
  rintro _ _ rfl
  exact renameOld_keeps (d := d.setTree .target none) h.recorded h.untouched hdata (by simp)
    (by simp [hold])

theorem restoreData_none (h : BackTo s state d) (hold : d.tree .old = none) :
    restoreData.Keeps disk (Interrupted s state) b
      (Ends b (fun _ => Settled s (Before.dataOr s state) s.config) (Failed b fun _ => True)) d := by
  have hplace : d.tree .target = some (Before.dataOr s state) ∨
      d.tree .target = none ∧ s.data = none ∧ d.tree .replacement = some state := by
    rcases h.place with ⟨htarget, -, hreplacement⟩ | ⟨hsome, -, hold', -⟩ | ⟨htarget, hold', -⟩
    · cases hdata : s.data with
      | none => exact .inr ⟨htarget.trans hdata, rfl, hreplacement⟩
      | some x => exact .inl (by simp [Before.dataOr, htarget, hdata])
    · simp [hold'.symm.trans hold] at hsome
    · exact .inl (by simp [Before.dataOr, htarget, hold'.symm.trans hold])
  refine test_bind rfl (fun _ h' => h') rfl h.interrupted ?_
  rw [if_neg (by simp [hold])]
  refine test_bind rfl (fun _ h' => h') rfl h.interrupted ?_
  refine test_bind rfl (fun _ h' => h') rfl h.interrupted ?_
  rcases hplace with htarget | ⟨htarget, hdata, hreplacement⟩
  · rw [if_neg (by simp [htarget])]
    exact keeps_pure ⟨h.recorded, htarget, fun hx => (h.untouched hx).1, fun _ => id⟩
  · rw [if_pos (by simp [htarget, hreplacement])]
    have hdone : Settled s (Before.dataOr s state) s.config
        ((d.setTree .replacement none).setTree .target (some state)) :=
      ⟨h.recorded, by simp [Before.dataOr, hdata], fun hx => (h.untouched hx).1, fun _ => id⟩
    refine atomic_bind (a := ()) ?_ h.interrupted hdone.interrupted (fun _ h' => h')
      (failed trivial) ?_
    · simp [exec, hreplacement, htarget]
    · exact atomic (a := ()) rfl hdone hdone.interrupted hdone.interrupted (fun _ h' => h')
        (failed trivial)

theorem restoreData_keeps (h : BackTo s state d) :
    restoreData.Keeps disk (Interrupted s state) b
      (Ends b (fun _ => Settled s (Before.dataOr s state) s.config) (Failed b fun _ => True)) d := by
  rcases h.place with ⟨-, hold, -⟩ | ⟨hsome, -, hold, -⟩ | ⟨-, hold, -⟩
  · exact restoreData_none h hold
  · obtain ⟨entries, hdata⟩ := Option.isSome_iff_exists.1 hsome
    exact restoreData_old h hdata hold
  · cases hdata : s.data with
    | none => exact restoreData_none h (hold.trans hdata)
    | some entries => exact restoreData_old h hdata hold

/-- A rollback that no error meets ends with the configuration as it was, and with the data as it was
if there was any. -/
theorem rollbackRestoreTransaction_keeps (h : Midway s state t d) :
    (rollbackRestoreTransaction t).Keeps disk (Interrupted s state) b
      (Ends b (fun _ => Finished s (Before.dataOr s state) s.config) (Failed b fun _ => True)) d := by
  refine Keeps.bind (restoreExternalConfig_keeps h) ?_
  intro _ d₁ h₁
  refine Keeps.bind (restoreData_keeps h₁) ?_
  intro _ d₂ h₂
  refine test_bind rfl (fun _ h' => h') rfl h₂.interrupted ?_
  rw [if_pos (by simp [h₂.target])]
  exact finalizeRestoreTransaction_keeps h.describes.external h₂

end

end

end BackupManager
end Polaris
