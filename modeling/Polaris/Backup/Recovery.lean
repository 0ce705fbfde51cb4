import Polaris.Backup.FailedImport

namespace Polaris
namespace BackupManager
open Program FsCall

/-- What a crash may leave: one within `replaceState`, in which one step may fail and be rolled back,
or one within a later recovery. -/
inductive Reached (s : Before) (archive : Archive) : Disk → Prop
  | replace {d d' : Disk} : Staged s archive.state d →
      Stops disk true (replaceState s.external) d d' → Reached s archive d'
  | recover {d d' : Disk} : Reached s archive d →
      Stops disk false recoverRestoreTransaction d d' → Reached s archive d'

def AllOld (s : Before) (d : Disk) : Prop :=
  d.tree .target = s.data ∧ (s.external = true → d.file .config = s.config)

def AllNew (s : Before) (archive : Archive) (d : Disk) : Prop :=
  d.tree .target = some archive.state ∧ (s.external = true → d.file .config = some archive.config)

/-- A manager that starts on the disk does not raise, and leaves the old state or the new one. -/
def RecoversWhole (s : Before) (archive : Archive) (d : Disk) : Prop :=
  ∃ d', recoverRestoreTransaction.complete disk d = (.ok (), d') ∧ d'.marker = none ∧
    (AllOld s d' ∨ AllNew s archive d')

/-- Whether the data directory brings its own configuration to the external file, and the right one. -/
def Consistent (s : Before) (archive : Archive) (entries : Directory) : Prop :=
  entries = archive.state ∨
    s.data = some entries ∧ ∃ c, entries.file "config.json" = some c ∧ s.config = some c

/-- Without a data directory every recovery goes well; with one, a recovery in a later phase takes the
external configuration from it, and any other leaves both as they are. -/
def Recoverable (s : Before) (archive : Archive) (d : Disk) : Prop :=
  match d.marker, d.tree .target with
  | some (some _), none => True
  | some (some t), some entries =>
      if t.phase ≠ .prepared ∧ s.external = true then Consistent s archive entries
      else AllOld s d ∨ AllNew s archive d
  | _, _ => AllOld s d ∨ AllNew s archive d

section
variable {s : Before} {archive : Archive} {b : Bool} {t : RestoreTransaction} {d d' : Disk}

theorem reportedAs_keeps {I : Disk → Prop} {message : String} {p : Restore Unit}
    {Q : Bool → Except BackupFailure Unit → Disk → Prop} (hp : p.Keeps disk I b Q d) :
    (reportedAs message p).Keeps disk I b (fun _ _ _ => True) d := by
  refine hp.andThen fun b' r d' _ => ?_
  match r with
  | .ok _ => trivial
  | .error (.osError _) => trivial
  | .error (.backupError _) => trivial
  | .error (.existingStateError _) => trivial

theorem Complete.settled {c : Bytes} (h : Complete s archive.state c t d) :
    Settled s archive.state (some c) d :=
  ⟨h.recorded, h.target, h.config, fun _ _ => rfl⟩

theorem endRestore_keeps {a : Attempt} {b' : Bool}
    (h : Attempted s archive.state (Complete s archive.state archive.config) b b' (.ok a) d) :
    (endRestore a).Keeps disk (Interrupted s archive.state) b' (fun _ _ _ => True) d := by
  obtain ⟨a', ha', hends⟩ := h
  obtain rfl := Except.ok.inj ha'
  rcases hends with ⟨hnone, rfl, hdone⟩ | ⟨hsome, -, rfl, hmidway⟩
  · rw [endRestore, hnone]
    exact reportedAs_keeps (finalizeRestoreTransaction_keeps hdone.describes.external hdone.settled)
  · obtain ⟨detail, hdetail⟩ := Option.isSome_iff_exists.1 hsome
    rw [endRestore, hdetail]
    refine (reportedAs_keeps (rollbackRestoreTransaction_keeps hmidway)).andThen fun _ r _ _ => ?_
    cases r <;> trivial

theorem replaceState_keeps (h : Staged s archive.state d) :
    (replaceState s.external).Keeps disk (Interrupted s archive.state) true (fun _ _ _ => True) d := by
  refine (beginRestore_keeps h).andThen fun b' r d₁ hbegun => ?_
  cases r with
  | error e => trivial
  | ok t =>
      obtain ⟨rfl, hearly, hwaiting⟩ := hbegun
      refine (installState_keeps hearly hwaiting archive.rewritten).andThen fun b' r d₂ hends => ?_
      cases r with
      | error e => trivial
      | ok a => exact endRestore_keeps hends

theorem restoreExternalConfig_untouched (ht : Describes s t)
    (hI : ∀ x, Interrupted s archive.state (d.setFile .stagedConfig x)) (hd : Untouched s d) :
    (restoreExternalConfig t).Keeps disk (Interrupted s archive.state) b
      (Ends b (fun _ d' => d' = d ∨ d' = d.setFile .stagedConfig none)
        (Failed b fun _ => True)) d := by
  have hId : Interrupted s archive.state d := by
    have := hI (d.file .stagedConfig)
    rwa [Disk.setFile_self rfl] at this
  cases hexternal : s.external with
  | false =>
      have htx : t.external = false := ht.external.trans hexternal
      simp only [restoreExternalConfig, htx, Bool.false_eq_true, if_false]
      exact keeps_pure (.inl rfl)
  | true =>
      have htx : t.external = true := ht.external.trans hexternal
      obtain ⟨hconfig, hold⟩ := hd hexternal
      simp only [restoreExternalConfig, htx, if_true]
      refine Keeps.bind (A := fun _ d' => d' = d) ?_ ?_
      · refine test_bind rfl (fun _ h' => h') rfl hId ?_
        rw [if_neg (by simp [hold])]
        refine test_bind rfl (fun _ h' => h') rfl hId ?_
        rw [if_neg]
        · exact keeps_pure rfl
        · simp [ht.config hexternal, hconfig]
          tauto
      · rintro _ x hx
        subst hx
        refine atomic (a := ()) ?_ (.inr rfl) hId (hI none) (fun _ h' => h') (failed trivial)
        simp [exec, need]

/-- The old data directory goes back to its place. -/
theorem resume_old {entries : Directory} (ht : Describes s t) (hrecorded : Recorded s d)
    (hdata : s.data = some entries) (htarget : d.tree .target = none) (hold : d.tree .old = s.data)
    (huntouched : Untouched s d) {r : Bool} :
    (resumeRestore t false true r).Keeps disk (Interrupted s archive.state) b
      (Ends b (fun t' d' => t'.external = s.external ∧ Settled s entries s.config d')
        (Failed b fun _ => True)) d := by
  have hI : ∀ x, Interrupted s archive.state (d.setFile .stagedConfig x) := fun x =>
    .inr ⟨hrecorded, fun hx hc => by simpa [(huntouched hx).1] using hc,
      fun _ => .inl ⟨by simp [hdata], hold⟩, fun hx _ => by simpa using huntouched hx⟩
  refine Keeps.bind (restoreExternalConfig_untouched ht hI huntouched) ?_
  intro _ d₁ hd₁
  have hrename : renameOld.Keeps disk (Interrupted s archive.state) b
      (Ends b (fun _ => Settled s (Before.dataOr s archive.state) s.config)
        (Failed b fun _ => True)) d₁ := by
    rcases hd₁ with rfl | rfl
    · exact renameOld_keeps hrecorded huntouched hdata htarget hold
    · exact renameOld_keeps (d := d.setFile .stagedConfig none) hrecorded
        (by simpa [Untouched] using huntouched) hdata htarget hold
  refine Keeps.bind hrename fun _ d₂ h₂ => keeps_pure ⟨ht.external, ?_⟩
  simpa [Before.dataOr, hdata] using h₂

theorem resumeInstall_keeps {entries : Directory} {c : Bytes}
    (h : Configuring s archive.state entries false t d) (hexternal : s.external = true)
    (hentry : entries.file "config.json" = some c) :
    (resumeInstall t).Keeps disk (Interrupted s archive.state) false
      (Ends false (fun t' d' => t'.external = s.external ∧ Settled s entries (some c) d')
        (Failed false fun _ => True)) d := by
  refine (installExternalConfig_keeps h hexternal hentry).andThen fun b' r d' hends => ?_
  obtain ⟨a, rfl, ⟨hnone, rfl, hdone⟩ | ⟨-, hb, -⟩⟩ := hends
  · simp only [hnone]
    exact keeps_pure ⟨hdone.describes.external, hdone.recorded, hdone.target, fun _ => hdone.config,
      fun _ _ => rfl⟩
  · cases hb

theorem requireDirectory_keeps {I : Disk → Prop} {p : Tree} {description : String} (hI : I d)
    (hthere : (d.tree p).isSome = true) :
    (requireDirectory p description).Keeps disk I b
      (Ends b (fun _ d' => d' = d) (Failed b fun _ => True)) d := by
  refine atomic_bind (a := true) ?_ hI hI (fun _ h' => h') (failed trivial) (keeps_pure rfl)
  simp [exec, hthere]

theorem fsyncTree_keeps {I : Disk → Prop} {p : Tree} (hI : I d) (hthere : (d.tree p).isSome = true) :
    (fsyncTree p).Keeps disk I b (Ends b (fun _ d' => d' = d) (Failed b fun _ => True)) d := by
  refine Keeps.bind (requireDirectory_keeps hI hthere) ?_
  rintro _ x hx
  subst hx
  refine atomic (a := ()) ?_ rfl hI hI (fun _ h' => h') (failed trivial)
  simp [exec, need, hthere]

theorem installReplacement_keeps (h : Early s archive.state t d) (htarget : d.tree .target = none)
    (hreplacement : d.tree .replacement = some archive.state) :
    (installReplacement t).Keeps disk (Interrupted s archive.state) false
      (Ends false (fun t' d' => t'.external = s.external ∧
          Settled s archive.state (some archive.config) d')
        (Failed false fun _ => True)) d := by
  have hI := h.midway.interrupted
  refine Keeps.bind (requireDirectory_keeps hI (by simp [hreplacement])) ?_
  rintro _ x hx
  subst hx
  refine Keeps.bind (fsyncTree_keeps hI (by simp [hreplacement])) ?_
  rintro _ x hx
  subst hx
  refine Keeps.bind ((moveReplacement_keeps h htarget).ends (fun _ _ h' => h')
    fun _ _ h' => ⟨h'.1, h'.2.1, trivial⟩) ?_
  intro _ d₁ h₁
  refine Keeps.bind ((persist_midway (P := Placed s archive.state { t with phase := .dataInstalled })
    (fun x hx => ⟨h₁.marked hx, (h₁.marked hx).midway⟩) fun x hx => (h₁.unmarked hx).midway).ends
      (fun _ _ h' => h') fun _ _ h' => ⟨h'.1, h'.2.1, trivial⟩) ?_
  intro _ d₂ h₂
  cases hexternal : s.external with
  | false =>
      have ht : t.external = false := h.describes.external.trans hexternal
      rw [if_neg (by simp [ht])]
      exact keeps_pure ⟨h.describes.external.trans hexternal, h₂.recorded, h₂.installed.1,
        by simp [hexternal], fun _ _ => rfl⟩
  | true =>
      have ht : t.external = true := h.describes.external.trans hexternal
      rw [if_pos (by exact ht)]
      exact (resumeInstall_keeps (h₂.configuring hexternal) hexternal archive.rewritten).ends
        (fun _ _ h' => ⟨h'.1.trans hexternal, h'.2⟩) fun _ _ h' => h'

/-- A data directory that stays: its configuration is installed where the phase says so. -/
theorem resume_target {entries : Directory} (ht : Describes s t) (hrecorded : Recorded s d)
    (htarget : d.tree .target = some entries) (hcase : ¬ (t.phase ≠ .prepared ∧ s.external = true))
    (hconfig : s.external = true → s.config.isSome = true → (d.file .config).isSome = true)
    {o r : Bool} :
    (resumeRestore t true o r).Keeps disk (Interrupted s archive.state) b
      (Ends b (fun t' d' => t'.external = s.external ∧ Settled s entries (d.file .config) d')
        (Failed b fun _ => True)) d := by
  have hsettled : Settled s entries (d.file .config) d :=
    ⟨hrecorded, htarget, fun _ => rfl, hconfig⟩
  refine Keeps.bind (requireDirectory_keeps hsettled.interrupted (by simp [htarget])) ?_
  rintro _ x hx
  subst hx
  rw [if_neg (by rw [ht.external]; exact hcase)]
  exact keeps_pure ⟨ht.external, hsettled⟩

theorem resume_config {entries : Directory} {c : Bytes} (ht : Describes s t)
    (hrecorded : Recorded s d) (htarget : d.tree .target = some entries)
    (hphase : t.phase ≠ .prepared) (hexternal : s.external = true)
    (hconfig : s.config.isSome = true → (d.file .config).isSome = true)
    (hentry : entries.file "config.json" = some c) {o r : Bool} :
    (resumeRestore t true o r).Keeps disk (Interrupted s archive.state) false
      (Ends false (fun t' d' => t'.external = s.external ∧ Settled s entries (some c) d')
        (Failed false fun _ => True)) d := by
  have h : Configuring s archive.state entries false t d :=
    ⟨ht, hrecorded, htarget, hconfig, by simp⟩
  refine Keeps.bind (requireDirectory_keeps h.interrupted (by simp [htarget])) ?_
  rintro _ x hx
  subst hx
  rw [if_pos ⟨hphase, ht.external.trans hexternal⟩]
  exact resumeInstall_keeps h hexternal hentry

theorem copyFileDurable_missing {I : Disk → Prop} {p : Source} {f : ConfigFile}
    (hmissing : content d p = none) (hI : I d) (hI' : I (d.setFile f none)) :
    (copyFileDurable p f).Keeps disk I false
      (fun _ r _ => ∃ detail, r = .error (.osError detail)) d := by
  refine Keeps.andThen (Q := fun b' r d' => b' = false ∧ r = .error noEntry ∧ d' = d) ?_ ?_
  · have hread : disk.step (.read p) d = (.error noEntry, d) := by simp [exec, hmissing]
    refine ⟨fun x hx => hx ▸ hI, ?_, ?_, by simp⟩
    · rw [hread]
      exact hI
    · rw [hread]
      exact ⟨rfl, rfl, rfl⟩
  · rintro _ _ x ⟨rfl, rfl, hx⟩
    subst hx
    exact ⟨fun y hy => hy ▸ hI, hI', ⟨_, rfl⟩, by simp⟩

theorem stageConfig_missing {entries : Directory} (h : Configuring s archive.state entries false t d)
    (hexternal : s.external = true) (hentry : entries.file "config.json" = none) :
    (stageConfig t).Keeps disk (Interrupted s archive.state) false
      (fun _ r _ => ∃ detail, r = .error (.osError detail)) d := by
  refine Keeps.sure_bind (A := fun _ x => x = { d with configDirectory := true }) ?_ ?_
  · exact atomic (a := ()) rfl rfl h.interrupted h.mkdir.interrupted (fun _ h' => h') (by simp)
  rintro _ _ rfl
  refine Keeps.sure_bind ((saveConfig_keeps h.mkdir hexternal rfl).ends (fun _ _ h' => h'.1)
    fun _ _ h' => by simp [Failed] at h') ?_
  intro _ d₁ h₁
  refine Keeps.sure_bind (A := fun _ x => x = d₁.setFile .stagedConfig none) ?_ ?_
  · refine atomic (a := ()) ?_ rfl h₁.interrupted h₁.staged.interrupted (fun _ h' => h') (by simp)
    simp [exec, need]
  rintro _ _ rfl
  refine copyFileDurable_missing ?_ h₁.staged.interrupted h₁.staged.staged.interrupted
  simp [content, h₁.target, hentry]

theorem resume_missing {entries : Directory} (ht : Describes s t)
    (hrecorded : Recorded s d) (htarget : d.tree .target = some entries)
    (hphase : t.phase ≠ .prepared) (hexternal : s.external = true)
    (hconfig : s.config.isSome = true → (d.file .config).isSome = true)
    (hentry : entries.file "config.json" = none) {o r : Bool} :
    (resumeRestore t true o r).Keeps disk (Interrupted s archive.state) false
      (fun _ r _ => ∃ detail, r = .error (.osError detail)) d := by
  have h : Configuring s archive.state entries false t d :=
    ⟨ht, hrecorded, htarget, hconfig, by simp⟩
  refine (requireDirectory_keeps h.interrupted (by simp [htarget])).andThen fun b' r x hends => ?_
  cases r with
  | error e => simp [Ends, Failed] at hends
  | ok =>
      obtain ⟨rfl, hx⟩ := hends
      subst hx
      change (if t.phase ≠ .prepared ∧ t.external = true then resumeInstall t else pure t :
        Restore RestoreTransaction).Keeps _ _ _ _ _
      rw [if_pos ⟨hphase, ht.external.trans hexternal⟩]
      refine Keeps.andThen (Q := fun _ r _ => ∃ a, r = .ok a ∧ a.failure.isSome = true) ?_ ?_
      · refine (stageConfig_missing h hexternal hentry).andThen fun b' r y hr => ?_
        obtain ⟨detail, rfl⟩ := hr
        exact ⟨_, rfl, rfl⟩
      · rintro _ _ _ ⟨a, rfl, hsome⟩
        obtain ⟨detail, hdetail⟩ := Option.isSome_iff_exists.1 hsome
        simp only [hdetail]
        exact ⟨detail, rfl⟩

end

/-- How a recovery that nothing interrupts ends. -/
inductive Recovered (s : Before) (archive : Archive) (d : Disk) :
    Except BackupFailure Unit → Disk → Prop
  | idle : d.marker = none → Recovered s archive d (.ok ()) d
  | back {t : RestoreTransaction} {entries : Directory} {d' : Disk} :
      d.marker = some (some t) → d.tree .target = none → s.data = some entries →
      Finished s entries s.config d' → Recovered s archive d (.ok ()) d'
  | forward {t : RestoreTransaction} {d' : Disk} :
      d.marker = some (some t) → d.tree .target = none →
      Finished s archive.state (some archive.config) d' → Recovered s archive d (.ok ()) d'
  | stays {t : RestoreTransaction} {entries : Directory} {d' : Disk} :
      d.marker = some (some t) → d.tree .target = some entries →
      ¬ (t.phase ≠ .prepared ∧ s.external = true) →
      Finished s entries (d.file .config) d' → Recovered s archive d (.ok ()) d'
  | configured {t : RestoreTransaction} {entries : Directory} {c : Bytes} {d' : Disk} :
      d.marker = some (some t) → d.tree .target = some entries →
      t.phase ≠ .prepared ∧ s.external = true → entries.file "config.json" = some c →
      Finished s entries (some c) d' → Recovered s archive d (.ok ()) d'
  | raises {t : RestoreTransaction} {entries : Directory} {e : BackupFailure} {d' : Disk} :
      d.marker = some (some t) → d.tree .target = some entries →
      t.phase ≠ .prepared ∧ s.external = true → entries.file "config.json" = none →
      Recovered s archive d (.error e) d'

section
variable {s : Before} {archive : Archive} {entries : Directory} {t : RestoreTransaction}
  {d d' : Disk}

theorem recoverTransaction_keeps {c : Option Bytes} {x o r : Bool}
    (hI : Interrupted s archive.state d) (hx : (d.tree .target).isSome = x)
    (ho : (d.tree .old).isSome = o) (hr : (d.tree .replacement).isSome = r)
    (h : (resumeRestore t x o r).Keeps disk (Interrupted s archive.state) false
      (Ends false (fun t' d' => t'.external = s.external ∧ Settled s entries c d')
        (Failed false fun _ => True)) d) :
    (recoverTransaction t).Keeps disk (Interrupted s archive.state) false
      (fun _ r d' => r = .ok () ∧ Finished s entries c d') d := by
  subst hx ho hr
  refine test_bind rfl (fun _ h' => h') rfl hI ?_
  refine test_bind rfl (fun _ h' => h') rfl hI ?_
  refine test_bind rfl (fun _ h' => h') rfl hI ?_
  refine Keeps.andThen (Keeps.bind h fun t' d' h' =>
    finalizeRestoreTransaction_keeps h'.1 h'.2) fun b' r d' hends => ?_
  cases r with
  | ok => exact ⟨rfl, hends.2⟩
  | error e => simp [Ends, Failed] at hends

theorem recoverTransaction_raises {x o r : Bool} (hI : Interrupted s archive.state d)
    (hx : (d.tree .target).isSome = x) (ho : (d.tree .old).isSome = o)
    (hr : (d.tree .replacement).isSome = r)
    (h : (resumeRestore t x o r).Keeps disk (Interrupted s archive.state) false
      (fun _ r _ => ∃ detail, r = .error (.osError detail)) d) :
    (recoverTransaction t).Keeps disk (Interrupted s archive.state) false
      (fun _ r _ => ∃ e, r = .error e) d := by
  subst hx ho hr
  refine test_bind rfl (fun _ h' => h') rfl hI ?_
  refine test_bind rfl (fun _ h' => h') rfl hI ?_
  refine test_bind rfl (fun _ h' => h') rfl hI ?_
  refine Keeps.andThen (Q := fun _ r _ => ∃ detail, r = .error (.osError detail)) ?_ ?_
  · refine h.andThen fun b' r y hr => ?_
    obtain ⟨detail, rfl⟩ := hr
    exact ⟨detail, rfl⟩
  · rintro _ _ _ ⟨detail, rfl⟩
    exact ⟨_, rfl⟩

theorem recoverTransaction_recovered (hmarker : d.marker = some (some t)) (ht : Describes s t)
    (hsound : Sound s archive.state d) :
    (recoverTransaction t).Keeps disk (Interrupted s archive.state) false
      (fun _ => Recovered s archive d) d := by
  have hrecorded : Recorded s d := ⟨t, hmarker, ht⟩
  have hI : Interrupted s archive.state d := .inr ⟨hrecorded, hsound⟩
  cases htarget : d.tree .target with
  | some entries =>
      by_cases hcase : t.phase ≠ .prepared ∧ s.external = true
      · cases hentry : entries.file "config.json" with
        | some c =>
            refine (recoverTransaction_keeps hI (by simp [htarget]) rfl rfl
              (resume_config ht hrecorded htarget hcase.1 hcase.2 (hsound.config hcase.2)
                hentry)).mono ?_
            rintro _ _ d' ⟨rfl, hfinished⟩
            exact .configured hmarker htarget hcase hentry hfinished
        | none =>
            refine (recoverTransaction_raises hI (by simp [htarget]) rfl rfl
              (resume_missing ht hrecorded htarget hcase.1 hcase.2 (hsound.config hcase.2)
                hentry)).mono ?_
            rintro _ _ d' ⟨e, rfl⟩
            exact .raises hmarker htarget hcase hentry
      · refine (recoverTransaction_keeps hI (by simp [htarget]) rfl rfl
          (resume_target ht hrecorded htarget hcase hsound.config)).mono ?_
        rintro _ _ d' ⟨rfl, hfinished⟩
        exact .stays hmarker htarget hcase hfinished
  | none =>
      have huntouched : Untouched s d := fun hx => hsound.early hx htarget
      rcases hsound.away htarget with ⟨hsome, hold⟩ | ⟨hnone, hold, hreplacement⟩
      · obtain ⟨entries, hdata⟩ := Option.isSome_iff_exists.1 hsome
        refine (recoverTransaction_keeps hI (by simp [htarget]) (by simp [hold, hdata]) rfl
          (resume_old ht hrecorded hdata htarget hold huntouched)).mono ?_
        rintro _ _ d' ⟨rfl, hfinished⟩
        exact .back hmarker htarget hdata hfinished
      · have hearly : Early s archive.state t d :=
          ⟨ht, hrecorded, .inl ⟨htarget.trans hnone.symm, hold, hreplacement⟩, huntouched⟩
        refine (recoverTransaction_keeps (x := false) (o := false) (r := true) hI (by simp [htarget])
          (by simp [hold]) (by simp [hreplacement])
          (installReplacement_keeps hearly htarget hreplacement)).mono ?_
        rintro _ _ d' ⟨rfl, hfinished⟩
        exact .forward hmarker htarget hfinished

theorem recover_keeps (h : Interrupted s archive.state d) :
    recoverRestoreTransaction.Keeps disk (Interrupted s archive.state) false
      (fun _ => Recovered s archive d) d := by
  refine test_bind rfl (fun _ h' => h') rfl h ?_
  rcases h with hnone | ⟨⟨t, hmarker, ht⟩, hsound⟩
  · rw [if_neg (by simp [hnone])]
    exact .idle hnone
  · have hI : Interrupted s archive.state d := .inr ⟨⟨t, hmarker, ht⟩, hsound⟩
    rw [if_pos (by simp [hmarker])]
    refine Keeps.sure_bind (A := fun x d' => x = t ∧ d' = d) ?_ ?_
    · refine Keeps.sure_bind (A := fun x d' => x = some t ∧ d' = d) ?_ ?_
      · refine Keeps.andThen (atomic (a := some t) (x := d) (A := fun x d' => x = some t ∧ d' = d)
          (F := fun _ _ => False) ?_ ⟨rfl, rfl⟩ hI hI (fun _ h' => h') (by simp)) ?_
        · simp [exec, hmarker]
        · intro b' r d' hends
          cases r with
          | ok => exact hends
          | error e => exact hends.2.elim
      · rintro _ x ⟨rfl, hx⟩
        exact keeps_pure ⟨rfl, hx⟩
    · rintro _ x ⟨rfl, hx⟩
      subst hx
      exact recoverTransaction_recovered hmarker ht hsound

theorem Reached.interrupted (h : Reached s archive d) : Interrupted s archive.state d := by
  induction h with
  | replace hstaged hstops => exact (replaceState_keeps hstaged).stops hstaged.interrupted hstops
  | recover _ hstops ih => exact (recover_keeps ih).stops ih hstops

theorem Recovered.same (h : Finished s entries (d.file .config) d')
    (htarget : d.tree .target = some entries) :
    AllOld s d' ∨ AllNew s archive d' ↔ AllOld s d ∨ AllNew s archive d := by
  have hconfig : ∀ x, (s.external = true → d'.file .config = x) ↔
      (s.external = true → d.file .config = x) := fun x =>
    forall_congr' fun hx => by rw [(h.config hx).1]
  rw [AllOld, AllNew, AllOld, AllNew, hconfig, hconfig, h.target, htarget]

theorem Recovered.consistent {c : Bytes} (h : Finished s entries (some c) d')
    (hexternal : s.external = true) (hentry : entries.file "config.json" = some c) :
    AllOld s d' ∨ AllNew s archive d' ↔ Consistent s archive entries := by
  have hconfig : d'.file .config = some c := (h.config hexternal).1
  constructor
  · rintro (⟨hdata, hold⟩ | ⟨hstate, -⟩)
    · exact .inr ⟨hdata.symm.trans h.target, c, hentry, (hold hexternal).symm.trans hconfig⟩
    · exact .inl (Option.some.inj (h.target.symm.trans hstate))
  · rintro (rfl | ⟨hdata, c', hentry', hsame⟩)
    · obtain rfl : archive.config = c := Option.some.inj (archive.rewritten.symm.trans hentry)
      exact .inr ⟨h.target, fun _ => hconfig⟩
    · obtain rfl : c = c' := Option.some.inj (hentry.symm.trans hentry')
      exact .inl ⟨h.target.trans hdata.symm, fun _ => hconfig.trans hsame.symm⟩

theorem Recovered.whole {r : Except BackupFailure Unit} (h : Recovered s archive d r d') :
    r = .ok () ∧ d'.marker = none ∧ (AllOld s d' ∨ AllNew s archive d') ↔
      Recoverable s archive d := by
  cases h with
  | idle hmarker => simp [Recoverable, hmarker]
  | back hmarker htarget hdata hfinished =>
      refine iff_of_true ⟨rfl, hfinished.marker, .inl ⟨?_, fun hx => (hfinished.config hx).1⟩⟩ ?_
      · rw [hfinished.target, hdata]
      · simp [Recoverable, hmarker, htarget]
  | forward hmarker htarget hfinished =>
      refine iff_of_true ⟨rfl, hfinished.marker, .inr ⟨hfinished.target,
        fun hx => (hfinished.config hx).1⟩⟩ ?_
      simp [Recoverable, hmarker, htarget]
  | stays hmarker htarget hcase hfinished =>
      have hsame : AllOld s d' ∨ AllNew s archive d' ↔ AllOld s d ∨ AllNew s archive d :=
        Recovered.same hfinished htarget
      simp only [Recoverable, hmarker, htarget, if_neg hcase, hfinished.marker, true_and, hsame]
  | configured hmarker htarget hcase hentry hfinished =>
      have hsame : AllOld s d' ∨ AllNew s archive d' ↔ Consistent s archive _ :=
        Recovered.consistent hfinished hcase.2 hentry
      simp only [Recoverable, hmarker, htarget, if_pos hcase, hfinished.marker, true_and, hsame]
  | @raises _ entries _ _ hmarker htarget hcase hentry =>
      refine iff_of_false (by simp) ?_
      simp only [Recoverable, hmarker, htarget, if_pos hcase]
      rintro (rfl | ⟨-, c, hc, -⟩)
      · cases hentry.symm.trans archive.rewritten
      · cases hentry.symm.trans hc

end

section Samples

def stagedDisk : Disk := ((stageArchive true true sampleArchive).complete disk usedDisk).2

/-- The crash comes when the old data directory is away and the marker says so. -/
def movedDisk : Disk := crashAfter disk 20 (replaceState true) stagedDisk

/-- The next one comes when a recovery has put it back. -/
def returnedDisk : Disk := crashAfter disk 9 recoverRestoreTransaction movedDisk

theorem movedDisk_reached : Reached usedBefore sampleArchive movedDisk := by
  have hrest : AtRest usedBefore usedDisk := ⟨rfl, rfl, rfl, fun _ => ⟨rfl, rfl⟩⟩
  have hstage : (stageArchive usedBefore.external true sampleArchive).complete disk usedDisk =
      (.ok (), stagedDisk) := rfl
  have hstaged := stageArchive_staged hrest hstage
  exact .replace hstaged (stops_crashAfter (p := replaceState usedBefore.external) 20)

end Samples

end BackupManager
end Polaris
