import Polaris.Backup.Steps

namespace Polaris
namespace BackupManager
open Program FsCall

/-- The state before a restore: whether the configuration file is external, and what the data
directory and that file held. -/
structure Before where
  external : Bool
  data : Option Directory
  config : Option Bytes

section
variable (s : Before) (state : Directory)

structure Describes (t : RestoreTransaction) : Prop where
  external : t.external = s.external
  target : t.targetExisted = s.data.isSome
  config : s.external = true → t.configExisted = s.config.isSome

def Recorded (d : Disk) : Prop := ∃ t, d.marker = some (some t) ∧ Describes s t

/-- What a crash may leave once the marker is there. -/
structure Sound (d : Disk) : Prop where
  config : s.external = true → s.config.isSome = true → (d.file .config).isSome = true
  away : d.tree .target = none →
    s.data.isSome = true ∧ d.tree .old = s.data ∨
      s.data = none ∧ d.tree .old = none ∧ d.tree .replacement = some state
  early : s.external = true → d.tree .target = none →
    d.file .config = s.config ∧ d.file .oldConfig = none

def Interrupted (d : Disk) : Prop := d.marker = none ∨ Recorded s d ∧ Sound s state d

/-- The configuration file can be brought back from what the disk holds. -/
structure Undoable (t : RestoreTransaction) (d : Disk) : Prop where
  kept : d.file .oldConfig = none →
    d.file .config = s.config ∨ s.config = none ∧ t.phase.late = true ∧ d.configDirectory = true
  saved : ∀ x, d.file .oldConfig = some x → s.config = some x ∧ d.configDirectory = true

def Waiting (d : Disk) : Prop :=
  d.tree .target = s.data ∧ d.tree .old = none ∧ d.tree .replacement = some state

def Moved (d : Disk) : Prop :=
  s.data.isSome = true ∧ d.tree .target = none ∧ d.tree .old = s.data ∧
    d.tree .replacement = some state

def Installed (d : Disk) : Prop :=
  d.tree .target = some state ∧ d.tree .old = s.data ∧ d.tree .replacement = none

def Untouched (d : Disk) : Prop :=
  s.external = true → d.file .config = s.config ∧ d.file .oldConfig = none

/-- Where a step of the installation may fail. -/
structure Midway (t : RestoreTransaction) (d : Disk) : Prop where
  describes : Describes s t
  recorded : Recorded s d
  place : (Waiting s state d ∨ Moved s state d) ∧ Untouched s d ∨
    Installed s state d ∧ (s.external = true → Undoable s t d ∧
      (s.config.isSome = true → (d.file .config).isSome = true))

variable {s state} {t : RestoreTransaction} {d d' : Disk}

theorem Describes.at (h : Describes s t) (f : RestorePhase) :
    Describes s { t with phase := f } := ⟨h.external, h.target, h.config⟩

theorem sound_of_target {x : Directory} (htarget : d.tree .target = some x)
    (hconfig : s.external = true → s.config.isSome = true → (d.file .config).isSome = true) :
    Sound s state d :=
  ⟨hconfig, fun h => by simp [htarget] at h, fun _ h => by simp [htarget] at h⟩

theorem Midway.interrupted (h : Midway s state t d) : Interrupted s state d := by
  refine .inr ⟨h.recorded, ?_⟩
  rcases h.place with ⟨hplace, huntouched⟩ | ⟨hinstalled, hconfig⟩
  · refine ⟨fun hx hc => ?_, fun ht => ?_, fun hx _ => huntouched hx⟩
    · rw [(huntouched hx).1]
      exact hc
    · rcases hplace with ⟨htarget, hold, hreplacement⟩ | ⟨hsome, -, hold, -⟩
      · exact .inr ⟨htarget ▸ ht, hold, hreplacement⟩
      · exact .inl ⟨hsome, hold⟩
  · exact sound_of_target hinstalled.1 fun hx => (hconfig hx).2

/-- Where the installation of the external configuration stands; it can be taken back as long as a
step of it may fail. -/
structure Configuring (s : Before) (state entries : Directory) (b : Bool) (t : RestoreTransaction)
    (d : Disk) : Prop where
  describes : Describes s t
  recorded : Recorded s d
  target : d.tree .target = some entries
  config : s.config.isSome = true → (d.file .config).isSome = true
  undo : b = true → Installed s state d ∧ Undoable s t d

section
variable {entries : Directory} {b : Bool}

theorem Configuring.interrupted (h : Configuring s state entries b t d) : Interrupted s state d :=
  .inr ⟨h.recorded, sound_of_target h.target fun _ => h.config⟩

theorem Configuring.midway (h : Configuring s state entries true t d) : Midway s state t d :=
  ⟨h.describes, h.recorded, .inr ⟨(h.undo rfl).1, fun _ => ⟨(h.undo rfl).2, h.config⟩⟩⟩

theorem Configuring.failed (h : Configuring s state entries b t d) :
    b = true → Midway s state t d := by
  rintro rfl
  exact h.midway

theorem Configuring.temporary (h : Configuring s state entries b t d) {x} :
    Configuring s state entries b t { d with temporary := x } :=
  ⟨h.describes, h.recorded, h.target, h.config,
    fun hb => ⟨(h.undo hb).1, (h.undo hb).2.kept, (h.undo hb).2.saved⟩⟩

theorem Configuring.marked (h : Configuring s state entries b t d) (hd' : Marked t d d') :
    Configuring s state entries b t d' := by
  obtain ⟨x, rfl⟩ := hd'
  exact ⟨h.describes, ⟨t, rfl, h.describes⟩, h.target, h.config,
    fun hb => ⟨(h.undo hb).1, (h.undo hb).2.kept, (h.undo hb).2.saved⟩⟩

theorem Configuring.staged (h : Configuring s state entries b t d) {x : Option Bytes} :
    Configuring s state entries b t (d.setFile .stagedConfig x) :=
  ⟨h.describes, h.recorded, h.target, h.config,
    fun hb => ⟨(h.undo hb).1, (h.undo hb).2.kept, (h.undo hb).2.saved⟩⟩

theorem Configuring.mkdir (h : Configuring s state entries b t d) :
    Configuring s state entries b t { d with configDirectory := true } := by
  refine ⟨h.describes, h.recorded, h.target, h.config, fun hb => ⟨(h.undo hb).1, ?_, ?_⟩⟩
  · exact fun hold => ((h.undo hb).2.kept hold).imp_right fun ⟨hc, hlate, _⟩ => ⟨hc, hlate, rfl⟩
  · exact fun x hx => ⟨((h.undo hb).2.saved x hx).1, rfl⟩

theorem Configuring.late (h : Configuring s state entries b t d) {f : RestorePhase}
    (hlate : f.late = true) : Configuring s state entries b { t with phase := f } d :=
  ⟨h.describes.at f, h.recorded, h.target, h.config, fun hb => ⟨(h.undo hb).1,
    fun hold => ((h.undo hb).2.kept hold).imp_right fun ⟨hc, _, hdir⟩ => ⟨hc, hlate, hdir⟩,
    (h.undo hb).2.saved⟩⟩

theorem Configuring.backup (h : Configuring s state entries b t d) {x : Bytes}
    (hsome : s.config.isSome = true) (hold : d.file .oldConfig = none)
    (hx : d.file .config = some x) (hdir : d.configDirectory = true) :
    Configuring s state entries b t (d.setFile .oldConfig (some x)) := by
  refine ⟨h.describes, h.recorded, h.target, h.config, fun hb => ⟨(h.undo hb).1, ?_, ?_⟩⟩
  · simp
  · rintro y hy
    obtain rfl : x = y := by simpa using hy
    rcases (h.undo hb).2.kept hold with hc | ⟨hnone, -⟩
    · exact ⟨hc ▸ hx, hdir⟩
    · simp [hnone] at hsome

theorem Configuring.replace (h : Configuring s state entries b t d) {x : Bytes}
    (hlate : t.phase.late = true) (hdir : d.configDirectory = true)
    (hold : s.config.isSome = true → (d.file .oldConfig).isSome = true) :
    Configuring s state entries b t ((d.setFile .stagedConfig none).setFile .config (some x)) := by
  refine ⟨h.describes, h.recorded, h.target, by simp, fun hb => ⟨(h.undo hb).1, ?_, ?_⟩⟩
  · intro hnone
    have hnone' : d.file .oldConfig = none := by simpa using hnone
    refine .inr ⟨?_, hlate, hdir⟩
    by_contra hsome
    have := hold (Option.isSome_iff_ne_none.2 hsome)
    simp [hnone'] at this
  · intro y hy
    exact (h.undo hb).2.saved y (by simpa using hy)

theorem saveConfig_keeps (h : Configuring s state entries b t d) (hexternal : s.external = true)
    (hdir : d.configDirectory = true) :
    (saveConfig t).Keeps disk (Interrupted s state) b
      (Ends b (fun _ d' => Configuring s state entries b t d' ∧ d'.configDirectory = true ∧
          (s.config.isSome = true → (d'.file .oldConfig).isSome = true))
        (Failed b (Midway s state t))) d := by
  have hconfig : t.configExisted = s.config.isSome := h.describes.config hexternal
  refine test_bind rfl (fun _ h' => h') rfl h.interrupted ?_
  · cases hcase : t.configExisted && !(d.file .oldConfig).isSome with
    | false =>
        refine keeps_pure ⟨h, hdir, fun hsome => ?_⟩
        rw [hconfig, hsome] at hcase
        simpa using hcase
    | true =>
        obtain ⟨hexisted, hold⟩ := by simpa using hcase
        have hsome : s.config.isSome = true := hconfig ▸ hexisted
        obtain ⟨x, hx⟩ := Option.isSome_iff_exists.1 (h.config hsome)
        have hsaved := h.backup hsome hold hx hdir
        refine Keeps.bind (A := fun _ d' => d' = d.setFile .oldConfig (some x)) ?_ ?_
        · refine (copyFileDurable_keeps (p := .file .config) hx hold hdir fun y => ?_).ends (fun _ _ h' => h') ?_
          · exact .inr ⟨h.recorded, sound_of_target h.target fun _ => h.config⟩
          · rintro err d' ⟨hb, hdetail, rfl⟩
            exact ⟨hb, hdetail, h.failed hb⟩
        · rintro _ _ rfl
          refine atomic (a := ()) (x := d.setFile .oldConfig (some x)) ?_ ⟨hsaved, hdir, by simp⟩
            hsaved.interrupted hsaved.interrupted (fun _ h' => h') fun hb _ detail => ?_
          · simp [exec, need, hdir]
          · exact ⟨hb, ⟨detail, rfl⟩, hsaved.failed hb⟩

theorem stageConfig_keeps {c : Bytes} (h : Configuring s state entries b t d)
    (hexternal : s.external = true) (hentry : entries.file "config.json" = some c) :
    (stageConfig t).Keeps disk (Interrupted s state) b
      (Ends b (fun _ d' => Configuring s state entries b t d' ∧ d'.configDirectory = true ∧
          (s.config.isSome = true → (d'.file .oldConfig).isSome = true) ∧
          d'.file .stagedConfig = some c)
        (Failed b (Midway s state t))) d := by
  refine atomic_bind (a := ()) rfl h.interrupted h.mkdir.interrupted (fun _ h' => h')
    (fun hb _ detail => ⟨hb, ⟨detail, rfl⟩, h.failed hb⟩) ?_
  refine Keeps.bind (saveConfig_keeps h.mkdir hexternal rfl) ?_
  rintro _ d₁ ⟨h₁, hdir, hsaved⟩
  refine atomic_bind (a := ()) (x := d₁.setFile .stagedConfig none) ?_ h₁.interrupted
    h₁.staged.interrupted (fun _ h' => h') (fun hb _ detail => ⟨hb, ⟨detail, rfl⟩, h₁.failed hb⟩) ?_
  · simp [exec, need]
  have hparent : (d₁.setFile .stagedConfig none).configDirectory = true := hdir
  refine (copyFileDurable_keeps (c := c) ?_ ?_ hparent fun y => ?_).ends ?_ ?_
  · simp [content, h₁.target, hentry]
  · simp
  · exact h₁.staged.staged.interrupted
  · rintro _ _ rfl
    exact ⟨h₁.staged.staged, hdir, by simpa using hsaved, by simp⟩
  · rintro err _ ⟨hb, hdetail, rfl⟩
    exact ⟨hb, hdetail, h₁.staged.failed hb⟩

theorem installed_interrupted (h : Configuring s state entries b t d) (hd' : Unmarked d d') :
    Interrupted s state d' := by
  obtain ⟨x, rfl⟩ := hd'
  exact h.temporary.interrupted

theorem persist_configuring (h : Configuring s state entries b t d) {f : RestorePhase}
    (hlate : f.late = true) :
    (persistRestoreTransaction { t with phase := f }).Keeps disk (Interrupted s state) b
      (Ends b (fun _ => Marked { t with phase := f } d)
        (Failed b (Midway s state { t with phase := f }))) d := by
  have h' := h.late hlate
  refine (persistRestoreTransaction_keeps (fun x hx => ?_) fun x hx => ?_).ends
    (fun _ _ hd' => hd') ?_
  · exact installed_interrupted h hx
  · exact (h'.marked hx).interrupted
  · rintro err d' ⟨hb, hdetail, ⟨x, rfl⟩ | hd'⟩
    · exact ⟨hb, hdetail, h'.temporary.failed hb⟩
    · exact ⟨hb, hdetail, (h'.marked hd').failed hb⟩

/-- How an attempt ends: all of it done, or stopped by a fault where it can be undone. -/
def Attempted (s : Before) (state : Directory) (done : RestoreTransaction → Disk → Prop) (b b' : Bool)
    (r : Except BackupFailure Attempt) (d : Disk) : Prop :=
  ∃ a, r = .ok a ∧
    (a.failure = none ∧ b' = b ∧ done a.transaction d ∨
      a.failure.isSome = true ∧ b = true ∧ b' = false ∧ Midway s state a.transaction d)

/-- The data directory holds `entries` and the configuration file its `config.json`. -/
structure Configured (s : Before) (state entries : Directory) (c : Bytes) (t : RestoreTransaction)
    (d : Disk) : Prop where
  describes : Describes s t
  recorded : Recorded s d
  target : d.tree .target = some entries
  config : d.file .config = some c

theorem installExternalConfig_keeps {c : Bytes} (h : Configuring s state entries b t d)
    (hexternal : s.external = true) (hentry : entries.file "config.json" = some c) :
    (installExternalConfig t).Keeps disk (Interrupted s state) b
      (Attempted s state (Configured s state entries c) b) d := by
  have hfault : ∀ {t : RestoreTransaction} {detail : String} {d' : Disk}, b = true →
      Midway s state t d' → Attempted s state (Configured s state entries c) b false
        (.ok ⟨t, some detail⟩) d' := fun hb hm => ⟨_, rfl, .inr ⟨rfl, hb, rfl, hm⟩⟩
  refine trying_keeps (stageConfig_keeps h hexternal hentry) ?_ fun _ _ => hfault
  rintro d₁ ⟨h₁, hdir, hsaved, hstaged⟩
  have hlate : RestorePhase.configPrepared.late = true := rfl
  refine trying_keeps (persist_configuring h₁ hlate) ?_ fun _ _ => hfault
  rintro d₂ hd₂
  have h₂ := (h₁.late hlate).marked hd₂
  have hdir₂ : d₂.configDirectory = true := hd₂.configDirectory ▸ hdir
  have h₃ := h₂.replace (x := c) hlate hdir₂ (hd₂.file ▸ hsaved)
  refine trying_keeps
    (A := fun d' => d' = (d₂.setFile .stagedConfig none).setFile .config (some c)) ?_ ?_
    fun _ _ => hfault
  · refine atomic_bind (a := ()) ?_ h₂.interrupted h₃.interrupted (fun _ h' => h')
      (fun hb _ detail => ⟨hb, ⟨detail, rfl⟩, h₂.failed hb⟩) ?_
    · simp [exec, hd₂.file, hstaged]
    refine atomic (a := ()) ?_ rfl h₃.interrupted h₃.interrupted (fun _ h' => h')
      (fun hb _ detail => ⟨hb, ⟨detail, rfl⟩, h₃.failed hb⟩)
    simp [exec, need, hdir₂]
  rintro _ rfl
  refine trying_keeps (persist_configuring h₃ (f := .configInstalled) rfl) ?_ fun _ _ => hfault
  rintro d₄ hd₄
  have h₄ := (h₃.late (f := .configInstalled) rfl).marked hd₄
  exact ⟨_, rfl, .inl ⟨rfl, rfl, h₄.describes, h₄.recorded, h₄.target, by simp [hd₄.file]⟩⟩

end

/-- Before the new data directory is in place. -/
structure Early (s : Before) (state : Directory) (t : RestoreTransaction) (d : Disk) : Prop where
  describes : Describes s t
  recorded : Recorded s d
  place : Waiting s state d ∨ Moved s state d
  untouched : Untouched s d

/-- The new data directory is in place, the configuration file as it was. -/
structure Placed (s : Before) (state : Directory) (t : RestoreTransaction) (d : Disk) : Prop where
  describes : Describes s t
  recorded : Recorded s d
  installed : Installed s state d
  untouched : Untouched s d

theorem Early.midway (h : Early s state t d) : Midway s state t d :=
  ⟨h.describes, h.recorded, .inl ⟨h.place, h.untouched⟩⟩

theorem Placed.undoable (h : Placed s state t d) (hexternal : s.external = true) :
    Undoable s t d :=
  ⟨fun _ => .inl (h.untouched hexternal).1, fun x hx => by simp [(h.untouched hexternal).2] at hx⟩

theorem Placed.configuring (h : Placed s state t d) (hexternal : s.external = true) {b : Bool} :
    Configuring s state state b t d :=
  ⟨h.describes, h.recorded, h.installed.1, fun hc => (h.untouched hexternal).1 ▸ hc,
    fun _ => ⟨h.installed, h.undoable hexternal⟩⟩

theorem Placed.midway (h : Placed s state t d) : Midway s state t d :=
  ⟨h.describes, h.recorded, .inr ⟨h.installed, fun hexternal =>
    ⟨h.undoable hexternal, fun hc => (h.untouched hexternal).1 ▸ hc⟩⟩⟩

section
variable {f : RestorePhase}

theorem Early.marked (h : Early s state t d) (hd' : Marked { t with phase := f } d d') :
    Early s state { t with phase := f } d' := by
  obtain ⟨x, rfl⟩ := hd'
  exact ⟨h.describes.at f, ⟨_, rfl, h.describes.at f⟩, h.place, h.untouched⟩

theorem Early.unmarked (h : Early s state t d) (hd' : Unmarked d d') :
    Early s state { t with phase := f } d' := by
  obtain ⟨x, rfl⟩ := hd'
  exact ⟨h.describes.at f, h.recorded, h.place, h.untouched⟩

theorem Placed.marked (h : Placed s state t d) (hd' : Marked { t with phase := f } d d') :
    Placed s state { t with phase := f } d' := by
  obtain ⟨x, rfl⟩ := hd'
  exact ⟨h.describes.at f, ⟨_, rfl, h.describes.at f⟩, h.installed, h.untouched⟩

theorem Placed.unmarked (h : Placed s state t d) (hd' : Unmarked d d') :
    Placed s state { t with phase := f } d' := by
  obtain ⟨x, rfl⟩ := hd'
  exact ⟨h.describes.at f, h.recorded, h.installed, h.untouched⟩

/-- The marker is written where every state it may leave can be undone. -/
theorem persist_midway {b : Bool} {P : Disk → Prop}
    (hmarked : ∀ x, Marked { t with phase := f } d x → P x ∧ Midway s state { t with phase := f } x)
    (hunmarked : ∀ x, Unmarked d x → Midway s state { t with phase := f } x) :
    (persistRestoreTransaction { t with phase := f }).Keeps disk (Interrupted s state) b
      (Ends b (fun _ => P) (Failed b (Midway s state { t with phase := f }))) d := by
  refine (persistRestoreTransaction_keeps (fun x hx => (hunmarked x hx).interrupted)
    fun x hx => (hmarked x hx).2.interrupted).ends (fun _ x hx => (hmarked x hx).1) ?_
  rintro err x ⟨hb, hdetail, hx⟩
  exact ⟨hb, hdetail, hx.elim (hunmarked x) fun hx => (hmarked x hx).2⟩

end

section
variable {b : Bool}

theorem fsyncParent_keeps {P : Disk → Prop} (hP : P d) (hm : Midway s state t d) :
    (perform .fsyncParent : Restore Unit).Keeps disk (Interrupted s state) b
      (Ends b (fun _ => P) (Failed b (Midway s state t))) d :=
  atomic (a := ()) (x := d) rfl hP hm.interrupted hm.interrupted (fun _ h => h) (failed hm)

theorem moveOld_keeps (h : Early s state t d) (hwaiting : Waiting s state d) :
    (moveOld t).Keeps disk (Interrupted s state) b
      (Ends b (fun _ d' => Early s state t d' ∧ d'.tree .target = none)
        (Failed b (Midway s state t))) d := by
  cases hdata : s.data with
  | none =>
      have hexisted : t.targetExisted = false := by rw [h.describes.target, hdata]; rfl
      simp only [moveOld, hexisted, Bool.false_eq_true, if_false]
      exact keeps_pure ⟨h, hwaiting.1.trans hdata⟩
  | some entries =>
      have hexisted : t.targetExisted = true := by rw [h.describes.target, hdata]; rfl
      have htarget : d.tree .target = some entries := hwaiting.1.trans hdata
      have hmoved : Early s state t ((d.setTree .target none).setTree .old (some entries)) :=
        ⟨h.describes, h.recorded, .inr ⟨by simp [hdata], by simp, by simp [hdata],
          by simp [hwaiting.2.2]⟩, h.untouched⟩
      simp only [moveOld, hexisted, if_true]
      refine atomic_bind (a := ()) ?_ h.midway.interrupted hmoved.midway.interrupted (fun _ h' => h')
        (failed h.midway) ?_
      · simp [exec, htarget, hwaiting.2.1]
      · exact fsyncParent_keeps ⟨hmoved, by simp⟩ hmoved.midway

theorem moveReplacement_keeps (h : Early s state t d) (htarget : d.tree .target = none) :
    moveReplacement.Keeps disk (Interrupted s state) b
      (Ends b (fun _ => Placed s state t) (Failed b (Midway s state t))) d := by
  have hplaced : Placed s state t ((d.setTree .replacement none).setTree .target (some state)) := by
    refine ⟨h.describes, h.recorded, ⟨by simp, ?_, by simp⟩, h.untouched⟩
    rcases h.place with ⟨hdata, hold, -⟩ | ⟨-, -, hold, -⟩
    · simp [hold, ← hdata, htarget]
    · simp [hold]
  have hreplacement : d.tree .replacement = some state := h.place.elim (·.2.2) (·.2.2.2)
  refine atomic_bind (a := ()) ?_ h.midway.interrupted hplaced.midway.interrupted (fun _ h' => h')
    (failed h.midway) (fsyncParent_keeps hplaced hplaced.midway)
  simp [exec, hreplacement, htarget]

/-- The state directory is in place, and where the configuration is external its file is too. -/
structure Complete (s : Before) (state : Directory) (c : Bytes) (t : RestoreTransaction) (d : Disk) :
    Prop where
  describes : Describes s t
  recorded : Recorded s d
  target : d.tree .target = some state
  config : s.external = true → d.file .config = some c

theorem installState_keeps {c : Bytes} (h : Early s state t d) (hwaiting : Waiting s state d)
    (hentry : state.file "config.json" = some c) :
    (installState t).Keeps disk (Interrupted s state) b
      (Attempted s state (Complete s state c) b) d := by
  have hfault : ∀ {t : RestoreTransaction} {detail : String} {d' : Disk}, b = true →
      Midway s state t d' → Attempted s state (Complete s state c) b false
        (.ok ⟨t, some detail⟩) d' := fun hb hm => ⟨_, rfl, .inr ⟨rfl, hb, rfl, hm⟩⟩
  refine trying_keeps (moveOld_keeps h hwaiting) ?_ fun _ _ => hfault
  rintro d₁ ⟨h₁, htarget⟩
  refine trying_keeps (persist_midway
    (P := fun x => Early s state { t with phase := .oldMoved } x ∧ x.tree .target = none)
    (fun x hx => ⟨⟨h₁.marked hx, hx.tree ▸ htarget⟩, (h₁.marked hx).midway⟩)
    fun x hx => (h₁.unmarked hx).midway) ?_ fun _ _ => hfault
  rintro d₂ ⟨h₂, htarget⟩
  refine trying_keeps (moveReplacement_keeps h₂ htarget) ?_ fun _ _ => hfault
  intro d₃ h₃
  refine trying_keeps (persist_midway (P := Placed s state { t with phase := .dataInstalled })
    (fun x hx => ⟨h₃.marked hx, (h₃.marked hx).midway⟩)
    fun x hx => (h₃.unmarked hx).midway) ?_ fun _ _ => hfault
  intro d₄ h₄
  cases hexternal : s.external with
  | false =>
      have ht : t.external = false := h.describes.external.trans hexternal
      rw [if_neg (by simp [ht])]
      exact ⟨_, rfl, .inl ⟨rfl, rfl, h₄.describes, h₄.recorded, h₄.installed.1,
        by simp [hexternal]⟩⟩
  | true =>
      have ht : t.external = true := h.describes.external.trans hexternal
      rw [if_pos (by exact ht)]
      refine (installExternalConfig_keeps (h₄.configuring hexternal) hexternal hentry).mono ?_
      rintro b' r d' ⟨a, rfl, ⟨hnone, hb, hdone⟩ | hfailed⟩
      · exact ⟨a, rfl, .inl ⟨hnone, hb, hdone.describes, hdone.recorded, hdone.target,
          fun _ => hdone.config⟩⟩
      · exact ⟨a, rfl, .inr hfailed⟩

end

end

end BackupManager
end Polaris
