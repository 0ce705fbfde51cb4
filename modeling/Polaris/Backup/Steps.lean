import Polaris.Backup.Archive

namespace Polaris
namespace BackupManager
open Program FsCall

section Calls
variable {I : Disk → Prop} {b : Bool} {α β : Type} {B : α → Disk → Prop}
  {F : BackupFailure → Disk → Prop} {d x : Disk} {e : FsCall β} {f : β → Restore α}

theorem atomic_bind {a : β} (hstep : exec e d = (.ok a, x)) (hI : I d) (hI' : I x)
    (htorn : ∀ y, torn e d y → y = d)
    (hF : b = true → e.fallible = true → ∀ detail, F (.osError detail) d)
    (hrest : (f a).Keeps disk I b (Ends b B F) x) :
    (perform e >>= f).Keeps disk I b (Ends b B F) d := by
  refine Keeps.call_bind hstep hI' (fun y hy => ?_) (fun hb err y hy => ?_) hrest
  · rw [htorn y hy]
    exact hI
  · obtain ⟨hfallible, ⟨detail, rfl⟩, hy⟩ := hy
    rw [htorn y hy]
    exact ⟨hI, hF hb hfallible detail⟩

theorem atomic {a : β} {A : β → Disk → Prop} (hstep : exec e d = (.ok a, x)) (hA : A a x)
    (hI : I d) (hI' : I x) (htorn : ∀ y, torn e d y → y = d)
    (hF : b = true → e.fallible = true → ∀ detail, F (.osError detail) d) :
    (perform e : Restore β).Keeps disk I b (Ends b A F) d := by
  refine keeps_perform hstep hA hI' (fun y hy => ?_) (fun hb err y hy => ?_)
  · rw [htorn y hy]
    exact hI
  · obtain ⟨hfallible, ⟨detail, rfl⟩, hy⟩ := hy
    rw [htorn y hy]
    exact ⟨hI, hF hb hfallible detail⟩

theorem test_bind {e : FsCall Bool} {r : Bool} {f : Bool → Restore α}
    {Q : Bool → Except BackupFailure α → Disk → Prop} (hstep : exec e d = (.ok r, d))
    (htorn : ∀ y, torn e d y → y = d) (hsure : e.fallible = false) (hI : I d)
    (hrest : (f r).Keeps disk I b Q d) : (perform e >>= f).Keeps disk I b Q d := by
  have hstep' : disk.step e d = (.ok r, d) := hstep
  refine ⟨fun y hy => htorn y hy ▸ hI, ?_, ?_, fun _ err y hy => ?_⟩
  · rw [hstep']
    exact hI
  · rw [hstep']
    exact hrest
  · obtain ⟨hfallible, -⟩ := hy
    simp [hsure] at hfallible

/-- An injected fault, and what the failed call leaves. -/
def Failed (b : Bool) (P : Disk → Prop) (err : BackupFailure) (d : Disk) : Prop :=
  b = true ∧ (∃ detail, err = .osError detail) ∧ P d

theorem failed {P : Disk → Prop} (h : P d) :
    b = true → e.fallible = true → ∀ detail, Failed b P (.osError detail) d :=
  fun hb _ detail => ⟨hb, ⟨detail, rfl⟩, h⟩

end Calls

section Files
variable {I : Disk → Prop} {b : Bool} {d : Disk}

/-- What a failed copy leaves is what it found. -/
theorem copyFileDurable_keeps {p : Source} {destination : ConfigFile} {c : Bytes}
    (hsource : content d p = some c) (hfree : d.file destination = none)
    (hparent : d.configDirectory = true) (hI : ∀ y, I (d.setFile destination y)) :
    (copyFileDurable p destination).Keeps disk I b
      (Ends b (fun _ d' => d' = d.setFile destination (some c)) (Failed b (· = d))) d := by
  have hself : d.setFile destination none = d := Disk.setFile_self hfree
  have hId : I d := hself ▸ hI none
  have hwhile : ∀ y, ∃ z, d.setFile destination y = d.setFile destination z := fun y => ⟨y, rfl⟩
  refine Keeps.andThen (Q := Ends b (fun _ d' => d' = d.setFile destination (some c))
    (Failed b fun d' => ∃ y, d' = d.setFile destination y)) ?_ ?_
  · refine atomic_bind (a := c) (x := d) ?_ hId hId (fun _ h => h) (failed ⟨none, hself.symm⟩) ?_
    · simp [exec, hsource]
    refine atomic_bind (a := ()) (x := d.setFile destination (some [])) ?_ hId (hI _) (fun _ h => h)
      (failed ⟨none, hself.symm⟩) ?_
    · simp [exec, hfree, need, hparent]
    refine Keeps.call_bind (a := ()) (v := d.setFile destination (some c)) ?_ (hI _) ?_ ?_ ?_
    · simp [exec]
    · rintro x ⟨n, rfl⟩
      rw [Disk.setFile_setFile]
      exact hI _
    · rintro hb err x ⟨-, ⟨detail, rfl⟩, n, rfl⟩
      rw [Disk.setFile_setFile]
      exact ⟨hI _, hb, ⟨detail, rfl⟩, hwhile _⟩
    refine atomic_bind (a := ()) (x := d.setFile destination (some c)) ?_ (hI _) (hI _)
      (fun _ h => h) (failed (hwhile _)) ?_
    · simp [exec, need]
    refine atomic (a := ()) (x := d.setFile destination (some c)) ?_ rfl (hI _) (hI _)
      (fun _ h => h) (failed (hwhile _))
    simp [exec, need]
  · rintro b' r d' hends
    cases r with
    | ok => exact hends
    | error err =>
        obtain ⟨rfl, hb, ⟨detail, rfl⟩, y, rfl⟩ := hends
        refine Keeps.andThen (Q := fun b' r d' => b' = false ∧ r = .ok () ∧ d' = d) ?_ ?_
        · refine ⟨?_, ?_, ?_, by simp⟩
          · rintro x rfl
            exact hI y
          · simp only [exec, need, Bool.true_or, if_true, Disk.setFile_setFile]
            exact hI none
          · simp only [exec, need, Bool.true_or, if_true, Disk.setFile_setFile]
            exact ⟨rfl, rfl, hself⟩
        · rintro _ _ _ ⟨rfl, rfl, rfl⟩
          exact ⟨rfl, hb, ⟨detail, rfl⟩, rfl⟩

/-- The disk with another temporary, and the disk whose marker is the transaction. -/
def Unmarked (d d' : Disk) : Prop := ∃ x, d' = { d with temporary := x }

def Marked (t : RestoreTransaction) (d d' : Disk) : Prop :=
  ∃ x, d' = { d with marker := some (some t), temporary := x }

theorem Marked.file {t : RestoreTransaction} {d' : Disk} (h : Marked t d d') : d'.file = d.file := by
  obtain ⟨x, rfl⟩ := h
  rfl

theorem Marked.tree {t : RestoreTransaction} {d' : Disk} (h : Marked t d d') : d'.tree = d.tree := by
  obtain ⟨x, rfl⟩ := h
  rfl

theorem Marked.configDirectory {t : RestoreTransaction} {d' : Disk} (h : Marked t d d') :
    d'.configDirectory = d.configDirectory := by
  obtain ⟨x, rfl⟩ := h
  rfl

theorem persistRestoreTransaction_keeps {t : RestoreTransaction}
    (hI : ∀ x, Unmarked d x → I x) (hM : ∀ x, Marked t d x → I x) :
    (persistRestoreTransaction t).Keeps disk I b
      (Ends b (fun _ => Marked t d) (Failed b fun d' => Unmarked d d' ∨ Marked t d d')) d := by
  refine Keeps.andThen (Q := Ends b (fun _ => Marked t d)
    (Failed b fun d' => Unmarked d d' ∨ Marked t d d')) ?_ ?_
  · refine Keeps.bind (A := fun _ d' => d' = { d with temporary := some (some t) }) ?_ ?_
    · refine atomic_bind (a := ()) (x := { d with temporary := some none }) rfl (hI _ ⟨_, rfl⟩)
        (hI _ ⟨_, rfl⟩) (fun _ h => h) (failed (.inl ⟨_, rfl⟩)) ?_
      refine Keeps.call_bind (a := ()) (v := { d with temporary := some (some t) }) rfl
        (hI _ ⟨_, rfl⟩) ?_ ?_ ?_
      · rintro x rfl
        exact hI _ ⟨_, rfl⟩
      · rintro hb err x ⟨-, hdetail, rfl⟩
        exact ⟨hI _ ⟨_, rfl⟩, hb, hdetail, .inl ⟨_, rfl⟩⟩
      exact atomic (a := ()) (x := { d with temporary := some (some t) }) rfl rfl (hI _ ⟨_, rfl⟩)
        (hI _ ⟨_, rfl⟩) (fun _ h => h) (failed (.inl ⟨_, rfl⟩))
    rintro _ _ rfl
    refine atomic_bind (a := ()) (x := { d with marker := some (some t), temporary := none }) rfl
      (hI _ ⟨_, rfl⟩) (hM _ ⟨_, rfl⟩) (fun _ h => h) (failed (.inl ⟨_, rfl⟩)) ?_
    refine atomic_bind (a := ()) (x := { d with marker := some (some t), temporary := none }) rfl
      (hM _ ⟨_, rfl⟩) (hM _ ⟨_, rfl⟩) (fun _ h => h) (failed (.inr ⟨_, rfl⟩)) ?_
    exact atomic (a := ()) (x := { d with marker := some (some t), temporary := none }) rfl
      ⟨_, rfl⟩ (hM _ ⟨_, rfl⟩) (hM _ ⟨_, rfl⟩) (fun _ h => h) (failed (.inr ⟨_, rfl⟩))
  · rintro b' r d' hends
    cases r with
    | ok =>
        obtain ⟨rfl, x, rfl⟩ := hends
        exact atomic_bind (a := ()) (x := { d with marker := some (some t), temporary := none }) rfl
          (hM _ ⟨_, rfl⟩) (hM _ ⟨_, rfl⟩) (fun _ h => h) (failed (.inr ⟨_, rfl⟩))
          ⟨rfl, ⟨_, rfl⟩⟩
    | error err =>
        obtain ⟨rfl, hb, hdetail, hd'⟩ := hends
        have hcleared : ∀ x, I { d' with temporary := x } ∧
            (Unmarked d { d' with temporary := x } ∨ Marked t d { d' with temporary := x }) := by
          rcases hd' with ⟨y, rfl⟩ | ⟨y, rfl⟩
          · exact fun x => ⟨hI _ ⟨x, rfl⟩, .inl ⟨x, rfl⟩⟩
          · exact fun x => ⟨hM _ ⟨x, rfl⟩, .inr ⟨x, rfl⟩⟩
        refine ⟨?_, (hcleared none).1, ⟨rfl, hb, hdetail, (hcleared none).2⟩, by simp⟩
        rintro x rfl
        exact (hcleared x.temporary).1

end Files

section Trying
variable {I : Disk → Prop} {b : Bool} {d : Disk} {t : RestoreTransaction} {p : Restore Unit}
  {next : Restore Attempt} {A P : Disk → Prop} {Q : Bool → Except BackupFailure Attempt → Disk → Prop}

theorem trying_keeps (hp : p.Keeps disk I b (Ends b (fun _ => A) (Failed b P)) d)
    (hnext : ∀ d', A d' → next.Keeps disk I b Q d')
    (hfail : ∀ detail d', b = true → P d' → Q false (.ok ⟨t, some detail⟩) d') :
    (trying t p next).Keeps disk I b Q d := by
  refine hp.andThen fun b' r d' hends => ?_
  cases r with
  | ok =>
      obtain ⟨rfl, hA⟩ := hends
      exact hnext d' hA
  | error err =>
      obtain ⟨rfl, hb, ⟨detail, rfl⟩, hP⟩ := hends
      exact hfail detail d' hb hP

end Trying

end BackupManager
end Polaris
