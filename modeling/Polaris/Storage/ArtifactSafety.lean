import Polaris.Storage.Artifacts

namespace Polaris
open Relation

namespace ArtifactStore
variable {store : Store} {data : Content} {token : ℕ} {disk disk' : Disk}

def destination (store : Store) (data : Content) : Name := .artifact (store.hexdigest data)

def temporaryOf (store : Store) (data : Content) (token : ℕ) : Name :=
  .temporary (store.hexdigest data) token

/-- The inode is the put's own: its temporary file names it, and no artifact does. -/
structure Held (store : Store) (data : Content) (token : ℕ) (disk : Disk) (inode : ℕ) : Prop where
  named : disk.entries (temporaryOf store data token) = some inode
  apart : ∀ sha256, disk.entries (.artifact sha256) ≠ some inode

/-- What a call of a put does to the files. -/
inductive Effect (store : Store) (data : Content) (token : ℕ) (disk : Disk) : Disk → Prop
  | same : Effect store data token disk disk
  | mkdir (parts : List String) : Effect store data token disk (disk.mkdir parts)
  | create : disk.entries (temporaryOf store data token) = none →
      Effect store data token disk (disk.create (temporaryOf store data token))
  | append {inode : ℕ} (chunk : Content) : Held store data token disk inode →
      Effect store data token disk (disk.append inode chunk)
  | link {inode : ℕ} : disk.entries (temporaryOf store data token) = some inode →
      disk.contents inode = data → disk.entries (destination store data) = none →
      Effect store data token disk (disk.link inode (destination store data))
  | unlink : Effect store data token disk (disk.unlink (temporaryOf store data token))

/-- What holds while a put is at a stage. -/
def Holds (store : Store) (data : Content) (token : ℕ) (disk : Disk) : Stage → Prop
  | .readingFound inode => disk.entries (destination store data) = some inode
  | .readingWinner inode => disk.entries (destination store data) = some inode
  | .writing inode rest => Held store data token disk inode ∧ disk.contents inode ++ rest = data
  | .syncing inode => Held store data token disk inode ∧ disk.contents inode = data
  | .closing inode => Held store data token disk inode ∧ disk.contents inode = data
  | .abandoning inode _ _ => Held store data token disk inode
  | .linking => ∃ inode, disk.entries (temporaryOf store data token) = some inode ∧
      disk.contents inode = data
  | .openingDirectory | .syncingDirectory | .closingDirectory none | .unlinking (.ok ()) =>
      (disk.entries (destination store data)).isSome = true
  | .finished (.ok artifact) =>
      (disk.entries (destination store data)).isSome = true ∧ artifact = stored store data
  | _ => True

/-- Artifacts are named by their digests, and no two temporary files are one. -/
structure Consistent (store : Store) (disk : Disk) : Prop where
  digests : ∀ sha256 inode, disk.entries (.artifact sha256) = some inode →
    store.hexdigest (disk.contents inode) = sha256
  used : ∀ name inode, disk.entries name = some inode → inode < disk.used
  single : ∀ sha256 token sha256' token' inode,
    disk.entries (.temporary sha256 token) = some inode →
    disk.entries (.temporary sha256' token') = some inode → sha256 = sha256' ∧ token = token'

theorem attempt_effect {size : ℕ} {stage : Stage} (h : Holds store data token disk stage) :
    Effect store data token disk (attempt store data token size disk stage).1 := by
  cases stage with
  | makingParent | makingParentAgain | makingShard | makingShardAgain =>
      simp only [attempt]
      split_ifs
      all_goals first | exact .same | exact .mkdir _
  | openingTemporary =>
      simp only [attempt]
      split
      · exact .same
      · split
        · exact .same
        · rename_i hnone
          exact .create (by simpa [temporaryOf] using hnone)
  | writing inode rest =>
      simp only [attempt]
      split
      · exact .same
      · exact .append _ h.1
  | abandoning inode rest e => exact .append _ h
  | linking =>
      obtain ⟨inode, hnamed, hcomplete⟩ := h
      have hentry : disk.entries (.temporary (store.hexdigest data) token) = some inode := hnamed
      simp only [attempt, hentry]
      split
      · exact .same
      · rename_i hnone
        exact .link hnamed hcomplete (by simpa [destination] using hnone)
  | unlinking result => exact .unlink
  | _ => exact .same

/-! What an effect keeps. -/

section
variable {entries : Name → Option ℕ} {name other : Name} {inode old : ℕ}

theorem update_some (h : Function.update entries name (some inode) other = some old) :
    other = name ∧ old = inode ∨ entries other = some old := by
  by_cases hname : other = name
  · subst hname
    rw [Function.update_self] at h
    exact .inl ⟨rfl, (Option.some.inj h).symm⟩
  · rw [Function.update_of_ne hname] at h
    exact .inr h

theorem update_none (h : Function.update entries name none other = some old) :
    entries other = some old := by
  by_cases hname : other = name
  · subst hname
    rw [Function.update_self] at h
    simp at h
  · rwa [Function.update_of_ne hname] at h

end

theorem artifact_ne (sha256 : String) : Name.artifact sha256 ≠ temporaryOf store data token :=
  fun h => nomatch h

/-- A file that is an artifact stays as it is. -/
theorem Effect.keeps (h : Effect store data token disk disk') (hc : Consistent store disk)
    {sha256 : String} {inode : ℕ} (hentry : disk.entries (.artifact sha256) = some inode) :
    disk'.entries (.artifact sha256) = some inode ∧ disk'.contents inode = disk.contents inode := by
  have hother : Name.artifact sha256 ≠ temporaryOf store data token := artifact_ne sha256
  cases h with
  | same | mkdir => exact ⟨hentry, rfl⟩
  | create hnone =>
      rw [Disk.create_entries, Disk.create_contents, Function.update_of_ne hother]
      exact ⟨hentry, Function.update_of_ne (hc.used _ _ hentry).ne _ _⟩
  | @append owned chunk hheld =>
      refine ⟨hentry, Function.update_of_ne ?_ _ _⟩
      rintro rfl
      exact hheld.apart sha256 hentry
  | @link linked hnamed hcomplete hfree =>
      have hne : Name.artifact sha256 ≠ destination store data := by
        intro heq
        rw [heq, hfree] at hentry
        simp at hentry
      rw [Disk.link_entries, Function.update_of_ne hne]
      exact ⟨hentry, rfl⟩
  | unlink =>
      rw [Disk.unlink_entries, Function.update_of_ne hother]
      exact ⟨hentry, rfl⟩

theorem Consistent.create {name : Name} (hc : Consistent store disk)
    (hname : ∀ sha256, name ≠ .artifact sha256) : Consistent store (disk.create name) := by
  refine ⟨?_, ?_, ?_⟩
  · intro sha256 inode hentry
    rw [Disk.create_entries] at hentry
    rcases update_some hentry with ⟨heq, -⟩ | hold
    · exact absurd heq.symm (hname sha256)
    · rw [Disk.create_contents, Function.update_of_ne (hc.used _ _ hold).ne]
      exact hc.digests _ _ hold
  · intro other inode hentry
    rw [Disk.create_entries] at hentry
    rcases update_some hentry with ⟨-, rfl⟩ | hold
    · exact Nat.lt_succ_self _
    · exact Nat.lt_succ_of_lt (hc.used _ _ hold)
  · intro sha256 token₁ sha256' token₂ inode hentry hentry'
    rw [Disk.create_entries] at hentry hentry'
    rcases update_some hentry with ⟨hfirst, hinode⟩ | hold <;>
      rcases update_some hentry' with ⟨hsecond, hinode'⟩ | hold'
    · exact Name.temporary.inj (hfirst.trans hsecond.symm)
    · exact absurd (hc.used _ _ hold') (hinode ▸ lt_irrefl _)
    · exact absurd (hc.used _ _ hold) (hinode' ▸ lt_irrefl _)
    · exact hc.single _ _ _ _ _ hold hold'

theorem Consistent.append {inode : ℕ} (hc : Consistent store disk)
    (hapart : ∀ sha256, disk.entries (.artifact sha256) ≠ some inode) (chunk : Content) :
    Consistent store (disk.append inode chunk) := by
  refine ⟨?_, hc.used, hc.single⟩
  intro sha256 other hentry
  have hne : other ≠ inode := by
    rintro rfl
    exact hapart sha256 hentry
  rw [Disk.append_contents, Function.update_of_ne hne]
  exact hc.digests _ _ hentry

theorem Consistent.link {inode : ℕ} {sha256 : String} (hc : Consistent store disk)
    (hused : inode < disk.used) (hdigest : store.hexdigest (disk.contents inode) = sha256) :
    Consistent store (disk.link inode (.artifact sha256)) := by
  have htemporary : ∀ sha256' token other, (disk.link inode (.artifact sha256)).entries
      (.temporary sha256' token) = some other →
      disk.entries (.temporary sha256' token) = some other := by
    intro sha256' token other hentry
    rw [Disk.link_entries] at hentry
    rcases update_some hentry with ⟨heq, -⟩ | hold
    · exact nomatch heq
    · exact hold
  refine ⟨?_, ?_, ?_⟩
  · intro sha256' other hentry
    rw [Disk.link_entries] at hentry
    rcases update_some hentry with ⟨heq, rfl⟩ | hold
    · rw [Name.artifact.inj heq]
      exact hdigest
    · exact hc.digests _ _ hold
  · intro name other hentry
    rw [Disk.link_entries] at hentry
    rcases update_some hentry with ⟨-, rfl⟩ | hold
    · exact hused
    · exact hc.used _ _ hold
  · intro _ _ _ _ _ hentry hentry'
    exact hc.single _ _ _ _ _ (htemporary _ _ _ hentry) (htemporary _ _ _ hentry')

theorem Consistent.unlink (hc : Consistent store disk) (name : Name) :
    Consistent store (disk.unlink name) := by
  have hentries : ∀ other inode, (disk.unlink name).entries other = some inode →
      disk.entries other = some inode := by
    intro other inode hentry
    rw [Disk.unlink_entries] at hentry
    exact update_none hentry
  refine ⟨?_, ?_, ?_⟩
  · exact fun sha256 inode hentry => hc.digests _ _ (hentries _ _ hentry)
  · exact fun other inode hentry => hc.used _ _ (hentries _ _ hentry)
  · intro _ _ _ _ _ hentry hentry'
    exact hc.single _ _ _ _ _ (hentries _ _ hentry) (hentries _ _ hentry')

theorem Effect.consistent (h : Effect store data token disk disk') (hc : Consistent store disk) :
    Consistent store disk' := by
  cases h with
  | same => exact hc
  | mkdir parts => exact ⟨hc.digests, hc.used, hc.single⟩
  | create => exact hc.create fun sha256 heq => artifact_ne sha256 heq.symm
  | append chunk hheld => exact hc.append hheld.apart chunk
  | link hnamed hcomplete => exact hc.link (hc.used _ _ hnamed) (congrArg store.hexdigest hcomplete)
  | unlink => exact hc.unlink _

/-! What the effect of one put leaves to the others. -/

theorem Effect.named {other : Content} {token' inode : ℕ} (h : Effect store data token disk disk')
    (hc : Consistent store disk) (hne : token' ≠ token)
    (hnamed : disk.entries (temporaryOf store other token') = some inode) :
    disk'.entries (temporaryOf store other token') = some inode ∧
      disk'.contents inode = disk.contents inode := by
  have hname : temporaryOf store other token' ≠ temporaryOf store data token :=
    fun heq => hne (Name.temporary.inj heq).2
  have hapart : temporaryOf store other token' ≠ destination store data := fun heq => nomatch heq
  cases h with
  | same | mkdir => exact ⟨hnamed, rfl⟩
  | create hnone =>
      rw [Disk.create_entries, Disk.create_contents, Function.update_of_ne hname]
      exact ⟨hnamed, Function.update_of_ne (hc.used _ _ hnamed).ne _ _⟩
  | @append owned chunk hheld =>
      refine ⟨hnamed, Function.update_of_ne ?_ _ _⟩
      rintro rfl
      exact hne (hc.single _ _ _ _ _ hnamed hheld.named).2
  | link =>
      rw [Disk.link_entries, Function.update_of_ne hapart]
      exact ⟨hnamed, rfl⟩
  | unlink =>
      rw [Disk.unlink_entries, Function.update_of_ne hname]
      exact ⟨hnamed, rfl⟩

theorem Effect.held {other : Content} {token' inode : ℕ} (h : Effect store data token disk disk')
    (hc : Consistent store disk) (hne : token' ≠ token) (hheld : Held store other token' disk inode) :
    Held store other token' disk' inode ∧ disk'.contents inode = disk.contents inode := by
  obtain ⟨hnamed, hcontents⟩ := h.named hc hne hheld.named
  refine ⟨⟨hnamed, fun sha256 hentry => ?_⟩, hcontents⟩
  cases h with
  | same | mkdir | append => exact hheld.apart sha256 hentry
  | create hnone =>
      rw [Disk.create_entries, Function.update_of_ne (artifact_ne sha256)] at hentry
      exact hheld.apart sha256 hentry
  | link hlinked =>
      rw [Disk.link_entries] at hentry
      rcases update_some hentry with ⟨-, rfl⟩ | hold
      · exact hne (hc.single _ _ _ _ _ hheld.named hlinked).2
      · exact hheld.apart sha256 hold
  | unlink =>
      rw [Disk.unlink_entries] at hentry
      exact hheld.apart sha256 (update_none hentry)

theorem Effect.holds {other : Content} {token' : ℕ} {stage : Stage}
    (h : Effect store data token disk disk') (hc : Consistent store disk) (hne : token' ≠ token)
    (hholds : Holds store other token' disk stage) : Holds store other token' disk' stage := by
  have hpresent : (disk.entries (destination store other)).isSome = true →
      (disk'.entries (destination store other)).isSome = true := by
    intro hsome
    obtain ⟨inode, hinode⟩ := Option.isSome_iff_exists.1 hsome
    exact Option.isSome_iff_exists.2 ⟨inode, (h.keeps hc hinode).1⟩
  cases stage with
  | readingFound inode => exact (h.keeps hc hholds).1
  | readingWinner inode => exact (h.keeps hc hholds).1
  | writing inode rest =>
      obtain ⟨hheld, hcontents⟩ := h.held hc hne hholds.1
      exact ⟨hheld, by rw [hcontents]; exact hholds.2⟩
  | syncing inode =>
      obtain ⟨hheld, hcontents⟩ := h.held hc hne hholds.1
      exact ⟨hheld, hcontents.trans hholds.2⟩
  | closing inode =>
      obtain ⟨hheld, hcontents⟩ := h.held hc hne hholds.1
      exact ⟨hheld, hcontents.trans hholds.2⟩
  | abandoning inode rest e => exact (h.held hc hne hholds).1
  | linking =>
      obtain ⟨inode, hnamed, hcomplete⟩ := hholds
      obtain ⟨hnamed', hcontents⟩ := h.named hc hne hnamed
      exact ⟨inode, hnamed', hcontents.trans hcomplete⟩
  | openingDirectory => exact hpresent hholds
  | syncingDirectory => exact hpresent hholds
  | closingDirectory failure =>
      cases failure with
      | none => exact hpresent hholds
      | some e => trivial
  | unlinking result =>
      cases result with
      | ok u => exact hpresent hholds
      | error e => trivial
  | finished result =>
      cases result with
      | ok artifact => exact ⟨hpresent hholds.1, hholds.2⟩
      | error e => trivial
  | _ => trivial

/-! What the put itself knows after its call. -/

/-- The call answered. -/
theorem attempt_holds {size : ℕ} {stage next : Stage} (hc : Consistent store disk)
    (h : Holds store data token disk stage)
    (hanswer : (attempt store data token size disk stage).2 = .ok next) :
    Holds store data token (attempt store data token size disk stage).1 next := by
  cases stage with
  | checking =>
      obtain rfl := Except.ok.inj hanswer
      split <;> trivial
  | openingFound =>
      simp only [attempt] at hanswer ⊢
      split at hanswer
      · simp at hanswer
      · rename_i inode hentry
        obtain rfl := Except.ok.inj hanswer
        exact hentry
  | readingFound inode =>
      obtain rfl := Except.ok.inj hanswer
      split
      · exact ⟨Option.isSome_iff_exists.2 ⟨inode, h⟩, rfl⟩
      · trivial
  | makingParent | makingParentAgain =>
      simp only [attempt] at hanswer
      split_ifs at hanswer
      obtain rfl := Except.ok.inj hanswer
      trivial
  | makingShard | makingShardAgain =>
      simp only [attempt] at hanswer
      split_ifs at hanswer
      obtain rfl := Except.ok.inj hanswer
      trivial
  | openingTemporary =>
      simp only [attempt] at hanswer ⊢
      split at hanswer
      · simp at hanswer
      · rename_i hdirectory
        split at hanswer
        · simp at hanswer
        · rename_i hnone
          obtain rfl := Except.ok.inj hanswer
          rw [if_neg hdirectory, if_neg hnone]
          refine ⟨⟨Function.update_self _ _ _, fun sha256 hentry => ?_⟩, ?_⟩
          · rw [Disk.create_entries] at hentry
            rcases update_some hentry with ⟨heq, -⟩ | hold
            · exact nomatch heq
            · exact lt_irrefl _ (hc.used _ _ hold)
          · rw [Disk.create_contents, Function.update_self, List.nil_append]
  | writing inode rest =>
      obtain ⟨hheld, hcontents⟩ := h
      simp only [attempt] at hanswer ⊢
      split at hanswer
      · rename_i hrest
        obtain rfl := Except.ok.inj hanswer
        rw [if_pos hrest]
        exact ⟨hheld, by simpa [hrest] using hcontents⟩
      · rename_i hrest
        obtain rfl := Except.ok.inj hanswer
        rw [if_neg hrest]
        refine ⟨⟨hheld.named, hheld.apart⟩, ?_⟩
        rw [Disk.append_contents, Function.update_self, List.append_assoc, List.take_append_drop]
        exact hcontents
  | syncing inode =>
      obtain rfl := Except.ok.inj hanswer
      exact h
  | closing inode =>
      obtain rfl := Except.ok.inj hanswer
      exact ⟨inode, h.1.named, h.2⟩
  | abandoning inode rest e =>
      obtain rfl := Except.ok.inj hanswer
      trivial
  | linking =>
      obtain ⟨inode, hnamed, hcomplete⟩ := h
      have hentry : disk.entries (.temporary (store.hexdigest data) token) = some inode := hnamed
      simp only [attempt, hentry] at hanswer ⊢
      split at hanswer
      · simp at hanswer
      · rename_i hnone
        obtain rfl := Except.ok.inj hanswer
        rw [if_neg hnone]
        exact Option.isSome_iff_exists.2 ⟨inode, Function.update_self _ _ _⟩
  | openingWinner =>
      simp only [attempt] at hanswer ⊢
      split at hanswer
      · simp at hanswer
      · rename_i inode hentry
        obtain rfl := Except.ok.inj hanswer
        exact hentry
  | readingWinner inode =>
      obtain rfl := Except.ok.inj hanswer
      split
      · exact Option.isSome_iff_exists.2 ⟨inode, h⟩
      · trivial
  | openingDirectory =>
      obtain rfl := Except.ok.inj hanswer
      exact h
  | syncingDirectory =>
      obtain rfl := Except.ok.inj hanswer
      exact h
  | closingDirectory failure =>
      obtain rfl := Except.ok.inj hanswer
      cases failure with
      | none => exact h
      | some e => trivial
  | unlinking result =>
      obtain rfl := Except.ok.inj hanswer
      cases result with
      | error e => trivial
      | ok u =>
          refine ⟨?_, rfl⟩
          have hne : destination store data ≠ temporaryOf store data token := artifact_ne _
          simp only [attempt, Disk.unlink_entries]
          rw [← temporaryOf, Function.update_of_ne hne]
          exact h
  | finished result =>
      obtain rfl := Except.ok.inj hanswer
      exact h
  | crashed =>
      obtain rfl := Except.ok.inj hanswer
      trivial

/-- The stages whose failure leaves the handle to be closed. -/
def Stage.isOpen : Stage → Bool
  | .writing _ _ => true
  | .syncing _ => true
  | _ => false

theorem attempt_entries {size : ℕ} {stage : Stage} (h : stage.isOpen = true) :
    (attempt store data token size disk stage).1.entries = disk.entries := by
  cases stage with
  | writing inode rest =>
      simp only [attempt]
      split <;> rfl
  | syncing inode => rfl
  | _ => simp [Stage.isOpen] at h

/-- The call failed, with its effect or without. -/
theorem raised_holds {stage : Stage} {e : PyError} (hc : Consistent store disk)
    (h : Holds store data token disk stage) (heffect : Effect store data token disk disk')
    (hentries : stage.isOpen = true → disk'.entries = disk.entries) :
    Holds store data token disk' (raised store data disk' e stage) := by
  have hheld : stage.isOpen = true → ∀ inode, Held store data token disk inode →
      Held store data token disk' inode := by
    intro hopen inode hheld
    have hsame := hentries hopen
    exact ⟨by rw [hsame]; exact hheld.named, by rw [hsame]; exact hheld.apart⟩
  have hpresent : (disk.entries (destination store data)).isSome = true →
      (disk'.entries (destination store data)).isSome = true := by
    intro hsome
    obtain ⟨inode, hinode⟩ := Option.isSome_iff_exists.1 hsome
    exact Option.isSome_iff_exists.2 ⟨inode, (heffect.keeps hc hinode).1⟩
  cases stage with
  | writing inode rest => exact hheld rfl inode h.1
  | syncing inode => exact hheld rfl inode h.1
  | openingDirectory => exact hpresent h
  | unlinking result =>
      simp only [raised]
      split
      · cases result with
        | ok u => exact ⟨hpresent h, rfl⟩
        | error e => trivial
      · trivial
  | finished result =>
      cases result with
      | ok artifact => exact ⟨hpresent h.1, h.2⟩
      | error e => trivial
  | makingParent =>
      simp only [raised]
      split_ifs <;> trivial
  | makingShard =>
      simp only [raised]
      split_ifs <;> trivial
  | makingShardAgain =>
      simp only [raised]
      split_ifs <;> trivial
  | makingParentAgain =>
      simp only [raised]
      split_ifs <;> trivial
  | checking | linking =>
      simp only [raised]
      split <;> trivial
  | _ => trivial

/-! Any interleaving. -/

variable {put : Put} {choice : Choice} {s s' : System}

theorem advance_effect (h : Holds store put.data token disk put.stage) :
    Effect store put.data token disk (advance store token put choice disk).1 := by
  cases choice with
  | works size => exact attempt_effect h
  | fails size effect e =>
      cases effect with
      | true => exact attempt_effect h
      | false => exact .same
  | crashes size effect =>
      cases effect with
      | true => exact attempt_effect h
      | false => exact .same

theorem advance_holds (hc : Consistent store disk) (h : Holds store put.data token disk put.stage) :
    Holds store put.data token (advance store token put choice disk).1
      (advance store token put choice disk).2 := by
  cases choice with
  | works size =>
      simp only [advance]
      split
      · rename_i next hanswer
        exact attempt_holds hc h hanswer
      · exact raised_holds hc h (attempt_effect h) attempt_entries
  | fails size effect e =>
      cases effect with
      | true => exact raised_holds hc h (attempt_effect h) attempt_entries
      | false => exact raised_holds hc h .same fun _ => rfl
  | crashes size effect => trivial

structure Inv (store : Store) (s : System) : Prop where
  consistent : Consistent store s.disk
  holds : ∀ token put, s.puts token = some put → Holds store put.data token s.disk put.stage

theorem begin_eq (data : Content) : begin store data = .checking := by
  simp [begin, pathFor, store.isSha256 data]

theorem Inv.step (h : Inv store s) (hstep : Step store s s') : Inv store s' := by
  cases hstep with
  | @start token data hfresh =>
      refine ⟨h.consistent, fun token' put hput => ?_⟩
      dsimp only at hput
      by_cases htoken : token' = token
      · subst htoken
        rw [Function.update_self] at hput
        obtain rfl := Option.some.inj hput
        rw [begin_eq]
        trivial
      · rw [Function.update_of_ne htoken] at hput
        exact h.holds token' put hput
  | @run token put choice hput hactive =>
      have hholds := h.holds token put hput
      have heffect : Effect store put.data token s.disk (advance store token put choice s.disk).1 :=
        advance_effect hholds
      refine ⟨heffect.consistent h.consistent, fun token' put' hput' => ?_⟩
      dsimp only at hput'
      by_cases htoken : token' = token
      · subst htoken
        rw [Function.update_self] at hput'
        obtain rfl := Option.some.inj hput'
        exact advance_holds h.consistent hholds
      · rw [Function.update_of_ne htoken] at hput'
        exact heffect.holds h.consistent htoken (h.holds token' put' hput')

theorem Inv.run (h : Inv store s) (hrun : ReflTransGen (Step store) s s') : Inv store s' := by
  induction hrun with
  | refl => exact h
  | tail _ hstep ih => exact ih.step hstep

theorem Inv.keeps_step (h : Inv store s) (hstep : Step store s s') {sha256 : String} {inode : ℕ}
    (hentry : s.disk.entries (.artifact sha256) = some inode) :
    s'.disk.entries (.artifact sha256) = some inode ∧
      s'.disk.contents inode = s.disk.contents inode := by
  cases hstep with
  | start => exact ⟨hentry, rfl⟩
  | run choice hput _ => exact (advance_effect (h.holds _ _ hput)).keeps h.consistent hentry

theorem Inv.keeps_run (h : Inv store s) (hrun : ReflTransGen (Step store) s s') {sha256 : String}
    {inode : ℕ} (hentry : s.disk.entries (.artifact sha256) = some inode) :
    s'.disk.entries (.artifact sha256) = some inode ∧
      s'.disk.contents inode = s.disk.contents inode := by
  induction hrun with
  | refl => exact ⟨hentry, rfl⟩
  | tail hrun hstep ih =>
      obtain ⟨hentry', hcontents'⟩ := (h.run hrun).keeps_step hstep ih.1
      exact ⟨hentry', hcontents'.trans ih.2⟩

theorem Inv.get (h : Inv store s)
    (hentry : (s.disk.entries (destination store data)).isSome = true) :
    ∃ content, get store (store.hexdigest data) s.disk = .ok content ∧
      store.hexdigest content = store.hexdigest data := by
  obtain ⟨inode, hinode⟩ := Option.isSome_iff_exists.1 hentry
  have hdigest := h.consistent.digests _ _ hinode
  refine ⟨s.disk.contents inode, ?_, hdigest⟩
  have hfound : s.disk.entries (.artifact (store.hexdigest data)) = some inode := hinode
  simp [ArtifactStore.get, pathFor, store.isSha256 data, bind, Except.bind, hfound, verifies, hdigest,
    pure, Except.pure]

/-- A store before any put: leftovers of crashed puts may be there. -/
structure Start (store : Store) (s : System) : Prop where
  consistent : Consistent store s.disk
  idle : ∀ token, s.puts token = none

theorem Start.inv (h : Start store s) : Inv store s := by
  refine ⟨h.consistent, fun token put hput => ?_⟩
  rw [h.idle] at hput
  simp at hput

theorem content_addressed {s₀ : System} (hstart : Start store s₀)
    (hrun : ReflTransGen (Step store) s₀ s) :
    (∀ sha256 inode, s.disk.entries (.artifact sha256) = some inode →
      store.hexdigest (s.disk.contents inode) = sha256) ∧
    (∀ s', Step store s s' → ∀ sha256 inode, s.disk.entries (.artifact sha256) = some inode →
      s'.disk.entries (.artifact sha256) = some inode ∧
        s'.disk.contents inode = s.disk.contents inode) ∧
    (∀ token put artifact, s.puts token = some put → put.stage = .finished (.ok artifact) →
      (∀ data, store.hexdigest data = store.hexdigest put.data → data = put.data) →
      artifact.sha256 = store.hexdigest put.data ∧
        ∀ s', ReflTransGen (Step store) s s' →
          ArtifactStore.get store artifact.sha256 s'.disk = .ok put.data) := by
  have hinv := hstart.inv.run hrun
  refine ⟨hinv.consistent.digests, ?_, ?_⟩
  · intro s' hstep sha256 inode hentry
    exact hinv.keeps_step hstep hentry
  · intro token put artifact hput hstage honly
    have hholds := hinv.holds token put hput
    rw [hstage] at hholds
    obtain ⟨hpresent, rfl⟩ := hholds
    refine ⟨rfl, fun s' hlater => ?_⟩
    obtain ⟨inode, hinode⟩ := Option.isSome_iff_exists.1 hpresent
    have hpresent' : (s'.disk.entries (destination store put.data)).isSome = true :=
      Option.isSome_iff_exists.2 ⟨inode, (hinv.keeps_run hlater hinode).1⟩
    obtain ⟨content, hget, hdigest⟩ := (hinv.run hlater).get hpresent'
    obtain rfl := honly content hdigest
    exact hget

/-! One put by itself. -/

/-- The calls of one put, one after the other. -/
def follow (store : Store) (token : ℕ) (choices : List Choice) (s : System) : System :=
  choices.foldl (fun s choice =>
    match s.puts token with
    | none => s
    | some put =>
        if put.stage.isOver then s
        else ⟨(advance store token put choice s.disk).1, Function.update s.puts token
          (some ⟨put.data, (advance store token put choice s.disk).2⟩)⟩) s

theorem follow_run (token : ℕ) (choices : List Choice) (s : System) :
    ReflTransGen (Step store) s (follow store token choices s) := by
  induction choices generalizing s with
  | nil => exact .refl
  | cons choice choices ih =>
      rw [follow, List.foldl_cons, ← follow]
      split
      · exact ih s
      · rename_i put hput
        split
        · exact ih s
        · rename_i hactive
          exact .head (.run choice hput (by simpa using hactive)) (ih _)

def hiDigest : String := "8f434346648f6b96df89dda901c5176b10a6d83961dd3c1ac88b59b2dc327aa4"

/-- The digest of `hi`, and one digest for all else. -/
def hiStore : Store where
  hexdigest data :=
    if data = [104, 105] then hiDigest
    else "0000000000000000000000000000000000000000000000000000000000000000"
  isSha256 data := by
    split <;> decide +kernel
  rootUri := "file:///artifacts"

def emptyStore : System := ⟨⟨fun _ => [], 0, fun _ => none, fun _ => false⟩, fun _ => none⟩

def hiPut : System :=
  follow hiStore 0 (List.replicate 20 (.works 0))
    ⟨emptyStore.disk, Function.update emptyStore.puts 0 (some ⟨[104, 105], begin hiStore [104, 105]⟩)⟩

theorem emptyStore_start : Start hiStore emptyStore :=
  ⟨⟨fun _ _ h => (nomatch h), fun _ _ h => (nomatch h), fun _ _ _ _ _ h => (nomatch h)⟩,
    fun _ => rfl⟩

theorem hiPut_run : ReflTransGen (Step hiStore) emptyStore hiPut :=
  .head (.start [104, 105] rfl) (follow_run 0 _ _)

theorem hiPut_gets : ArtifactStore.get hiStore hiDigest hiPut.disk = .ok [104, 105] := by
  have hputs : hiPut.puts 0 = some ⟨[104, 105], .finished (.ok (stored hiStore [104, 105]))⟩ := by
    rfl
  have hall := (content_addressed emptyStore_start hiPut_run).2.2 0 _ _ hputs rfl
  refine (hall fun data hdata => ?_).2 _ .refl
  by_contra hne
  have hother : hiStore.hexdigest data =
      "0000000000000000000000000000000000000000000000000000000000000000" := if_neg hne
  rw [hother] at hdata
  exact absurd hdata (by decide +kernel)

end ArtifactStore

end Polaris
