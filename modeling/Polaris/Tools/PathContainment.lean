import Polaris.Tools.AtomicWrite

namespace Polaris.Filesystem
open PyJson PosixPath LinkedTree

/-! What lies within the roots. -/

def Within (tools : FilesystemTools) (p : FilePath) : Prop := ∃ root ∈ tools.roots, root <+: p

/-- Where a path leads with all links resolved. -/
def LeadsTo (t : FileTree) (path : TextPath) (p : FilePath) : Prop :=
  ∃ q, path = texts q ∧ Real t [] (down q) p

def LeadsWithin (tools : FilesystemTools) (t : FileTree) (path : TextPath) : Prop :=
  ∃ p, LeadsTo t path p ∧ Within tools p

/-- The place of a path itself, where a link would not be followed. -/
def PlacedWithin (tools : FilesystemTools) (t : FileTree) (path : TextPath) : Prop :=
  ∀ p, placeOf t path = some p → Within tools p

/-- What is read, listed, made and replaced is within the roots, and what is replaced is no link. -/
def Contained (tools : FilesystemTools) {β : Type} : FsCall β → FileTree → Prop
  | .size path, t | .readBytes path, t | .iterdir path, t => LeadsWithin tools t path
  | .createTemporary directory, t => LeadsWithin tools t directory
  | .mkdirParents path, t => ∀ p, (mkdirStep t path).2.node p ≠ t.node p → Within tools p
  | .writeTemporary path _, t | .unlink path, t => PlacedWithin tools t path
  | .replace source target, t =>
      PlacedWithin tools t source ∧ PlacedWithin tools t target ∧
        (lookUpLink t target).any Node.isLink = false
  | _, _ => True

section Reading
variable {tools : FilesystemTools} {python : Python} {names : TemporaryNames} {late : Bool}
  {t t' : FileTree} {value : PyText} {p q : FilePath} {path : TextPath} {s : FileName}

theorem contained_of_probe {β : Type} {e : FsCall β} (h : e.isProbe) : Contained tools e t := by
  cases e <;> trivial

theorem Within.below (h : Within tools p) (hq : p <+: q) : Within tools q := by
  obtain ⟨root, hroot, hp⟩ := h
  exact ⟨root, hroot, hp.trans hq⟩

theorem leadsWithin_physical (hwf : t.WellFormed) (hp : Physical t p) (h : Within tools p) :
    LeadsWithin tools t (texts p) :=
  have hfollow : follow t linkLimit p = some p := follow_physical hwf hp
  ⟨p, ⟨p, rfl, real_of_follow hfollow⟩, h⟩

theorem existingPath_complete (hwf : t.WellFormed)
    (h : (existingPath tools python value).complete (disk names late) t = (.ok p, t')) :
    t' = t ∧ Physical t p ∧ Within tools p := by
  obtain ⟨found, u, hfound, hafter⟩ := Program.complete_bind_iff.1 h
  obtain ⟨hlexical, rfl⟩ := Program.complete_ofExcept_iff.1 hfound
  obtain ⟨candidate, root⟩ := found
  obtain ⟨resolved, v, hresolve, hend⟩ := Program.complete_bind_iff.1 hafter
  obtain ⟨q, -, hreal, rfl⟩ := resolving_complete hresolve
  split at hend
  · rename_i hinside
    obtain ⟨rfl, rfl⟩ := Program.complete_pure_iff.1 hend
    have hphysical := (real_of_realPath hreal).physical hwf physical_nil
    exact ⟨rfl, hphysical, root, (lexicalPath_ok hlexical).1, inside_texts.1 hinside⟩
  · exact absurd hend Program.complete_throw_iff

theorem along_readBytes {maximum : ℕ} (h : LeadsWithin tools t path) :
    (readBytes path maximum).Along (disk names late) (Contained tools) t := by
  refine Program.along_bind (Program.along_mapError.2 ?_) fun data v _ => ?_
  · refine Program.along_bind (Program.along_perform h) fun size v hsize => ?_
    obtain rfl := (Prod.mk.inj hsize).2
    split
    · trivial
    · exact Program.along_perform h
  · split <;> trivial

theorem asks_readBytes {maximum : ℕ} : (readBytes path maximum).Asks FsCall.looks := by
  refine ((Program.asks_perform trivial).bind fun size => ?_).mapError _ |>.bind fun data => ?_
  · split
    · exact Program.asks_throw
    · exact Program.asks_perform trivial
  · split
    · exact Program.asks_throw
    · exact Program.asks_pure

theorem asks_entryType : (entryType tools python path).Asks FsCall.looks := by
  refine (Program.asks_perform trivial).bind fun linked => ?_
  split
  · exact Program.asks_pure
  · refine (Program.asks_perform trivial).bind fun present => ?_
    split
    · exact asks_readBytes.bind fun _ => Program.asks_pure
    · exact (Program.asks_perform trivial).bind fun _ => Program.asks_pure

theorem along_readFile {arguments : ToolArguments} (hwf : t.WellFormed) :
    (readFile tools python arguments).Along (disk names late) (Contained tools) t := by
  refine Program.along_bind Program.along_done fun value v hvalue => ?_
  obtain rfl := (Prod.mk.inj hvalue).2
  refine Program.along_bind (asks_existingPath.along contained_of_probe) fun p v hpath => ?_
  obtain ⟨rfl, hphysical, hwithin⟩ := existingPath_complete hwf hpath
  refine Program.along_bind (Program.along_perform trivial) fun present v hpresent => ?_
  obtain ⟨-, rfl⟩ := isFile_complete.1 hpresent
  split
  · refine Program.along_bind (along_readBytes (leadsWithin_physical hwf hphysical hwithin))
      fun data v _ => ?_
    exact Program.along_bind Program.along_done fun _ _ _ => Program.along_done
  · trivial

/-- A listed file is read only where it is no link. -/
theorem along_entryType (hwf : t.WellFormed) (hp : t.node p = some .directory)
    (hwithin : Within tools p) : (entryType tools python (texts (p ++ [s]))).Along
      (disk names late) (Contained tools) t := by
  refine Program.along_bind (Program.along_perform trivial) fun linked v hlinked => ?_
  obtain ⟨rfl, rfl⟩ := isSymlink_complete.1 hlinked
  split
  · trivial
  · rename_i hplain
    refine Program.along_bind (Program.along_perform trivial) fun present v hpresent => ?_
    obtain ⟨rfl, rfl⟩ := isFile_complete.1 hpresent
    split
    · rename_i hfile
      have hsome : (lookUp t (texts (p ++ [s]))).isSome = true := by
        cases hl : lookUp t (texts (p ++ [s])) with
        | none => rw [hl] at hfile; cases hfile
        | some n => rfl
      have hfollow := follow_target hwf hp hsome (by simpa using hplain)
      refine Program.along_bind (along_readBytes ?_) fun _ _ _ => Program.along_done
      exact leadsWithin_physical hwf (physical_of_follow hwf hfollow)
        (hwithin.below (List.prefix_append ..))
    · exact Program.along_bind (Program.along_perform trivial) fun _ _ _ => Program.along_done

theorem along_listEntries {children : List FileName} (hwf : t.WellFormed)
    (hp : t.node p = some .directory) (hwithin : Within tools p) :
    (listEntries tools python p children).Along (disk names late) (Contained tools) t := by
  induction children with
  | nil => trivial
  | cons name children ih =>
      refine Program.along_bind (along_entryType hwf hp hwithin) fun type v htype => ?_
      obtain rfl := unchanged_of_looks asks_entryType htype
      exact Program.along_bind ih fun _ _ _ => Program.along_done

theorem along_listDirectory {arguments : ToolArguments} (hwf : t.WellFormed) :
    (listDirectory tools python arguments).Along (disk names late) (Contained tools) t := by
  refine Program.along_bind Program.along_done fun value v hvalue => ?_
  obtain rfl := (Prod.mk.inj hvalue).2
  refine Program.along_bind (asks_existingPath.along contained_of_probe) fun p v hpath => ?_
  obtain ⟨rfl, hphysical, hwithin⟩ := existingPath_complete hwf hpath
  refine Program.along_bind (Program.along_perform trivial) fun present u hpresent => ?_
  obtain ⟨hdirectory, rfl⟩ := isDir_complete.1 hpresent
  split
  · rename_i hpresent
    have hp := isDir_node hwf hphysical (hdirectory.trans hpresent)
    have hleads := leadsWithin_physical hwf hphysical hwithin
    refine Program.along_bind (Program.along_mapError.2 (Program.along_perform hleads))
      fun children u hchildren => ?_
    obtain rfl := (Prod.mk.inj (Program.complete_mapError_iff.1 hchildren)).2
    split
    · trivial
    · exact Program.along_bind (along_listEntries hwf hp hwithin) fun _ _ _ => Program.along_done
  · trivial

end Reading

section Writing
variable {tools : FilesystemTools} {python : Python} {names : TemporaryNames} {late : Bool}
  {t t' v v' : FileTree} {value name : PyText} {r root probe q below : FilePath} {s : FileName}
  {path rest candidate : TextPath} {data content : Content}

theorem along_current (h : (lookUp t path).isSome = true → LeadsWithin tools t path) :
    (current python path).Along (disk names late) (Contained tools) t := by
  refine Program.along_bind (Program.along_perform trivial) fun present v hpresent => ?_
  obtain ⟨rfl, rfl⟩ := pathExists_complete.1 hpresent
  split
  · rename_i hsome
    refine Program.along_bind (Program.along_mapError.2 (Program.along_perform (h hsome))) ?_
    exact fun _ _ _ => Program.along_done
  · trivial

theorem contained_mkdir (hprobed : Probed t candidate root probe q rest) (hwf : t.WellFormed)
    (hroot : root ∈ tools.roots) : Contained tools (.mkdirParents candidate.dropLast) t := by
  intro p hp
  rcases hprobed.mkdir hwf with ⟨below, -, hnest, hstep⟩ | ⟨err, hstep⟩
  · rw [hstep] at hp
    rcases hnest.nest_node p with hsame | ⟨-, -, hbelow⟩
    · exact absurd hsame hp
    · exact ⟨root, hroot, hprobed.below.trans hbelow⟩
  · rw [hstep] at hp
    exact absurd rfl hp

theorem along_preparedTarget (hprobed : Probed t candidate root probe q rest)
    (hwf : t.WellFormed) (hroot : root ∈ tools.roots) :
    (preparedTarget candidate root).Along (disk names late) (Contained tools) t := by
  have hmake : (makeParent candidate).Along (disk names late) (Contained tools) t := by
    refine Program.along_mapError.2 (Program.along_bind (Program.along_perform ?_) ?_)
    · exact contained_mkdir hprobed hwf hroot
    · exact fun _ _ _ => Program.along_perform trivial
  exact Program.along_bind hmake fun _ _ _ => asks_checkedIn.along contained_of_probe

theorem along_writePath (hwf : t.WellFormed) :
    (writePath tools python value true).Along (disk names late) (Contained tools) t := by
  refine Program.along_bind Program.along_done fun found v hfound => ?_
  obtain ⟨hlexical, rfl⟩ := Program.complete_ofExcept_iff.1 hfound
  obtain ⟨candidate, root⟩ := found
  refine Program.along_bind (asks_checkProbe.along contained_of_probe) fun _ v hprobe => ?_
  obtain ⟨rfl, probe, q, rest, hprobed⟩ := checkProbe_complete hwf hprobe
  exact along_preparedTarget hprobed hwf (lexicalPath_ok hlexical).1

/-- The draft is in the directory of the target, which has no links. -/
theorem placedWithin_below (hwf : t.WellFormed) (hr : t.node r = some .directory)
    (hwithin : Within tools r) : PlacedWithin tools t (texts r ++ [name]) :=
  fun _ hp => hwithin.below (placeOf_below hwf hr hp)

theorem along_writeDraft (hdrafted : Drafted t v r s content) (hwithin : Within tools r) :
    (writeDraft (texts (r ++ [s])) data).Along (disk names late) (Contained tools) v := by
  refine Program.along_andThen.2 ⟨?_, ?_⟩
  · refine Program.along_bind (Program.along_perform ?_) fun _ w _ => ?_
    · rw [← texts_concat]
      exact placedWithin_below hdrafted.wellFormed hdrafted.directory hwithin
    · refine Program.along_bind (Program.along_perform trivial) fun _ _ _ => ?_
      exact Program.along_perform trivial
  · exact Program.along_andThen.2 ⟨Program.along_perform trivial, Program.along_done⟩

theorem along_placeDraft (hdrafted : Drafted t v r s content) (hwithin : Within tools r) :
    (placeDraft (texts (r ++ [s])) (texts r ++ [name]) data).Along
      (disk names late) (Contained tools) v := by
  refine Program.along_bind (along_writeDraft hdrafted hwithin) fun _ w hwritten => ?_
  rw [hdrafted.complete_writeDraft] at hwritten
  obtain rfl := (Prod.mk.inj hwritten).2
  have hdrafted : Drafted t (v.set (r ++ [s]) (.file data)) r s data := hdrafted.write
  refine Program.along_bind (Program.along_perform trivial) fun linked w hlinked => ?_
  obtain ⟨rfl, rfl⟩ := isSymlink_complete.1 hlinked
  split
  · trivial
  · rename_i hplain
    refine Program.along_perform ⟨?_, ?_, by simpa using hplain⟩
    · rw [← texts_concat]
      exact placedWithin_below hdrafted.wellFormed hdrafted.directory hwithin
    · exact placedWithin_below hdrafted.wellFormed hdrafted.directory hwithin

theorem placeDraft_failed (hdrafted : Drafted t v r s content) {err : ToolError}
    (h : (placeDraft (texts (r ++ [s])) path data).complete (disk names late) v =
      (.error err, v')) : Drafted t v' r s data := by
  unfold placeDraft at h
  rw [Program.complete_bind_ok hdrafted.complete_writeDraft] at h
  have hdrafted : Drafted t (v.set (r ++ [s]) (.file data)) r s data := hdrafted.write
  have hlinked : (ask (.isSymlink path)).complete (disk names late) (v.set (r ++ [s]) (.file data)) =
      (.ok _, _) := isSymlink_complete.2 ⟨rfl, rfl⟩
  rw [Program.complete_bind_ok hlinked] at h
  split at h
  · obtain rfl := (Prod.mk.inj h).2
    exact hdrafted
  · obtain rfl := replaceStep_error h
    exact hdrafted

theorem along_atomicWrite (hwf : t.WellFormed) (hr : t.node r = some .directory)
    (hwithin : Within tools r) : (atomicWrite (texts r ++ [name]) data).Along
      (disk names late) (Contained tools) t := by
  unfold atomicWrite
  rw [List.dropLast_concat]
  obtain ⟨v, hcreate, hdrafted⟩ := drafted_create names hwf hr
  have hcreated : (ask (.createTemporary (texts r))).complete (disk names late) t = _ := hcreate
  refine Program.along_andThen.2 ⟨Program.along_perform ?_, ?_⟩
  · exact leadsWithin_physical hwf ⟨_, hr, rfl⟩ hwithin
  · rw [hcreated]
    refine Program.along_andThen.2 ⟨along_placeDraft hdrafted hwithin, ?_⟩
    cases hplace : (placeDraft (texts (r ++ [names.name t r])) (texts r ++ [name]) data).complete
        (disk names late) v with
    | mk placed w =>
        cases placed with
        | ok _ =>
            refine Program.along_mapError.2 (Program.along_bind (Program.along_perform trivial) ?_)
            exact fun _ _ _ => Program.along_andThen.2 ⟨Program.along_perform trivial,
              Program.along_andThen.2 ⟨Program.along_perform trivial, Program.along_done⟩⟩
        | error err =>
            have hfailed := placeDraft_failed hdrafted hplace
            have hunlink : (discard (texts (r ++ [names.name t r]))).Along (disk names late)
                (Contained tools) w := by
              refine Program.along_andThen.2 ⟨Program.along_perform ?_, ?_⟩
              · rw [← texts_concat]
                exact placedWithin_below hfailed.wellFormed hfailed.directory hwithin
              · split <;> trivial
            exact Program.along_andThen.2 ⟨hunlink, Program.along_done⟩

theorem Prepared.within (h : Prepared t t' candidate root probe q below name)
    (hroot : root ∈ tools.roots) : Within tools (q ++ below) :=
  ⟨root, hroot, h.inside.trans (List.prefix_append ..)⟩

theorem Prepared.leadsWithin (h : Prepared t t' candidate root probe q below name)
    (hroot : root ∈ tools.roots)
    (hsome : (lookUp t' (texts (q ++ below) ++ [name])).isSome = true) :
    LeadsWithin tools t' (texts (q ++ below) ++ [name]) := by
  rcases h.target with hnone | ⟨s, data, rfl, hdata⟩
  · rw [hnone] at hsome
    cases hsome
  · rw [texts_concat]
    exact leadsWithin_physical h.wellFormed ⟨_, hdata, rfl⟩
      ((h.within hroot).below (List.prefix_append ..))

theorem along_writeOver {present : Option (String × ℕ)} (hwf : t.WellFormed) :
    (writeOver tools python value data present).Along (disk names late) (Contained tools) t := by
  refine Program.along_bind (along_writePath hwf) fun path u hpath => ?_
  obtain ⟨candidate, root, probe, q, below, name, hlexical, hprepared, rfl⟩ :=
    writePath_prepared hwf hpath
  have hroot := (lexicalPath_ok hlexical).1
  refine Program.along_bind (along_current (hprepared.leadsWithin hroot)) fun checked w hcurrent => ?_
  obtain rfl := unchanged_of_looks asks_current hcurrent
  split
  · trivial
  · split
    · trivial
    · refine Program.along_bind ?_ fun _ _ _ => Program.along_done
      exact along_atomicWrite hprepared.wellFormed hprepared.directory (hprepared.within hroot)

theorem along_writeFile {arguments : ToolArguments} (hwf : t.WellFormed) :
    (writeFile tools python arguments).Along (disk names late) (Contained tools) t := by
  refine Program.along_bind Program.along_done fun value u hvalue => ?_
  obtain rfl := (Prod.mk.inj hvalue).2
  refine Program.along_bind (asks_writePath.along contained_of_probe) fun path u hpath => ?_
  obtain ⟨rfl, candidate, root, hlexical, -, hfound⟩ := writePath_existing hwf hpath
  refine Program.along_bind Program.along_done fun data u hdata => ?_
  obtain rfl := (Prod.mk.inj hdata).2
  refine Program.along_bind (along_current fun hsome => ?_) fun present u hcurrent => ?_
  · rcases hfound with ⟨hnone, rfl⟩ | ⟨p, q, data, -, hq, -, hbelow, rfl⟩
    · rw [hnone] at hsome
      cases hsome
    · exact leadsWithin_physical hwf (physical_of_follow hwf hq)
        ⟨root, (lexicalPath_ok hlexical).1, hbelow⟩
  · obtain rfl := unchanged_of_looks asks_current hcurrent
    split
    · trivial
    · refine Program.along_bind Program.along_done fun expected u hexpected => ?_
      obtain rfl := (Prod.mk.inj hexpected).2
      split
      · trivial
      · exact along_writeOver hwf

end Writing

section Changes
variable {tools : FilesystemTools} {python : Python} {names : TemporaryNames} {late : Bool}
  {t : FileTree} {p : FilePath} {α β : Type} {e : FsCall β}

theorem ne_nil_of_node {n : Node FileName Content} (hn : t.node p = some n)
    (hdirectory : n ≠ .directory) : p ≠ [] := by
  rintro rfl
  exact hdirectory (Option.some.inj hn).symm

theorem replaceStep_node {source target : TextPath}
    (h : (replaceStep t source target).2.node p ≠ t.node p) :
    placeOf t source = some p ∨ placeOf t target = some p := by
  unfold replaceStep at h
  split at h
  · exact absurd rfl h
  · split at h
    · rename_i s d hs hd
      by_contra hne
      push Not at hne
      rw [hs, hd] at hne
      have hps : p ≠ s := fun heq => hne.1 (congrArg some heq.symm)
      have hpd : p ≠ d := fun heq => hne.2 (congrArg some heq.symm)
      split at h
      · exact absurd rfl h
      · split at h
        · exact absurd rfl h
        · exact absurd rfl h
        · exact absurd rfl h
        · rename_i n hdirectory hn _
          refine h ?_
          have hs : s ≠ [] := ne_nil_of_node hn hdirectory
          exact (node_erase hs).trans ((if_neg hps).trans (node_set_of_ne hpd))
    · exact absurd rfl h

theorem unlinkStep_node {path : TextPath} (h : (unlinkStep t path).2.node p ≠ t.node p) :
    placeOf t path = some p := by
  unfold unlinkStep at h
  split at h
  · exact absurd rfl h
  · rename_i q hq
    split at h
    · exact absurd rfl h
    · exact absurd rfl h
    · rename_i n hdirectory hn
      by_contra hne
      rw [hq] at hne
      have hpq : p ≠ q := fun heq => hne (congrArg some heq.symm)
      exact h ((node_erase (ne_nil_of_node hn hdirectory)).trans (if_neg hpq))

theorem writeStep_node {path : TextPath} {data : Content}
    (h : (writeStep t path data).2.node p ≠ t.node p) : placeOf t path = some p := by
  unfold writeStep at h
  split at h
  · exact absurd rfl h
  · rename_i q hq
    by_contra hne
    rw [hq] at hne
    exact h (node_set_of_ne fun heq => hne (congrArg some heq.symm))

theorem createStep_node {directory : TextPath}
    (h : (createStep names t directory).2.node p ≠ t.node p) :
    ∃ q, LeadsTo t directory q ∧ q <+: p := by
  unfold createStep at h
  split at h
  · exact absurd rfl h
  · rename_i q hq
    obtain ⟨q', hq', hfollow⟩ := Option.bind_eq_some_iff.1 hq
    refine ⟨q, ⟨q', ofParts_iff.1 hq', real_of_follow hfollow⟩, ?_⟩
    split at h
    · by_contra hne
      exact h (node_set_of_ne fun heq => hne (heq ▸ List.prefix_append ..))
    · exact absurd rfl h

/-- A contained call changes nothing but what is within the roots. -/
theorem Contained.changes (h : Contained tools e t)
    (hne : (callStep names e t).2.node p ≠ t.node p) : Within tools p := by
  cases e with
  | mkdirParents path => exact h p hne
  | createTemporary directory =>
      obtain ⟨q, ⟨q', hq', hreal⟩, hbelow⟩ := createStep_node hne
      obtain ⟨r, ⟨r', hr', hreal'⟩, hwithin⟩ := h
      obtain rfl := texts_injective (hq'.symm.trans hr')
      obtain rfl := hreal.unique hreal'
      exact hwithin.below hbelow
  | writeTemporary path content => exact h p (writeStep_node hne)
  | replace source target =>
      rcases replaceStep_node hne with hsource | htarget
      · exact h.1 p hsource
      · exact h.2.1 p htarget
  | unlink path => exact h p (unlinkStep_node hne)
  | _ => exact absurd rfl hne

theorem changes_along {program : Op α}
    (h : program.Along (disk names late) (Contained tools) t)
    (hne : (program.complete (disk names late) t).2.node p ≠ t.node p) : Within tools p := by
  induction program generalizing t with
  | done r => exact absurd rfl hne
  | call e k ih =>
      by_cases hstep : (callStep names e t).2.node p = t.node p
      · refine ih _ h.2 ?_
        rw [show ((disk names late).step e t).2.node p = t.node p from hstep]
        exact hne
      · exact h.1.changes hstep

end Changes

section Links
variable {tools : FilesystemTools} {python : Python} {names : TemporaryNames} {late : Bool}
  {arguments : ToolArguments} {t : FileTree} {value : PyText} {candidate : TextPath}
  {root : FilePath}

theorem checkProbe_link (hlink : (lookUpLink t candidate).any Node.isLink = true) :
    (checkProbe candidate root).complete (disk names late) t =
      (.error (.pathAccessError "write target may not be a symlink"), t) := by
  have hasked : (ask (.isSymlink candidate)).complete (disk names late) t = (.ok true, t) :=
    isSymlink_complete.2 ⟨hlink, rfl⟩
  unfold checkProbe
  rw [Program.complete_bind_ok hasked]
  rfl

theorem writeFile_link (hvalue : pathValue arguments = .ok value)
    (hlexical : lexicalPath tools python value = .ok (candidate, root))
    (hlink : (lookUpLink t candidate).any Node.isLink = true) :
    (writeFile tools python arguments).complete (disk names late) t =
      (.error (.pathAccessError "write target may not be a symlink"), t) := by
  have hpath : (writePath tools python value false).complete (disk names late) t =
      (.error (.pathAccessError "write target may not be a symlink"), t) := by
    unfold writePath
    rw [hlexical, Program.ofExcept_ok_bind]
    exact Program.complete_bind_error (checkProbe_link hlink)
  unfold writeFile
  rw [hvalue, Program.ofExcept_ok_bind]
  exact Program.complete_bind_error hpath

end Links

/-- What is read, listed, made and replaced is within the roots, whatever links there are. -/
theorem fileTools_contained (tools : FilesystemTools) (python : Python) (names : TemporaryNames)
    (late : Bool) (files : Files) (arguments : ToolArguments) :
    (readFile tools python arguments).Along (disk names late) (Contained tools) files.tree ∧
      (listDirectory tools python arguments).Along (disk names late) (Contained tools)
        files.tree ∧
      (writeFile tools python arguments).Along (disk names late) (Contained tools) files.tree ∧
      (∀ p, ((writeFile tools python arguments).complete (disk names late) files.tree).2.node p ≠
        files.tree.node p → Within tools p) ∧
      ∀ value candidate root, pathValue arguments = .ok value →
        lexicalPath tools python value = .ok (candidate, root) →
          (lookUpLink files.tree candidate).any Node.isLink = true →
            (writeFile tools python arguments).complete (disk names late) files.tree =
              (.error (.pathAccessError "write target may not be a symlink"), files.tree) := by
  have hwf := files.wellFormed
  refine ⟨along_readFile hwf, along_listDirectory hwf, along_writeFile hwf, ?_, ?_⟩
  · intro p hne
    exact changes_along (along_writeFile hwf) hne
  · intro value candidate root hvalue hlexical hlink
    exact writeFile_link hvalue hlexical hlink

end Polaris.Filesystem
