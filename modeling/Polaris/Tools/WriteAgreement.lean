import Polaris.Tools.AtomicWrite

namespace Polaris.Filesystem
open PyJson PosixPath LinkedTree

/-! What a write is to leave behind. -/

section Statement
variable (tools : FilesystemTools) (python : Python) (names : TemporaryNames)
  (arguments : ToolArguments) (t : FileTree)

def target : Option TextPath :=
  ((pathValue arguments).bind (lexicalPath tools python)).toOption.map Prod.fst

def targetNode : Option (Node FileName Content) := (target tools python arguments).bind (lookUp t)

def hashOf : Option (Node FileName Content) → Option String
  | some (.file data) => some (python.hexdigest data)
  | _ => none

/-- The target has the hash that is expected of it. -/
def Expected : Prop :=
  ∃ expected, expectedHash arguments = .ok expected ∧
    ∀ hash ∈ expected, hash = hashOf python (targetNode tools python arguments t)

def SameTarget (t' : FileTree) : Prop :=
  targetNode tools python arguments t' = targetNode tools python arguments t

/-- The reconciliation finds the receipt, and another write has nothing to do. -/
def Reconciled (result : WriteResult) : Prop :=
  ∃ found again,
    (reconcileWrite tools python arguments).complete (disk names false) t = (.ok found, t) ∧
      found.found = true ∧ found.receipt = some result.receipt ∧
      (writeFile tools python arguments).complete (disk names false) t = (.ok again, t) ∧
      again.written = false

def Answered : Except ToolError WriteResult → FileTree → Prop
  | .ok result, t' => Reconciled tools python names arguments t' result
  | .error _, t' => SameTarget tools python arguments t t'

def Warranted (t' : FileTree) : Prop :=
  SameTarget tools python arguments t t' ∨ Expected tools python arguments t

def Agrees (r : Except ToolError WriteResult) (t' : FileTree) : Prop :=
  Answered tools python names arguments t r t' ∧ Warranted tools python arguments t t'

end Statement

/-! The target while directories are made above it. -/

section Above
variable {names : TemporaryNames} {late b : Bool} {t v : FileTree} {root probe q below : FilePath}
  {candidate rest : TextPath} {I F G : FileTree → Prop}

theorem lookUp_none {p : FilePath} (h : follow t linkLimit p = none) :
    lookUp t (texts p) = none := by
  rw [lookUp_texts, stat, h]
  rfl

/-- What is below a directory that is missing or new is missing. -/
theorem Probed.lookUp_nest (h : Probed t candidate root probe q (texts below))
    (hnest : Nestable t q below) (k : ℕ) :
    lookUp (nest t q (below.take k)) candidate = lookUp t candidate := by
  cases hparts : ofParts candidate with
  | none =>
      unfold lookUp
      rw [hparts]
      rfl
  | some p =>
      obtain rfl := ofParts_iff.1 hparts
      have hsplit : texts p.dropLast = texts (probe ++ below) := by
        rw [texts_append, ← h.split]
        exact List.map_dropLast
      have hp := texts_injective hsplit
      cases below with
      | nil => simp [nest]
      | cons s names =>
          cases k with
          | zero => rfl
          | succ k =>
              have hne : p ≠ [] := by
                rintro rfl
                simp at hp
              obtain ⟨s', hlast⟩ : ∃ s', p = p.dropLast ++ [s'] :=
                ⟨p.getLast hne, (List.dropLast_append_getLast hne).symm⟩
              have hhere : follow t linkLimit p = none := by
                rw [hlast, hp, List.append_assoc]
                exact follow_missing h.found (hnest.free s rfl)
              have hthere : follow (nest t q ((s :: names).take (k + 1))) linkLimit p = none := by
                obtain ⟨s'', more, hmore⟩ : ∃ s'' more,
                    (s :: names).drop (k + 1) ++ [s'] = s'' :: more := by
                  cases (s :: names).drop (k + 1) with
                  | nil => exact ⟨s', [], rfl⟩
                  | cons s'' more => exact ⟨s'', more ++ [s'], rfl⟩
                have hwhole : p = probe ++ (s :: names).take (k + 1) ++ s'' :: more := by
                  rw [hlast, hp, ← hmore, List.append_assoc, List.append_assoc,
                    ← List.append_assoc (List.take _ _), List.take_append_drop]
                rw [hwhole]
                refine follow_missing ((hnest.take (k + 1)).follow_nest h.found) ?_
                exact (hnest.take (k + 1)).nest_free (by simp) s''
              rw [lookUp_none hhere, lookUp_none hthere]

theorem mkdirParents_raises (h : Probed t candidate root probe q rest) (hwf : t.WellFormed)
    (hI : ∀ v, I v) (hF : ∀ v, lookUp v candidate = lookUp t candidate → F v) :
    (ask (.mkdirParents candidate.dropLast)).Keeps (disk names late) I b
      (Program.Raises (late = false) F G b) t := by
  refine Program.raises_perform (fun v _ => hI v) (hI _) ?_ ?_
  · intro err herror
    rcases h.mkdir hwf with ⟨below, rfl, hnest, hstep⟩ | ⟨err', hstep⟩
    · rw [show ((disk names late).step (.mkdirParents candidate.dropLast) t).1 = .ok () from
        congrArg Prod.fst hstep] at herror
      cases herror
    · rw [show ((disk names late).step (.mkdirParents candidate.dropLast) t).2 = t from
        congrArg Prod.snd hstep]
      exact hF t rfl
  · rintro err v ⟨hlate, -, rfl | hpartly⟩
    · exact ⟨hI v, hF v rfl, hlate.symm⟩
    · rcases h.partly hwf hpartly with rfl | ⟨below, k, rfl, hnest, rfl⟩
      · exact ⟨hI v, hF v rfl, hlate.symm⟩
      · exact ⟨hI _, hF _ (h.lookUp_nest hnest k), hlate.symm⟩

theorem makeParent_same {parent : FilePath} (h : Probed t candidate root probe q rest)
    (hwf : t.WellFormed)
    (hmake : (makeParent candidate).complete (disk names late) t = (.ok parent, v)) :
    lookUp v candidate = lookUp t candidate := by
  obtain ⟨below, rfl, hnest, rfl, -⟩ := makeParent_complete h hwf hmake
  have hsame := h.lookUp_nest hnest below.length
  rwa [List.take_length] at hsame

end Above

/-! Everything up to the draft. -/

section Preparing
variable {tools : FilesystemTools} {python : Python} {names : TemporaryNames} {late b : Bool}
  {t v : FileTree} {root probe q below : FilePath} {candidate path rest : TextPath}
  {value name : PyText} {I F G : FileTree → Prop}

theorem raises_done {α : Type} {r : Except ToolError α} (hF : F t) :
    (Program.done r : Op α).Keeps (disk names late) I b (Program.Raises (late = false) F G b) t := by
  cases r with
  | ok a => exact rfl
  | error err => exact .inl ⟨hF, .inl rfl⟩

theorem raises_looks {α : Type} {p : Op α} (hp : p.Asks FsCall.looks) (hI : I t) (hF : F t) :
    p.Keeps (disk names late) I b (Program.Raises (late = false) F G b) t :=
  @Program.Asks.raises _ _ _ _ (disk names late) _ p t _ I F G b hp (fun {_ _} he => he.question)
    hI hF

theorem raises_probe {α : Type} {p : Op α} (hp : p.Asks FsCall.isProbe) (hI : I t) (hF : F t) :
    p.Keeps (disk names late) I b (Program.Raises (late = false) F G b) t :=
  raises_looks (hp.mono FsCall.isProbe.looks) hI hF

theorem preparedTarget_raises (h : Probed t candidate root probe q rest) (hwf : t.WellFormed)
    (hI : ∀ v, I v) (hF : ∀ v, lookUp v candidate = lookUp t candidate → F v) :
    (preparedTarget candidate root).Keeps (disk names late) I b
      (Program.Raises (late = false) F G b) t := by
  have hmake : (makeParent candidate).Keeps (disk names late) I b
      (Program.Raises (late = false) F G b) t := by
    refine Program.Keeps.raises_mapError
      (Program.Keeps.raises_bind (mkdirParents_raises h hwf hI hF) fun _ v hmade => ?_) _
    refine raises_probe (Program.asks_perform trivial) (hI v) ?_
    rcases h.mkdir hwf with ⟨below, rfl, hnest, hstep⟩ | ⟨err, hstep⟩
    · obtain ⟨-, rfl⟩ := Prod.mk.inj (hstep.symm.trans hmade)
      have hsame := h.lookUp_nest hnest below.length
      rw [List.take_length] at hsame
      exact hF _ hsame
    · cases hstep.symm.trans hmade
  refine hmake.raises_bind fun parent v hmade => ?_
  exact raises_probe asks_checkedIn (hI v) (hF v (makeParent_same h hwf hmade))

theorem writePath_raises (hwf : t.WellFormed)
    (hlexical : lexicalPath tools python value = .ok (candidate, root)) (hI : ∀ v, I v)
    (hF : ∀ v, lookUp v candidate = lookUp t candidate → F v) :
    (writePath tools python value true).Keeps (disk names late) I b
      (Program.Raises (late = false) F G b) t := by
  unfold writePath
  rw [hlexical, Program.ofExcept_ok_bind]
  refine (raises_probe asks_checkProbe (hI t) (hF t rfl)).raises_bind fun _ v hprobe => ?_
  obtain ⟨rfl, probe, q, rest, hprobed⟩ := checkProbe_complete hwf hprobe
  exact preparedTarget_raises hprobed hwf hI hF

theorem writePath_same (hwf : t.WellFormed)
    (hlexical : lexicalPath tools python value = .ok (candidate, root))
    (h : (writePath tools python value true).complete (disk names late) t = (.ok path, v)) :
    lookUp v candidate = lookUp t candidate := by
  unfold writePath at h
  rw [hlexical, Program.ofExcept_ok_bind] at h
  obtain ⟨⟨⟩, u, hprobe, hafter⟩ := Program.complete_bind_iff.1 h
  obtain ⟨rfl, probe, q, rest, hprobed⟩ := checkProbe_complete hwf hprobe
  obtain ⟨parent, w, hmake, hend⟩ := Program.complete_bind_iff.1 hafter
  have hlooked := unchanged_of_looks (asks_checkedIn.mono FsCall.isProbe.looks) hend
  rw [hlooked]
  exact makeParent_same hprobed hwf hmake

theorem Prepared.follow_parent (h : Prepared t v candidate root probe q below name) :
    follow v linkLimit (probe ++ below) = some (q ++ below) := by
  rw [h.made]
  exact h.nestable.follow_nest h.found

theorem Prepared.replaceable (h : Prepared t v candidate root probe q below name) :
    ∀ s, name = FileName.text s → Replaceable v (q ++ below ++ [s]) := by
  rintro s rfl
  rcases h.target with hnone | ⟨s', data, hs, hdata⟩
  · have hplain := h.plain
    rw [texts_concat] at hnone hplain
    rw [lookUp_texts] at hnone
    rw [lookUpLink_texts] at hplain
    refine .inl (free_of_missing (follow_physical h.wellFormed ⟨_, h.directory, rfl⟩) h.directory
      hnone fun target htarget => ?_)
    rw [htarget] at hplain
    cases hplain
  · obtain rfl := FileName.text_injective hs
    exact .inr ⟨data, hdata⟩

theorem Prepared.lookUp_unplaced (h : Prepared t v candidate root probe q below name)
    (hnone : ofParts (texts (q ++ below) ++ [name]) = none) (w : FileTree) :
    lookUp w candidate = none := by
  cases hparts : ofParts candidate with
  | none =>
      unfold lookUp
      rw [hparts]
      rfl
  | some p =>
      rw [h.split] at hparts
      obtain ⟨s, rfl, -⟩ := ofParts_concat hparts
      rw [texts_concat, ofParts_texts] at hnone
      cases hnone

end Preparing

/-! The hashes that are compared. -/

section Hashes
variable {tools : FilesystemTools} {python : Python} {names : TemporaryNames} {late : Bool}
  {arguments : ToolArguments} {t v : FileTree} {root probe q below : FilePath}
  {candidate path : TextPath} {value name : PyText} {data : Content} {s : FileName}
  {present : Option (String × ℕ)}

theorem current_complete
    (h : (current python path).complete (disk names late) t = (.ok present, v)) :
    v = t ∧ present.map Prod.fst = hashOf python (lookUp t path) := by
  obtain rfl := unchanged_of_looks asks_current h
  refine ⟨rfl, ?_⟩
  obtain ⟨there, u, hask, hafter⟩ := Program.complete_bind_iff.1 h
  obtain ⟨rfl, rfl⟩ := pathExists_complete.1 hask
  split at hafter
  · obtain ⟨data, w, hread, hend⟩ := Program.complete_bind_iff.1 hafter
    have hread := (Prod.mk.inj (Program.complete_mapError_iff.1 hread)).1
    obtain ⟨rfl, -⟩ := Program.complete_pure_iff.1 hend
    change readStep _ path = _ at hread
    unfold readStep at hread
    split at hread
    · rename_i data' hfile
      obtain rfl := Except.ok.inj hread
      rw [hfile]
      rfl
    · cases hread
  · rename_i hnone
    obtain ⟨rfl, -⟩ := Program.complete_pure_iff.1 hafter
    rw [Bool.not_eq_true, Option.isSome_eq_false_iff, Option.isNone_iff_eq_none] at hnone
    rw [hnone]
    rfl

theorem current_file (h : lookUp t path = some (.file data)) :
    (current python path).complete (disk names late) t =
      (.ok (some (python.hexdigest data, data.length)), t) := by
  have hthere : (ask (.pathExists path)).complete (disk names late) t = (.ok true, t) :=
    pathExists_complete.2 ⟨by rw [h]; rfl, rfl⟩
  have hread : (raising (.filesystemToolError "current file could not be read")
      (ask (.readBytes path))).complete (disk names late) t = (.ok data, t) := by
    refine Program.complete_mapError_iff.2 ?_
    change (readStep t path, t) = _
    unfold readStep
    rw [h]
  unfold current
  rw [Program.complete_bind_ok hthere, if_pos rfl, Program.complete_bind_ok hread]
  rfl

theorem target_eq (hvalue : pathValue arguments = .ok value)
    (hlexical : lexicalPath tools python value = .ok (candidate, root)) :
    target tools python arguments = some candidate := by
  unfold target
  rw [hvalue, Except.bind, hlexical]
  rfl

theorem targetNode_eq (h : target tools python arguments = some candidate) :
    targetNode tools python arguments t = lookUp t candidate := by
  unfold targetNode
  rw [h]
  rfl

/-- What the reconciliation looks at is what is at the target. -/
theorem existing_same (hwf : t.WellFormed)
    (h : lookUp t candidate = none ∧ path = candidate ∨
      ∃ p q data, candidate = texts p ∧ follow t linkLimit p = some q ∧
        t.node q = some (.file data) ∧ root <+: q ∧ path = texts q) :
    lookUp t path = lookUp t candidate := by
  rcases h with ⟨-, rfl⟩ | ⟨p, q, data, rfl, hq, -, -, rfl⟩
  · rfl
  · rw [lookUp_texts, lookUp_texts, stat_eq hq,
      stat_eq (follow_physical hwf (physical_of_follow hwf hq))]

theorem Prepared.lookUp_placed (h : Prepared t v candidate root probe q below name)
    (hname : name = s.text) {w : FileTree} (hplaced : Placed v w (q ++ below ++ [s]) data) :
    lookUp w candidate = some (.file data) := by
  subst hname
  have hgrows := hplaced.grows (h.replaceable s rfl)
  have hfollow := follow_concat (follow_grows hgrows h.follow_parent)
    (hplaced.directory h.directory) hplaced.here rfl
  rw [h.split, texts_concat, lookUp_texts, stat_eq hfollow, hplaced.here]

end Hashes

/-! What a write leaves behind where it fails. -/

section Failing
variable {tools : FilesystemTools} {python : Python} {names : TemporaryNames} {late b : Bool}
  {arguments : ToolArguments} {t v : FileTree} {root : FilePath} {candidate : TextPath}
  {value : PyText} {data : Content} {present : Option (String × ℕ)} {I : FileTree → Prop}

theorem writeOver_raises (hwf : t.WellFormed)
    (hlexical : lexicalPath tools python value = .ok (candidate, root)) (hI : ∀ v, I v)
    (hpresent : hashOf python (lookUp t candidate) ≠ some (python.hexdigest data)) :
    (writeOver tools python value data present).Keeps (disk names late) I b
      (Program.Raises (late = false) (fun v => lookUp v candidate = lookUp t candidate)
        (fun v => ¬ lookUp v candidate = lookUp t candidate) b) t := by
  refine (writePath_raises hwf hlexical hI fun v hv => hv).raises_bind fun path v hpath => ?_
  obtain ⟨candidate', root', probe, q, below, name, hlexical', hprepared, rfl⟩ :=
    writePath_prepared hwf hpath
  obtain ⟨rfl, rfl⟩ := Prod.mk.inj (Except.ok.inj (hlexical.symm.trans hlexical'))
  have hsame := writePath_same hwf hlexical hpath
  refine (raises_looks asks_current (hI v) hsame).raises_bind fun checked w hcurrent => ?_
  obtain rfl := (current_complete hcurrent).1
  split
  · exact raises_done hsame
  · split
    · exact raises_done hsame
    · refine Program.Keeps.raises_bind ?_ fun _ w _ => rfl
      refine atomicWrite_raises hprepared.wellFormed hprepared.directory hprepared.replaceable hI
        hsame ?_ ?_
      · intro hnone w
        rw [hprepared.lookUp_unplaced hnone, hprepared.lookUp_unplaced hnone]
      · intro w s hs hplaced hkept
        rw [hprepared.lookUp_placed hs hplaced] at hkept
        rw [← hkept] at hpresent
        exact hpresent rfl

theorem writeFile_raises (files : Files) :
    (writeFile tools python arguments).Keeps (disk names late)
      (Warranted tools python arguments files.tree) b
      (Program.Raises (late = false) (SameTarget tools python arguments files.tree)
        (fun v => ¬ SameTarget tools python arguments files.tree v) b) files.tree := by
  have hwf := files.wellFormed
  generalize files.tree = t at hwf
  have hF : SameTarget tools python arguments t t := rfl
  have hI : Warranted tools python arguments t t := .inl hF
  refine (raises_done hF).raises_bind fun value u hdone => ?_
  obtain ⟨hvalue, rfl⟩ := Program.complete_ofExcept_iff.1 hdone
  refine (raises_probe asks_writePath hI hF).raises_bind fun path u hpath => ?_
  obtain ⟨rfl, candidate, root, hlexical, -, hfound⟩ := writePath_existing hwf hpath
  have htarget := target_eq hvalue hlexical
  refine (raises_done hF).raises_bind fun data v hdone => ?_
  obtain ⟨-, rfl⟩ := Program.complete_ofExcept_iff.1 hdone
  refine (raises_looks asks_current hI hF).raises_bind fun present v hcurrent => ?_
  obtain ⟨rfl, hhash⟩ := current_complete hcurrent
  rw [existing_same hwf hfound, ← targetNode_eq htarget] at hhash
  split
  · exact raises_done hF
  · rename_i hnew
    refine (raises_done hF).raises_bind fun expected w hdone => ?_
    obtain ⟨hexpected, rfl⟩ := Program.complete_ofExcept_iff.1 hdone
    split
    · exact raises_done hF
    · rename_i hagreed
      have hwarranted : Expected tools python arguments v := by
        refine ⟨expected, hexpected, fun hash hmem => ?_⟩
        rw [← hhash]
        by_contra hne
        refine hagreed ?_
        rw [Option.mem_def.1 hmem]
        simpa using hne
      have hother : hashOf python (lookUp v candidate) ≠ some (python.hexdigest data) := by
        rw [← targetNode_eq htarget, ← hhash]
        exact hnew
      have hover : (writeOver tools python value data present).Keeps (disk names late)
          (Warranted tools python arguments v) b
          (Program.Raises (late = false) (fun w => lookUp w candidate = lookUp v candidate)
            (fun w => ¬ lookUp w candidate = lookUp v candidate) b) v :=
        writeOver_raises hwf hlexical (fun _ => .inr hwarranted) hother
      unfold SameTarget
      simpa only [targetNode_eq htarget] using hover

end Failing

/-! What is found of a write that returned. -/

section Finding
variable {tools : FilesystemTools} {python : Python} {names : TemporaryNames} {late b : Bool}
  {arguments : ToolArguments} {t v : FileTree} {root probe q below : FilePath}
  {candidate path : TextPath} {value name : PyText} {data data' : Content} {s : FileName}
  {present : Option (String × ℕ)} {result : WriteResult}

theorem probeUp_found (h : (lookUp v path).isSome = true) :
    (probeUp root path.reverse).complete (disk names late) v = (.ok path, v) := by
  obtain ⟨parts, rfl⟩ : ∃ parts : TextPath, path = parts.reverse := ⟨path.reverse, by simp⟩
  rw [List.reverse_reverse]
  cases parts with
  | nil => rfl
  | cons name above =>
      have hthere : (ask (.pathExists (name :: above).reverse)).complete (disk names late) v =
          (.ok true, v) := pathExists_complete.2 ⟨h, rfl⟩
      unfold probeUp
      rw [Program.complete_bind_ok hthere]
      rfl

theorem resolving_ok {p r : FilePath} {error : ToolError}
    (h : realPath v v.entries.length [] (down p) = some r) :
    (raising error (ask (.resolve (texts p)))).complete (disk names late) v = (.ok r, v) := by
  refine Program.complete_mapError_iff.2 ?_
  change (resolveStep v (texts p), v) = _
  unfold resolveStep
  rw [ofParts_texts]
  simp only [h]

/-- A file that has its name in a directory to which its path leads. -/
structure Standing (v : FileTree) (root p r : FilePath) (s : FileName) (data : Content) : Prop where
  wellFormed : v.WellFormed
  parent : follow v linkLimit p = some r
  directory : v.node r = some .directory
  inside : root <+: r
  resolved : realPath v v.entries.length [] (down p) = some r
  file : v.node (r ++ [s]) = some (.file data)

section
variable {p r : FilePath}

theorem Standing.follow (h : Standing v root p r s data) :
    follow v linkLimit (p ++ [s]) = some (r ++ [s]) :=
  follow_concat h.parent h.directory h.file rfl

theorem Standing.lookUp (h : Standing v root p r s data) :
    lookUp v (texts (p ++ [s])) = some (.file data) := by
  rw [lookUp_texts, stat_eq h.follow, h.file]

theorem Standing.lookUp_real (h : Standing v root p r s data) :
    Filesystem.lookUp v (texts (r ++ [s])) = some (.file data) := by
  rw [lookUp_texts, stat_eq (follow_physical h.wellFormed ⟨_, h.file, rfl⟩), h.file]

theorem Standing.realPath (h : Standing v root p r s data) :
    realPath v v.entries.length [] (down (p ++ [s])) = some (r ++ [s]) := by
  rw [down, List.map_append, ← down, realPath_append, h.resolved, Option.bind_some]
  exact (realPath_plain h.file rfl).trans realPath_nil

theorem Standing.inside_file (h : Standing v root p r s data) :
    Filesystem.inside (texts (r ++ [s])) root = true :=
  inside_texts.2 (h.inside.trans (List.prefix_append ..))

theorem Standing.checkProbe (h : Standing v root p r s data) :
    (checkProbe (texts (p ++ [s])) root).complete (disk names late) v = (.ok (), v) := by
  have hplain : (ask (.isSymlink (texts (p ++ [s])))).complete (disk names late) v =
      (.ok false, v) := by
    refine isSymlink_complete.2 ⟨?_, rfl⟩
    rw [lookUpLink_texts, lstat, place_concat h.parent h.directory, Option.bind_some, h.file]
    rfl
  have hdrop : (texts (p ++ [s])).dropLast = texts p := by
    rw [← texts_concat, List.dropLast_concat]
  have hprobe : (probeUp root (texts p).reverse).complete (disk names late) v =
      (.ok (texts p), v) := by
    refine probeUp_found ?_
    rw [lookUp_texts, stat_eq h.parent, h.directory]
    rfl
  unfold Filesystem.checkProbe
  rw [Program.complete_bind_ok hplain, if_neg Bool.false_ne_true, hdrop,
    Program.complete_bind_ok hprobe, Program.complete_bind_ok (resolving_ok h.resolved),
    if_pos (inside_texts.2 h.inside)]
  rfl

theorem Standing.existingTarget (h : Standing v root p r s data) :
    (existingTarget (texts (p ++ [s])) root).complete (disk names late) v =
      (.ok (texts (r ++ [s])), v) := by
  have hthere : (ask (.pathExists (texts (p ++ [s])))).complete (disk names late) v =
      (.ok true, v) := pathExists_complete.2 ⟨by rw [h.lookUp]; rfl, rfl⟩
  have hfile : (ask (.isFile (texts (r ++ [s])))).complete (disk names late) v = (.ok true, v) :=
    isFile_complete.2 ⟨by rw [h.lookUp_real]; rfl, rfl⟩
  have hchecked : (checkTarget (texts (p ++ [s])) root).complete (disk names late) v =
      (.ok (r ++ [s]), v) := by
    unfold checkTarget
    rw [Program.complete_bind_ok (resolving_ok h.realPath), if_pos h.inside_file,
      Program.complete_bind_ok hfile, if_pos rfl]
    rfl
  unfold Filesystem.existingTarget
  rw [Program.complete_bind_ok hthere, if_pos rfl, Program.complete_bind_ok hchecked]
  rfl

theorem Standing.writePath (h : Standing v root p r s data)
    (hlexical : lexicalPath tools python value = .ok (texts (p ++ [s]), root)) :
    (writePath tools python value false).complete (disk names late) v =
      (.ok (texts (r ++ [s])), v) := by
  unfold Filesystem.writePath
  rw [hlexical, Program.ofExcept_ok_bind, Program.complete_bind_ok h.checkProbe]
  exact h.existingTarget

end

theorem reconciled_of (hvalue : pathValue arguments = .ok value)
    (hcontent : content python arguments = .ok data)
    (hpath : (writePath tools python value false).complete (disk names false) v = (.ok path, v))
    (hcurrent : (current python path).complete (disk names false) v = (.ok present, v))
    (hhash : present.map Prod.fst = some (python.hexdigest data))
    (hreceipt : result.receipt = receipt python path data) :
    Reconciled tools python names arguments v result := by
  refine ⟨⟨true, pathText path, python.hexdigest data, present, some (receipt python path data)⟩,
    ⟨receipt python path data, false, true, none⟩, ?_, rfl, ?_, ?_, rfl⟩
  · unfold reconcileWrite
    rw [hvalue, Program.ofExcept_ok_bind, Program.complete_bind_ok hpath, hcontent,
      Program.ofExcept_ok_bind, Program.complete_bind_ok hcurrent]
    simp only [hhash, decide_true, if_pos]
    rfl
  · rw [hreceipt]
  · unfold writeFile
    rw [hvalue, Program.ofExcept_ok_bind, Program.complete_bind_ok hpath, hcontent,
      Program.ofExcept_ok_bind, Program.complete_bind_ok hcurrent, if_pos hhash]
    rfl

theorem reconciled_standing {p r : FilePath} (h : Standing v root p r s data')
    (hlexical : lexicalPath tools python value = .ok (texts (p ++ [s]), root))
    (hvalue : pathValue arguments = .ok value) (hcontent : content python arguments = .ok data)
    (hhash : python.hexdigest data' = python.hexdigest data)
    (hreceipt : result.receipt = receipt python (texts (r ++ [s])) data) :
    Reconciled tools python names arguments v result :=
  reconciled_of hvalue hcontent (h.writePath hlexical) (current_file h.lookUp_real)
    (congrArg some hhash) hreceipt

theorem Prepared.standing (h : Prepared t v candidate root probe q below name)
    (hfile : v.node (q ++ below ++ [s]) = some (.file data)) :
    Standing v root (probe ++ below) (q ++ below) s data :=
  ⟨h.wellFormed, h.follow_parent, h.directory, h.inside.trans (List.prefix_append ..),
    h.resolved, hfile⟩

theorem Prepared.standing_placed (h : Prepared t v candidate root probe q below name)
    (hname : name = s.text) {w : FileTree} (hplaced : Placed v w (q ++ below ++ [s]) data) :
    Standing w root (probe ++ below) (q ++ below) s data := by
  have hs := h.replaceable s hname
  have hgrows := hplaced.grows hs
  exact ⟨hplaced.wellFormed h.wellFormed h.directory hs, follow_grows hgrows h.follow_parent,
    hplaced.directory h.directory, h.inside.trans (List.prefix_append ..),
    realPath_grows hgrows hplaced.length h.resolved, hplaced.here⟩

theorem writeOver_reconciled (hwf : t.WellFormed) (hvalue : pathValue arguments = .ok value)
    (hcontent : content python arguments = .ok data)
    (h : (writeOver tools python value data present).complete (disk names false) t =
      (.ok result, v)) : Reconciled tools python names arguments v result := by
  obtain ⟨path, u, hpath, hafter⟩ := Program.complete_bind_iff.1 h
  obtain ⟨candidate, root, probe, q, below, name, hlexical, hprepared, rfl⟩ :=
    writePath_prepared hwf hpath
  obtain ⟨checked, w, hcurrent, hend⟩ := Program.complete_bind_iff.1 hafter
  obtain ⟨rfl, hhash⟩ := current_complete hcurrent
  rw [hprepared.split] at hlexical
  split at hend
  · -- another write was there first
    rename_i hsame
    obtain ⟨rfl, rfl⟩ := Program.complete_pure_iff.1 hend
    rw [hsame] at hhash
    rcases hprepared.target with hnone | ⟨s, data', rfl, hfile⟩
    · rw [hnone] at hhash
      cases hhash
    · have hstanding := hprepared.standing hfile
      rw [texts_concat] at hhash hlexical
      rw [hstanding.lookUp_real] at hhash
      exact reconciled_standing hstanding hlexical hvalue hcontent (Option.some.inj hhash).symm
        (by rw [texts_concat])
  · split at hend
    · exact absurd hend Program.complete_throw_iff
    · obtain ⟨⟨⟩, w', hwritten, hreturned⟩ := Program.complete_bind_iff.1 hend
      obtain ⟨rfl, rfl⟩ := Program.complete_pure_iff.1 hreturned
      obtain ⟨s, rfl, hplaced⟩ := atomicWrite_complete hprepared.wellFormed hprepared.directory
        hprepared.replaceable hwritten
      rw [texts_concat] at hlexical
      exact reconciled_standing (hprepared.standing_placed rfl hplaced) hlexical hvalue hcontent rfl
        (by rw [texts_concat])

theorem writeFile_reconciled (hwf : t.WellFormed)
    (h : (writeFile tools python arguments).complete (disk names false) t = (.ok result, v)) :
    Reconciled tools python names arguments v result := by
  obtain ⟨value, u, hdone, hresolving⟩ := Program.complete_bind_iff.1 h
  obtain ⟨hvalue, rfl⟩ := Program.complete_ofExcept_iff.1 hdone
  obtain ⟨path, u, hpath, hreading⟩ := Program.complete_bind_iff.1 hresolving
  obtain ⟨rfl, -⟩ := writePath_existing hwf hpath
  obtain ⟨data, w, hdone, hlooking⟩ := Program.complete_bind_iff.1 hreading
  obtain ⟨hcontent, rfl⟩ := Program.complete_ofExcept_iff.1 hdone
  obtain ⟨present, w, hcurrent, hafter⟩ := Program.complete_bind_iff.1 hlooking
  obtain ⟨rfl, -⟩ := current_complete hcurrent
  split at hafter
  · rename_i hsame
    obtain ⟨rfl, rfl⟩ := Program.complete_pure_iff.1 hafter
    exact reconciled_of hvalue hcontent hpath hcurrent hsame rfl
  · obtain ⟨expected, w', hdone, hchecking⟩ := Program.complete_bind_iff.1 hafter
    obtain ⟨-, rfl⟩ := Program.complete_ofExcept_iff.1 hdone
    split at hchecking
    · exact absurd hchecking Program.complete_throw_iff
    · exact writeOver_reconciled hwf hvalue hcontent hchecking

end Finding

/-- A write agrees with its reconciliation in every run but those in which the synchronisation of the
directory fails, after the file is in its place. -/
theorem writeFile_agrees_iff (tools : FilesystemTools) (python : Python) (names : TemporaryNames)
    (files : Files) (arguments : ToolArguments) :
    Agrees tools python names arguments files.tree
        ((writeFile tools python arguments).complete (disk names false) files.tree).1
        ((writeFile tools python arguments).complete (disk names false) files.tree).2 ∧
      (∀ late r t', Program.Faulty (disk names late) (writeFile tools python arguments)
          files.tree r t' →
        (Agrees tools python names arguments files.tree r t' ↔ late = false)) ∧
      ∀ late t', Program.Stops (disk names late) true (writeFile tools python arguments)
          files.tree t' → Warranted tools python arguments files.tree t' := by
  have hstart : Warranted tools python arguments files.tree files.tree := .inl rfl
  have hkeeps : ∀ late, (writeFile tools python arguments).Keeps (disk names late)
      (Warranted tools python arguments files.tree) true
      (Program.Raises (late = false) (SameTarget tools python arguments files.tree)
        (fun v => ¬ SameTarget tools python arguments files.tree v) true) files.tree :=
    fun late => writeFile_raises files
  refine ⟨⟨?_, (hkeeps false).stops hstart Program.stops_complete⟩, fun late r t' hfault => ?_,
    fun late t' hstop => (hkeeps late).stops hstart hstop⟩
  · have hend := (hkeeps false).complete
    cases hcomplete : (writeFile tools python arguments).complete (disk names false) files.tree with
    | mk r t' =>
        rw [hcomplete] at hend
        cases r with
        | ok result => exact writeFile_reconciled files.wellFormed hcomplete
        | error err =>
            rcases hend with ⟨hsame, -⟩ | ⟨-, hlate, -⟩
            · exact hsame
            · exact absurd rfl hlate
  · have hend := (hkeeps late).faulty hfault
    cases r with
    | ok result => cases hend
    | error err =>
        rcases hend with ⟨hsame, hflag | hlate⟩ | ⟨hchanged, hlate, -⟩
        · cases hflag
        · exact iff_of_true ⟨hsame, (hkeeps late).stops hstart hfault.stops⟩ hlate
        · exact iff_of_false (fun hagrees => hchanged hagrees.1) hlate

namespace Unsynced

theorem length_prefix : (PyText.ofString ".polaris-write-").length = 15 := by decide +kernel

theorem isFileName_draft (length : ℕ) : isFileName
    (PyText.ofString ".polaris-write-" ++ List.replicate length (CodePoint.ofChar 'a')) = true := by
  have hletter : isNameCode (CodePoint.ofChar 'a') = true := by decide +kernel
  have hnames : (PyText.ofString ".polaris-write-").all isNameCode = true := by decide +kernel
  have hshort : ∀ text : PyText, text.length < 15 →
      PyText.ofString ".polaris-write-" ++ List.replicate length (CodePoint.ofChar 'a') ≠ text := by
    rintro text htext rfl
    rw [List.length_append, length_prefix] at htext
    omega
  unfold isFileName
  rw [List.all_append, hnames, List.all_replicate, hletter]
  simp [hshort [] (by decide), hshort dot (by decide), hshort dotdot (by decide)]

def draftName (length : ℕ) : FileName := ⟨_, isFileName_draft length⟩

def longest : List (FilePath × Node FileName Content) → ℕ
  | [] => 0
  | e :: es => max ((e.1.getLast?.map fun s => s.text.length).getD 0) (longest es)

theorem le_longest {es : List (FilePath × Node FileName Content)} {p : FilePath} {s : FileName}
    {n : Node FileName Content} (h : (p ++ [s], n) ∈ es) : s.text.length ≤ longest es := by
  induction es with
  | nil => cases h
  | cons e es ih =>
      rcases List.mem_cons.1 h with rfl | hmem
      · unfold longest
        rw [List.getLast?_concat]
        exact Nat.le_max_left ..
      · exact (ih hmem).trans (Nat.le_max_right ..)

/-- Names that are longer than all the others in the tree. -/
def names : TemporaryNames where
  name t _ := draftName (longest t.entries)
  free t q := by
    unfold LinkedTree.Tree.node
    rw [if_neg (by simp), List.lookup_eq_none_iff]
    rintro ⟨p, n⟩ hmem
    rw [bne_iff_ne]
    rintro rfl
    have hle := le_longest hmem
    unfold draftName at hle
    simp only [List.length_append, List.length_replicate, length_prefix] at hle
    omega

def python : Python where
  expanduser part := part
  hexdigest data :=
    if data = [] then "e3b0c44298fc1c149afbf4c8996fb92427ae41e4649b934ca495991b7852b855"
    else "2d711642b726b04401627ca9fbac32f5c8530fb1903cc4db02258717921a4881"
  b64decode _ := none

def work : FileName := ⟨PyText.ofString "work", by decide +kernel⟩

def note : FileName := ⟨PyText.ofString "note", by decide +kernel⟩

def tools : FilesystemTools := ⟨[[work]], 10000000, 1000, by simp, by decide, by decide⟩

theorem wellFormed_nil : (⟨[]⟩ : FileTree).WellFormed := by
  refine ⟨fun p s hne => ?_⟩
  refine absurd ?_ hne
  unfold LinkedTree.Tree.node
  rw [if_neg (by simp)]
  rfl

def files : Files where
  tree := ((⟨[]⟩ : FileTree).set [work] .directory).set [work, note] (.file [])
  wellFormed := by
    have hwork : ((⟨[]⟩ : FileTree).set [work] .directory).WellFormed :=
      wellFormed_nil.set (q := []) rfl fun _ => rfl
    have hnode : ∀ p, ((⟨[]⟩ : FileTree).set [work] .directory).node p =
        if p = [work] then some .directory else (⟨[]⟩ : FileTree).node p := fun p => node_set (by simp)
    refine hwork.set (q := [work]) ?_ fun hsame => ?_
    · rw [hnode, if_pos rfl]
    · rw [hnode, if_neg (by simp)] at hsame
      cases hsame

def arguments : ToolArguments :=
  ⟨some (.str (PyText.ofString "note")), some (.str (PyText.ofString "x")), none, none, none, none⟩

/-- The `fsync` of the directory fails after `os.replace`. -/
theorem writeFile_unsynced : ∃ t', Program.Faulty (disk names true)
    (writeFile tools python arguments) files.tree
      (.error (.filesystemToolError "atomic write failed")) t' ∧
    targetNode tools python arguments files.tree = some (.file []) ∧
    targetNode tools python arguments t' = some (.file [120]) ∧
    ¬ Agrees tools python names arguments files.tree
      (.error (.filesystemToolError "atomic write failed")) t' := by
  have hbefore : targetNode tools python arguments files.tree = some (.file []) := by
    decide +kernel
  have hended : ((Program.faultAfter (disk names true) (fun e => e.syncsDirectory) .osError 27
      (writeFile tools python arguments) files.tree).map fun x =>
        (decide (x.1 = .error (.filesystemToolError "atomic write failed")),
          targetNode tools python arguments x.2)) = some (true, some (.file [120])) := by
    decide +kernel
  obtain ⟨⟨r, t'⟩, hrun, hend⟩ := Option.map_eq_some_iff.1 hended
  obtain ⟨hraised, hafter⟩ := Prod.mk.inj hend
  obtain rfl := of_decide_eq_true hraised
  have hfault := Program.faulty_faultAfter (D := disk names true) (fun {β e w} hlate => ?_) hrun
  · refine ⟨t', hfault, hbefore, hafter, fun hagrees => ?_⟩
    have hsame : targetNode tools python arguments t' =
        targetNode tools python arguments files.tree := hagrees.1
    rw [hbefore, show targetNode tools python arguments t' = _ from hafter] at hsame
    cases hsame
  · exact ⟨hlate, rfl, .inl rfl⟩

end Unsynced

end Polaris.Filesystem
