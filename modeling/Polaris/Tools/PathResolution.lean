import Polaris.Tools.Filesystem

namespace Polaris.Filesystem
open PyJson PosixPath LinkedTree

section Texts
variable {t : FileTree} {p q root : FilePath} {path : TextPath}

theorem ofParts_texts : ofParts (texts p) = some p := ofParts_iff.2 rfl

theorem inside_texts : inside (texts p) root = true ↔ root <+: p := by
  unfold inside texts
  rw [List.isPrefixOf_iff_prefix]
  exact List.prefix_map_iff_of_injective FileName.text_injective

theorem texts_append : texts (p ++ q) = texts p ++ texts q := List.map_append

theorem inside_iff : inside path root = true ↔ texts root <+: path := by
  unfold inside
  rw [List.isPrefixOf_iff_prefix]

theorem ofParts_append_iff {above below : TextPath} : ofParts (above ++ below) = some p ↔
    ∃ p₁ p₂, above = texts p₁ ∧ below = texts p₂ ∧ p = p₁ ++ p₂ := by
  rw [ofParts_iff]
  constructor
  · intro h
    obtain ⟨p₁, p₂, rfl, rfl, rfl⟩ := List.map_eq_append_iff.1 h.symm
    exact ⟨p₁, p₂, rfl, rfl, rfl⟩
  · rintro ⟨p₁, p₂, rfl, rfl, rfl⟩
    exact texts_append.symm

theorem lookUp_texts : lookUp t (texts p) = stat t linkLimit p := by
  unfold lookUp
  rw [ofParts_texts, Option.bind_some]

theorem lookUpLink_texts : lookUpLink t (texts p) = lstat t linkLimit p := by
  unfold lookUpLink
  rw [ofParts_texts, Option.bind_some]

theorem placeOf_texts : placeOf t (texts p) = place t linkLimit p := by
  unfold placeOf
  rw [ofParts_texts, Option.bind_some]

theorem lookUp_isSome (h : (lookUp t path).isSome = true) :
    ∃ p q, path = texts p ∧ follow t linkLimit p = some q := by
  obtain ⟨n, hn⟩ := Option.isSome_iff_exists.1 h
  obtain ⟨p, hp, hstat⟩ := Option.bind_eq_some_iff.1 hn
  obtain ⟨q, hq, -⟩ := stat_iff.1 hstat
  exact ⟨p, q, ofParts_iff.1 hp, hq⟩

end Texts

section Lexical
variable {tools : FilesystemTools} {python : Python} {value : PyText} {candidate : TextPath}
  {root : FilePath}

theorem lexicalPath_ok (h : lexicalPath tools python value = .ok (candidate, root)) :
    root ∈ tools.roots ∧ texts root <+: candidate := by
  unfold lexicalPath at h
  cases hexpand : expandUser python (purePath value) with
  | error err => rw [hexpand] at h; cases h
  | ok path =>
      rw [hexpand] at h
      cases hfound : (candidates tools path).findSome? fun item =>
          (tools.roots.find? (inside (normalise [] item))).map fun root =>
            (normalise [] item, root) with
      | none =>
          simp only [Bind.bind, Except.bind, hfound] at h
          cases h
      | some found =>
          simp only [Bind.bind, Except.bind, hfound, Option.elim_some] at h
          obtain rfl := Except.ok.inj h
          obtain ⟨item, -, hitem⟩ := List.exists_of_findSome?_eq_some hfound
          obtain ⟨root', hroot, heq⟩ := Option.map_eq_some_iff.1 hitem
          obtain ⟨rfl, rfl⟩ := Prod.mk.inj heq
          exact ⟨List.mem_of_find?_eq_some hroot, inside_iff.1 (List.find?_some hroot)⟩

end Lexical

/-! The calls that change nothing. -/

section Questions

def FsCall.isProbe {β : Type} : FsCall β → Prop
  | .isSymlink _ | .pathExists _ | .isFile _ | .isDir _ | .resolve _ => True
  | _ => False

def FsCall.looks {β : Type} : FsCall β → Prop
  | .size _ | .readBytes _ | .iterdir _ => True
  | e => e.isProbe

variable {names : TemporaryNames} {late : Bool} {β : Type} {e : FsCall β} {root : FilePath}
  {candidate path : TextPath} {tools : FilesystemTools} {python : Python} {value : PyText}

theorem FsCall.isProbe.looks (h : e.isProbe) : e.looks := by
  cases e <;> first | exact h | exact trivial

theorem FsCall.looks.question (h : e.looks) : (disk names late).Question (late = false) e := by
  have hstep : ∀ t, (callStep names e t).2 = t := by
    cases e <;> first | exact fun _ => rfl | exact h.elim
  have hpartly : ∀ t t', ¬ Partly e t t' := by
    cases e <;> first | exact fun _ _ => id | exact h.elim
  have hearly : e.syncsDirectory = false := by
    cases e <;> first | rfl | exact h.elim
  refine ⟨hstep, ?_, ?_⟩
  · rintro t t' (htorn | htorn | htorn)
    · exact htorn
    · exact htorn.trans (hstep t)
    · exact absurd htorn (hpartly t t')
  · rintro t err t' ⟨hlate, -, hleft | hleft⟩
    · exact ⟨hleft, hlate.symm.trans hearly⟩
    · exact absurd hleft (hpartly t t')

theorem unchanged_of_looks {α : Type} {p : Op α} {r : Except ToolError α} {t t' : FileTree}
    (hp : p.Asks FsCall.looks) (h : p.complete (disk names late) t = (r, t')) : t' = t := by
  have hsame := @Program.Asks.complete_snd _ _ _ _ (disk names late) _ p t _ hp
    fun {_ _} he => he.question
  rwa [h] at hsame

theorem asks_probeUp {parts : List PyText} : (probeUp root parts).Asks FsCall.isProbe := by
  induction parts with
  | nil => exact (Program.asks_perform trivial).bind fun _ => Program.asks_pure
  | cons name above ih =>
      refine (Program.asks_perform trivial).bind fun present => ?_
      cases present with
      | true => exact Program.asks_pure
      | false =>
          refine (Program.asks_perform trivial).bind fun broken => ?_
          cases broken with
          | true => exact Program.asks_throw
          | false =>
              simp only [Bool.false_eq_true, if_false]
              split
              · exact Program.asks_pure
              · exact ih

theorem asks_resolve {error : ToolError} :
    (raising error (ask (.resolve path))).Asks FsCall.isProbe :=
  (Program.asks_perform trivial).mapError _

theorem asks_checkProbe : (checkProbe candidate root).Asks FsCall.isProbe := by
  refine (Program.asks_perform trivial).bind fun linked => ?_
  cases linked with
  | true => exact Program.asks_throw
  | false =>
      refine asks_probeUp.bind fun probe => asks_resolve.bind fun resolved => ?_
      split
      · exact Program.asks_pure
      · exact Program.asks_throw

theorem asks_checkTarget : (checkTarget path root).Asks FsCall.isProbe := by
  refine asks_resolve.bind fun checked => ?_
  split
  · refine (Program.asks_perform trivial).bind fun present => ?_
    cases present with
    | true => exact Program.asks_pure
    | false => exact Program.asks_throw
  · exact Program.asks_throw

theorem asks_checkedIn {parent : FilePath} :
    (checkedIn parent candidate root).Asks FsCall.isProbe := by
  unfold checkedIn
  split
  · refine (Program.asks_perform trivial).bind fun linked => ?_
    split
    · exact Program.asks_throw
    · refine (Program.asks_perform trivial).bind fun present => ?_
      split
      · exact asks_checkTarget.bind fun _ => Program.asks_pure
      · exact Program.asks_pure
  · exact Program.asks_throw

theorem asks_existingTarget : (existingTarget candidate root).Asks FsCall.isProbe := by
  refine (Program.asks_perform trivial).bind fun present => ?_
  cases present with
  | true => exact asks_checkTarget.bind fun _ => Program.asks_pure
  | false => exact Program.asks_pure

theorem asks_writePath : (writePath tools python value false).Asks FsCall.isProbe :=
  Program.asks_ofExcept.bind fun _ => asks_checkProbe.bind fun _ => asks_existingTarget

theorem asks_existingPath : (existingPath tools python value).Asks FsCall.isProbe := by
  refine Program.asks_ofExcept.bind fun found => asks_resolve.bind fun resolved => ?_
  split
  · exact Program.asks_pure
  · exact Program.asks_throw

theorem asks_current : (current python path).Asks FsCall.looks := by
  refine (Program.asks_perform trivial).bind fun present => ?_
  cases present with
  | true =>
      exact ((Program.asks_perform trivial).mapError _).bind fun _ => Program.asks_pure
  | false => exact Program.asks_pure

end Questions

/-! Where the probe ends. -/

/-- The first ancestor that exists leads into the root, and what is below it is missing. -/
structure Probed (t : FileTree) (candidate : TextPath) (root probe q : FilePath)
    (rest : TextPath) : Prop where
  split : candidate.dropLast = texts probe ++ rest
  found : follow t linkLimit probe = some q
  below : root <+: q
  missing : ∀ s ∈ rest.head?, lookUp t (texts probe ++ [s]) = none ∧
    (lookUpLink t (texts probe ++ [s])).any Node.isLink = false
  plain : (lookUpLink t candidate).any Node.isLink = false

section Probing
variable {names : TemporaryNames} {late : Bool} {t t' : FileTree} {root : FilePath}
  {candidate path probe : TextPath} {parts : List PyText}

theorem isSymlink_complete {b : Bool} :
    (ask (.isSymlink path)).complete (disk names late) t = (.ok b, t') ↔
      (lookUpLink t path).any Node.isLink = b ∧ t = t' :=
  @Program.complete_pure_iff FsCall _ _ _ (disk names late) _ _ _ _

theorem pathExists_complete {b : Bool} :
    (ask (.pathExists path)).complete (disk names late) t = (.ok b, t') ↔
      (lookUp t path).isSome = b ∧ t = t' :=
  @Program.complete_pure_iff FsCall _ _ _ (disk names late) _ _ _ _

theorem isFile_complete {b : Bool} :
    (ask (.isFile path)).complete (disk names late) t = (.ok b, t') ↔
      (lookUp t path).any isFileNode = b ∧ t = t' :=
  @Program.complete_pure_iff FsCall _ _ _ (disk names late) _ _ _ _

theorem isDir_complete {b : Bool} :
    (ask (.isDir path)).complete (disk names late) t = (.ok b, t') ↔
      (lookUp t path).any isDirectoryNode = b ∧ t = t' :=
  @Program.complete_pure_iff FsCall _ _ _ (disk names late) _ _ _ _

theorem resolve_complete {resolved : FilePath}
    (h : (ask (.resolve path)).complete (disk names late) t = (.ok resolved, t')) :
    ∃ p, path = texts p ∧ realPath t t.entries.length [] (down p) = some resolved ∧ t' = t := by
  change (resolveStep t path, t) = _ at h
  obtain ⟨hresolve, rfl⟩ := Prod.mk.inj h
  unfold resolveStep at hresolve
  split at hresolve
  · cases hresolve
  · rename_i p hp
    split at hresolve
    · cases hresolve
    · rename_i resolved' hreal
      obtain rfl := Except.ok.inj hresolve
      exact ⟨p, ofParts_iff.1 hp, hreal, rfl⟩

theorem resolving_complete {resolved : FilePath} {error : ToolError}
    (h : (raising error (ask (.resolve path))).complete (disk names late) t = (.ok resolved, t')) :
    ∃ p, path = texts p ∧ realPath t t.entries.length [] (down p) = some resolved ∧ t' = t :=
  resolve_complete (Program.complete_mapError_iff.1 h)

theorem lookUp_nil : (lookUp t []).isSome = true := by
  have hnil : lookUp t (texts []) = some .directory := by
    rw [lookUp_texts, stat_eq follow_nil]
    rfl
  exact Option.isSome_of_mem hnil

theorem probeUp_complete
    (h : (probeUp root parts).complete (disk names late) t = (.ok probe, t')) :
    t' = t ∧ ((lookUp t probe).isSome = true ∨ probe = texts root) ∧
      ∃ rest, parts.reverse = probe ++ rest ∧
        ∀ s ∈ rest.head?, lookUp t (probe ++ [s]) = none ∧
          (lookUpLink t (probe ++ [s])).any Node.isLink = false := by
  induction parts with
  | nil =>
      change ((Except.ok [] : Except ToolError TextPath), t) = _ at h
      obtain ⟨hok, rfl⟩ := Prod.mk.inj h
      obtain rfl := Except.ok.inj hok
      exact ⟨rfl, .inl lookUp_nil, [], rfl, by simp⟩
  | cons name above ih =>
      obtain ⟨present, u, hask, h⟩ := Program.complete_bind_iff.1 h
      obtain ⟨rfl, rfl⟩ := pathExists_complete.1 hask
      split at h
      · rename_i hsome
        obtain ⟨rfl, rfl⟩ := Program.complete_pure_iff.1 h
        exact ⟨rfl, .inl hsome, [], by simp, by simp⟩
      · rename_i hnone
        obtain ⟨broken, u, hask, h⟩ := Program.complete_bind_iff.1 h
        obtain ⟨rfl, rfl⟩ := isSymlink_complete.1 hask
        split at h
        · exact absurd h Program.complete_throw_iff
        · rename_i hlink
          split at h
          · rename_i hroot
            obtain ⟨rfl, rfl⟩ := Program.complete_pure_iff.1 h
            exact ⟨rfl, .inr hroot, [], by simp, by simp⟩
          · obtain ⟨rfl, hfound, rest, hrest, hmissing⟩ := ih h
            refine ⟨rfl, hfound, rest ++ [name], ?_, ?_⟩
            · rw [List.reverse_cons, hrest, List.append_assoc]
            · intro s hs
              cases rest with
              | nil =>
                  obtain rfl := Option.some.inj hs
                  rw [List.append_nil] at hrest
                  rw [← hrest, ← List.reverse_cons]
                  exact ⟨by simpa using hnone, by simpa using hlink⟩
              | cons s' rest => exact hmissing s hs

theorem checkProbe_complete (hwf : t.WellFormed)
    (h : (checkProbe candidate root).complete (disk names late) t = (.ok (), t')) :
    t' = t ∧ ∃ probe q rest, Probed t candidate root probe q rest := by
  obtain ⟨linked, u, hask, h⟩ := Program.complete_bind_iff.1 h
  obtain ⟨rfl, rfl⟩ := isSymlink_complete.1 hask
  split at h
  · exact absurd h Program.complete_throw_iff
  · rename_i hplain
    obtain ⟨probe, u, hprobe, hafter⟩ := Program.complete_bind_iff.1 h
    obtain ⟨rfl, hfound, rest, hrest, hmissing⟩ := probeUp_complete hprobe
    obtain ⟨resolved, v, hresolve, hend⟩ := Program.complete_bind_iff.1 hafter
    obtain ⟨p, rfl, hreal, rfl⟩ := resolving_complete hresolve
    split at hend
    · rename_i hinside
      obtain ⟨-, rfl⟩ := Program.complete_pure_iff.1 hend
      have hbelow := inside_texts.1 hinside
      have hp := real_of_realPath hreal
      have hphysical := hp.physical hwf physical_nil
      have hfollow : follow v linkLimit p = some resolved := by
        rcases hfound with hsome | hroot
        · obtain ⟨p', q, htexts, hq⟩ := lookUp_isSome hsome
          obtain rfl := texts_injective htexts
          obtain rfl := (real_of_follow hq).unique hp
          exact hq
        · -- the root would be a path without links, and so would exist
          obtain rfl := texts_injective hroot
          obtain ⟨below, rfl⟩ := hbelow
          have hq : follow v linkLimit p = some p := follow_physical hwf (hphysical.above hwf)
          exact hq.trans (congrArg some ((real_of_follow hq).unique hp))
      refine ⟨rfl, p, resolved, rest, ?_, hfollow, hbelow, hmissing, by simpa using hplain⟩
      rw [← hrest, List.reverse_reverse]
    · exact absurd hend Program.complete_throw_iff

theorem isFile_node {p : FilePath} (hwf : t.WellFormed) (hp : Physical t p)
    (h : (lookUp t (texts p)).any isFileNode = true) : ∃ data, t.node p = some (.file data) := by
  rw [lookUp_texts, stat_eq (follow_physical hwf hp)] at h
  cases hn : t.node p with
  | none =>
      rw [hn] at h
      cases h
  | some n =>
      rw [hn] at h
      cases n with
      | file data => exact ⟨data, rfl⟩
      | _ => cases h

theorem isDir_node {p : FilePath} (hwf : t.WellFormed) (hp : Physical t p)
    (h : (lookUp t (texts p)).any isDirectoryNode = true) : t.node p = some .directory := by
  rw [lookUp_texts, stat_eq (follow_physical hwf hp)] at h
  cases hn : t.node p with
  | none =>
      rw [hn] at h
      cases h
  | some n =>
      rw [hn] at h
      cases n with
      | directory => rfl
      | _ => cases h

theorem checkTarget_complete {target : TextPath} {checked : FilePath} (hwf : t.WellFormed)
    (h : (checkTarget target root).complete (disk names late) t = (.ok checked, t')) :
    t' = t ∧ root <+: checked ∧ (∃ data, t.node checked = some (.file data)) ∧
      ∃ p, target = texts p ∧ realPath t t.entries.length [] (down p) = some checked := by
  obtain ⟨resolved, u, hresolve, hafter⟩ := Program.complete_bind_iff.1 h
  obtain ⟨p, rfl, hreal, rfl⟩ := resolving_complete hresolve
  split at hafter
  · rename_i hinside
    obtain ⟨present, v, hask, hend⟩ := Program.complete_bind_iff.1 hafter
    obtain ⟨rfl, rfl⟩ := isFile_complete.1 hask
    split at hend
    · rename_i hfile
      obtain ⟨rfl, rfl⟩ := Program.complete_pure_iff.1 hend
      have hphysical := (real_of_realPath hreal).physical hwf physical_nil
      exact ⟨rfl, inside_texts.1 hinside, isFile_node hwf hphysical hfile, p, rfl, hreal⟩
    · exact absurd hend Program.complete_throw_iff
  · exact absurd hafter Program.complete_throw_iff

theorem existingTarget_complete (hwf : t.WellFormed)
    (h : (existingTarget candidate root).complete (disk names late) t = (.ok path, t')) :
    t' = t ∧ (lookUp t candidate = none ∧ path = candidate ∨
      ∃ p q data, candidate = texts p ∧ follow t linkLimit p = some q ∧
        t.node q = some (.file data) ∧ root <+: q ∧ path = texts q) := by
  obtain ⟨present, u, hask, hafter⟩ := Program.complete_bind_iff.1 h
  obtain ⟨rfl, rfl⟩ := pathExists_complete.1 hask
  split at hafter
  · rename_i hsome
    obtain ⟨checked, v, hcheck, hend⟩ := Program.complete_bind_iff.1 hafter
    obtain ⟨rfl, hbelow, ⟨data, hdata⟩, p, rfl, hreal⟩ := checkTarget_complete hwf hcheck
    obtain ⟨rfl, rfl⟩ := Program.complete_pure_iff.1 hend
    obtain ⟨p', q, htexts, hq⟩ := lookUp_isSome hsome
    obtain rfl := texts_injective htexts
    obtain rfl := (real_of_follow hq).unique (real_of_realPath hreal)
    exact ⟨rfl, .inr ⟨p, q, data, rfl, hq, hdata, hbelow, rfl⟩⟩
  · rename_i hnone
    obtain ⟨rfl, rfl⟩ := Program.complete_pure_iff.1 hafter
    exact ⟨rfl, .inl ⟨by simpa using hnone, rfl⟩⟩

end Probing

/-! The directories that are made. -/

section Making
variable {names : TemporaryNames} {late : Bool} {t t' : FileTree} {root probe q : FilePath}
  {candidate path rest : TextPath}

theorem Probed.nestable (h : Probed t candidate root probe q rest) (hwf : t.WellFormed)
    (hq : t.node q = some .directory) {below : FilePath} (hbelow : rest = texts below) :
    Nestable t q below := by
  refine ⟨hwf, hq, fun s hs => ?_⟩
  have htext : s.text ∈ rest.head? := by
    rw [hbelow]
    cases below with
    | nil => cases hs
    | cons s' below =>
        obtain rfl := Option.some.inj hs
        rfl
  obtain ⟨hmissing, hplain⟩ := h.missing _ htext
  have hpath : texts probe ++ [s.text] = texts (probe ++ [s]) := by simp [texts]
  rw [hpath, lookUp_texts] at hmissing
  rw [hpath, lookUpLink_texts] at hplain
  refine free_of_missing h.found hq hmissing fun target htarget => ?_
  rw [htarget] at hplain
  cases hplain

theorem Probed.isNil (h : Probed t candidate root probe q rest)
    (hq : t.node q ≠ some .directory) : probe ≠ [] := by
  rintro rfl
  have hnil := h.found.symm.trans follow_nil
  obtain rfl := Option.some.inj hnil
  exact hq rfl

/-- Either the missing directories are made below the probe, or nothing is. -/
theorem Probed.mkdir (h : Probed t candidate root probe q rest) (hwf : t.WellFormed) :
    (∃ below, rest = texts below ∧ Nestable t q below ∧
      mkdirStep t candidate.dropLast = (.ok (), nest t q below)) ∨
      ∃ err, mkdirStep t candidate.dropLast = (.error err, t) := by
  unfold mkdirStep
  rw [h.split]
  cases hparts : ofParts (texts probe ++ rest) with
  | none => exact .inr ⟨_, rfl⟩
  | some p =>
      obtain ⟨probe', below, hprobe, rfl, rfl⟩ := ofParts_append_iff.1 hparts
      obtain rfl := texts_injective hprobe
      by_cases hq : t.node q = some .directory
      · have hnest := h.nestable hwf hq rfl
        refine .inl ⟨below, rfl, hnest, ?_⟩
        have hpast : makeDirectories linkLimit t [] (probe ++ below) =
            makeDirectories linkLimit t probe below := makeDirectories_past h.found hq
        simp only
        rw [hpast, hnest.makeDirectories h.found]
      · have hfile : makeDirectories linkLimit t [] (probe ++ below) = (t, false) :=
          makeDirectories_file h.found hq (h.isNil hq)
        refine .inr ⟨.osError, ?_⟩
        simp only
        rw [hfile]

theorem Probed.partly (h : Probed t candidate root probe q rest) (hwf : t.WellFormed)
    (hpartly : Partly (.mkdirParents candidate.dropLast) t t') :
    t' = t ∨ ∃ below k, rest = texts below ∧ Nestable t q below ∧
      t' = nest t q (below.take k) := by
  obtain ⟨p, k, hparts, rfl⟩ := hpartly
  rw [h.split] at hparts
  obtain ⟨probe', below, hprobe, rfl, rfl⟩ := ofParts_append_iff.1 hparts
  obtain rfl := texts_injective hprobe
  by_cases hk : k < probe.length
  · -- what is above the probe is there
    have htake : (probe ++ below).take k = probe.take k := by
      rw [List.take_append_of_le_length (by omega)]
    have hsplit : probe = probe.take k ++ probe[k] :: probe.drop (k + 1) := by
      rw [List.cons_getElem_drop_succ, List.take_append_drop]
    have hfound := h.found
    rw [hsplit] at hfound
    obtain ⟨q', hq', hdirectory, -⟩ := follow_above hfound
    have hpast : makeDirectories linkLimit t [] (probe.take k ++ []) = (t, true) :=
      makeDirectories_past hq' hdirectory
    rw [List.append_nil] at hpast
    rw [htake, hpast]
    exact .inl rfl
  · have htake : (probe ++ below).take k = probe ++ below.take (k - probe.length) := by
      rw [List.take_append, List.take_of_length_le (by omega)]
    rw [htake]
    by_cases hq : t.node q = some .directory
    · have hnest := h.nestable hwf hq rfl
      refine .inr ⟨below, k - probe.length, rfl, hnest, ?_⟩
      have hpast : makeDirectories linkLimit t [] (probe ++ below.take (k - probe.length)) =
          makeDirectories linkLimit t probe (below.take (k - probe.length)) :=
        makeDirectories_past h.found hq
      rw [hpast, (hnest.take _).makeDirectories h.found]
    · have hfile : makeDirectories linkLimit t [] (probe ++ below.take (k - probe.length)) =
          (t, false) := makeDirectories_file h.found hq (h.isNil hq)
      rw [hfile]
      exact .inl rfl

/-- A target in a directory that is there now, by the name that it was given. -/
structure Prepared (t t' : FileTree) (candidate : TextPath) (root probe q below : FilePath)
    (name : PyText) : Prop where
  split : candidate = texts (probe ++ below) ++ [name]
  nestable : Nestable t q below
  found : follow t linkLimit probe = some q
  inside : root <+: q
  made : t' = nest t q below
  resolved : realPath t' t'.entries.length [] (down (probe ++ below)) = some (q ++ below)
  plain : (lookUpLink t' (texts (q ++ below) ++ [name])).any Node.isLink = false
  target : lookUp t' (texts (q ++ below) ++ [name]) = none ∨
    ∃ s data, name = s.text ∧ t'.node (q ++ below ++ [s]) = some (.file data)

theorem makeParent_complete {parent : FilePath} (h : Probed t candidate root probe q rest)
    (hwf : t.WellFormed)
    (hmake : (makeParent candidate).complete (disk names late) t = (.ok parent, t')) :
    ∃ below, rest = texts below ∧ Nestable t q below ∧ t' = nest t q below ∧
      parent = q ++ below ∧
      realPath t' t'.entries.length [] (down (probe ++ below)) = some parent := by
  obtain ⟨u, v, hmkdir, hresolve⟩ :=
    Program.complete_bind_iff.1 (Program.complete_mapError_iff.1 hmake)
  change mkdirStep t candidate.dropLast = (.ok u, v) at hmkdir
  obtain ⟨p, hp, hreal, rfl⟩ := resolve_complete hresolve
  rcases h.mkdir hwf with ⟨below, rfl, hnest, hstep⟩ | ⟨err, hstep⟩
  · obtain ⟨-, rfl⟩ := Prod.mk.inj (hstep.symm.trans hmkdir)
    rw [h.split, ← texts_append] at hp
    obtain rfl := texts_injective hp
    have hfollow := real_of_follow (hnest.follow_nest h.found)
    obtain rfl := hfollow.unique (real_of_realPath hreal)
    exact ⟨below, rfl, hnest, rfl, rfl, hreal⟩
  · rw [hstep] at hmkdir
    cases hmkdir

/-- What is in a directory by its own name, and is no link, is found there. -/
theorem follow_target {r : FilePath} {s : FileName} (hwf : t.WellFormed)
    (hr : t.node r = some .directory) (hsome : (lookUp t (texts (r ++ [s]))).isSome = true)
    (hplain : (lookUpLink t (texts (r ++ [s]))).any Node.isLink = false) :
    follow t linkLimit (r ++ [s]) = some (r ++ [s]) := by
  have hfollow : follow t linkLimit r = some r := follow_physical hwf ⟨_, hr, rfl⟩
  obtain ⟨p, q', htexts, hq'⟩ := lookUp_isSome hsome
  obtain rfl := texts_injective htexts
  obtain ⟨r', hr', -, hne⟩ := follow_above (r := []) hq'
  obtain rfl := Option.some.inj (hfollow.symm.trans hr')
  obtain ⟨n, hn⟩ := Option.ne_none_iff_exists'.1 hne
  rw [lookUpLink_texts, lstat, place_physical hwf hr, Option.bind_some, hn] at hplain
  exact follow_concat hfollow hr hn hplain

theorem preparedTarget_complete (h : Probed t candidate root probe q rest) (hwf : t.WellFormed)
    (hprepare : (preparedTarget candidate root).complete (disk names late) t = (.ok path, t')) :
    ∃ below name, Prepared t t' candidate root probe q below name ∧
      path = texts (q ++ below) ++ [name] := by
  obtain ⟨parent, u, hmake, hafter⟩ := Program.complete_bind_iff.1 hprepare
  obtain ⟨below, rfl, hnest, rfl, rfl, hreal⟩ := makeParent_complete h hwf hmake
  have hdirectory := hnest.nest_directory
  unfold checkedIn at hafter
  split at hafter
  · obtain ⟨linked, v, hask, hrest⟩ := Program.complete_bind_iff.1 hafter
    obtain ⟨rfl, rfl⟩ := isSymlink_complete.1 hask
    split at hrest
    · exact absurd hrest Program.complete_throw_iff
    · rename_i hplain
      obtain ⟨present, v, hask, hend⟩ := Program.complete_bind_iff.1 hrest
      obtain ⟨rfl, rfl⟩ := pathExists_complete.1 hask
      have hpath : path = texts (q ++ below) ++ candidate.getLast?.toList ∧
          t' = nest t q below ∧ (lookUp (nest t q below) path = none ∨
            (lookUp (nest t q below) path).isSome = true ∧
              ∃ p checked data, path = texts p ∧ Real (nest t q below) [] (down p) checked ∧
                (nest t q below).node checked = some (.file data)) := by
        split at hend
        · rename_i hsome
          obtain ⟨checked, v, hcheck, hend⟩ := Program.complete_bind_iff.1 hend
          obtain ⟨rfl, -, ⟨data, hdata⟩, p, htarget, hp⟩ :=
            checkTarget_complete hnest.nest_wellFormed hcheck
          obtain ⟨rfl, rfl⟩ := Program.complete_pure_iff.1 hend
          exact ⟨rfl, rfl, .inr ⟨hsome, p, checked, data, htarget, real_of_realPath hp, hdata⟩⟩
        · rename_i hnone
          obtain ⟨rfl, rfl⟩ := Program.complete_pure_iff.1 hend
          exact ⟨rfl, rfl, .inl (by simpa using hnone)⟩
      obtain ⟨hpath, rfl, htarget⟩ := hpath
      have hsplit := h.split
      rw [← texts_append] at hsplit
      rcases List.eq_nil_or_concat candidate with rfl | ⟨above, name, rfl⟩
      · -- the root of the file system is a directory
        obtain ⟨rfl, rfl⟩ := List.append_eq_nil_iff.1 (List.map_eq_nil_iff.1 hsplit.symm)
        obtain rfl := Option.some.inj (h.found.symm.trans follow_nil)
        obtain rfl := hpath
        rcases htarget with hnone | ⟨-, p, checked, data, hp, hreal, hdata⟩
        · have hnil := lookUp_nil (t := nest t [] [])
          rw [show lookUp (nest t [] []) [] = none from hnone] at hnil
          cases hnil
        · obtain rfl : p = [] := texts_injective hp.symm
          cases hreal
          cases hdata
      · rw [List.concat_eq_append, List.dropLast_concat] at hsplit
        rw [List.concat_eq_append, List.getLast?_concat] at hpath hplain
        obtain rfl := hpath
        have hplain' : (lookUpLink (nest t q below) (texts (q ++ below) ++ [name])).any
            Node.isLink = false := by simpa using hplain
        refine ⟨below, name, ?_, rfl⟩
        refine ⟨by rw [List.concat_eq_append, hsplit], hnest, h.found, h.below, rfl, hreal,
          hplain', ?_⟩
        refine htarget.imp_right ?_
        rintro ⟨hsome, p, checked, data, hp, hchecked, hdata⟩
        obtain ⟨p₁, p₂, hfirst, hlast, rfl⟩ := ofParts_append_iff.1 (ofParts_iff.2 hp)
        obtain rfl := texts_injective hfirst
        obtain ⟨s, rfl⟩ : ∃ s, p₂ = [s] := by
          cases p₂ with
          | nil => cases hlast
          | cons s p₂ => cases p₂ with
            | nil => exact ⟨s, rfl⟩
            | cons s' p₂ => cases hlast
        obtain rfl : name = s.text := List.singleton_inj.1 hlast
        have htexts : texts (q ++ below) ++ [s.text] = texts (q ++ below ++ [s]) := by
          simp [texts]
        change (lookUp (nest t q below) (texts (q ++ below) ++ [s.text])).isSome = true at hsome
        rw [htexts] at hsome hplain'
        have hfollow := follow_target hnest.nest_wellFormed hdirectory hsome hplain'
        obtain rfl := (real_of_follow hfollow).unique hchecked
        exact ⟨s, data, rfl, hdata⟩
  · exact absurd hafter Program.complete_throw_iff

theorem Prepared.wellFormed (h : Prepared t t' candidate root probe q below name) :
    t'.WellFormed := by
  rw [h.made]
  exact h.nestable.nest_wellFormed

theorem Prepared.directory (h : Prepared t t' candidate root probe q below name) :
    t'.node (q ++ below) = some .directory := by
  rw [h.made]
  exact h.nestable.nest_directory

theorem writePath_existing {tools : FilesystemTools} {python : Python} {value : PyText}
    (hwf : t.WellFormed)
    (h : (writePath tools python value false).complete (disk names late) t = (.ok path, t')) :
    t' = t ∧ ∃ candidate root, lexicalPath tools python value = .ok (candidate, root) ∧
      (∃ probe q rest, Probed t candidate root probe q rest) ∧
      (lookUp t candidate = none ∧ path = candidate ∨
        ∃ p q data, candidate = texts p ∧ follow t linkLimit p = some q ∧
          t.node q = some (.file data) ∧ root <+: q ∧ path = texts q) := by
  obtain ⟨⟨candidate, root⟩, u, hfound, hafter⟩ := Program.complete_bind_iff.1 h
  obtain ⟨hlexical, rfl⟩ := Program.complete_ofExcept_iff.1 hfound
  obtain ⟨⟨⟩, v, hprobe, hend⟩ := Program.complete_bind_iff.1 hafter
  obtain ⟨rfl, hprobed⟩ := checkProbe_complete hwf hprobe
  obtain ⟨rfl, hpath⟩ := existingTarget_complete hwf hend
  exact ⟨rfl, candidate, root, hlexical, hprobed, hpath⟩

theorem writePath_prepared {tools : FilesystemTools} {python : Python} {value : PyText}
    (hwf : t.WellFormed)
    (h : (writePath tools python value true).complete (disk names late) t = (.ok path, t')) :
    ∃ candidate root probe q below name, lexicalPath tools python value = .ok (candidate, root) ∧
      Prepared t t' candidate root probe q below name ∧ path = texts (q ++ below) ++ [name] := by
  obtain ⟨⟨candidate, root⟩, u, hfound, hafter⟩ := Program.complete_bind_iff.1 h
  obtain ⟨hlexical, rfl⟩ := Program.complete_ofExcept_iff.1 hfound
  obtain ⟨⟨⟩, v, hprobe, hend⟩ := Program.complete_bind_iff.1 hafter
  obtain ⟨rfl, probe, q, rest, hprobed⟩ := checkProbe_complete hwf hprobe
  obtain ⟨below, name, hprepared, rfl⟩ := preparedTarget_complete hprobed hwf hend
  exact ⟨candidate, root, probe, q, below, name, hlexical, hprepared, rfl⟩

end Making

end Polaris.Filesystem
