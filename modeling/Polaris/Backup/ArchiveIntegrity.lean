import Polaris.Backup.ArchiveFormat

namespace Polaris.BackupArchive
open PyJson PosixPath FileTree

section Extraction
variable {t t' : StateTree} {seen : List PyText} {name : PyText} {path : FilePath}
  {member : TarInfo} {e : FilePath × StateNode}

theorem safe_iff : (unsafePath seen name = false ∧ ofParts (parts name) = some path) ↔
    path ≠ [] ∧ name = posix path ∧ name ∉ seen := by
  simp only [unsafePath, ofParts_iff, Bool.or_eq_false_iff, decide_eq_false_iff_not, not_not]
  constructor
  · rintro ⟨⟨⟨⟨⟨-, hparts⟩, -⟩, hname⟩, hseen⟩, htexts⟩
    rw [htexts] at hparts hname
    exact ⟨by simpa [texts] using hparts, hname, hseen⟩
  · rintro ⟨hpath, rfl, hseen⟩
    rw [parts_posix hpath]
    refine ⟨⟨⟨⟨⟨isAbsolute_posix hpath, ?_⟩, dotdot_notMem_texts⟩, rfl⟩, hseen⟩, rfl⟩
    simpa [texts] using hpath

/-- What a member is extracted to. -/
inductive Holds (member : TarInfo) : StateNode → Prop
  | directory (type : member.type = .directory) : Holds member .directory
  | file {bytes : Bytes} (type : member.type = .regular) (content : member.content = some bytes) :
      Holds member (.file bytes)

structure IsEntry (member : TarInfo) (e : FilePath × StateNode) : Prop where
  nonempty : e.1 ≠ []
  name : member.name = posix e.1
  holds : Holds member e.2

theorem extractMember_of_entry (h : IsEntry member e) (hseen : member.name ∉ seen) :
    extractMember t seen member = (place t e).elim (.error invalidArchive) .ok := by
  obtain ⟨path, node⟩ := e
  obtain ⟨hsafe, hparts⟩ := safe_iff.2 ⟨h.nonempty, h.name, hseen⟩
  rw [extractMember, if_neg (by simp [hsafe]), hparts]
  cases h.holds with
  | directory type => rw [type]
  | file type content => simp only [type, extractFile, content]

theorem extractMember_ok (h : extractMember t seen member = .ok t') :
    ∃ e, IsEntry member e ∧ member.name ∉ seen ∧ place t e = some t' := by
  unfold extractMember at h
  split at h
  · simp at h
  · rename_i hsafe
    cases hpath : ofParts (parts member.name) with
    | none => cases htype : member.type <;> simp [htype, hpath] at h
    | some path =>
        obtain ⟨hne, hname, hseen⟩ := safe_iff.1 ⟨Bool.eq_false_iff.2 hsafe, hpath⟩
        cases htype : member.type with
        | directory =>
            simp only [htype, hpath] at h
            cases hplace : place t (path, Node.directory) with
            | none => simp [hplace] at h
            | some t₁ =>
                rw [hplace] at h
                obtain rfl : t₁ = t' := Except.ok.inj h
                exact ⟨_, ⟨hne, hname, .directory htype⟩, hseen, hplace⟩
        | regular =>
            simp only [htype, hpath, extractFile] at h
            cases hcontent : member.content with
            | none => simp [hcontent] at h
            | some bytes =>
                simp only [hcontent] at h
                cases hplace : place t (path, Node.file bytes) with
                | none => simp [hplace] at h
                | some t₁ =>
                    rw [hplace] at h
                    obtain rfl : t₁ = t' := Except.ok.inj h
                    exact ⟨_, ⟨hne, hname, .file htype hcontent⟩, hseen, hplace⟩
        | _ => simp [htype, hpath] at h

theorem extractMembers_ok {damaged : Bool} {members : List TarInfo} :
    extractMembers damaged t seen members = .ok t' ↔ damaged = false ∧
      (members.map TarInfo.name).Nodup ∧ (∀ m ∈ members, m.name ∉ seen) ∧
      ∃ es, List.Forall₂ IsEntry members es ∧ build t es = some t' := by
  induction members generalizing t seen with
  | nil =>
      cases damaged with
      | true => simp [extractMembers]
      | false => simp [extractMembers, build]
  | cons m members ih =>
      simp only [extractMembers, List.map_cons, List.nodup_cons, List.forall_mem_cons]
      constructor
      · intro h
        cases hmember : extractMember t seen m with
        | error error => simp [hmember] at h
        | ok t₁ =>
            simp only [hmember] at h
            obtain ⟨hwhole, honce, hnot, es, hes, hbuild⟩ := ih.1 h
            obtain ⟨e, he, hseen, hplace⟩ := extractMember_ok hmember
            refine ⟨hwhole, ⟨?_, honce⟩, ⟨hseen, fun m' hm' => ?_⟩, e :: es, .cons he hes, ?_⟩
            · intro hmem
              obtain ⟨m', hm', hname⟩ := List.mem_map.1 hmem
              exact hnot m' hm' (hname ▸ List.mem_cons_self ..)
            · exact fun hmem => hnot m' hm' (List.mem_cons_of_mem _ hmem)
            · rw [build, hplace, Option.bind_some, hbuild]
      · rintro ⟨hwhole, ⟨hfirst, honce⟩, ⟨hseen, hnot⟩, es, hes, hbuild⟩
        cases hes with
        | @cons _ e _ es he hes =>
            obtain ⟨t₁, hplace, hrest⟩ := Option.bind_eq_some_iff.1 hbuild
            have hnext : ∀ m' ∈ members, m'.name ∉ m.name :: seen := by
              intro m' hm' hmem
              rcases List.mem_cons.1 hmem with hsame | hmem
              · exact hfirst (hsame ▸ List.mem_map_of_mem hm')
              · exact hnot m' hm' hmem
            rw [extractMember_of_entry he hseen, hplace]
            exact ih.2 ⟨hwhole, honce, hnext, es, hes, hrest⟩

theorem exists_entry {members : List TarInfo} {es : List (FilePath × StateNode)}
    (h : List.Forall₂ IsEntry members es) :
    (∀ e ∈ es, ∃ m ∈ members, IsEntry m e) ∧ ∀ m ∈ members, ∃ e ∈ es, IsEntry m e := by
  induction h with
  | nil => simp
  | cons hhead _ ih =>
      obtain ⟨hleft, hright⟩ := ih
      refine ⟨List.forall_mem_cons.2 ⟨⟨_, List.mem_cons_self .., hhead⟩, fun e he => ?_⟩,
        List.forall_mem_cons.2 ⟨⟨_, List.mem_cons_self .., hhead⟩, fun m hm => ?_⟩⟩
      · obtain ⟨m, hm, hentry⟩ := hleft e he
        exact ⟨m, List.mem_cons_of_mem _ hm, hentry⟩
      · obtain ⟨e, he, hentry⟩ := hright m hm
        exact ⟨e, List.mem_cons_of_mem _ he, hentry⟩

/-- The tree has the members and the directories on the way to them, each once. -/
structure Extracted (archive : TarFile) (t : StateTree) : Prop where
  wellFormed : WellFormed t
  supported : ∀ m ∈ archive.members, m.type = .regular ∨ m.type = .directory
  files : ∀ path bytes, path ≠ [] → ((path, .file bytes) ∈ t ↔ ∃ m ∈ archive.members,
    m.type = .regular ∧ m.name = posix path ∧ m.content = some bytes)
  directories : ∀ path, path ≠ [] → ((path, .directory) ∈ t ↔ ∃ m ∈ archive.members,
    ∃ target, target ≠ [] ∧ m.name = posix target ∧ path <+: target ∧
      (m.type = .directory ∨ path ≠ target))

theorem safeExtract_extracted {archive : TarFile} (h : safeExtract archive = .ok t) :
    Extracted archive t := by
  obtain ⟨-, -, -, es, hes, hbuild⟩ := extractMembers_ok.1 h
  obtain ⟨hmember, hentry⟩ := exists_entry hes
  have hrooted : ∀ e ∈ es, e.1 ≠ [] := fun e he => (hmember e he).elim fun _ h => h.2.nonempty
  obtain ⟨hwell, hmem⟩ := build_builds wellFormed_nil hrooted hbuild
  refine ⟨hwell, fun m hm => ?_, fun path bytes hpath => ?_, fun path hpath => ?_⟩
  · obtain ⟨⟨q, node⟩, -, hholds⟩ := hentry m hm
    cases hholds.holds with
    | directory type => exact .inr type
    | file type content => exact .inl type
  · rw [hmem]
    constructor
    · rintro (hnil | ⟨e, he, rfl | hleads⟩)
      · exact absurd hnil List.not_mem_nil
      · obtain ⟨m, hm, hholds⟩ := hmember _ he
        cases hholds.holds with
        | file type content => exact ⟨m, hm, type, hholds.name, content⟩
      · exact nomatch hleads.directory
    · rintro ⟨m, hm, htype, hname, hcontent⟩
      obtain ⟨⟨q, node⟩, he, hholds⟩ := hentry m hm
      obtain rfl : path = q := posix_inj hpath hholds.nonempty (hname.symm.trans hholds.name)
      cases hholds.holds with
      | directory type => exact nomatch type.symm.trans htype
      | @file bytes' type content =>
          obtain rfl := Option.some.inj (content.symm.trans hcontent)
          exact .inr ⟨_, he, .inl rfl⟩
  · rw [hmem]
    constructor
    · rintro (hnil | ⟨e, he, rfl | hleads⟩)
      · exact absurd hnil List.not_mem_nil
      · obtain ⟨m, hm, hholds⟩ := hmember _ he
        cases hholds.holds with
        | directory type =>
            exact ⟨m, hm, path, hpath, hholds.name, List.prefix_refl _, .inl type⟩
      · obtain ⟨m, hm, hholds⟩ := hmember _ he
        refine ⟨m, hm, e.1, hholds.nonempty, hholds.name,
          (prefix_dropLast_iff hholds.nonempty).2 (.inr hleads.above), .inr ?_⟩
        rintro rfl
        exact not_prefix_dropLast hholds.nonempty hleads.above
    · rintro ⟨m, hm, target, htarget, hname, hprefix, hor⟩
      obtain ⟨⟨q, node⟩, he, hholds⟩ := hentry m hm
      obtain rfl : target = q := posix_inj htarget hholds.nonempty (hname.symm.trans hholds.name)
      refine .inr ⟨_, he, ?_⟩
      by_cases hsame : path = target
      · subst hsame
        have htype := hor.resolve_right fun hne => hne rfl
        cases hholds.holds with
        | directory type => exact .inl rfl
        | file type content => exact nomatch type.symm.trans htype
      · refine .inr ⟨rfl, hpath, ?_⟩
        exact ((prefix_dropLast_iff htarget).1 hprefix).resolve_left hsame

end Extraction

section Verification
variable {py : PyBuiltins} {json : ManifestText} {sha : Bytes → String} {t : StateTree}
  {path : FilePath} {content : Bytes} {item : RawJson} {items : List RawJson}

theorem fileAt_posix (h : WellFormed t) (hpath : path ≠ []) :
    fileAt t (parts (posix path)) = some content ↔ (path, .file content) ∈ t := by
  rw [fileAt, parts_posix hpath, ofParts_iff.2 rfl, Option.bind_some, ← h.lookup_iff]
  cases t.lookup path with
  | none => simp
  | some node => cases node <;> simp

theorem stateFile_iff {e : FilePath × StateNode} {f : FilePath × Bytes} :
    stateFile e = some f ↔ e = (f.1, .file f.2) ∧ ∃ rest, f.1 = stateDirectory :: rest := by
  obtain ⟨p, node⟩ := e
  obtain ⟨q, bytes⟩ := f
  cases node with
  | directory => simp [stateFile]
  | file content =>
      have hhead : stateDirectory ∈ p.head? ↔ ∃ rest, p = stateDirectory :: rest := by
        cases p with
        | nil => simp
        | cons s p => simp
      simp only [stateFile]
      split
      · rename_i hrest
        simp only [Option.some.injEq, Prod.mk.injEq, Node.file.injEq]
        exact ⟨fun ⟨hp, hc⟩ => ⟨⟨hp, hc⟩, hp ▸ hhead.1 hrest⟩, fun ⟨h, _⟩ => h⟩
      · rename_i hrest
        simp only [reduceCtorEq, Prod.mk.injEq, Node.file.injEq, false_iff, not_and]
        rintro ⟨rfl, -⟩ h
        exact hrest (hhead.2 h)

theorem mem_actualPaths {text : PyText} : text ∈ actualPaths t ↔ ∃ rest content,
    (stateDirectory :: rest, .file content) ∈ t ∧ text = posix (stateDirectory :: rest) := by
  simp only [actualPaths, List.mem_map, List.mem_filterMap, stateFile_iff]
  constructor
  · rintro ⟨⟨p, content⟩, ⟨e, he, rfl, rest, hrest⟩, rfl⟩
    dsimp only at hrest he
    subst hrest
    exact ⟨rest, content, he, rfl⟩
  · rintro ⟨rest, content, hmem, rfl⟩
    exact ⟨(stateDirectory :: rest, content), ⟨_, hmem, rfl, rest, rfl⟩, rfl⟩

/-- The checks that an entry of the manifest has to pass by itself. -/
def Verified (sha : Bytes → String) (t : StateTree) (f : ListedFile) : Prop :=
  unsafeEntry f.path = false ∧ (fileAt t (parts f.path)).any (matchesFile sha f) = true

theorem verifyEntry_ok {expected : List PyText} {text : PyText} :
    verifyEntry sha t expected item = .ok text ↔ ∃ f, listedFile item = some f ∧ f.path = text ∧
      text ∉ expected ∧ Verified sha t f := by
  unfold verifyEntry Verified
  cases hitem : listedFile item with
  | none => simp
  | some f =>
      simp only [Option.some.injEq, exists_eq_left']
      split
      · rename_i hmem
        refine iff_of_false (by simp) ?_
        rintro ⟨hpath, hnot, -⟩
        exact hnot (hpath ▸ hmem)
      · rename_i hnot
        split
        · rename_i hrefused
          refine iff_of_false (by simp) ?_
          rintro ⟨-, -, hsafe, -⟩
          simp [hrefused] at hsafe
        · rename_i hsafe
          split
          · rename_i hmatches
            rw [Except.ok.injEq]
            exact ⟨fun hpath => ⟨hpath, hpath ▸ hnot, Bool.eq_false_iff.2 hsafe, hmatches⟩,
              fun h => h.1⟩
          · rename_i hmatches
            refine iff_of_false (by simp) ?_
            rintro ⟨-, -, -, hmatch⟩
            exact hmatches hmatch

theorem verifyEntries_ok {expected result : List PyText} :
    verifyEntries sha t expected items = .ok result ↔
      ∃ fs, List.Forall₂ (fun item f => listedFile item = some f) items fs ∧
        (fs.map ListedFile.path).Nodup ∧ (∀ f ∈ fs, f.path ∉ expected ∧ Verified sha t f) ∧
        result = (fs.map ListedFile.path).reverse ++ expected := by
  induction items generalizing expected with
  | nil =>
      simp only [verifyEntries, List.forall₂_nil_left_iff, exists_eq_left, Except.ok.injEq]
      simp [eq_comm]
  | cons item items ih =>
      simp only [verifyEntries]
      constructor
      · intro h
        cases hentry : verifyEntry sha t expected item with
        | error e => simp [hentry] at h
        | ok text =>
            simp only [hentry] at h
            obtain ⟨f, hlisted, rfl, hnot, hverified⟩ := verifyEntry_ok.1 hentry
            obtain ⟨fs, hfs, honce, hall, rfl⟩ := ih.1 h
            refine ⟨f :: fs, .cons hlisted hfs, ?_, ?_, by simp⟩
            · rw [List.map_cons, List.nodup_cons]
              refine ⟨fun hmem => ?_, honce⟩
              obtain ⟨g, hg, hsame⟩ := List.mem_map.1 hmem
              exact (hall g hg).1 (hsame ▸ List.mem_cons_self ..)
            · refine List.forall_mem_cons.2 ⟨⟨hnot, hverified⟩, fun g hg => ?_⟩
              exact ⟨fun hmem => (hall g hg).1 (List.mem_cons_of_mem _ hmem), (hall g hg).2⟩
      · rintro ⟨fs, hfs, honce, hall, rfl⟩
        cases hfs with
        | @cons _ f _ fs hlisted hfs =>
            obtain ⟨⟨hnot, hverified⟩, hall⟩ := List.forall_mem_cons.1 hall
            rw [List.map_cons, List.nodup_cons] at honce
            rw [verifyEntry_ok.2 ⟨f, hlisted, rfl, hnot, hverified⟩]
            refine ih.2 ⟨fs, hfs, honce.2, fun g hg => ⟨fun hmem => ?_, (hall g hg).2⟩, by simp⟩
            rcases List.mem_cons.1 hmem with hsame | hmem
            · exact honce.1 (hsame ▸ List.mem_map_of_mem hg)
            · exact (hall g hg).1 hmem

theorem matchesFile_iff {f : ListedFile} : matchesFile sha f content = true ↔
    f.size = content.length ∧ f.digest = PyText.ofString (sha content) := by
  rw [matchesFile, Bool.and_eq_true, decide_eq_true_eq, decide_eq_true_eq]
  exact and_congr eq_comm eq_comm

/-- The manifest's file is an object of the format and the version, with a list of files. -/
def IsManifest (py : PyBuiltins) (json : ManifestText) (t : StateTree) (items : List RawJson) :
    Prop :=
  ∃ content manifest, ([manifestName], .file content) ∈ t ∧
    json.loads content = some (.obj manifest) ∧
    manifest.lookup (PyText.ofString "files") = some (.arr items) ∧
    isText "polaris-backup" (RawJson.get "format" manifest) = true ∧
    isOne py (RawJson.get "version" manifest) = true

/-- The files listed are those under the state directory, each once and as it is. -/
structure Lists (sha : Bytes → String) (t : StateTree) (fs : List ListedFile) : Prop where
  once : (fs.map ListedFile.path).Nodup
  same : ∀ text, text ∈ fs.map ListedFile.path ↔ ∃ rest content,
    (stateDirectory :: rest, .file content) ∈ t ∧ text = posix (stateDirectory :: rest)
  equal : ∀ f ∈ fs, ∀ rest content, (stateDirectory :: rest, .file content) ∈ t →
    f.path = posix (stateDirectory :: rest) →
    f.size = content.length ∧ f.digest = PyText.ofString (sha content)

structure Intact (py : PyBuiltins) (json : ManifestText) (sha : Bytes → String) (t : StateTree)
    (items : List RawJson) : Prop where
  manifest : IsManifest py json t items
  state : ([stateDirectory], .directory) ∈ t
  listed : ∃ fs, List.Forall₂ (fun item f => listedFile item = some f) items fs ∧ Lists sha t fs ∧
    ∀ text ∈ requiredPaths, text ∈ fs.map ListedFile.path

theorem unsafeEntry_posix {rest : FilePath} :
    unsafeEntry (posix (stateDirectory :: rest)) = false := by
  simp only [unsafeEntry, parts_posix (List.cons_ne_nil _ _),
    isAbsolute_posix (List.cons_ne_nil _ _), dotdot_notMem_texts]
  simp [texts]

theorem verified_iff (h : WellFormed t) {rest : FilePath} {f : ListedFile}
    (hmem : (stateDirectory :: rest, .file content) ∈ t)
    (hpath : f.path = posix (stateDirectory :: rest)) :
    Verified sha t f ↔ f.size = content.length ∧ f.digest = PyText.ofString (sha content) := by
  rw [Verified, hpath, unsafeEntry_posix,
    (fileAt_posix h (List.cons_ne_nil _ _)).2 hmem, Option.any_some, matchesFile_iff]
  simp

theorem sameSet_iff {xs ys : List PyText} : sameSet xs ys = true ↔ ∀ x, x ∈ xs ↔ x ∈ ys := by
  simp only [sameSet, Bool.and_eq_true, List.all_eq_true, decide_eq_true_eq]
  exact ⟨fun h x => ⟨h.1 x, h.2 x⟩, fun h => ⟨fun x => (h x).1, fun x => (h x).2⟩⟩

theorem lists_iff (h : WellFormed t) {fs : List ListedFile} : Lists sha t fs ↔
    (fs.map ListedFile.path).Nodup ∧ (∀ f ∈ fs, Verified sha t f) ∧
      ∀ text, text ∈ actualPaths t ↔ text ∈ fs.map ListedFile.path := by
  constructor
  · intro hlists
    refine ⟨hlists.once, fun f hf => ?_, fun text => ?_⟩
    · obtain ⟨rest, content, hmem, hpath⟩ := (hlists.same f.path).1 (List.mem_map_of_mem hf)
      exact (verified_iff h hmem hpath).2 (hlists.equal f hf rest content hmem hpath)
    · rw [mem_actualPaths, hlists.same]
  · rintro ⟨honce, hverified, hsame⟩
    refine ⟨honce, fun text => by rw [← hsame, mem_actualPaths], ?_⟩
    intro f hf rest content hmem hpath
    exact (verified_iff h hmem hpath).1 (hverified f hf)

theorem readManifest_ok (h : WellFormed t) {manifest : List (PyText × RawJson)} {files : RawJson} :
    readManifest json t = .ok (manifest, files) ↔ ∃ content, ([manifestName], .file content) ∈ t ∧
      json.loads content = some (.obj manifest) ∧
      manifest.lookup (PyText.ofString "files") = some files := by
  have hparts : parts (posix [manifestName]) = [manifestName.text] :=
    parts_posix (List.cons_ne_nil _ _)
  have hfile : ∀ content, fileAt t [manifestName.text] = some content ↔
      ([manifestName], .file content) ∈ t := fun content => by
    rw [← hparts, fileAt_posix h (List.cons_ne_nil _ _)]
  simp only [← hfile]
  unfold readManifest
  cases fileAt t [manifestName.text] with
  | none => simp
  | some content =>
      simp only [Option.bind_some, Option.some.injEq, exists_eq_left']
      cases hloads : json.loads content with
      | none => simp
      | some value =>
          cases value with
          | obj entries =>
              simp only [Option.some.injEq, RawJson.obj.injEq]
              cases hfiles : entries.lookup (PyText.ofString "files") with
              | none =>
                  refine iff_of_false (by simp) ?_
                  rintro ⟨rfl, hsome⟩
                  simp [hfiles] at hsome
              | some value =>
                  simp only [Except.ok.injEq, Prod.mk.injEq]
                  constructor
                  · rintro ⟨rfl, rfl⟩
                    exact ⟨rfl, hfiles⟩
                  · rintro ⟨rfl, hsome⟩
                    exact ⟨rfl, Option.some.inj (hfiles.symm.trans hsome)⟩
          | _ => simp

theorem verifyManifest_ok (h : WellFormed t) :
    verifyManifest py json sha t = .ok items ↔ Intact py json sha t items := by
  unfold verifyManifest
  constructor
  · intro hok
    cases hread : readManifest json t with
    | error e => simp [hread] at hok
    | ok read =>
        obtain ⟨manifest, files⟩ := read
        simp only [hread] at hok
        obtain ⟨content, hmem, hloads, hfiles⟩ := (readManifest_ok h).1 hread
        cases files with
        | arr listed =>
            simp only at hok
            split at hok
            · rename_i hformat
              simp only [Bool.and_eq_true, decide_eq_true_eq] at hformat
              cases hentries : verifyEntries sha t [] listed with
              | error e => simp [hentries] at hok
              | ok expected =>
                  simp only [hentries] at hok
                  split at hok
                  · simp at hok
                  · rename_i hsame
                    split at hok
                    · simp at hok
                    · rename_i hrequired
                      obtain rfl := Except.ok.inj hok
                      obtain ⟨fs, hfs, honce, hall, rfl⟩ := verifyEntries_ok.1 hentries
                      have hset : sameSet (actualPaths t)
                          ((fs.map ListedFile.path).reverse ++ []) = true := by simpa using hsame
                      have hpaths : ∀ x, x ∈ actualPaths t ↔ x ∈ fs.map ListedFile.path :=
                        fun x => by simpa using sameSet_iff.1 hset x
                      refine ⟨⟨content, manifest, hmem, hloads, hfiles, hformat.1.1,
                        hformat.1.2⟩, h.lookup_iff.1 hformat.2, fs, hfs, (lists_iff h).2
                        ⟨honce, fun f hf => (hall f hf).2, hpaths⟩, ?_⟩
                      simpa using hrequired
            · simp at hok
        | _ => simp at hok
  · rintro ⟨⟨content, manifest, hmem, hloads, hfiles, hformat, hversion⟩, hstate, fs, hfs, hlists,
      hrequired⟩
    obtain ⟨honce, hverified, hsame⟩ := (lists_iff h).1 hlists
    have hread := (readManifest_ok h).2 ⟨content, hmem, hloads, hfiles⟩
    have hentries : verifyEntries sha t [] items =
        .ok ((fs.map ListedFile.path).reverse ++ []) :=
      verifyEntries_ok.2 ⟨fs, hfs, honce, fun f hf => ⟨List.not_mem_nil, hverified f hf⟩, rfl⟩
    have hsets : sameSet (actualPaths t) ((fs.map ListedFile.path).reverse ++ []) = true :=
      sameSet_iff.2 fun x => by simpa using hsame x
    have hall : requiredPaths.all (· ∈ (fs.map ListedFile.path).reverse ++ []) = true := by
      simpa using hrequired
    have hdirectory : t.lookup [stateDirectory] = some .directory := h.lookup_iff.2 hstate
    simp only [hread, hformat, hversion, hdirectory, hentries, hsets, hall]
    rfl

end Verification

/-! What is exported. -/

section Export
variable {json : ManifestText} {sha : Bytes → String} {t t' : StateTree}
  {secret : FilePath → Bool} {config snapshot : Bytes}

/-- A state directory with the files that every export has. -/
structure Staged (t : StateTree) : Prop where
  wellFormed : WellFormed t
  state : ([stateDirectory], .directory) ∈ t
  config : ∃ content, ([stateDirectory, configName], .file content) ∈ t
  journal : ∃ content, ([stateDirectory, journalName], .file content) ∈ t
  under : ∀ e ∈ t, ∃ rest, e.1 = stateDirectory :: rest

theorem stateDirectory_ne_manifestName : stateDirectory ≠ manifestName := by decide +kernel

theorem eq_of_between {p : FilePath} {s : FileName} (hp : p <+: [stateDirectory, s])
    (hne : p ≠ [stateDirectory, s]) (hnonempty : p ≠ []) : p = [stateDirectory] := by
  have hpair : p <+: [stateDirectory] ++ [s] := hp
  have hone : p <+: [] ++ [stateDirectory] := (List.prefix_concat_iff.1 hpair).resolve_left hne
  rcases List.prefix_concat_iff.1 hone with rfl | hnil
  · rfl
  · exact absurd (List.prefix_nil.1 hnil) hnonempty

theorem stagedCore_staged (config snapshot : Bytes) : Staged (stagedCore config snapshot) := by
  have hconfig : configName ≠ journalName := by decide +kernel
  have hartifacts : configName ≠ artifactsName := by decide +kernel
  have hjournal : journalName ≠ artifactsName := by decide +kernel
  refine ⟨⟨?_, ?_, ?_⟩, ?_, ⟨config, ?_⟩, ⟨snapshot, ?_⟩, ?_⟩
  · simp [stagedCore, hconfig, hartifacts, hjournal]
  · simp [stagedCore]
  · intro e he p hp hne hnonempty
    have hstate : p = [stateDirectory] := by
      simp only [stagedCore, List.mem_cons, List.not_mem_nil, or_false] at he
      rcases he with rfl | rfl | rfl | rfl
      · have hone : p <+: [] ++ [stateDirectory] := hp
        exact absurd (List.prefix_nil.1 ((List.prefix_concat_iff.1 hone).resolve_left hne)) hnonempty
      · exact eq_of_between hp hne hnonempty
      · exact eq_of_between hp hne hnonempty
      · exact eq_of_between hp hne hnonempty
    rw [hstate]
    simp [stagedCore]
  all_goals simp [stagedCore]

theorem Staged.place (h : Staged t) {rest : FilePath} {node : StateNode}
    (hplace : place t (stateDirectory :: rest, node) = some t') : Staged t' := by
  obtain ⟨hwell, hmem⟩ := place_places h.wellFormed (List.cons_ne_nil _ _) hplace
  refine ⟨hwell, (hmem _).2 (.inl h.state), ?_, ?_, fun e he => ?_⟩
  · obtain ⟨content, hconfig⟩ := h.config
    exact ⟨content, (hmem _).2 (.inl hconfig)⟩
  · obtain ⟨content, hjournal⟩ := h.journal
    exact ⟨content, (hmem _).2 (.inl hjournal)⟩
  · rcases (hmem e).1 he with he | rfl | hleads
    · exact h.under e he
    · exact ⟨rest, rfl⟩
    · obtain ⟨s, p, hs⟩ := List.exists_cons_of_ne_nil hleads.nonempty
      have habove : e.1 <+: stateDirectory :: rest :=
        (prefix_dropLast_iff (List.cons_ne_nil _ _)).2 (.inr hleads.above)
      rw [hs] at habove ⊢
      exact ⟨p, by rw [(List.cons_prefix_cons.1 habove).1]⟩

theorem stageArtifact_staged {source : FilePath × SourceType} (h : Staged t)
    (hstage : stageArtifact secret t source = .ok t') : Staged t' := by
  obtain ⟨path, kind⟩ := source
  unfold stageArtifact at hstage
  cases kind with
  | symlink => simp at hstage
  | other =>
      simp only at hstage
      split at hstage
      · obtain rfl := Except.ok.inj hstage
        exact h
      · simp at hstage
  | directory =>
      simp only at hstage
      split at hstage
      · obtain rfl := Except.ok.inj hstage
        exact h
      · cases hplace : FileTree.place t
            (stateDirectory :: artifactsName :: path, Node.directory) with
        | none => simp [hplace] at hstage
        | some t₁ =>
            rw [hplace] at hstage
            obtain rfl : t₁ = t' := Except.ok.inj hstage
            exact h.place hplace
  | file content =>
      simp only at hstage
      split at hstage
      · obtain rfl := Except.ok.inj hstage
        exact h
      · cases hplace : FileTree.place t
            (stateDirectory :: artifactsName :: path, Node.file content) with
        | none => simp [hplace] at hstage
        | some t₁ =>
            rw [hplace] at hstage
            obtain rfl : t₁ = t' := Except.ok.inj hstage
            exact h.place hplace

theorem stageArtifacts_staged {sources : List (FilePath × SourceType)} (h : Staged t)
    (hstage : stageArtifacts secret t sources = .ok t') : Staged t' := by
  induction sources generalizing t with
  | nil =>
      obtain rfl := Except.ok.inj hstage
      exact h
  | cons source sources ih =>
      simp only [stageArtifacts] at hstage
      cases hfirst : stageArtifact secret t source with
      | error e => simp [hfirst] at hstage
      | ok t₁ =>
          rw [hfirst] at hstage
          exact ih (stageArtifact_staged h hfirst) hstage

theorem stageState_staged {artifacts : List (FilePath × SourceType)}
    (hstage : stageState secret config snapshot artifacts = .ok t) : Staged t :=
  stageArtifacts_staged (stagedCore_staged config snapshot) hstage

/-! A tree of artifacts without links is staged. -/

def sourceOf (e : FilePath × StateNode) : FilePath × SourceType :=
  match e.2 with
  | .directory => (e.1, .directory)
  | .file content => (e.1, .file content)

def artifactEntry (e : FilePath × StateNode) : FilePath × StateNode :=
  (stateDirectory :: artifactsName :: e.1, e.2)

theorem stageArtifacts_build {artifacts : StateTree} :
    stageArtifacts secret t (artifacts.map sourceOf) =
      (build t ((artifacts.filter fun e => !secret e.1).map artifactEntry)).elim
        (.error .osError) .ok := by
  induction artifacts generalizing t with
  | nil => rfl
  | cons e artifacts ih =>
      obtain ⟨p, node⟩ := e
      rw [List.map_cons, stageArtifacts, List.filter_cons]
      cases hsecret : secret p with
      | true =>
          have hskip : stageArtifact secret t (sourceOf (p, node)) = .ok t := by
            cases node <;> simp [stageArtifact, sourceOf, hsecret]
          rw [hskip]
          simpa using ih
      | false =>
          have hplace : stageArtifact secret t (sourceOf (p, node)) =
              (FileTree.place t (artifactEntry (p, node))).elim (.error .osError) .ok := by
            cases node <;> simp [stageArtifact, sourceOf, hsecret, artifactEntry]
          rw [hplace, Bool.not_false, if_pos rfl, List.map_cons, build]
          cases FileTree.place t (artifactEntry (p, node)) with
          | none => rfl
          | some t₁ => exact ih

theorem withArtifacts {artifacts : StateTree} (h : WellFormed artifacts) :
    WellFormed (stagedCore config snapshot ++ artifacts.map artifactEntry) := by
  have hcore := (stagedCore_staged config snapshot).wellFormed
  have hshort : ∀ e ∈ stagedCore config snapshot, e.1.length ≤ 2 := by simp [stagedCore]
  refine ⟨?_, fun e he => ?_, fun e he p hp hne hnonempty => ?_⟩
  · rw [List.map_append, List.map_map]
    refine List.nodup_append.2 ⟨hcore.once, ?_, ?_⟩
    · have hkeys : artifacts.map (Prod.fst ∘ artifactEntry) =
          (artifacts.map Prod.fst).map fun p => stateDirectory :: artifactsName :: p := by
        simp [List.map_map, Function.comp_def, artifactEntry]
      rw [hkeys]
      exact h.once.map fun p q heq => (List.cons.inj (List.cons.inj heq).2).2
    · rintro p hp q hq rfl
      obtain ⟨e, he, rfl⟩ := List.mem_map.1 hp
      obtain ⟨f, hf, hsame⟩ := List.mem_map.1 hq
      have hlength := hshort e he
      rw [← hsame] at hlength
      have hpos := List.length_pos_iff.2 (h.rooted f hf)
      simp only [Function.comp, artifactEntry, List.length_cons] at hlength
      omega
  · rcases List.mem_append.1 he with he | he
    · exact hcore.rooted e he
    · obtain ⟨f, -, rfl⟩ := List.mem_map.1 he
      exact List.cons_ne_nil _ _
  · rcases List.mem_append.1 he with he | he
    · exact List.mem_append_left _ (hcore.closed e he p hp hne hnonempty)
    · obtain ⟨f, hf, rfl⟩ := List.mem_map.1 he
      obtain rfl | ⟨q, rfl, hq⟩ := List.prefix_cons_iff.1 hp
      · exact absurd rfl hnonempty
      · obtain rfl | ⟨r, rfl, hr⟩ := List.prefix_cons_iff.1 hq
        · simp [stagedCore]
        · by_cases hroot : r = []
          · subst hroot
            simp [stagedCore]
          · have hne' : r ≠ f.1 := by
              rintro rfl
              exact hne rfl
            have hin := h.closed f hf r hr hne' hroot
            exact List.mem_append_right _ (List.mem_map.2 ⟨_, hin, rfl⟩)

theorem stageState_returns {artifacts : StateTree} (h : WellFormed artifacts) :
    ∃ t, stageState secret config snapshot (artifacts.map sourceOf) = .ok t := by
  have hwhole := @withArtifacts config snapshot artifacts h
  have hcore := (stagedCore_staged config snapshot).wellFormed
  have hkept : ((artifacts.filter fun e => !secret e.1).map artifactEntry).Sublist
      (artifacts.map artifactEntry) := List.filter_sublist.map _
  have honce := hwhole.once
  rw [List.map_append] at honce
  obtain ⟨-, hartifacts, hapart⟩ := List.nodup_append.1 honce
  obtain ⟨t, hbuild⟩ := build_returns hwhole hcore (List.subset_append_left _ _)
    (List.subset_append_of_subset_right _ hkept.subset) (hartifacts.sublist (hkept.map _))
    fun e he _ hmem => hapart e.1 hmem e.1 ((hkept.map _).subset (List.mem_map_of_mem he)) rfl
  exact ⟨t, by rw [stageState, stageArtifacts_build, hbuild]; rfl⟩

/-- The archive's tree: the staged one and the manifest beside it. -/
theorem Staged.withManifest (h : Staged t) (bytes : Bytes) :
    WellFormed (([manifestName], .file bytes) :: t) where
  once := by
    rw [List.map_cons, List.nodup_cons]
    refine ⟨fun hmem => ?_, h.wellFormed.once⟩
    obtain ⟨e, he, hsame⟩ := List.mem_map.1 hmem
    obtain ⟨rest, hrest⟩ := h.under e he
    have heq := List.cons.inj (hrest.symm.trans hsame)
    exact stateDirectory_ne_manifestName heq.1
  rooted e he := by
    rcases List.mem_cons.1 he with rfl | he
    · exact List.cons_ne_nil _ _
    · exact h.wellFormed.rooted e he
  closed e he p hp hne hnonempty := by
    rcases List.mem_cons.1 he with rfl | he
    · rcases List.prefix_cons_iff.1 hp with rfl | ⟨rest, rfl, hrest⟩
      · exact absurd rfl hnonempty
      · exact absurd (by rw [List.prefix_nil.1 hrest]) hne
    · exact List.mem_cons_of_mem _ (h.wellFormed.closed e he p hp hne hnonempty)

theorem tarInfo_entry {e : FilePath × StateNode} (he : e.1 ≠ []) : IsEntry (tarInfo e) e := by
  obtain ⟨p, node⟩ := e
  cases node with
  | directory => exact ⟨he, rfl, .directory rfl⟩
  | file content => exact ⟨he, rfl, .file rfl rfl⟩

theorem tarInfo_name (e : FilePath × StateNode) : (tarInfo e).name = posix e.1 := by
  obtain ⟨p, node⟩ := e
  cases node <;> rfl

theorem inOrder_perm : (inOrder t).Perm t := List.perm_insertionSort ..

/-- The members of a tree extract to the tree. -/
theorem safeExtract_members {whole es : StateTree} (hwhole : WellFormed whole)
    (hperm : es.Perm whole) :
    ∃ t', safeExtract ⟨es.map tarInfo, false⟩ = .ok t' ∧ ∀ e, e ∈ t' ↔ e ∈ whole := by
  obtain ⟨t', hbuild, -, hmem⟩ := build_whole hwhole hperm
  have hentries : List.Forall₂ IsEntry (es.map tarInfo) es := by
    rw [List.forall₂_map_left_iff, List.forall₂_same]
    exact fun e he => tarInfo_entry (hwhole.rooted e (hperm.subset he))
  have honce : ((es.map tarInfo).map TarInfo.name).Nodup := by
    have hkeys : (es.map Prod.fst).Nodup := (hperm.map Prod.fst).nodup_iff.2 hwhole.once
    have hnames : (es.map tarInfo).map TarInfo.name = (es.map Prod.fst).map posix := by
      simp [List.map_map, Function.comp_def, tarInfo_name]
    rw [hnames]
    refine List.Nodup.map_on (fun p hp q hq => ?_) hkeys
    obtain ⟨e, he, rfl⟩ := List.mem_map.1 hp
    obtain ⟨f, hf, rfl⟩ := List.mem_map.1 hq
    exact posix_inj (hwhole.rooted e (hperm.subset he)) (hwhole.rooted f (hperm.subset hf))
  exact ⟨t', extractMembers_ok.2 ⟨rfl, honce, by simp, es, hentries, hbuild⟩, hmem⟩

/-- The entry that an exported file is read back as. -/
def toListed (sha : Bytes → String) (file : FilePath × Bytes) : ListedFile :=
  ⟨posix file.1, PyText.ofString (sha file.2), file.2.length⟩

theorem listedFile_manifestFile (file : FilePath × Bytes) :
    listedFile (manifestFile sha file) = some (toListed sha file) := by
  have hprovenance : (PyText.ofString "sha256" == PyText.ofString "provenance") = false := by
    decide +kernel
  have hpath : (PyText.ofString "sha256" == PyText.ofString "path") = false := by decide +kernel
  have hsize : (PyText.ofString "size" == PyText.ofString "path") = false := by decide +kernel
  have hsize' : (PyText.ofString "size" == PyText.ofString "provenance") = false := by
    decide +kernel
  have hsize'' : (PyText.ofString "size" == PyText.ofString "sha256") = false := by decide +kernel
  simp [listedFile, manifestFile, RawJson.get, field, text, List.lookup_cons, hprovenance, hpath, hsize,
    hsize', hsize'', integerOf, toListed]

theorem stagedFiles_once (h : WellFormed t) :
    (((inOrder t).filterMap stateFile).map Prod.fst).Nodup := by
  have hkeys : ((inOrder t).map Prod.fst).Nodup :=
    (inOrder_perm.map Prod.fst).nodup_iff.2 h.once
  refine hkeys.sublist ?_
  generalize inOrder t = es
  induction es with
  | nil => exact List.Sublist.refl _
  | cons e es ih =>
      rw [List.filterMap_cons]
      cases hfile : stateFile e with
      | none => exact ih.cons _
      | some f =>
          have hpath : f.1 = e.1 := by rw [(stateFile_iff.1 hfile).1]
          rw [List.map_cons, List.map_cons, hpath]
          exact ih.cons_cons _

theorem mem_stagedFiles {file : FilePath × Bytes} : file ∈ (inOrder t).filterMap stateFile ↔
    (file.1, .file file.2) ∈ t ∧ ∃ rest, file.1 = stateDirectory :: rest := by
  simp only [List.mem_filterMap, stateFile_iff]
  constructor
  · rintro ⟨e, he, rfl, hrest⟩
    exact ⟨inOrder_perm.mem_iff.1 he, hrest⟩
  · rintro ⟨hmem, hrest⟩
    exact ⟨_, inOrder_perm.mem_iff.2 hmem, rfl, hrest⟩

theorem staged_lists (h : WellFormed t) :
    Lists sha t (((inOrder t).filterMap stateFile).map (toListed sha)) := by
  have hnonempty : ∀ file ∈ (inOrder t).filterMap stateFile, file.1 ≠ [] := by
    intro file hfile
    obtain ⟨-, rest, hrest⟩ := mem_stagedFiles.1 hfile
    rw [hrest]
    exact List.cons_ne_nil _ _
  refine ⟨?_, fun text => ?_, ?_⟩
  · have hpaths : (((inOrder t).filterMap stateFile).map (toListed sha)).map ListedFile.path =
        (((inOrder t).filterMap stateFile).map Prod.fst).map posix := by
      simp [List.map_map, Function.comp_def, toListed]
    rw [hpaths]
    refine List.Nodup.map_on (fun p hp q hq => ?_) (stagedFiles_once h)
    obtain ⟨e, he, rfl⟩ := List.mem_map.1 hp
    obtain ⟨f, hf, rfl⟩ := List.mem_map.1 hq
    exact posix_inj (hnonempty e he) (hnonempty f hf)
  · rw [List.map_map, List.mem_map]
    constructor
    · rintro ⟨file, hfile, rfl⟩
      obtain ⟨hmem, rest, hrest⟩ := mem_stagedFiles.1 hfile
      exact ⟨rest, file.2, hrest ▸ hmem, by rw [← hrest]; rfl⟩
    · rintro ⟨rest, content, hmem, rfl⟩
      exact ⟨(stateDirectory :: rest, content), mem_stagedFiles.2 ⟨hmem, rest, rfl⟩, rfl⟩
  · intro f hf rest content hmem hpath
    obtain ⟨file, hfile, rfl⟩ := List.mem_map.1 hf
    have hsame : file.1 = stateDirectory :: rest :=
      posix_inj (hnonempty file hfile) (List.cons_ne_nil _ _) hpath
    obtain ⟨hin, -⟩ := mem_stagedFiles.1 hfile
    have hnode : Node.file file.2 = Node.file content := h.unique (hsame ▸ hin) hmem
    rw [← Node.file.inj hnode]
    exact ⟨rfl, rfl⟩

theorem lookup_manifestOf {createdAt : String} {files : List RawJson} :
    ∃ manifest, manifestOf createdAt files = .obj manifest ∧
      manifest.lookup (PyText.ofString "files") = some (.arr files) ∧
      RawJson.get "format" manifest = text "polaris-backup" ∧
      RawJson.get "version" manifest = .int 1 := by
  have hfiles : ∀ key ∈ ["created_at", "credentials_included", "credentials_notice"],
      (PyText.ofString "files" == PyText.ofString key) = false := by decide +kernel
  have hformat : ∀ key ∈ ["created_at", "credentials_included", "credentials_notice", "files"],
      (PyText.ofString "format" == PyText.ofString key) = false := by decide +kernel
  have hversion : ∀ key ∈ ["created_at", "credentials_included", "credentials_notice", "files",
      "format"], (PyText.ofString "version" == PyText.ofString key) = false := by decide +kernel
  simp only [List.forall_mem_cons] at hfiles hformat hversion
  refine ⟨_, rfl, ?_, ?_, ?_⟩
  · simp [field, List.lookup_cons, hfiles]
  · simp [RawJson.get, field, List.lookup_cons, hformat]
  · simp [RawJson.get, field, List.lookup_cons, hversion]

theorem exported_intact {py : PyBuiltins} {createdAt : String} (h : Staged t)
    (hmem : ∀ e, e ∈ t' ↔ e = manifestMember json sha createdAt t ∨ e ∈ t) :
    Intact py json sha t' (manifestFiles sha t) := by
  have hlists : Lists sha t (((inOrder t).filterMap stateFile).map (toListed sha)) :=
    staged_lists h.wellFormed
  have hunder : ∀ rest node, (stateDirectory :: rest, node) ∈ t' ↔
      (stateDirectory :: rest, node) ∈ t := by
    intro rest node
    rw [hmem]
    refine or_iff_right fun heq => ?_
    have hpath := List.cons.inj (congrArg Prod.fst heq)
    exact stateDirectory_ne_manifestName hpath.1
  refine ⟨?_, (hunder _ _).2 h.state, _, ?_, ⟨hlists.once, fun text => ?_, ?_⟩, ?_⟩
  · obtain ⟨manifest, hmanifest, hfiles, hformat, hversion⟩ :=
      @lookup_manifestOf createdAt (manifestFiles sha t)
    refine ⟨_, manifest, (hmem _).2 (.inl rfl), ?_, hfiles, ?_, ?_⟩
    · rw [json.loads_dumps, hmanifest]
    · rw [hformat]
      simp [isText, text]
    · rw [hversion]
      rfl
  · rw [manifestFiles, List.forall₂_map_left_iff, List.forall₂_map_right_iff, List.forall₂_same]
    exact fun file _ => listedFile_manifestFile file
  · rw [hlists.same]
    simp only [hunder]
  · intro f hf rest content hin
    exact hlists.equal f hf rest content ((hunder _ _).1 hin)
  · obtain ⟨config, hconfig⟩ := h.config
    obtain ⟨journal, hjournal⟩ := h.journal
    intro text htext
    simp only [requiredPaths, List.mem_cons, List.not_mem_nil, or_false] at htext
    rw [hlists.same]
    rcases htext with rfl | rfl
    · exact ⟨_, config, hconfig, rfl⟩
    · exact ⟨_, journal, hjournal, rfl⟩

theorem export_passes {py : PyBuiltins} {createdAt : String} (h : Staged t) :
    ∃ t', safeExtract (exportArchive json sha createdAt t) = .ok t' ∧
      (∀ e, e ∈ t' ↔ e = manifestMember json sha createdAt t ∨ e ∈ t) ∧
      verifyManifest py json sha t' = .ok (manifestFiles sha t) := by
  have hwhole : WellFormed (manifestMember json sha createdAt t :: t) := h.withManifest _
  obtain ⟨t', hextract, hin⟩ := safeExtract_members hwhole (inOrder_perm.cons _)
  have hmem : ∀ e, e ∈ t' ↔ e = manifestMember json sha createdAt t ∨ e ∈ t := by
    intro e
    rw [hin, List.mem_cons]
  have hwell := (safeExtract_extracted hextract).wellFormed
  exact ⟨t', hextract, hmem, (verifyManifest_ok hwell).2 (exported_intact h hmem)⟩

end Export

end Polaris.BackupArchive
