import Polaris.Tools.PathResolution

namespace Polaris.Filesystem
open PyJson PosixPath LinkedTree

/-! The file that is written before it takes the place of the target. -/

/-- A tree with a draft in the directory, without which it would be `t`. -/
structure Drafted (t v : FileTree) (r : FilePath) (s : FileName) (content : Content) : Prop where
  wellFormed : v.WellFormed
  directory : v.node r = some .directory
  draft : v.node (r ++ [s]) = some (.file content)
  erased : v.erase (r ++ [s]) = t

/-- The file is where it was to be, and everything else is as it was. -/
structure Placed (t v : FileTree) (p : FilePath) (data : Content) : Prop where
  node : ∀ q, v.node q = if q = p then some (.file data) else t.node q
  length : t.entries.length ≤ v.entries.length

section Drafting
variable {names : TemporaryNames} {late : Bool} {t v v' : FileTree} {r p : FilePath}
  {s s' : FileName} {name : PyText} {data content : Content} {source path : TextPath}

theorem texts_concat : texts r ++ [s.text] = texts (r ++ [s]) := by
  rw [texts_append]
  rfl

theorem ne_concat : r ≠ r ++ [s] := by simp

theorem placeOf_concat (hwf : t.WellFormed) (hr : t.node r = some .directory) :
    placeOf t (texts (r ++ [s])) = some (r ++ [s]) := by
  rw [placeOf_texts, place_physical hwf hr]

theorem lookUpLink_concat (hwf : t.WellFormed) (hr : t.node r = some .directory) :
    lookUpLink t (texts (r ++ [s])) = t.node (r ++ [s]) := by
  rw [lookUpLink_texts, lstat, place_physical hwf hr, Option.bind_some]

/-- A name that is that of no file has no place. -/
theorem ofParts_concat (h : ofParts (texts r ++ [name]) = some p) :
    ∃ s, name = s.text ∧ p = r ++ [s] := by
  obtain ⟨p₁, p₂, hfirst, hlast, rfl⟩ := ofParts_append_iff.1 h
  obtain rfl := texts_injective hfirst
  cases p₂ with
  | nil => cases hlast
  | cons s p₂ =>
      cases p₂ with
      | nil => exact ⟨s, List.singleton_inj.1 hlast, rfl⟩
      | cons s' p₂ => cases hlast

theorem placeOf_below (hwf : t.WellFormed) (hr : t.node r = some .directory)
    (h : placeOf t (texts r ++ [name]) = some p) : r <+: p := by
  obtain ⟨q, hq, -⟩ := Option.bind_eq_some_iff.1 h
  obtain ⟨s, rfl, -⟩ := ofParts_concat hq
  rw [texts_concat, placeOf_concat hwf hr] at h
  obtain rfl := Option.some.inj h
  exact List.prefix_append ..

theorem drafted_create (names : TemporaryNames) (hwf : t.WellFormed) (hr : t.node r = some .directory) :
    ∃ v, createStep names t (texts r) = (.ok (texts (r ++ [names.name t r])), v) ∧
      Drafted t v r (names.name t r) [] := by
  have hfree := names.free t r
  refine ⟨t.set (r ++ [names.name t r]) (.file []), ?_, ?_, ?_, ?_, ?_⟩
  · unfold createStep
    rw [ofParts_texts, Option.bind_some, follow_physical hwf ⟨_, hr, rfl⟩]
    simp only [if_pos (isDirectory_iff.2 hr)]
    rw [texts_concat]
  · refine hwf.set hr fun hsame => ?_
    rw [hfree] at hsame
    cases hsame
  · rw [node_set (by simp), if_neg ne_concat, hr]
  · rw [node_set (by simp), if_pos rfl]
  · rw [erase_set, entries_erase_of_none (by simp) hfree]

theorem Drafted.write (h : Drafted t v r s content) :
    Drafted t (v.set (r ++ [s]) (.file data)) r s data := by
  refine ⟨?_, ?_, ?_, ?_⟩
  · refine h.wellFormed.set h.directory fun hsame => ?_
    rw [h.draft] at hsame
    cases hsame
  · rw [node_set (by simp), if_neg ne_concat, h.directory]
  · rw [node_set (by simp), if_pos rfl]
  · rw [erase_set, h.erased]

theorem Drafted.place (h : Drafted t v r s content) :
    placeOf v (texts (r ++ [s])) = some (r ++ [s]) := placeOf_concat h.wellFormed h.directory

theorem Drafted.writeStep (h : Drafted t v r s content) :
    writeStep v (texts (r ++ [s])) data = (.ok (), v.set (r ++ [s]) (.file data)) := by
  unfold Filesystem.writeStep
  rw [h.place]

theorem Drafted.unlinkStep (h : Drafted t v r s content) :
    unlinkStep v (texts (r ++ [s])) = (.ok (), t) := by
  unfold Filesystem.unlinkStep
  rw [h.place]
  simp only [h.draft]
  rw [h.erased]

theorem Drafted.node (h : Drafted t v r s content) (hp : p ≠ r ++ [s]) : v.node p = t.node p := by
  rw [← h.erased, node_erase (by simp), if_neg hp]

theorem Drafted.free (h : Drafted t v r s content) : t.node (r ++ [s]) = none := by
  rw [← h.erased, node_erase (by simp), if_pos rfl]

theorem Drafted.length (h : Drafted t v r s content) : t.entries.length ≤ v.entries.length := by
  rw [← h.erased]
  exact length_erase_le

/-- `os.replace` puts the draft where there is no directory. -/
theorem Drafted.replace (h : Drafted t v r s data)
    (hdirectory : t.node (r ++ [s']) ≠ some .directory) :
    ∃ u, replaceStep v (texts (r ++ [s])) (texts (r ++ [s'])) = (.ok (), u) ∧
      Placed t u (r ++ [s']) data := by
  unfold replaceStep
  rw [if_neg (by simp [ofParts_texts]), h.place, placeOf_concat h.wellFormed h.directory]
  by_cases hsame : r ++ [s] = r ++ [s']
  · refine ⟨v, by simp only [if_pos hsame], fun q => ?_, h.length⟩
    rw [← hsame]
    split
    · rename_i hq
      rw [hq, h.draft]
    · rename_i hq
      exact h.node hq
  · have hnode := h.node (Ne.symm hsame)
    refine ⟨t.set (r ++ [s']) (.file data), ?_, fun q => node_set (by simp), ?_⟩
    · have herase : (v.set (r ++ [s']) (.file data)).erase (r ++ [s]) =
          t.set (r ++ [s']) (.file data) := by
        rw [erase_set_of_ne (Ne.symm hsame), h.erased]
      simp only [if_neg hsame, h.draft, hnode]
      rw [herase]
    · exact Nat.le_succ _

theorem replaceStep_error {target : TextPath} {err : ToolError}
    (h : replaceStep t source target = (.error err, v)) : v = t := by
  unfold replaceStep at h
  split at h
  · exact (Prod.mk.inj h).2.symm
  · split at h
    · split at h
      · cases h
      · split at h
        · exact (Prod.mk.inj h).2.symm
        · exact (Prod.mk.inj h).2.symm
        · exact (Prod.mk.inj h).2.symm
        · cases h
    · exact (Prod.mk.inj h).2.symm

theorem replaceStep_unplaced (h : ofParts (texts r ++ [name]) = none) :
    replaceStep v source (texts r ++ [name]) = (.error .unicodeError, v) := by
  unfold replaceStep
  rw [if_pos h]

theorem Drafted.complete_writeDraft (h : Drafted t v r s content) :
    (writeDraft (texts (r ++ [s])) data).complete (disk names late) v =
      (.ok (), v.set (r ++ [s]) (.file data)) := by
  have hwrite : (ask (.writeTemporary (texts (r ++ [s])) data)).complete (disk names late) v =
      (.ok (), v.set (r ++ [s]) (.file data)) := h.writeStep
  unfold writeDraft Program.thenAlways
  rw [Program.complete_andThen, Program.complete_bind_ok hwrite]
  rfl

end Drafting

/-! The draft, and what is left of it. -/

section Draft
variable {names : TemporaryNames} {late b : Bool} {t v : FileTree} {r : FilePath} {s : FileName}
  {name : PyText} {data content : Content} {I F G : FileTree → Prop}

/-- There is nothing at the path, or a file. -/
def Replaceable (t : FileTree) (p : FilePath) : Prop :=
  t.node p = none ∨ ∃ data, t.node p = some (.file data)

theorem Replaceable.plain {p : FilePath} (h : Replaceable t p) :
    (t.node p).any Node.isLink = false := by
  rcases h with hnone | ⟨data, hdata⟩
  · rw [hnone]
    rfl
  · rw [hdata]
    rfl

theorem Replaceable.ne_directory {p : FilePath} (h : Replaceable t p) :
    t.node p ≠ some .directory := by
  rcases h with hnone | ⟨data, hdata⟩
  · rw [hnone]
    rintro ⟨⟩
  · rw [hdata]
    rintro ⟨⟩

def DraftLeft (late : Bool) (t : FileTree) (r : FilePath) (s : FileName) (w : FileTree) : Prop :=
  late = false ∧ ∃ content, Drafted t w r s content

theorem torn_intro {β : Type} {e : FsCall β} (hI : ∀ v, I v) {w : FileTree} :
    ∀ v, (disk names late).torn e w v → I v := fun v _ => hI v

theorem writeDraft_keeps (hI : ∀ v, I v) (h : Drafted t v r s content) :
    (writeDraft (texts (r ++ [s])) data).Keeps (disk names late) I b
      (Program.Ends b (fun _ w => w = v.set (r ++ [s]) (.file data))
        fun _ w => DraftLeft late t r s w) v := by
  have hwritten : Drafted t (v.set (r ++ [s]) (.file data)) r s data := h.write
  have hpartly : ∀ {w u : FileTree} {content' : Content}, Drafted t w r s content' →
      (∃ q content, placeOf w (texts (r ++ [s])) = some q ∧ u = w.set q (.file content)) →
        ∃ content, Drafted t u r s content := by
    rintro w u content' hw ⟨q, data', hq, rfl⟩
    rw [hw.place] at hq
    obtain rfl := Option.some.inj hq
    exact ⟨data', hw.write⟩
  refine Program.Keeps.andThen (Q := Program.Ends b
    (fun _ w => w = v.set (r ++ [s]) (.file data)) fun _ w => DraftLeft late t r s w) ?_ ?_
  · refine Program.Keeps.call_bind h.writeStep (hI _) (torn_intro hI) ?_ ?_
    · rintro - err w ⟨hlate, -, rfl | hleft⟩
      · exact ⟨hI w, hlate.symm, content, h⟩
      · exact ⟨hI w, hlate.symm, hpartly h hleft⟩
    · refine Program.Keeps.call_bind rfl (hI _) (torn_intro hI) ?_ ?_
      · rintro - err w ⟨hlate, -, rfl | hleft⟩
        · exact ⟨hI _, hlate.symm, data, hwritten⟩
        · exact ⟨hI w, hlate.symm, hpartly hwritten hleft⟩
      · refine Program.keeps_perform rfl rfl (hI _) (torn_intro hI) ?_
        rintro - err w ⟨hlate, -, rfl | hleft⟩
        · exact ⟨hI _, hlate.symm, data, hwritten⟩
        · exact hleft.elim
  · intro b' result w hend
    refine ⟨torn_intro hI, hI _, ?_, ?_⟩
    · cases result with
      | ok _ => exact hend
      | error err => exact hend
    · rintro rfl err w' ⟨hlate, -, rfl | hleft⟩
      · refine ⟨hI _, rfl, hlate.symm, ?_⟩
        cases result with
        | ok _ =>
            obtain ⟨-, rfl⟩ := hend
            exact ⟨data, hwritten⟩
        | error err' => exact hend.2.2
      · exact hleft.elim

/-- How the placing of a draft ends: only a name that is none of a file has no place. -/
def DraftEnds (late : Bool) (t : FileTree) (r : FilePath) (s : FileName) (name : PyText)
    (data : Content) (b : Bool) : Bool → Except ToolError Unit → FileTree → Prop
  | b', .ok _, w => b' = b ∧ ∃ s', name = s'.text ∧ Placed t w (r ++ [s']) data
  | b', .error _, w => (∃ content, Drafted t w r s content) ∧
      (b' = b ∧ ofParts (texts r ++ [name]) = none ∨ b' = false ∧ late = false)

theorem ofParts_concat_name (r : FilePath) (name : PyText) :
    (∃ s, name = FileName.text s) ∨ ofParts (texts r ++ [name]) = none := by
  cases h : ofParts (texts r ++ [name]) with
  | none => exact .inr rfl
  | some p =>
      obtain ⟨s, hs, -⟩ := ofParts_concat h
      exact .inl ⟨s, hs⟩

theorem Drafted.plain (h : Drafted t v r s data)
    (hplain : ∀ s', name = FileName.text s' → Replaceable t (r ++ [s'])) :
    (lookUpLink v (texts r ++ [name])).any Node.isLink = false := by
  rcases ofParts_concat_name r name with ⟨s', rfl⟩ | hnone
  · rw [texts_concat, lookUpLink_concat h.wellFormed h.directory]
    by_cases hsame : r ++ [s'] = r ++ [s]
    · rw [hsame, h.draft]
      rfl
    · rw [h.node hsame]
      exact (hplain s' rfl).plain
  · unfold lookUpLink
    rw [hnone]
    rfl

theorem placeDraft_keeps (hI : ∀ v, I v) (h : Drafted t v r s content)
    (hplain : ∀ s', name = FileName.text s' → Replaceable t (r ++ [s'])) :
    (placeDraft (texts (r ++ [s])) (texts r ++ [name]) data).Keeps (disk names late) I b
      (DraftEnds late t r s name data b) v := by
  refine (writeDraft_keeps hI h).andThen fun b' result w hend => ?_
  cases result with
  | error err =>
      obtain ⟨rfl, hlate, hleft⟩ := hend
      exact ⟨hleft, .inr ⟨rfl, hlate⟩⟩
  | ok _ =>
      obtain ⟨rfl, rfl⟩ := hend
      have hwritten : Drafted t (v.set (r ++ [s]) (.file data)) r s data := h.write
      have hlinked : (disk names late).step (.isSymlink (texts r ++ [name]))
          (v.set (r ++ [s]) (.file data)) = (.ok false, v.set (r ++ [s]) (.file data)) := by
        rw [← hwritten.plain hplain]
        rfl
      refine ⟨torn_intro hI, hI _, ?_, ?_⟩
      · rw [hlinked]
        refine ⟨torn_intro hI, hI _, ?_, ?_⟩
        · rcases ofParts_concat_name r name with ⟨s', rfl⟩ | hnone
          · obtain ⟨u, hreplace, hplaced⟩ := hwritten.replace (hplain s' rfl).ne_directory
            rw [texts_concat, show (disk names late).step
              (.replace (texts (r ++ [s])) (texts (r ++ [s']))) _ = _ from hreplace]
            exact ⟨rfl, s', rfl, hplaced⟩
          · rw [show (disk names late).step (.replace (texts (r ++ [s])) (texts r ++ [name])) _ = _
              from replaceStep_unplaced hnone]
            exact ⟨⟨data, hwritten⟩, .inl ⟨rfl, hnone⟩⟩
        · rintro hb err w ⟨hlate, -, rfl | hleft⟩
          · exact ⟨hI _, ⟨data, hwritten⟩, .inr ⟨rfl, hlate.symm⟩⟩
          · exact hleft.elim
      · rintro hb err w ⟨hlate, -, rfl | hleft⟩
        · exact ⟨hI _, ⟨data, hwritten⟩, .inr ⟨rfl, hlate.symm⟩⟩
        · exact hleft.elim

end Draft

/-! The file in its place. -/

section Placing
variable {names : TemporaryNames} {late b : Bool} {t v : FileTree} {r : FilePath} {s : FileName}
  {name : PyText} {data content : Content} {I F G : FileTree → Prop}

theorem Placed.other (h : Placed t v (r ++ [s]) data) {p : FilePath} (hp : p ≠ r ++ [s]) :
    v.node p = t.node p := by
  rw [h.node, if_neg hp]

theorem Placed.here (h : Placed t v (r ++ [s]) data) : v.node (r ++ [s]) = some (.file data) := by
  rw [h.node, if_pos rfl]

theorem Placed.directory (h : Placed t v (r ++ [s]) data) (hr : t.node r = some .directory) :
    v.node r = some .directory := by
  rw [h.other ne_concat, hr]

theorem Placed.wellFormed (h : Placed t v (r ++ [s]) data) (hwf : t.WellFormed)
    (hr : t.node r = some .directory) (hs : Replaceable t (r ++ [s])) : v.WellFormed := by
  refine ⟨fun p s' hne => ?_⟩
  have hp : t.node p = some .directory := by
    by_cases hlast : p ++ [s'] = r ++ [s]
    · obtain ⟨rfl, -⟩ := List.append_inj' hlast rfl
      exact hr
    · rw [h.other hlast] at hne
      exact hwf.closed p s' hne
  rw [h.other fun heq => hs.ne_directory (heq ▸ hp), hp]

theorem Placed.grows (h : Placed t v (r ++ [s]) data) (hs : Replaceable t (r ++ [s])) :
    Grows t v := by
  refine ⟨fun p n hn => ?_⟩
  by_cases hp : p = r ++ [s]
  · subst hp
    refine ⟨.file data, h.here, ?_⟩
    rcases hs with hnone | ⟨old, hold⟩
    · rw [hn] at hnone
      cases hnone
    · obtain rfl := Option.some.inj (hn.symm.trans hold)
      trivial
  · exact ⟨n, (h.other hp).trans hn, .refl⟩

theorem openStep_directory (hwf : v.WellFormed) (hr : v.node r = some .directory) :
    openStep v (texts r) = .ok () := by
  unfold openStep
  rw [lookUp_texts, stat_eq (follow_physical hwf ⟨_, hr, rfl⟩), hr]
  rfl

theorem syncDirectory_keeps (hI : ∀ v, I v) (hG : G v) (hopen : openStep v (texts r) = .ok ()) :
    (syncDirectory (texts r)).Keeps (disk names late) I b
      (Program.Ends b (fun _ _ => True) fun _ w => late = true ∧ G w) v := by
  have hopened : (disk names late).step (.openDirectory (texts r)) v = (.ok (), v) :=
    congrArg (·, v) hopen
  have hfails : ∀ {e : FsCall Unit} {w : FileTree} {err : ToolError}, e.syncsDirectory = true →
      ¬ Partly e v w → (disk names late).fails e v err w → late = true ∧ w = v := by
    rintro e w err he hpartly ⟨hlate, -, rfl | hleft⟩
    · exact ⟨hlate.symm.trans he, rfl⟩
    · exact absurd hleft hpartly
  refine Program.Keeps.call_bind hopened (hI v) (torn_intro hI) ?_ ?_
  · rintro - err w hfail
    obtain ⟨hlate, rfl⟩ := hfails rfl id hfail
    exact ⟨hI w, hlate, hG⟩
  · refine ⟨torn_intro hI, hI _, ⟨torn_intro hI, hI _, ⟨rfl, trivial⟩, ?_⟩, ?_⟩
    · rintro hb err w hfail
      obtain ⟨hlate, rfl⟩ := hfails rfl id hfail
      exact ⟨hI _, rfl, hlate, hG⟩
    · rintro hb err w hfail
      obtain ⟨hlate, rfl⟩ := hfails rfl id hfail
      exact ⟨hI _, torn_intro hI, hI _, ⟨rfl, hlate, hG⟩, fun hb => by cases hb⟩

theorem discard_keeps (hI : ∀ v, I v) (hF : F t)
    (hleft : b = true → ∀ w content, Drafted t w r s content → F w)
    (h : Drafted t v r s content) :
    (discard (texts (r ++ [s]))).Keeps (disk names late) I b
      (fun b' _ w => F w ∧ (b' = b ∨ late = false)) v := by
  have hunlink : (disk names late).step (.unlink (texts (r ++ [s]))) v = (.ok (), t) := h.unlinkStep
  refine ⟨torn_intro hI, hI _, ?_, ?_⟩
  · rw [hunlink]
    exact ⟨hF, .inl rfl⟩
  · rintro hb err w ⟨hlate, -, rfl | hpartly⟩
    · refine ⟨hI _, ?_⟩
      cases err <;> exact ⟨hleft hb _ content h, .inr hlate.symm⟩
    · exact hpartly.elim

/-- Only a fault in the synchronisation of the directory is raised when the file is in its place. -/
theorem atomicWrite_raises (hwf : t.WellFormed) (hr : t.node r = some .directory)
    (hplain : ∀ s', name = FileName.text s' → Replaceable t (r ++ [s'])) (hI : ∀ v, I v)
    (hF : F t) (hleft : ofParts (texts r ++ [name]) = none → ∀ v, F v)
    (hG : ∀ v s', name = FileName.text s' → Placed t v (r ++ [s']) data → G v) :
    (atomicWrite (texts r ++ [name]) data).Keeps (disk names late) I b
      (Program.Raises (late = false) F G b) t := by
  unfold atomicWrite
  rw [List.dropLast_concat]
  obtain ⟨v, hcreate, hdrafted⟩ := drafted_create names hwf hr
  have hcreated : (disk names late).step (.createTemporary (texts r)) t = _ := hcreate
  refine ⟨torn_intro hI, hI _, ?_, ?_⟩
  · rw [hcreated]
    refine (placeDraft_keeps hI hdrafted hplain).andThen fun b' placed w hend => ?_
    cases placed with
    | ok _ =>
        obtain ⟨rfl, s', rfl, hplaced⟩ := hend
        have hs := hplain s' rfl
        have hopen := openStep_directory (hplaced.wellFormed hwf hr hs) (hplaced.directory hr)
        refine (Program.Keeps.mono (syncDirectory_keeps hI (hG w s' rfl hplaced) hopen)
          fun b' result w hsynced => ?_).raises_mapError _
        cases result with
        | ok _ => exact hsynced.1
        | error err =>
            obtain ⟨hb, hlate, hw⟩ := hsynced
            exact .inr ⟨hw, by simp [hlate], hb⟩
    | error err =>
        obtain ⟨⟨content, hdraft⟩, hwhy⟩ := hend
        refine (discard_keeps hI hF ?_ hdraft).andThen fun b'' discarded w' hdiscarded => ?_
        · rintro rfl w' content' -
          rcases hwhy with ⟨-, hnone⟩ | ⟨hb, -⟩
          · exact hleft hnone w'
          · cases hb
        · obtain ⟨hw', hb''⟩ := hdiscarded
          have hflag : b'' = b ∨ late = false := by
            rcases hb'' with rfl | hlate
            · rcases hwhy with ⟨hb', -⟩ | ⟨-, hlate⟩
              · exact .inl hb'
              · exact .inr hlate
            · exact .inr hlate
          cases discarded with
          | ok _ => exact .inl ⟨hw', hflag⟩
          | error err' => exact .inl ⟨hw', hflag⟩
  · rintro hb err w ⟨hlate, -, rfl | hpartly⟩
    · exact ⟨hI _, .inl ⟨hF, .inr hlate.symm⟩⟩
    · exact hpartly.elim

theorem placeDraft_placed (h : Drafted t v r s content)
    (hplain : ∀ s', name = FileName.text s' → Replaceable t (r ++ [s'])) {w : FileTree}
    (hcomplete : (placeDraft (texts (r ++ [s])) (texts r ++ [name]) data).complete
      (disk names late) v = (.ok (), w)) :
    ∃ s', name = s'.text ∧ Placed t w (r ++ [s']) data := by
  have hkeeps : (placeDraft (texts (r ++ [s])) (texts r ++ [name]) data).Keeps (disk names late)
      (fun _ => True) true (DraftEnds late t r s name data true) v :=
    placeDraft_keeps (fun _ => trivial) h hplain
  have hend := hkeeps.complete
  rw [hcomplete] at hend
  exact hend.2

theorem atomicWrite_complete (hwf : t.WellFormed) (hr : t.node r = some .directory)
    (hplain : ∀ s', name = FileName.text s' → Replaceable t (r ++ [s']))
    (h : (atomicWrite (texts r ++ [name]) data).complete (disk names late) t = (.ok (), v)) :
    ∃ s', name = s'.text ∧ Placed t v (r ++ [s']) data := by
  unfold atomicWrite at h
  rw [List.dropLast_concat] at h
  obtain ⟨u, hcreate, hdrafted⟩ := drafted_create names hwf hr
  have hcreated : (ask (.createTemporary (texts r))).complete (disk names late) t = _ := hcreate
  rw [Program.complete_andThen, hcreated] at h
  simp only at h
  rw [Program.complete_andThen] at h
  cases hplace : (placeDraft (texts (r ++ [names.name t r])) (texts r ++ [name]) data).complete
      (disk names late) u with
  | mk placed w =>
      rw [hplace] at h
      cases placed with
      | ok _ =>
          obtain ⟨⟨⟩, u', hopened, hsynced⟩ :=
            Program.complete_bind_iff.1 (Program.complete_mapError_iff.1 h)
          obtain rfl := (Prod.mk.inj hopened).2
          obtain rfl := (Prod.mk.inj hsynced).2
          exact placeDraft_placed hdrafted hplain hplace
      | error err =>
          simp only at h
          rw [Program.complete_andThen] at h
          cases hdiscard : (discard (texts (r ++ [names.name t r]))).complete
              (disk names late) w with
          | mk discarded w' =>
              rw [hdiscard] at h
              cases discarded <;> cases h

end Placing

end Polaris.Filesystem
