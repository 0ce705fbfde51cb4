import Polaris.Library.LinkedTree

/-! What a kernel's calls do to a tree with symbolic links. -/

namespace LinkedTree

variable {ν β : Type} [DecidableEq ν]

section Calls
variable (t : Tree ν β) (limit : ℕ)

def follow (p : List ν) : Option (List ν) := (walk t limit [] (down p)).map Prod.fst

/-- Where the last name of a path is; a link there is not followed. -/
def place (p : List ν) : Option (List ν) :=
  match p.getLast? with
  | none => some []
  | some s =>
      (follow t limit p.dropLast).bind fun q =>
        if t.isDirectory q then some (q ++ [s]) else none

def stat (p : List ν) : Option (Node ν β) := (follow t limit p).bind t.node

def lstat (p : List ν) : Option (Node ν β) := (place t limit p).bind t.node

def leadsToDirectory (p : List ν) : Bool :=
  match stat t limit p with
  | some .directory => true
  | _ => false

end Calls

/-- Directories below one another. -/
def nest (t : Tree ν β) (q : List ν) : List ν → Tree ν β
  | [] => t
  | s :: names => nest (t.set (q ++ [s]) .directory) (q ++ [s]) names

/-- `mkdir -p` of the rest of a path, and whether it is a directory in the end. -/
def makeDirectories (limit : ℕ) (t : Tree ν β) (done : List ν) : List ν → Tree ν β × Bool
  | [] => (t, true)
  | s :: rest =>
      if leadsToDirectory t limit (done ++ [s]) then makeDirectories limit t (done ++ [s]) rest
      else
        match place t limit (done ++ [s]) with
        | none => (t, false)
        | some q =>
            if t.node q = none then
              makeDirectories limit (t.set q .directory) (done ++ [s]) rest
            else (t, false)

section Following
variable {t : Tree ν β} {limit : ℕ} {p q r : List ν} {s : ν} {n : Node ν β}

theorem real_of_follow (h : follow t limit p = some q) : Real t [] (down p) q := by
  obtain ⟨⟨q', left⟩, hwalk, rfl⟩ := Option.map_eq_some_iff.1 h
  exact real_of_walk hwalk

theorem physical_nil : Physical t [] := ⟨.directory, rfl, rfl⟩

theorem physical_of_follow (hwf : t.WellFormed) (h : follow t limit p = some q) : Physical t q :=
  (real_of_follow h).physical hwf physical_nil

theorem follow_physical (hwf : t.WellFormed) (h : Physical t p) : follow t limit p = some p := by
  unfold follow
  rw [@walk_physical ν β _ t [] p limit hwf h]
  rfl

theorem follow_nil : follow t limit [] = some [] := by
  unfold follow
  rw [down, List.map_nil, walk_nil]
  rfl

theorem follow_concat (hp : follow t limit p = some q) (hq : t.node q = some .directory)
    (hn : t.node (q ++ [s]) = some n) (hplain : n.isLink = false) :
    follow t limit (p ++ [s]) = some (q ++ [s]) := by
  obtain ⟨⟨q', left⟩, hwalk, rfl⟩ := Option.map_eq_some_iff.1 hp
  unfold follow
  rw [down, List.map_append, walk_append]
  change ((walk t limit [] (down p)).bind fun r => walk t r.2 r.1 [.down s]).map Prod.fst = _
  rw [hwalk, Option.bind_some, walk_plain (isDirectory_iff.2 hq) hn hplain, walk_nil]
  rfl

/-- What a path goes through is a directory in which its next name is. -/
theorem follow_above (h : follow t limit (p ++ s :: r) = some q) :
    ∃ q', follow t limit p = some q' ∧ t.node q' = some .directory ∧
      t.node (q' ++ [s]) ≠ none := by
  obtain ⟨⟨q₁, left⟩, hwalk, -⟩ := Option.map_eq_some_iff.1 h
  rw [down, List.map_append, walk_append] at hwalk
  obtain ⟨⟨q', left'⟩, hhead, htail⟩ := Option.bind_eq_some_iff.1 hwalk
  refine ⟨q', Option.map_eq_some_iff.2 ⟨_, hhead, rfl⟩, ?_⟩
  rw [List.map_cons, walk_cons] at htail
  split at htail
  · rename_i hdirectory
    refine ⟨isDirectory_iff.1 hdirectory, ?_⟩
    intro hnone
    simp only [hnone] at htail
    cases htail
  · cases htail

theorem follow_missing (hp : follow t limit p = some q) (hfree : t.node (q ++ [s]) = none) :
    follow t limit (p ++ s :: r) = none := by
  cases h : follow t limit (p ++ s :: r) with
  | none => rfl
  | some q' =>
      obtain ⟨q'', hq'', -, hne⟩ := follow_above h
      obtain rfl := Option.some.inj (hp.symm.trans hq'')
      exact absurd hfree hne

theorem stat_eq (h : follow t limit p = some q) : stat t limit p = t.node q := by
  unfold stat
  rw [h, Option.bind_some]

theorem stat_iff : stat t limit p = some n ↔ ∃ q, follow t limit p = some q ∧ t.node q = some n :=
  Option.bind_eq_some_iff

theorem leadsToDirectory_iff :
    leadsToDirectory t limit p = true ↔ stat t limit p = some .directory := by
  unfold leadsToDirectory
  split
  · rename_i hstat
    simp [hstat]
  · rename_i hstat
    simpa using hstat

theorem place_concat (hp : follow t limit p = some q) (hq : t.node q = some .directory) :
    place t limit (p ++ [s]) = some (q ++ [s]) := by
  unfold place
  rw [List.getLast?_concat, List.dropLast_concat, hp]
  simp only [Option.bind_some]
  rw [if_pos (isDirectory_iff.2 hq)]

theorem place_physical (hwf : t.WellFormed) (h : t.node q = some .directory) :
    place t limit (q ++ [s]) = some (q ++ [s]) :=
  place_concat (follow_physical hwf ⟨_, h, rfl⟩) h

/-- A name that neither leads anywhere nor is a link is free. -/
theorem free_of_missing (hp : follow t limit p = some q) (hq : t.node q = some .directory)
    (hstat : stat t limit (p ++ [s]) = none)
    (hlink : ∀ target, lstat t limit (p ++ [s]) ≠ some (.symlink target)) :
    t.node (q ++ [s]) = none := by
  by_contra hne
  obtain ⟨n, hn⟩ := Option.ne_none_iff_exists'.1 hne
  cases hkind : n.isLink with
  | true =>
      cases n with
      | symlink target =>
          refine hlink target ?_
          unfold lstat
          rw [place_concat hp hq]
          exact hn
      | _ => cases hkind
  | false =>
      rw [stat_eq (follow_concat hp hq hn hkind), hn] at hstat
      cases hstat

end Following

section Changing
variable {t t' : Tree ν β} {limit : ℕ} {p q r : List ν} {s : ν} {n : Node ν β} {names : List ν}

theorem Tree.WellFormed.set (h : t.WellFormed) (hq : t.node q = some .directory)
    (hsame : t.node (q ++ [s]) = some .directory → n = .directory) :
    (t.set (q ++ [s]) n).WellFormed := by
  refine ⟨fun p s' hne => ?_⟩
  have hset : ∀ r, (t.set (q ++ [s]) n).node r = if r = q ++ [s] then some n else t.node r :=
    fun r => node_set (by simp)
  rw [hset] at hne ⊢
  have hp : t.node p = some .directory := by
    split at hne
    · rename_i hlast
      obtain ⟨rfl, -⟩ := List.append_inj' hlast rfl
      exact hq
    · exact h.closed p s' hne
  split
  · rename_i heq
    subst heq
    rw [hsame hp]
  · exact hp

theorem Tree.WellFormed.erase (h : t.WellFormed) (hp : p ≠ [])
    (hn : t.node p ≠ some .directory) : (t.erase p).WellFormed := by
  refine ⟨fun q s hne => ?_⟩
  rw [node_erase hp] at hne ⊢
  split at hne
  · exact absurd rfl hne
  · have hq := h.closed q s hne
    rw [if_neg, hq]
    rintro rfl
    exact hn hq

theorem entries_erase_of_none (hp : p ≠ []) (h : t.node p = none) : t.erase p = t := by
  unfold Tree.node at h
  rw [if_neg hp] at h
  unfold Tree.erase
  obtain ⟨es⟩ := t
  refine congrArg Tree.mk (List.filter_eq_self.2 fun e he => ?_)
  simp only [decide_eq_true_eq]
  rintro rfl
  have hmem := List.lookup_eq_none_iff.1 h e he
  simp at hmem

theorem erase_set : (t.set p n).erase p = t.erase p := by
  unfold Tree.set Tree.erase
  rw [List.filter_cons_of_neg (by simp)]

theorem erase_set_of_ne (h : q ≠ p) : (t.set q n).erase p = (t.erase p).set q n := by
  unfold Tree.set Tree.erase
  rw [List.filter_cons_of_pos (by simpa using h)]

theorem length_erase_le : (t.erase p).entries.length ≤ t.entries.length :=
  List.length_filter_le _ _

end Changing

/-! What leads somewhere leads there in a tree with more in it. -/

def Node.Like : Node ν β → Node ν β → Prop
  | .file _, .file _ => True
  | n, n' => n = n'

/-- Nothing is missing, and only the contents of files differ. -/
structure Grows (t t' : Tree ν β) : Prop where
  node : ∀ p n, t.node p = some n → ∃ n', t'.node p = some n' ∧ n.Like n'

section Growing
variable {t t' t'' : Tree ν β} {limit left depth depth' : ℕ} {base p q : List ν}
  {xs : List (Step ν)} {s : ν} {n : Node ν β} {r : List ν × ℕ} {target : LinkText ν}

omit [DecidableEq ν] in
theorem Node.Like.refl : n.Like n := by
  cases n <;> first | exact trivial | rfl

omit [DecidableEq ν] in
theorem Node.Like.isLink {n' : Node ν β} (h : n.Like n') (hplain : n.isLink = false) :
    n'.isLink = false := by
  cases n with
  | file c => cases n' with
    | file c' => rfl
    | _ => cases h
  | symlink target => cases hplain
  | directory => cases h; rfl
  | special => cases h; rfl

theorem Grows.refl : Grows t t := ⟨fun _ n hn => ⟨n, hn, .refl⟩⟩

theorem Grows.directory (h : Grows t t') (hp : t.node p = some .directory) :
    t'.node p = some .directory := by
  obtain ⟨n', hn', hlike⟩ := h.node p _ hp
  cases hlike
  exact hn'

theorem Grows.symlink (h : Grows t t') (hp : t.node p = some (.symlink target)) :
    t'.node p = some (.symlink target) := by
  obtain ⟨n', hn', hlike⟩ := h.node p _ hp
  cases hlike
  exact hn'

theorem Grows.plain (h : Grows t t') (hp : t.node p = some n) (hplain : n.isLink = false) :
    ∃ n', t'.node p = some n' ∧ n'.isLink = false := by
  obtain ⟨n', hn', hlike⟩ := h.node p _ hp
  exact ⟨n', hn', hlike.isLink hplain⟩

theorem walk_grows_of (h : Grows t t')
    (hbehind : ∀ base xs r, behind t limit base xs = some r → behind t' limit base xs = some r)
    (hwalk : walk t limit base xs = some r) : walk t' limit base xs = some r := by
  induction xs generalizing base with
  | nil =>
      rw [walk_nil] at hwalk ⊢
      exact hwalk
  | cons x xs ih =>
      rw [walk_cons] at hwalk
      split at hwalk
      · rename_i hbase
        have hbase' : t'.isDirectory base = true :=
          isDirectory_iff.2 (h.directory (isDirectory_iff.1 hbase))
        cases x with
        | here =>
            rw [walk_cons, if_pos hbase']
            exact ih hwalk
        | up =>
            rw [walk_cons, if_pos hbase']
            exact ih hwalk
        | down s =>
            simp only at hwalk
            split at hwalk
            · cases hwalk
            · rename_i target hfound
              rw [walk_cons, if_pos hbase']
              simp only [h.symlink hfound]
              exact hbehind _ _ _ hwalk
            · rename_i n hplain hfound
              have hn : n.isLink = false := by
                cases n with
                | symlink target => exact (hplain target rfl).elim
                | _ => rfl
              obtain ⟨n', hn', hplain'⟩ := h.plain hfound hn
              rw [walk_plain hbase' hn' hplain']
              exact ih hwalk
      · cases hwalk

theorem walk_grows (h : Grows t t') (hwalk : walk t limit base xs = some r) :
    walk t' limit base xs = some r := by
  induction limit generalizing base xs r with
  | zero => exact walk_grows_of h (fun _ _ _ hnone => by cases hnone) hwalk
  | succ limit ih => exact walk_grows_of h (fun _ _ _ hr => ih hr) hwalk

theorem follow_grows (h : Grows t t') (hp : follow t limit p = some q) :
    follow t' limit p = some q := by
  obtain ⟨r, hwalk, hr⟩ := Option.map_eq_some_iff.1 hp
  exact Option.map_eq_some_iff.2 ⟨r, walk_grows h hwalk, hr⟩

theorem realPathWith_grows {onward onward' : List ν → List (Step ν) → Option (List ν)}
    (h : Grows t t')
    (honward : ∀ base xs q, onward base xs = some q → onward' base xs = some q)
    (hreal : realPathWith t onward base xs = some q) :
    realPathWith t' onward' base xs = some q := by
  induction xs generalizing base with
  | nil => exact hreal
  | cons x xs ih =>
      cases x with
      | here => exact ih hreal
      | up => exact ih hreal
      | down s =>
          rw [realPathWith] at hreal
          split at hreal
          · cases hreal
          · rename_i target hfound
            split at hreal
            · cases hreal
            · rename_i q' hhead
              rw [realPathWith]
              simp only [h.symlink hfound, honward _ _ _ hhead]
              exact ih hreal
          · rename_i n hplain hfound
            have hn : n.isLink = false := by
              cases n with
              | symlink target => exact (hplain target rfl).elim
              | _ => rfl
            obtain ⟨n', hn', hplain'⟩ := h.plain hfound hn
            rw [realPathWith_plain hn' hplain']
            exact ih hreal

theorem realPath_grows (h : Grows t t') (hdepth : depth ≤ depth')
    (hreal : realPath t depth base xs = some q) : realPath t' depth' base xs = some q := by
  induction depth generalizing depth' base xs q with
  | zero =>
      cases depth' with
      | zero => exact realPathWith_grows h (fun _ _ _ hnone => absurd hnone (by simp)) hreal
      | succ depth' => exact realPathWith_grows h (fun _ _ _ hnone => absurd hnone (by simp)) hreal
  | succ depth ih =>
      obtain ⟨depth', rfl⟩ := Nat.exists_eq_add_of_le' hdepth
      have hle : depth ≤ depth' + depth := by omega
      exact realPathWith_grows h (fun _ _ _ hr => ih hle hr) hreal

end Growing

section Nesting
variable {t : Tree ν β} {limit : ℕ} {done p q : List ν} {s : ν} {names rest : List ν}

/-- Directories are nested below one that has nothing of the first name. -/
structure Nestable (t : Tree ν β) (q : List ν) (names : List ν) : Prop where
  wellFormed : t.WellFormed
  directory : t.node q = some .directory
  free : ∀ s ∈ names.head?, t.node (q ++ [s]) = none

theorem Nestable.next (h : Nestable t q (s :: names)) :
    Nestable (t.set (q ++ [s]) .directory) (q ++ [s]) names := by
  have hfree : t.node (q ++ [s]) = none := h.free s rfl
  refine ⟨h.wellFormed.set h.directory fun _ => rfl, ?_, fun s' _ => ?_⟩
  · rw [node_set (by simp), if_pos rfl]
  · rw [node_set (by simp), if_neg (by simp)]
    exact h.wellFormed.below (by simp) (by simp [hfree])

theorem Nestable.take (h : Nestable t q names) (k : ℕ) : Nestable t q (names.take k) := by
  refine ⟨h.wellFormed, h.directory, fun s hs => h.free s ?_⟩
  cases names with
  | nil => simp at hs
  | cons s' names => cases k <;> simp_all

theorem set_grows (hp : p ≠ []) {n : Node ν β} (h : ∀ n', t.node p = some n' → n'.Like n) :
    Grows t (t.set p n) := by
  refine ⟨fun r n' hn' => ?_⟩
  rw [node_set hp]
  split
  · rename_i heq
    subst heq
    exact ⟨n, rfl, h n' hn'⟩
  · exact ⟨n', hn', .refl⟩

theorem Nestable.nest_wellFormed (h : Nestable t q names) : (nest t q names).WellFormed := by
  induction names generalizing t q with
  | nil => exact h.wellFormed
  | cons s names ih => exact ih h.next

theorem Nestable.nest_directory (h : Nestable t q names) :
    (nest t q names).node (q ++ names) = some .directory := by
  induction names generalizing t q with
  | nil => rw [List.append_nil]; exact h.directory
  | cons s names ih =>
      have hnext := ih h.next
      rwa [List.append_assoc, List.singleton_append] at hnext

/-- Only directories that were missing are new. -/
theorem Nestable.nest_node (h : Nestable t q names) (p : List ν) :
    (nest t q names).node p = t.node p ∨
      t.node p = none ∧ (nest t q names).node p = some .directory ∧ q <+: p := by
  induction names generalizing t q with
  | nil => exact .inl rfl
  | cons s names ih =>
      have hset : (t.set (q ++ [s]) .directory).node p =
          if p = q ++ [s] then some .directory else t.node p := node_set (by simp)
      have hfree : t.node (q ++ [s]) = none := h.free s rfl
      rcases ih h.next with hsame | ⟨hnone, hnew, hbelow⟩
      · by_cases hp : p = q ++ [s]
        · subst hp
          rw [if_pos rfl] at hset
          exact .inr ⟨hfree, hsame.trans hset, List.prefix_append ..⟩
        · rw [if_neg hp] at hset
          exact .inl (hsame.trans hset)
      · rw [hset] at hnone
        split at hnone
        · cases hnone
        · exact .inr ⟨hnone, hnew, (List.prefix_append ..).trans hbelow⟩

theorem Nestable.nest_free (h : Nestable t q names) (hnames : names ≠ []) (s : ν) :
    (nest t q names).node (q ++ names ++ [s]) = none := by
  induction names generalizing t q with
  | nil => exact absurd rfl hnames
  | cons s' names ih =>
      have hfree : t.node (q ++ [s']) = none := h.free s' rfl
      cases names with
      | nil =>
          change (t.set (q ++ [s']) .directory).node (q ++ [s'] ++ [s]) = none
          rw [node_set (by simp), if_neg (by simp)]
          exact h.wellFormed.below (by simp) (by simp [hfree])
      | cons s'' names =>
          have hnext := ih h.next (by simp)
          rwa [List.append_assoc q, List.singleton_append] at hnext

theorem Nestable.follow_nest (h : Nestable t q names) (hdone : follow t limit done = some q) :
    follow (nest t q names) limit (done ++ names) = some (q ++ names) := by
  induction names generalizing t q done with
  | nil =>
      rw [List.append_nil, List.append_nil]
      exact hdone
  | cons s names ih =>
      have hgrows : Grows t (t.set (q ++ [s]) .directory) :=
        set_grows (by simp) fun n' hn' => by rw [h.free s rfl] at hn'; cases hn'
      have hnext := ih h.next
        (follow_concat (follow_grows hgrows hdone) (hgrows.directory h.directory)
          h.next.directory rfl)
      rwa [List.append_assoc, List.append_assoc, List.singleton_append] at hnext

/-- What exists is passed by. -/
theorem makeDirectories_past (hp : follow t limit (done ++ names) = some q)
    (hq : t.node q = some .directory) : makeDirectories limit t done (names ++ rest) =
      makeDirectories limit t (done ++ names) rest := by
  induction names generalizing done with
  | nil => rw [List.nil_append, List.append_nil]
  | cons s names ih =>
      have hassoc : done ++ s :: names = done ++ [s] ++ names := by simp
      rw [hassoc] at hp ⊢
      rw [List.cons_append, makeDirectories, if_pos, ih hp]
      rw [leadsToDirectory_iff]
      cases names with
      | nil =>
          rw [List.append_nil] at hp
          rw [stat_eq hp, hq]
      | cons s' names =>
          obtain ⟨q', hq', hdirectory, -⟩ := follow_above hp
          rw [stat_eq hq', hdirectory]

theorem Nestable.makeDirectories (h : Nestable t q names) (hdone : follow t limit done = some q) :
    LinkedTree.makeDirectories limit t done names = (nest t q names, true) := by
  induction names generalizing t q done with
  | nil => rfl
  | cons s names ih =>
      have hfree : t.node (q ++ [s]) = none := h.free s rfl
      have hgrows : Grows t (t.set (q ++ [s]) .directory) :=
        set_grows (by simp) fun n' hn' => by rw [hfree] at hn'; cases hn'
      rw [LinkedTree.makeDirectories, if_neg, place_concat hdone h.directory]
      · simp only [if_pos hfree]
        exact ih h.next (follow_concat (follow_grows hgrows hdone)
          (hgrows.directory h.directory) h.next.directory rfl)
      · rw [leadsToDirectory_iff]
        intro hstat
        obtain ⟨q', hq', -⟩ := stat_iff.1 hstat
        obtain ⟨q'', hq'', -, hne⟩ := follow_above (r := []) hq'
        obtain rfl := Option.some.inj (hdone.symm.trans hq'')
        exact hne hfree

/-- A file is no directory, and none is made below it. -/
theorem makeDirectories_file (hp : follow t limit (done ++ names) = some q)
    (hq : t.node q ≠ some .directory) (hnames : names ≠ []) :
    LinkedTree.makeDirectories limit t done (names ++ rest) = (t, false) := by
  induction names generalizing done with
  | nil => exact absurd rfl hnames
  | cons s names ih =>
      have hassoc : done ++ s :: names = done ++ [s] ++ names := by simp
      rw [hassoc] at hp
      cases names with
      | nil =>
          rw [List.append_nil] at hp
          obtain ⟨q', hq', hdirectory, hne⟩ := follow_above (r := []) hp
          rw [List.cons_append, LinkedTree.makeDirectories, if_neg, place_concat hq' hdirectory]
          · simp only [if_neg hne]
          · rw [leadsToDirectory_iff, stat_eq hp]
            exact hq
      | cons s' names =>
          obtain ⟨q', hq', hdirectory, -⟩ := follow_above hp
          rw [List.cons_append, LinkedTree.makeDirectories, if_pos, ih hp (by simp)]
          rw [leadsToDirectory_iff, stat_eq hq', hdirectory]

end Nesting

end LinkedTree
