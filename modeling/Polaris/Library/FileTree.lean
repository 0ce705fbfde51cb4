import Mathlib.Data.List.Nodup
import Mathlib.Tactic.Common

/-! Trees of files and directories without links, by the path of each entry under the root. -/

namespace FileTree

variable {ν β : Type}

inductive Node (β : Type) where
  | file (content : β)
  | directory
deriving DecidableEq

/-- The root is a directory that is not listed. -/
abbrev Tree (ν β : Type) := List (List ν × Node β)

structure WellFormed (t : Tree ν β) : Prop where
  once : (t.map Prod.fst).Nodup
  rooted : ∀ e ∈ t, e.1 ≠ []
  closed : ∀ e ∈ t, ∀ p, p <+: e.1 → p ≠ e.1 → p ≠ [] → (p, .directory) ∈ t

def IsDirectory (t : Tree ν β) (p : List ν) : Prop := p = [] ∨ (p, .directory) ∈ t

/-- A directory that leads to the path. -/
structure LeadsTo (p : List ν) (e : List ν × Node β) : Prop where
  directory : e.2 = .directory
  nonempty : e.1 ≠ []
  above : e.1 <+: p

section Operations
variable [DecidableEq ν]

/-- `mkdir` of all that is missing between a directory and a path under it; a directory that is
there is left alone. -/
def makeDirectories (t : Tree ν β) (done : List ν) : List ν → Option (Tree ν β)
  | [] => some t
  | s :: rest =>
      match t.lookup (done ++ [s]) with
      | none => makeDirectories (t ++ [(done ++ [s], .directory)]) (done ++ [s]) rest
      | some .directory => makeDirectories t (done ++ [s]) rest
      | some (.file _) => none

/-- Exclusive creation. -/
def create (t : Tree ν β) (p : List ν) (content : β) : Option (Tree ν β) :=
  match t.lookup p with
  | none => some (t ++ [(p, .file content)])
  | some _ => none

def place (t : Tree ν β) (e : List ν × Node β) : Option (Tree ν β) :=
  match e.2 with
  | .directory => makeDirectories t [] e.1
  | .file content => (makeDirectories t [] e.1.dropLast).bind fun t => create t e.1 content

def build (t : Tree ν β) : List (List ν × Node β) → Option (Tree ν β)
  | [] => some t
  | e :: es => (place t e).bind fun t => build t es

end Operations

section WellFormed
variable {t t' : Tree ν β} {p q done rest : List ν} {n n' : Node β} {e : List ν × Node β}

theorem wellFormed_nil : WellFormed ([] : Tree ν β) := ⟨List.nodup_nil, by simp, by simp⟩

theorem prefix_dropLast_iff (hp : p ≠ []) : q <+: p ↔ q = p ∨ q <+: p.dropLast := by
  conv_lhs => rw [← List.dropLast_append_getLast hp]
  rw [List.prefix_concat_iff, List.dropLast_append_getLast hp]

theorem not_prefix_dropLast (hp : p ≠ []) : ¬ p <+: p.dropLast := by
  intro hle
  have hlength := hle.length_le
  have hpos := List.length_pos_iff.2 hp
  rw [List.length_dropLast] at hlength
  omega

theorem leadsTo_iff (hp : p ≠ []) :
    LeadsTo p e ↔ e = (p, .directory) ∨ LeadsTo p.dropLast e := by
  constructor
  · rintro ⟨hdirectory, hnonempty, habove⟩
    rcases (prefix_dropLast_iff hp).1 habove with hsame | habove
    · exact .inl (Prod.ext hsame hdirectory)
    · exact .inr ⟨hdirectory, hnonempty, habove⟩
  · rintro (rfl | ⟨hdirectory, hnonempty, habove⟩)
    · exact ⟨rfl, hp, List.prefix_refl _⟩
    · exact ⟨hdirectory, hnonempty, (prefix_dropLast_iff hp).2 (.inr habove)⟩

namespace WellFormed

theorem unique (h : WellFormed t) (hn : (p, n) ∈ t) (hn' : (p, n') ∈ t) : n = n' := by
  have hsame := List.inj_on_of_nodup_map h.once hn hn' rfl
  exact congrArg Prod.snd hsame

theorem lookup_iff [DecidableEq ν] (h : WellFormed t) : t.lookup p = some n ↔ (p, n) ∈ t := by
  constructor
  · intro hlookup
    obtain ⟨before, after, rfl, -⟩ := List.lookup_eq_some_iff.1 hlookup
    simp
  · intro hmem
    cases hlookup : t.lookup p with
    | none =>
        have hnone := List.lookup_eq_none_iff.1 hlookup (p, n) hmem
        simp at hnone
    | some n' =>
        obtain ⟨before, after, rfl, -⟩ := List.lookup_eq_some_iff.1 hlookup
        exact congrArg some (h.unique (by simp) hmem)

theorem lookup_none_iff [DecidableEq ν] : t.lookup p = none ↔ p ∉ t.map Prod.fst := by
  rw [List.lookup_eq_none_iff]
  constructor
  · intro hnone hmem
    obtain ⟨e, he, rfl⟩ := List.mem_map.1 hmem
    simpa using hnone e he
  · rintro hnot e he
    rw [bne_iff_ne]
    rintro rfl
    exact hnot (List.mem_map_of_mem he)

/-- What leads to a directory is in the tree. -/
theorem leads (h : WellFormed t) (hp : IsDirectory t p) (he : LeadsTo p e) : e ∈ t := by
  obtain ⟨q, n⟩ := e
  obtain rfl : n = .directory := he.directory
  by_cases hsame : q = p
  · subst hsame
    exact hp.resolve_left he.nonempty
  · rcases hp with rfl | hp
    · exact absurd (List.prefix_nil.1 he.above) he.nonempty
    · exact h.closed (p, .directory) hp q he.above hsame he.nonempty

/-- So is what leads to an entry. -/
theorem leads_entry {x : List ν × Node β} (h : WellFormed t) (he : e ∈ t)
    (hx : LeadsTo e.1.dropLast x) : x ∈ t := by
  obtain ⟨q, n⟩ := x
  obtain rfl : n = .directory := hx.directory
  have hne := h.rooted e he
  refine h.closed e he q ((prefix_dropLast_iff hne).2 (.inr hx.above)) ?_ hx.nonempty
  rintro rfl
  exact not_prefix_dropLast hne hx.above

/-- A new entry of a directory that is there. -/
theorem concat (h : WellFormed t) (hp : IsDirectory t p) {s : ν}
    (hnew : p ++ [s] ∉ t.map Prod.fst) : WellFormed (t ++ [(p ++ [s], n)]) where
  once := by
    rw [List.map_append]
    exact List.nodup_append.2 ⟨h.once, List.nodup_singleton _, by
      rintro q hq q' hq' rfl
      obtain rfl := List.mem_singleton.1 hq'
      exact hnew hq⟩
  rooted e he := by
    rcases List.mem_append.1 he with he | he
    · exact h.rooted e he
    · obtain rfl := List.mem_singleton.1 he
      simp
  closed e he q hq hne hq0 := by
    rcases List.mem_append.1 he with he | he
    · exact List.mem_append_left _ (h.closed e he q hq hne hq0)
    · obtain rfl := List.mem_singleton.1 he
      refine List.mem_append_left _ (h.leads hp ⟨rfl, hq0, ?_⟩)
      exact (List.prefix_concat_iff.1 hq).resolve_left hne

end WellFormed

section Operations
variable [DecidableEq ν]

/-- What `mkdir` of missing parents makes of a tree. -/
structure Reaches (t t' : Tree ν β) (p : List ν) : Prop where
  wellFormed : WellFormed t'
  reached : IsDirectory t' p
  mem_iff : ∀ e, e ∈ t' ↔ e ∈ t ∨ LeadsTo p e

theorem makeDirectories_reaches (h : WellFormed t) (hdone : IsDirectory t done)
    (hmake : makeDirectories t done rest = some t') : Reaches t t' (done ++ rest) := by
  induction rest generalizing t done with
  | nil =>
      obtain rfl := Option.some.inj hmake
      rw [List.append_nil]
      exact ⟨h, hdone, fun e => ⟨.inl, fun he => he.elim id (h.leads hdone)⟩⟩
  | cons s rest ih =>
      have hassoc : done ++ s :: rest = done ++ [s] ++ rest := by simp
      rw [makeDirectories] at hmake
      rw [hassoc]
      cases hlookup : t.lookup (done ++ [s]) with
      | none =>
          simp only [hlookup] at hmake
          have hnew := WellFormed.lookup_none_iff.1 hlookup
          have hnext := ih (h.concat hdone hnew) (.inr (by simp)) hmake
          refine ⟨hnext.wellFormed, hnext.reached, fun e => ?_⟩
          rw [hnext.mem_iff, List.mem_append, List.mem_singleton]
          constructor
          · rintro ((he | rfl) | he)
            · exact .inl he
            · exact .inr ⟨rfl, by simp, List.prefix_append ..⟩
            · exact .inr he
          · rintro (he | he)
            · exact .inl (.inl he)
            · exact .inr he
      | some n =>
          cases n with
          | file content => simp [hlookup] at hmake
          | directory =>
              simp only [hlookup] at hmake
              exact ih h (.inr (h.lookup_iff.1 hlookup)) hmake

theorem makeDirectories_returns (h : WellFormed t) (hdone : IsDirectory t done)
    (hfree : ∀ e ∈ t, e.1 <+: done ++ rest → e.2 = .directory) :
    ∃ t', makeDirectories t done rest = some t' := by
  induction rest generalizing t done with
  | nil => exact ⟨t, rfl⟩
  | cons s rest ih =>
      have hassoc : done ++ s :: rest = done ++ [s] ++ rest := by simp
      rw [hassoc] at hfree
      rw [makeDirectories]
      cases hlookup : t.lookup (done ++ [s]) with
      | none =>
          have hnew := WellFormed.lookup_none_iff.1 hlookup
          refine ih (h.concat hdone hnew) (.inr (by simp)) fun e he hle => ?_
          rcases List.mem_append.1 he with he | he
          · exact hfree e he hle
          · obtain rfl := List.mem_singleton.1 he
            rfl
      | some n =>
          have hmem := h.lookup_iff.1 hlookup
          obtain rfl : n = .directory := hfree _ hmem (List.prefix_append ..)
          exact ih h (.inr hmem) hfree

/-- What placing an entry makes of a tree. -/
structure Places (t t' : Tree ν β) (e : List ν × Node β) : Prop where
  wellFormed : WellFormed t'
  mem_iff : ∀ x, x ∈ t' ↔ x ∈ t ∨ x = e ∨ LeadsTo e.1.dropLast x

theorem place_places (h : WellFormed t) (he : e.1 ≠ []) (hplace : place t e = some t') :
    Places t t' e := by
  obtain ⟨p, n⟩ := e
  cases n with
  | directory =>
      have hreaches := makeDirectories_reaches h (.inl rfl) hplace
      refine ⟨hreaches.wellFormed, fun x => ?_⟩
      rw [hreaches.mem_iff, List.nil_append, leadsTo_iff he]
  | file content =>
      obtain ⟨t₁, hmake, hcreate⟩ := Option.bind_eq_some_iff.1 hplace
      have hreaches := makeDirectories_reaches h (.inl rfl) hmake
      unfold create at hcreate
      cases hlookup : t₁.lookup p with
      | some n => simp [hlookup] at hcreate
      | none =>
          simp only [hlookup, Option.some.injEq] at hcreate
          subst hcreate
          have hlast : p.dropLast ++ [p.getLast he] = p := List.dropLast_append_getLast he
          have hnew : p.dropLast ++ [p.getLast he] ∉ t₁.map Prod.fst := by
            rw [hlast]
            exact WellFormed.lookup_none_iff.1 hlookup
          have hwell : WellFormed (t₁ ++ [(p.dropLast ++ [p.getLast he], Node.file content)]) :=
            hreaches.wellFormed.concat hreaches.reached hnew
          rw [hlast] at hwell
          refine ⟨hwell, fun x => ?_⟩
          rw [List.mem_append, hreaches.mem_iff, List.mem_singleton, List.nil_append]
          tauto

theorem place_returns (h : WellFormed t) (he : e.1 ≠ [])
    (hfree : ∀ x ∈ t, x.1 <+: e.1.dropLast → x.2 = .directory)
    (hsame : ∀ x ∈ t, x.1 = e.1 → x.2 = .directory ∧ e.2 = .directory) :
    ∃ t', place t e = some t' := by
  obtain ⟨p, n⟩ := e
  cases n with
  | directory =>
      refine makeDirectories_returns h (.inl rfl) fun x hx hle => ?_
      rcases (prefix_dropLast_iff he).1 hle with heq | hle
      · exact (hsame x hx heq).1
      · exact hfree x hx hle
  | file content =>
      obtain ⟨t₁, hmake⟩ : ∃ t₁, makeDirectories t [] p.dropLast = some t₁ :=
        makeDirectories_returns h (.inl rfl) hfree
      have hreaches := makeDirectories_reaches h (.inl rfl) hmake
      have hnone : t₁.lookup p = none := by
        rw [WellFormed.lookup_none_iff]
        intro hmem
        obtain ⟨x, hx, hxp⟩ := List.mem_map.1 hmem
        rcases (hreaches.mem_iff x).1 hx with hx | hx
        · exact nomatch (hsame x hx hxp).2
        · have habove : p <+: p.dropLast := hxp ▸ hx.above
          exact not_prefix_dropLast he habove
      exact ⟨t₁ ++ [(p, .file content)], by simp [place, hmake, create, hnone]⟩

/-! Many entries, in any order. -/

theorem build_builds {es : List (List ν × Node β)} (h : WellFormed t) (hes : ∀ e ∈ es, e.1 ≠ [])
    (hbuild : build t es = some t') : WellFormed t' ∧
      ∀ x, x ∈ t' ↔ x ∈ t ∨ ∃ e ∈ es, x = e ∨ LeadsTo e.1.dropLast x := by
  induction es generalizing t with
  | nil =>
      obtain rfl := Option.some.inj hbuild
      exact ⟨h, by simp⟩
  | cons e es ih =>
      obtain ⟨t₁, hplace, hrest⟩ := Option.bind_eq_some_iff.1 hbuild
      have hplaces := place_places h (hes e (List.mem_cons_self ..)) hplace
      obtain ⟨hwell, hmem⟩ := ih hplaces.wellFormed (fun x hx => hes x (List.mem_cons_of_mem _ hx))
        hrest
      refine ⟨hwell, fun x => ?_⟩
      simp only [hmem, hplaces.mem_iff, List.mem_cons, exists_eq_or_imp, or_assoc]

theorem build_returns {whole : Tree ν β} {es : List (List ν × Node β)} (hwhole : WellFormed whole)
    (h : WellFormed t) (ht : t ⊆ whole) (hes : es ⊆ whole) (honce : (es.map Prod.fst).Nodup)
    (hfiles : ∀ e ∈ es, e.2 ≠ .directory → e.1 ∉ t.map Prod.fst) : ∃ t', build t es = some t' := by
  induction es generalizing t with
  | nil => exact ⟨t, rfl⟩
  | cons e es ih =>
      obtain ⟨he, hes⟩ := List.cons_subset.1 hes
      obtain ⟨hnot, honce⟩ := List.nodup_cons.1 honce
      have hne := hwhole.rooted e he
      have hleads : ∀ x, LeadsTo e.1.dropLast x → x ∈ whole := fun x => hwhole.leads_entry he
      obtain ⟨t₁, hplace⟩ : ∃ t₁, place t e = some t₁ := by
        refine place_returns h hne (fun x hx hle => ?_) fun x hx hsame => ?_
        · by_cases hx0 : x.1 = []
          · exact absurd hx0 (h.rooted x hx)
          · exact hwhole.unique (ht hx) (hleads (x.1, .directory) ⟨rfl, hx0, hle⟩)
        · have heq : x.2 = e.2 := hwhole.unique (p := e.1) (hsame ▸ ht hx) he
          have hdirectory : e.2 = .directory := by
            by_contra hfile
            exact hfiles e (List.mem_cons_self ..) hfile (List.mem_map.2 ⟨x, hx, hsame⟩)
          exact ⟨heq.trans hdirectory, hdirectory⟩
      have hplaces := place_places h hne hplace
      have hsub : t₁ ⊆ whole := by
        intro x hx
        rcases (hplaces.mem_iff x).1 hx with hx | rfl | hx
        · exact ht hx
        · exact he
        · exact hleads x hx
      obtain ⟨t', ht'⟩ := ih hplaces.wellFormed hsub hes honce fun x hx hfile hmem => by
        obtain ⟨y, hy, hyx⟩ := List.mem_map.1 hmem
        rcases (hplaces.mem_iff y).1 hy with hy | rfl | hy
        · exact hfiles x (List.mem_cons_of_mem _ hx) hfile (List.mem_map.2 ⟨y, hy, hyx⟩)
        · exact hnot (hyx ▸ List.mem_map_of_mem hx)
        · have hsame : y.2 = x.2 := hwhole.unique (p := x.1) (hyx ▸ hleads y hy) (hes hx)
          exact hfile (hsame ▸ hy.directory)
      exact ⟨t', by rw [build, hplace, Option.bind_some, ht']⟩

/-- The entries of a tree build it again. -/
theorem build_whole {whole : Tree ν β} {es : List (List ν × Node β)} (hwhole : WellFormed whole)
    (hperm : es.Perm whole) :
    ∃ t', build [] es = some t' ∧ WellFormed t' ∧ ∀ x, x ∈ t' ↔ x ∈ whole := by
  have honce : (es.map Prod.fst).Nodup := (hperm.map Prod.fst).nodup_iff.2 hwhole.once
  obtain ⟨t', ht'⟩ := build_returns hwhole wellFormed_nil (List.nil_subset _) hperm.subset honce
    (by simp)
  have hrooted : ∀ e ∈ es, e.1 ≠ [] := fun e he => hwhole.rooted e (hperm.subset he)
  obtain ⟨hwell, hmem⟩ := build_builds wellFormed_nil hrooted ht'
  refine ⟨t', ht', hwell, fun x => ?_⟩
  rw [hmem]
  constructor
  · rintro (hx | ⟨e, he, rfl | hx⟩)
    · exact absurd hx List.not_mem_nil
    · exact hperm.subset he
    · exact hwhole.leads_entry (hperm.subset he) hx
  · intro hx
    exact .inr ⟨x, hperm.mem_iff.2 hx, .inl rfl⟩

end Operations

end WellFormed

end FileTree
