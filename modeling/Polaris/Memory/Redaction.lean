import Polaris.Library.Cuts
import Polaris.Memory.Revisions

namespace Polaris
open Replace

/-- `re.sub` replaces the matches that `re.finditer` gives, each by the gap before it and its size. -/
structure RegexEngine.Finds (regex : RegexEngine) (found : Pattern → String → List (ℕ × ℕ)) : Prop where
  sub_eq : ∀ p new text,
    (regex.sub p new text).toList = replaceSpans new.toList (found p text) text.toList
  inText : ∀ p ∈ secretPatterns, ∀ text, SpansIn (found p text) text.toList.length

/-! The text with the places that its characters have in the content. -/

/-- A character of the content with its place, or of a marker. -/
abbrev Placed := Char × Option ℕ

def placed (content : String) : List Placed := content.toList.zipIdx.map fun x => (x.1, some x.2)

def unplaced (text : String) : List Placed := text.toList.map fun c => (c, none)

def placedText (xs : List Placed) : String := String.ofList (xs.map Prod.fst)

def places (xs : List Placed) : List (Option ℕ) := xs.map Prod.snd

inductive RedactionPass where
  | pattern (p : Pattern)
  | secret (s : String)

namespace RedactionPass
variable (found : Pattern → String → List (ℕ × ℕ))

/-- The matches of a pass in the text that the passes before it leave. -/
def regions : RedactionPass → List Placed → List (List Placed)
  | .pattern p, xs => spanRegions (found p (placedText xs)) xs
  | .secret s, xs => occurrences Prod.fst s.toList 0 xs

def result : RedactionPass → List Placed → List Placed
  | .pattern p, xs => replaceSpans (unplaced "[REDACTED SECRET]") (found p (placedText xs)) xs
  | .secret s, xs =>
      replaceAll Prod.fst s.toList (unplaced "[REDACTED CONFIGURED SECRET]") 0 xs

def run (passes : List RedactionPass) (xs : List Placed) : List Placed :=
  passes.foldl (fun xs pass => pass.result found xs) xs

end RedactionPass

def Occurs (secret content : String) (i : ℕ) : Prop := secret.toList <+: content.toList.drop i

instance (secret content : String) (i : ℕ) : Decidable (Occurs secret content i) := by
  unfold Occurs
  infer_instance

namespace ThreatScanner
variable (scanner : ThreatScanner) (found : Pattern → String → List (ℕ × ℕ))

/-- The patterns, then the configured secrets from the longest on. -/
def passes : List RedactionPass :=
  secretPatterns.map .pattern ++ scanner.orderedSecrets.map .secret

/-- What `redact` leaves of the content has no place of the occurrence. -/
def LeavesNothing (content secret : String) (i : ℕ) : Prop :=
  ∀ k < secret.length, some (i + k) ∉ places (RedactionPass.run found scanner.passes (placed content))

/-- No character of an occurrence of a configured secret is left. -/
def Redacts (content : String) : Prop :=
  ∀ secret ∈ scanner.orderedSecrets, ∀ i < content.length, Occurs secret content i →
    scanner.LeavesNothing found content secret i

end ThreatScanner

/-- A match that meets the occurrence holds all of it. -/
def TakesWhole (i : ℕ) (secret : String) (region : List Placed) : Prop :=
  (∃ k < secret.length, some (i + k) ∈ places region) →
    ∀ k < secret.length, some (i + k) ∈ places region

/-- No match of the passes holds a part of the occurrence only. -/
def NeverCut (found : Pattern → String → List (ℕ × ℕ)) (i : ℕ) (secret : String) :
    List RedactionPass → List Placed → Prop
  | [], _ => True
  | pass :: passes, xs => (∀ region ∈ pass.regions found xs, TakesWhole i secret region) ∧
      NeverCut found i secret passes (pass.result found xs)

instance (i : ℕ) (secret : String) (region : List Placed) : Decidable (TakesWhole i secret region) := by
  unfold TakesWhole
  infer_instance

instance NeverCut.decidable (found : Pattern → String → List (ℕ × ℕ)) (i : ℕ) (secret : String) :
    (passes : List RedactionPass) → (xs : List Placed) → Decidable (NeverCut found i secret passes xs)
  | [], _ => .isTrue trivial
  | pass :: passes, xs => by
      have := NeverCut.decidable found i secret passes (pass.result found xs)
      unfold NeverCut
      infer_instance

/-! The passes are those of `redact`. -/

section
variable {scanner : ThreatScanner} {found : Pattern → String → List (ℕ × ℕ)} {content secret : String}
  {xs : List Placed}

theorem toList_placedText : (placedText xs).toList = xs.map Prod.fst := String.toList_ofList

theorem map_unplaced (text : String) : (unplaced text).map Prod.fst = text.toList := by
  rw [unplaced, List.map_map]
  exact List.map_id _

theorem placedText_placed (content : String) : placedText (placed content) = content := by
  apply String.toList_injective
  rw [toList_placedText, placed, List.map_map]
  exact List.zipIdx_map_fst 0 content.toList

theorem placedText_pattern (hregex : scanner.regex.Finds found) (p : Pattern) :
    placedText (RedactionPass.result found (.pattern p) xs) =
      scanner.regex.sub p "[REDACTED SECRET]" (placedText xs) := by
  apply String.toList_injective
  rw [toList_placedText, RedactionPass.result, map_replaceSpans, map_unplaced, hregex.sub_eq,
    toList_placedText]

theorem placedText_secret (hsecret : secret ≠ "") :
    placedText (RedactionPass.result found (.secret secret) xs) =
      (placedText xs).replace secret "[REDACTED CONFIGURED SECRET]" := by
  apply String.toList_injective
  rw [toList_placedText, RedactionPass.result, map_replaceAll, map_unplaced, toList_replace hsecret,
    toList_placedText]

theorem placedText_run (hregex : scanner.regex.Finds found) :
    placedText (RedactionPass.run found scanner.passes xs) = scanner.redact (placedText xs) := by
  have hpatterns : ∀ (patterns : List Pattern) (xs : List Placed),
      placedText (RedactionPass.run found (patterns.map .pattern) xs) =
        patterns.foldl (fun text p => scanner.regex.sub p "[REDACTED SECRET]" text) (placedText xs) := by
    intro patterns
    induction patterns with
    | nil => exact fun _ => rfl
    | cons p patterns ih =>
        intro xs
        rw [List.foldl_cons, ← placedText_pattern hregex, ← ih]
        rfl
  have hsecrets : ∀ (secrets : List String) (xs : List Placed), (∀ s ∈ secrets, s ≠ "") →
      placedText (RedactionPass.run found (secrets.map .secret) xs) =
        secrets.foldl (fun text s => text.replace s "[REDACTED CONFIGURED SECRET]") (placedText xs) := by
    intro secrets
    induction secrets with
    | nil => exact fun _ _ => rfl
    | cons s secrets ih =>
        intro xs h
        obtain ⟨hs, hrest⟩ := List.forall_mem_cons.1 h
        rw [List.foldl_cons, ← @placedText_secret found s xs hs, ← ih _ hrest]
        rfl
  have hne : ∀ s ∈ scanner.orderedSecrets, s ≠ "" := fun s hs =>
    (ThreatScanner.mem_orderedSecrets.1 hs).2
  rw [ThreatScanner.redact, ← hpatterns, ← hsecrets _ _ hne, ThreatScanner.passes, RedactionPass.run,
    List.foldl_append]
  rfl

end

/-! An occurrence as a block of placed characters. -/

section
variable {scanner : ThreatScanner} {found : Pattern → String → List (ℕ × ℕ)} {content secret : String}
  {i : ℕ} {xs : List Placed}

/-- A character at a place of the occurrence. -/
def At (i : ℕ) (secret : String) (x : Placed) : Prop := ∃ k < secret.length, x.2 = some (i + k)

def placedAt (i : ℕ) (secret : String) : List Placed :=
  (secret.toList.zipIdx i).map fun x => (x.1, some x.2)

theorem mem_zipIdx_place {cs : List Char} {n : ℕ} {x : Placed}
    (h : x ∈ (cs.zipIdx n).map fun x => (x.1, some x.2)) :
    ∃ m, x.2 = some m ∧ n ≤ m ∧ m < n + cs.length := by
  obtain ⟨y, hy, rfl⟩ := List.mem_map.1 h
  exact ⟨y.2, rfl, List.le_snd_of_mem_zipIdx hy, List.snd_lt_add_of_mem_zipIdx hy⟩

theorem at_of_mem {x : Placed} (h : x ∈ placedAt i secret) : At i secret x := by
  obtain ⟨m, hm, hle, hlt⟩ := mem_zipIdx_place h
  rw [String.length_toList] at hlt
  exact ⟨m - i, by omega, by rw [hm]; congr 1; omega⟩

theorem places_placedAt_nodup : (places (placedAt i secret)).Nodup := by
  have hsnd : places (placedAt i secret) = (List.range' i secret.toList.length).map some := by
    rw [places, placedAt, List.map_map, ← List.zipIdx_map_snd i secret.toList, List.map_map]
    rfl
  rw [hsnd]
  exact (List.nodup_range').map (Option.some_injective _)

theorem placedAt_nodup : (placedAt i secret).Nodup := places_placedAt_nodup.of_map

theorem block_placed (hi : i < content.length) (h : Occurs secret content i) :
    Block (At i secret) (placedAt i secret) (placed content) := by
  obtain ⟨rest, hrest⟩ := h
  have hlength : (content.toList.take i).length = i := by
    rw [List.length_take, String.length_toList]
    omega
  have hsplit : content.toList.zipIdx = (content.toList.take i).zipIdx ++
      (secret.toList.zipIdx i ++ rest.zipIdx (i + secret.length)) := by
    conv_lhs => rw [← List.take_append_drop i content.toList, ← hrest]
    rw [List.zipIdx_append, List.zipIdx_append, hlength, String.length_toList, Nat.zero_add]
  refine ⟨(content.toList.take i).zipIdx.map fun x => (x.1, some x.2),
    (rest.zipIdx (i + secret.length)).map fun x => (x.1, some x.2), ?_, fun x hx => ?_, fun x hx => ?_⟩
  · rw [placed, hsplit, List.map_append, List.map_append]
    rfl
  · obtain ⟨m, hm, -, hlt⟩ := mem_zipIdx_place hx
    rintro ⟨k, -, hk⟩
    obtain rfl := Option.some.inj (hm.symm.trans hk)
    omega
  · obtain ⟨m, hm, hle, -⟩ := mem_zipIdx_place hx
    rintro ⟨k, hk, hplace⟩
    obtain rfl := Option.some.inj (hm.symm.trans hplace)
    omega

theorem map_placedAt : (placedAt i secret).map Prod.fst = secret.toList := by
  rw [placedAt, List.map_map]
  exact List.zipIdx_map_fst i secret.toList

theorem not_at_unplaced {text : String} : ∀ x ∈ unplaced text, ¬ At i secret x := by
  intro x hx
  obtain ⟨c, -, rfl⟩ := List.mem_map.1 hx
  rintro ⟨k, -, hk⟩
  exact nomatch hk

/-- What a pass makes of a text, with the marker that it puts in. -/
theorem cuts_pass (hregex : scanner.regex.Finds found) {pass : RedactionPass}
    (hpass : pass ∈ scanner.passes) (xs : List Placed) :
    ∃ text, Cuts (unplaced text) (pass.regions found xs) xs (pass.result found xs) := by
  rcases List.mem_append.1 hpass with hpass | hpass
  · obtain ⟨p, hp, rfl⟩ := List.mem_map.1 hpass
    refine ⟨_, cuts_replaceSpans ?_⟩
    have hin := hregex.inText p hp (placedText xs)
    rwa [toList_placedText, List.length_map] at hin
  · obtain ⟨s, hs, rfl⟩ := List.mem_map.1 hpass
    have hne : s.toList ≠ [] := fun hnil =>
      (ThreatScanner.mem_orderedSecrets.1 hs).2 (String.toList_eq_nil_iff.1 hnil)
    exact ⟨_, cuts_replaceAll hne xs⟩

/-- The occurrence is whole in the text, or nothing of it is there. -/
def Whole (i : ℕ) (secret : String) (xs : List Placed) : Prop :=
  Block (At i secret) (placedAt i secret) xs ∨ ∀ x ∈ xs, ¬ At i secret x

theorem gone_result {text : String} {rs : List (List Placed)} {ys : List Placed}
    (hcuts : Cuts (unplaced text) rs xs ys) (hgone : ∀ x ∈ xs, ¬ At i secret x) :
    ∀ y ∈ ys, ¬ At i secret y := fun y hy => (hcuts.mem hy).elim (hgone y) (not_at_unplaced y)

theorem gone_of_meets {text : String} {rs : List (List Placed)} {ys : List Placed}
    (hcuts : Cuts (unplaced text) rs xs ys) (hblock : Block (At i secret) (placedAt i secret) xs)
    (hwhole : ∀ region ∈ rs, TakesWhole i secret region)
    {region : List Placed} (hregion : region ∈ rs) {x : Placed} (hx : x ∈ placedAt i secret)
    (hmeets : x ∈ region) : ∀ y ∈ ys, ¬ At i secret y := by
  have hplace : ∀ z ∈ placedAt i secret, ∃ k < secret.length, z.2 = some (i + k) := fun _ => at_of_mem
  obtain ⟨k, hk, hxk⟩ := hplace x hx
  have hall := hwhole region hregion ⟨k, hk, List.mem_map.2 ⟨x, hmeets, hxk⟩⟩
  refine hcuts.takes not_at_unplaced hblock placedAt_nodup (fun _ => at_of_mem) hregion fun y hy => ?_
  obtain ⟨l, hl, hyl⟩ := hplace y hy
  obtain ⟨z, hz, hzl⟩ := List.mem_map.1 (hall l hl)
  have hzblock := hblock.mem (hcuts.mem_of_region hregion hz) ⟨l, hl, hzl⟩
  rwa [List.inj_on_of_nodup_map places_placedAt_nodup hy hzblock (hyl.trans hzl.symm)]

theorem whole_result {text : String} {rs : List (List Placed)} {ys : List Placed}
    (hcuts : Cuts (unplaced text) rs xs ys) (hsecret : secret ≠ "")
    (hwhole : ∀ region ∈ rs, TakesWhole i secret region) (h : Whole i secret xs) :
    Whole i secret ys := by
  rcases h with hblock | hgone
  · by_cases hmeets : ∃ x ∈ placedAt i secret, ∃ region ∈ rs, x ∈ region
    · obtain ⟨x, hx, region, hregion, hmem⟩ := hmeets
      exact .inr (gone_of_meets hcuts hblock hwhole hregion hx hmem)
    · push Not at hmeets
      refine .inl (hcuts.spares not_at_unplaced hblock hmeets fun hnil => hsecret ?_)
      have hchars := @map_placedAt secret i
      rw [hnil] at hchars
      exact String.toList_eq_nil_iff.1 hchars.symm
  · exact .inr (gone_result hcuts hgone)

/-- The pass of a secret finds each of its occurrences that is still there. -/
theorem gone_secret {text : String} {ys : List Placed} (hsecret : secret ≠ "")
    (hcuts : Cuts (unplaced text) (occurrences Prod.fst secret.toList 0 xs) xs ys)
    (hwhole : ∀ region ∈ occurrences Prod.fst secret.toList 0 xs, TakesWhole i secret region)
    (h : Whole i secret xs) :
    ∀ y ∈ ys, ¬ At i secret y := by
  rcases h with hblock | hgone
  · obtain ⟨pre, post, rfl, -, -⟩ := id hblock
    obtain ⟨region, hregion, x, hx, hmem⟩ := @occurrences_meets _ Prod.fst _
      (fun hnil => hsecret (String.toList_eq_nil_iff.1 hnil)) pre _ post (@map_placedAt secret i)
    exact gone_of_meets hcuts hblock hwhole hregion hx hmem
  · exact gone_result hcuts hgone

theorem gone_run (hregex : scanner.regex.Finds found) {passes : List RedactionPass}
    (hpasses : passes ⊆ scanner.passes) (hgone : ∀ x ∈ xs, ¬ At i secret x) :
    ∀ y ∈ RedactionPass.run found passes xs, ¬ At i secret y := by
  induction passes generalizing xs with
  | nil => exact hgone
  | cons pass passes ih =>
      obtain ⟨text, hcuts⟩ := cuts_pass hregex (hpasses List.mem_cons_self) xs
      exact ih (fun _ hmem => hpasses (List.mem_cons_of_mem pass hmem)) (gone_result hcuts hgone)

theorem run_gone (hregex : scanner.regex.Finds found) (hsecret : secret ≠ "")
    {passes : List RedactionPass} (hpasses : passes ⊆ scanner.passes) (hown : .secret secret ∈ passes)
    (huncut : NeverCut found i secret passes xs) (h : Whole i secret xs) :
    ∀ y ∈ RedactionPass.run found passes xs, ¬ At i secret y := by
  induction passes generalizing xs with
  | nil => exact absurd hown List.not_mem_nil
  | cons pass passes ih =>
      obtain ⟨hwhole, hrest⟩ := huncut
      obtain ⟨text, hpass⟩ := cuts_pass hregex (hpasses List.mem_cons_self) xs
      have hsub : passes ⊆ scanner.passes := fun _ hmem => hpasses (List.mem_cons_of_mem pass hmem)
      rcases List.mem_cons.1 hown with rfl | hown
      · have hgone := gone_run hregex hsub (gone_secret hsecret hpass hwhole h)
        exact hgone
      · exact ih hsub hown hrest (whole_result hpass hsecret hwhole h)

/-- Nothing is left of an occurrence that no match cuts. -/
theorem leavesNothing_of_neverCut (hregex : scanner.regex.Finds found)
    (hsecret : secret ∈ scanner.orderedSecrets) (hi : i < content.length)
    (hoccurs : Occurs secret content i)
    (h : NeverCut found i secret scanner.passes (placed content)) :
    scanner.LeavesNothing found content secret i := by
  intro k hk hmem
  obtain ⟨x, hx, hplace⟩ := List.mem_map.1 hmem
  refine run_gone hregex (ThreatScanner.mem_orderedSecrets.1 hsecret).2 (List.Subset.refl _) ?_ h
    (.inl (block_placed hi hoccurs)) x hx ⟨k, hk, hplace⟩
  exact List.mem_append_right _ (List.mem_map_of_mem hsecret)

end

end Polaris
