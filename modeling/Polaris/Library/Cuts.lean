import Mathlib.Data.List.Perm.Subperm
import Mathlib.Data.List.Flatten
import Polaris.Library.Replace

namespace Replace

section
variable {α : Type*} {new : List α}

/-- The matches of a pass over a text, with the text before it and after it. -/
inductive Cuts (new : List α) : List (List α) → List α → List α → Prop
  | nil : Cuts new [] [] []
  | keep {rs : List (List α)} {xs ys : List α} (x : α) (h : Cuts new rs xs ys) :
      Cuts new rs (x :: xs) (x :: ys)
  | cut {rs : List (List α)} {xs ys : List α} (r : α) (region : List α) (h : Cuts new rs xs ys) :
      Cuts new ((r :: region) :: rs) (r :: region ++ xs) (new ++ ys)

variable {rs : List (List α)} {xs ys : List α} {p : α → Prop}

theorem Cuts.mem (h : Cuts new rs xs ys) {y : α} (hy : y ∈ ys) : y ∈ xs ∨ y ∈ new := by
  induction h with
  | nil => exact .inl hy
  | keep x _ ih =>
      rcases List.mem_cons.1 hy with rfl | hy
      · exact .inl List.mem_cons_self
      · exact (ih hy).imp_left (List.mem_cons_of_mem x)
  | cut r region _ ih =>
      rcases List.mem_append.1 hy with hy | hy
      · exact .inr hy
      · exact (ih hy).imp_left (List.mem_append_right (r :: region))

theorem Cuts.mem_of_region (h : Cuts new rs xs ys) {region : List α} (hregion : region ∈ rs) {x : α}
    (hx : x ∈ region) : x ∈ xs := by
  induction h with
  | nil => exact absurd hregion List.not_mem_nil
  | keep y _ ih => exact List.mem_cons_of_mem y (ih hregion)
  | cut r rest _ ih =>
      rcases List.mem_cons.1 hregion with rfl | hregion
      · exact List.mem_append_left _ hx
      · exact List.mem_append_right (r :: rest) (ih hregion)

/-- What the matches hold and what is left is what there was. -/
theorem Cuts.perm [DecidablePred p] (h : Cuts new rs xs ys) (hnew : ∀ x ∈ new, ¬ p x) :
    ((rs.flatten ++ ys).filter (p ·)).Perm (xs.filter (p ·)) := by
  induction h with
  | nil => exact .refl _
  | keep x _ ih =>
      rw [List.filter_append] at ih ⊢
      rw [List.filter_cons, List.filter_cons]
      split
      · exact List.perm_middle.trans (ih.cons x)
      · exact ih
  | cut r region _ ih =>
      have hnone : new.filter (p ·) = [] := by
        rw [List.filter_eq_nil_iff]
        simpa using hnew
      simp only [List.flatten_cons, List.filter_append, hnone, List.nil_append, List.append_assoc]
        at ih ⊢
      exact ih.append_left _

/-- The elements that count are one block of the text. -/
def Block (p : α → Prop) (block xs : List α) : Prop :=
  ∃ pre post, xs = pre ++ (block ++ post) ∧ (∀ x ∈ pre, ¬ p x) ∧ ∀ x ∈ post, ¬ p x

theorem Block.mem {block : List α} (h : Block p block xs) {x : α} (hx : x ∈ xs) (hp : p x) :
    x ∈ block := by
  obtain ⟨pre, post, rfl, hpre, hpost⟩ := h
  rcases List.mem_append.1 hx with hx | hx
  · exact absurd hp (hpre x hx)
  · exact (List.mem_append.1 hx).resolve_right fun hx => hpost x hx hp

/-- A match that takes in the block leaves nothing of it. -/
theorem Cuts.takes {block region : List α} (h : Cuts new rs xs ys) (hnew : ∀ x ∈ new, ¬ p x)
    (hblock : Block p block xs) (hnodup : block.Nodup) (hp : ∀ x ∈ block, p x) (hregion : region ∈ rs)
    (hwhole : ∀ x ∈ block, x ∈ region) : ∀ y ∈ ys, ¬ p y := by
  classical
  obtain ⟨pre, post, rfl, hpre, hpost⟩ := hblock
  have hfilter : (pre ++ (block ++ post)).filter (p ·) = block := by
    have hbefore : pre.filter (p ·) = [] := List.filter_eq_nil_iff.2 (by simpa using hpre)
    have hafter : post.filter (p ·) = [] := List.filter_eq_nil_iff.2 (by simpa using hpost)
    have hself : block.filter (p ·) = block := List.filter_eq_self.2 (by simpa using hp)
    rw [List.filter_append, List.filter_append, hbefore, hafter, hself, List.nil_append,
      List.append_nil]
  have hperm := h.perm hnew
  rw [hfilter, List.filter_append] at hperm
  have hsub : block ⊆ rs.flatten.filter (p ·) := fun x hx => by
    rw [List.mem_filter]
    exact ⟨List.mem_flatten.2 ⟨region, hregion, hwhole x hx⟩, by simpa using hp x hx⟩
  have hle := (hnodup.subperm hsub).length_le
  have hlength := hperm.length_eq
  rw [List.length_append] at hlength
  have hnone : ys.filter (p ·) = [] := List.eq_nil_of_length_eq_zero (by omega)
  simpa [List.filter_eq_nil_iff] using hnone

theorem Cuts.split {pre rest : List α} (h : Cuts new rs (pre ++ rest) ys)
    (hrest : ∀ x, rest.head? = some x → ∀ region ∈ rs, x ∉ region) :
    ∃ rs' rs'' ys' ys'', rs = rs' ++ rs'' ∧ ys = ys' ++ ys'' ∧ Cuts new rs' pre ys' ∧
      Cuts new rs'' rest ys'' := by
  generalize hxs : pre ++ rest = xs at h
  induction h generalizing pre with
  | nil =>
      obtain ⟨rfl, rfl⟩ := List.append_eq_nil_iff.1 hxs
      exact ⟨[], [], [], [], rfl, rfl, .nil, .nil⟩
  | @keep rs xs ys x h ih =>
      cases pre with
      | nil =>
          obtain rfl := hxs
          exact ⟨[], rs, [], x :: ys, rfl, rfl, .nil, h.keep x⟩
      | cons y pre =>
          rw [List.cons_append] at hxs
          obtain ⟨rfl, htail⟩ := List.cons.inj hxs
          obtain ⟨rs', rs'', ys', ys'', rfl, rfl, hpre, hpost⟩ := ih hrest htail
          exact ⟨rs', rs'', y :: ys', ys'', rfl, rfl, hpre.keep y, hpost⟩
  | @cut rs xs ys r region h ih =>
      rcases List.append_eq_append_iff.1 hxs with ⟨as, hregion, hafter⟩ | ⟨as, hbefore, hafter⟩
      · cases as with
        | nil =>
            rw [List.append_nil] at hregion
            obtain rfl := hregion
            obtain rfl : rest = xs := hafter
            exact ⟨[r :: region], rs, new, ys, rfl, rfl, by simpa using Cuts.cut r region .nil, h⟩
        | cons a as =>
            refine absurd ?_ (hrest a (by rw [hafter]; rfl) (r :: region) List.mem_cons_self)
            rw [hregion]
            exact List.mem_append_right pre List.mem_cons_self
      · obtain ⟨rs', rs'', ys', ys'', rfl, rfl, hpre, hpost⟩ :=
          ih (fun x hx s hs => hrest x hx s (List.mem_cons_of_mem _ hs)) hafter.symm
        refine ⟨(r :: region) :: rs', rs'', new ++ ys', ys'', rfl, by rw [List.append_assoc], ?_, hpost⟩
        rw [hbefore]
        exact hpre.cut r region

theorem Cuts.keeps {block post : List α} (h : Cuts new rs (block ++ post) ys)
    (hblock : ∀ x ∈ block, ∀ region ∈ rs, x ∉ region) : ∃ ys', ys = block ++ ys' ∧ Cuts new rs post ys' := by
  induction block generalizing ys with
  | nil => exact ⟨ys, rfl, h⟩
  | cons b block ih =>
      rw [List.cons_append] at h
      generalize hxs : b :: (block ++ post) = xs at h
      cases h with
      | nil => exact nomatch hxs
      | keep x hkeep =>
          obtain ⟨rfl, rfl⟩ := List.cons.inj hxs
          obtain ⟨ys', rfl, hpost⟩ := ih hkeep fun x hx => hblock x (List.mem_cons_of_mem b hx)
          exact ⟨ys', rfl, hpost⟩
      | cut r region hcut =>
          obtain ⟨rfl, -⟩ := List.cons.inj hxs
          exact absurd List.mem_cons_self (hblock b List.mem_cons_self _ List.mem_cons_self)

/-- Matches that do not meet the block leave it as it is. -/
theorem Cuts.spares {block : List α} (h : Cuts new rs xs ys) (hnew : ∀ x ∈ new, ¬ p x)
    (hblock : Block p block xs) (hmeets : ∀ x ∈ block, ∀ region ∈ rs, x ∉ region) (hne : block ≠ []) :
    Block p block ys := by
  obtain ⟨pre, post, rfl, hpre, hpost⟩ := hblock
  obtain ⟨rs', rs'', ys', ys'', rfl, rfl, hbefore, hafter⟩ := h.split fun x hx => by
    cases block with
    | nil => exact absurd rfl hne
    | cons b block =>
        obtain rfl : b = x := Option.some.inj hx
        exact hmeets b List.mem_cons_self
  obtain ⟨zs, rfl, hrest⟩ := hafter.keeps fun x hx region hregion =>
    hmeets x hx region (List.mem_append_right rs' hregion)
  have hnone : ∀ {rs : List (List α)} {xs ys : List α}, Cuts new rs xs ys → (∀ x ∈ xs, ¬ p x) →
      ∀ y ∈ ys, ¬ p y := fun h hxs y hy => (h.mem hy).elim (hxs y) (hnew y)
  exact ⟨ys', zs, rfl, hnone hbefore hpre, hnone hrest hpost⟩

end

/-! The matches of a text that is looked for. -/

section
variable {α : Type*} {char : α → Char} {needle : List Char} {new : List α}

/-- The matches that `replaceAll` replaces. -/
def occurrences (char : α → Char) (needle : List Char) : ℕ → List α → List (List α)
  | _, [] => []
  | skip + 1, _ :: xs => occurrences char needle skip xs
  | 0, x :: xs =>
      if needle <+: (x :: xs).map char then
        (x :: xs).take needle.length :: occurrences char needle (needle.length - 1) xs
      else occurrences char needle 0 xs

theorem occurrences_drop (skip : ℕ) (xs : List α) :
    occurrences char needle skip xs = occurrences char needle 0 (xs.drop skip) := by
  induction xs generalizing skip with
  | nil => simp [occurrences]
  | cons x xs ih =>
      cases skip with
      | zero => rfl
      | succ skip => exact ih skip

theorem replaceAll_drop (skip : ℕ) (xs : List α) :
    replaceAll char needle new skip xs = replaceAll char needle new 0 (xs.drop skip) := by
  induction xs generalizing skip with
  | nil => simp [replaceAll]
  | cons x xs ih =>
      cases skip with
      | zero => rfl
      | succ skip => exact ih skip

theorem cuts_replaceAll (hneedle : needle ≠ []) (xs : List α) :
    Cuts new (occurrences char needle 0 xs) xs (replaceAll char needle new 0 xs) := by
  induction hn : xs.length using Nat.strong_induction_on generalizing xs with
  | _ n ih =>
      cases xs with
      | nil => exact .nil
      | cons x xs =>
          rw [occurrences, replaceAll]
          split
          · obtain ⟨m, hm⟩ : ∃ m, needle.length = m + 1 :=
              ⟨needle.length - 1, by have := List.length_pos_iff.2 hneedle; omega⟩
            rw [occurrences_drop, replaceAll_drop, hm, Nat.add_sub_cancel, List.take_succ_cons]
            have hrest := ih (xs.drop m).length (by simp only [List.length_drop, List.length_cons] at *; omega)
              (xs.drop m) rfl
            have hcut := hrest.cut x (xs.take m)
            rwa [List.cons_append, List.take_append_drop] at hcut
          · exact (ih xs.length (by simp only [List.length_cons] at hn; omega) xs rfl).keep x

/-- An occurrence of the needle meets a match. -/
theorem occurrences_meets (hneedle : needle ≠ []) {pre block post : List α}
    (hblock : block.map char = needle) :
    ∃ region ∈ occurrences char needle 0 (pre ++ (block ++ post)), ∃ x ∈ block, x ∈ region := by
  obtain ⟨b, bs, rfl⟩ : ∃ b bs, block = b :: bs := by
    cases block with
    | nil => exact absurd hblock.symm hneedle
    | cons b bs => exact ⟨b, bs, rfl⟩
  induction hn : pre.length using Nat.strong_induction_on generalizing pre with
  | _ n ih =>
      cases pre with
      | nil =>
          have hfound : needle <+: (b :: (bs ++ post)).map char := by
            rw [← List.cons_append, List.map_append, hblock]
            exact List.prefix_append _ _
          refine ⟨(b :: (bs ++ post)).take needle.length, ?_, b, List.mem_cons_self, ?_⟩
          · rw [List.nil_append, List.cons_append, occurrences, if_pos hfound]
            exact List.mem_cons_self
          · rw [← hblock]
            simp
      | cons x pre =>
          rw [List.cons_append, occurrences]
          split
          next hfound =>
            obtain ⟨m, hm⟩ : ∃ m, needle.length = m + 1 :=
              ⟨needle.length - 1, by have := List.length_pos_iff.2 hneedle; omega⟩
            rw [hm, Nat.add_sub_cancel]
            by_cases hlong : m ≤ pre.length
            · rw [occurrences_drop, List.drop_append_of_le_length hlong]
              obtain ⟨region, hregion, hmeets⟩ := @ih (pre.drop m).length (by
                simp only [List.length_drop, List.length_cons] at hn ⊢
                omega) (pre.drop m) rfl
              exact ⟨region, List.mem_cons_of_mem _ hregion, hmeets⟩
            · refine ⟨_, List.mem_cons_self, b, List.mem_cons_self, ?_⟩
              rw [List.take_succ_cons, List.take_append]
              obtain ⟨k, hk⟩ : ∃ k, m - pre.length = k + 1 := ⟨m - pre.length - 1, by omega⟩
              rw [hk]
              simp
          next =>
            exact @ih pre.length (by simp only [List.length_cons] at hn; omega) pre rfl

end

/-! Matches given by the gap before each and its size. -/

section
variable {α β : Type*}

def replaceSpans (new : List α) : List (ℕ × ℕ) → List α → List α
  | [], xs => xs
  | (gap, size) :: spans, xs => xs.take gap ++ (new ++ replaceSpans new spans (xs.drop (gap + size)))

def spanRegions : List (ℕ × ℕ) → List α → List (List α)
  | [], _ => []
  | (gap, size) :: spans, xs => (xs.drop gap).take size :: spanRegions spans (xs.drop (gap + size))

/-- The spans lie in a text of a length and none of them is empty. -/
def SpansIn : List (ℕ × ℕ) → ℕ → Prop
  | [], _ => True
  | (gap, size) :: spans, length =>
      0 < size ∧ gap + size ≤ length ∧ SpansIn spans (length - (gap + size))

theorem map_replaceSpans (f : α → β) (new : List α) (spans : List (ℕ × ℕ)) (xs : List α) :
    (replaceSpans new spans xs).map f = replaceSpans (new.map f) spans (xs.map f) := by
  induction spans generalizing xs with
  | nil => rfl
  | cons span spans ih =>
      obtain ⟨gap, size⟩ := span
      simp only [replaceSpans, List.map_append, List.map_take, ih, List.map_drop]

theorem Cuts.keepAll {new : List α} {rs : List (List α)} {xs ys : List α} (h : Cuts new rs xs ys)
    (pre : List α) : Cuts new rs (pre ++ xs) (pre ++ ys) := by
  induction pre with
  | nil => exact h
  | cons x pre ih => exact ih.keep x

theorem Cuts.refl {new : List α} (xs : List α) : Cuts new [] xs xs := by
  simpa using Cuts.nil.keepAll xs

theorem cuts_replaceSpans {new : List α} {spans : List (ℕ × ℕ)} {xs : List α}
    (h : SpansIn spans xs.length) : Cuts new (spanRegions spans xs) xs (replaceSpans new spans xs) := by
  induction spans generalizing xs with
  | nil => exact .refl xs
  | cons span spans ih =>
      obtain ⟨gap, size⟩ := span
      obtain ⟨hsize, hin, hspans⟩ := h
      have hdropped : SpansIn spans (xs.drop (gap + size)).length := by
        rwa [List.length_drop]
      have hrest := ih hdropped
      obtain ⟨r, region, hregion⟩ : ∃ r region, (xs.drop gap).take size = r :: region := by
        cases htake : (xs.drop gap).take size with
        | nil =>
            have hlength := congrArg List.length htake
            simp only [List.length_take, List.length_drop, List.length_nil] at hlength
            omega
        | cons r region => exact ⟨r, region, rfl⟩
      have hcut := (hrest.cut r region).keepAll (xs.take gap)
      rwa [← hregion, ← List.drop_drop, List.take_append_drop, List.take_append_drop,
        List.drop_drop] at hcut

end

/-! Several texts, replaced one after the other. -/

section
variable {needles : List (List Char)} {marker needle : List Char}

/-- A text in pieces, each a character or a text that is looked for. -/
def fill (f : List Char → List Char) : List (Char ⊕ List Char) → List Char
  | [] => []
  | .inl c :: pieces => c :: fill f pieces
  | .inr v :: pieces => f v ++ fill f pieces

/-- Each occurrence of a needle lies in one of the pieces that stand for one. -/
def Aligned (needles : List (List Char)) : List (Char ⊕ List Char) → Prop
  | [] => True
  | .inl c :: pieces => (∀ s ∈ needles, ¬ s <+: c :: fill id pieces) ∧ Aligned needles pieces
  | .inr v :: pieces => v ∈ needles ∧ (∀ n < v.length, ∀ s ∈ needles,
      s <+: v.drop n ++ fill id pieces → s.length ≤ (v.drop n).length) ∧ Aligned needles pieces

instance Aligned.decidable (needles : List (List Char)) :
    (pieces : List (Char ⊕ List Char)) → Decidable (Aligned needles pieces)
  | [] => .isTrue trivial
  | .inl _ :: pieces => by
      have := Aligned.decidable needles pieces
      unfold Aligned
      infer_instance
  | .inr _ :: pieces => by
      have := Aligned.decidable needles pieces
      unfold Aligned
      infer_instance

/-- No occurrence of the needle can share a character with the marker. -/
def Clear (marker needle : List Char) : Prop :=
  (∀ n < needle.length, ¬ needle.drop n <+: marker ∧ ¬ marker <+: needle.drop n) ∧
    ∀ n < marker.length, ¬ needle <+: marker.drop n ∧ ¬ marker.drop n <+: needle

instance (marker needle : List Char) : Decidable (Clear marker needle) := by
  unfold Clear
  infer_instance

theorem lt_length_of_append {us vs : List Char} (h : vs ≠ []) : us.length < (us ++ vs).length := by
  have hpos := List.length_pos_iff.2 h
  rw [List.length_append]
  omega

theorem Clear.ends (h : Clear marker needle) {us vs : List Char} (hneedle : needle = us ++ vs)
    (hvs : vs ≠ []) : ¬ vs <+: marker ∧ ¬ marker <+: vs := by
  have hlast := h.1 us.length (hneedle ▸ lt_length_of_append hvs)
  rwa [hneedle, List.drop_left] at hlast

theorem Clear.begins (h : Clear marker needle) {us vs : List Char} (hmarker : marker = us ++ vs)
    (hvs : vs ≠ []) : ¬ needle <+: vs ∧ ¬ vs <+: needle := by
  have hlast := h.2 us.length (hmarker ▸ lt_length_of_append hvs)
  rwa [hmarker, List.drop_left] at hlast

theorem prefix_of_filled {f : List Char → List Char} (hf : ∀ v, f v = v ∨ f v = marker)
    (hclear : Clear marker needle) {pieces : List (Char ⊕ List Char)} {vs : List Char} (hvs : vs ≠ [])
    (h : needle <+: vs ++ fill f pieces) : needle <+: vs ++ fill id pieces := by
  induction pieces generalizing vs with
  | nil => exact h
  | cons piece pieces ih =>
      cases piece with
      | inl c =>
          have hnext := @ih (vs ++ [c]) (by simp) (by simpa [fill] using h)
          simpa [fill] using hnext
      | inr v =>
          rcases hf v with hkept | hmarked
          · have hnext := @ih (vs ++ v) (by simp [hvs]) (by simpa [fill, hkept] using h)
            simpa [fill] using hnext
          · rw [fill, hmarked] at h
            rcases List.prefix_or_prefix_of_prefix h (List.prefix_append vs _) with hin | ⟨ss, hss⟩
            · exact hin.trans (List.prefix_append vs _)
            · rw [← hss, List.prefix_append_right_inj] at h
              cases hempty : ss with
              | nil =>
                  rw [hempty, List.append_nil] at hss
                  exact hss ▸ List.prefix_append vs _
              | cons c cs =>
                  obtain ⟨hbegins, hends⟩ := hclear.ends hss.symm (by simp [hempty])
                  exact ((List.prefix_or_prefix_of_prefix h (List.prefix_append marker _)).elim hbegins
                    hends).elim

theorem replaceAll_fill {f : List Char → List Char} (hf : ∀ v, f v = v ∨ f v = marker)
    (hclear : Clear marker needle) (hneedle : needle ≠ []) (hmem : needle ∈ needles)
    (hlong : ∀ v ∈ needles, f v = v → v.length ≤ needle.length)
    {pieces : List (Char ⊕ List Char)} (h : Aligned needles pieces) :
    replaceAll id needle marker 0 (fill f pieces) =
      fill (fun v => if v = needle then marker else f v) pieces := by
  induction pieces with
  | nil => rfl
  | cons piece pieces ih =>
      cases piece with
      | inl c =>
          have hnone : ¬ needle <+: (c :: fill f pieces).map id := fun hfound => by
            rw [List.map_id] at hfound
            exact h.1 needle hmem (@prefix_of_filled _ _ f hf hclear pieces [c] (by simp) hfound)
          rw [fill, replaceAll, if_neg hnone, ih h.2, fill]
      | inr v =>
          obtain ⟨hv, hwithin, hpieces⟩ := h
          rw [fill, fill, ← ih hpieces]
          rcases hf v with hkept | hmarked
          · by_cases hsame : v = needle
            · rw [if_pos hsame, hkept, replaceAll_found hneedle (by rw [List.map_id, hsame])]
            · rw [if_neg hsame, hkept]
              refine replaceAll_passes fun us vs hus hvs hfound => hsame ?_
              rw [List.map_id] at hfound
              have hwithin' := hwithin us.length (hus ▸ lt_length_of_append hvs) needle hmem
              rw [hus, List.drop_left] at hwithin'
              have hlength := hwithin' (prefix_of_filled hf hclear hvs hfound)
              have hbound := hlong v hv hkept
              rw [hus, List.length_append] at hbound
              obtain rfl : us = [] := List.eq_nil_of_length_eq_zero (by omega)
              have hin := List.prefix_of_prefix_length_le hfound (List.prefix_append vs _) hlength
              rw [hus, List.nil_append]
              exact (hin.eq_of_length_le (by simpa using hbound)).symm
          · have hfilled : (if v = needle then marker else f v) = marker := by
              split
              · rfl
              · exact hmarked
            rw [hfilled, hmarked]
            refine replaceAll_passes fun us vs hus hvs hfound => ?_
            rw [List.map_id] at hfound
            obtain ⟨hbegins, hends⟩ := hclear.begins hus hvs
            exact (List.prefix_or_prefix_of_prefix hfound (List.prefix_append vs _)).elim hbegins hends

theorem fill_marked {f : List Char → List Char} (hf : ∀ v ∈ needles, f v = marker)
    {pieces : List (Char ⊕ List Char)} (h : Aligned needles pieces) :
    fill f pieces = fill (fun _ => marker) pieces := by
  induction pieces with
  | nil => rfl
  | cons piece pieces ih =>
      cases piece with
      | inl c => rw [fill, fill, ih h.2]
      | inr v => rw [fill, fill, hf v h.1, ih h.2.2]

/-- Longer texts first, each of the pieces that stand for one is replaced as a whole. -/
theorem foldl_replaceAll_fill (hclear : ∀ s ∈ needles, Clear marker s) (hne : ∀ s ∈ needles, s ≠ [])
    (hsorted : needles.Pairwise fun a b => b.length ≤ a.length)
    {pieces : List (Char ⊕ List Char)} (h : Aligned needles pieces) :
    needles.foldl (fun text s => replaceAll id s marker 0 text) (fill id pieces) =
      fill (fun _ => marker) pieces := by
  suffices hfold : ∀ (left : List (List Char)) (f : List Char → List Char), left ⊆ needles →
      left.Pairwise (fun a b => b.length ≤ a.length) → (∀ v, f v = v ∨ f v = marker) →
      (∀ v ∈ needles, f v = v → v ∈ left) → left.foldl (fun text s => replaceAll id s marker 0 text)
        (fill f pieces) = fill (fun _ => marker) pieces from
    hfold needles id (List.Subset.refl _) hsorted (fun _ => .inl rfl) fun _ hv _ => hv
  intro left
  induction left with
  | nil =>
      intro f _ _ hf hleft
      refine fill_marked (fun v hv => (hf v).resolve_left fun hkept => ?_) h
      exact absurd (hleft v hv hkept) List.not_mem_nil
  | cons s left ih =>
      intro f hsub hpairs hf hleft
      obtain ⟨hlonger, hpairs⟩ := List.pairwise_cons.1 hpairs
      have hs : s ∈ needles := hsub List.mem_cons_self
      have hlong : ∀ v ∈ needles, f v = v → v.length ≤ s.length := fun v hv hkept => by
        rcases List.mem_cons.1 (hleft v hv hkept) with rfl | hmem
        · exact le_rfl
        · exact hlonger v hmem
      rw [List.foldl_cons, replaceAll_fill hf (hclear s hs) (hne s hs) hs hlong h]
      refine ih _ (fun v hv => hsub (List.mem_cons_of_mem s hv)) hpairs (fun v => ?_) fun v hv hkept => ?_
      · split
        · exact .inr rfl
        · exact hf v
      · split at hkept
        next hsame =>
          have hclash := (@Clear.ends _ _ (hclear s hs) [] s rfl (hne s hs)).1
          exact absurd (hkept.trans hsame ▸ List.prefix_rfl) hclash
        next hother => exact (List.mem_cons.1 (hleft v hv hkept)).resolve_left hother

end

end Replace
