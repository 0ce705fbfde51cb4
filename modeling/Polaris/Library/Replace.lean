import Mathlib.Data.List.Infix
import Mathlib.Data.String.Basic

namespace Replace

section
variable {α : Type*} (char : α → Char) (needle : List Char) (new : List α)

/-- What is found from the left is replaced, each time after the end of the one before. -/
def replaceAll : ℕ → List α → List α
  | _, [] => []
  | skip + 1, _ :: xs => replaceAll skip xs
  | 0, x :: xs =>
      if needle <+: (x :: xs).map char then new ++ replaceAll (needle.length - 1) xs
      else x :: replaceAll 0 xs

variable {char needle new}

theorem replaceAll_skip {xs ys : List α} :
    replaceAll char needle new xs.length (xs ++ ys) = replaceAll char needle new 0 ys := by
  induction xs with
  | nil => rfl
  | cons x xs ih => exact ih

theorem replaceAll_found {xs ys : List α} (hneedle : needle ≠ []) (hxs : xs.map char = needle) :
    replaceAll char needle new 0 (xs ++ ys) = new ++ replaceAll char needle new 0 ys := by
  cases xs with
  | nil => exact absurd hxs.symm hneedle
  | cons x xs =>
      have hfound : needle <+: (x :: (xs ++ ys)).map char := by
        rw [← List.cons_append, List.map_append, hxs]
        exact List.prefix_append _ _
      have hlength : needle.length - 1 = xs.length := by
        rw [← hxs]
        simp
      rw [List.cons_append, replaceAll, if_pos hfound, hlength, replaceAll_skip]

/-- No occurrence begins within the first part. -/
def NoneBegins (char : α → Char) (needle : List Char) (xs ys : List α) : Prop :=
  ∀ us vs, xs = us ++ vs → vs ≠ [] → ¬ needle <+: (vs ++ ys).map char

theorem replaceAll_passes {xs ys : List α} (h : NoneBegins char needle xs ys) :
    replaceAll char needle new 0 (xs ++ ys) = xs ++ replaceAll char needle new 0 ys := by
  induction xs with
  | nil => rfl
  | cons x xs ih =>
      have hhead : ¬ needle <+: (x :: (xs ++ ys)).map char := h [] (x :: xs) rfl (by simp)
      rw [List.cons_append, replaceAll, if_neg hhead,
        ih fun us vs hxs hvs => h (x :: us) vs (by rw [hxs]; rfl) hvs]
      rfl

theorem mem_replaceAll {skip : ℕ} {xs : List α} {x : α}
    (h : x ∈ replaceAll char needle new skip xs) : x ∈ xs ∨ x ∈ new := by
  induction xs generalizing skip with
  | nil => simp [replaceAll] at h
  | cons y xs ih =>
      cases skip with
      | succ skip => exact (ih h).imp_left (List.mem_cons_of_mem y)
      | zero =>
          rw [replaceAll] at h
          split at h
          · rcases List.mem_append.1 h with h | h
            · exact .inr h
            · exact (ih h).imp_left (List.mem_cons_of_mem y)
          · rcases List.mem_cons.1 h with rfl | h
            · exact .inl (List.mem_cons_self)
            · exact (ih h).imp_left (List.mem_cons_of_mem y)

/-- Only the characters decide what is found. -/
theorem map_replaceAll {skip : ℕ} {xs : List α} :
    (replaceAll char needle new skip xs).map char =
      replaceAll id needle (new.map char) skip (xs.map char) := by
  induction xs generalizing skip with
  | nil => simp [replaceAll]
  | cons x xs ih =>
      cases skip with
      | succ skip => exact ih
      | zero =>
          rw [replaceAll, List.map_cons, replaceAll, List.map_id]
          split
          · rw [List.map_append, ih]
          · rw [List.map_cons, ih]

end

/-! `String.replace` with a text to look for. -/

section
open String String.Slice.Pattern String.Slice.Pattern.Model

variable {pat new : String}

def step (new : String) {s : Slice} (sofar : String) : SearchStep s → String
  | .matched .. => sofar ++ new
  | .rejected start stop => sofar ++ s.slice! start stop

theorem foldl_step (hpat : pat ≠ "") {s : Slice} {pos : s.Pos} {steps : List (SearchStep s)}
    (h : IsValidSearchFrom pat pos steps) {done rest : String} (hsplits : pos.Splits done rest)
    (sofar : String) : (steps.foldl (step new) sofar).toList =
      sofar.toList ++ replaceAll id pat.toList new.toList 0 rest.toList := by
  have hneedle : pat.toList ≠ [] := fun hnil => hpat (String.toList_eq_nil_iff.1 hnil)
  induction h generalizing done rest sofar with
  | endPos =>
      obtain rfl : rest = "" := hsplits.eq_endPos_iff.1 rfl
      simp [replaceAll]
  | matched hmatch _ ih =>
      obtain ⟨before, after, hstart, hstop⟩ := ForwardStringSearcher.isLongestMatchAt_iff_splits.1 hmatch
      obtain rfl := hsplits.eq_right hstart
      rw [List.foldl_cons, ih hstop, step, String.toList_append, String.toList_append,
        replaceAll_found hneedle (List.map_id _), List.append_assoc]
  | @mismatched steps start stop hlt hnone _ ih =>
      obtain ⟨passed, _, hdone, hrest⟩ :=
        (hsplits.lt_iff_exists_eq_append stop.splits).1 hlt
      have hslice : (s.slice! start stop).copy = passed := by
        obtain ⟨hle, hcopy⟩ := String.Slice.copy_slice_eq_iff_splits.2
          ⟨done, _, hrest ▸ hsplits, hdone ▸ stop.splits⟩
        rw [← String.Slice.slice_eq_slice! (h := hle), hcopy]
      have hpasses : NoneBegins id pat.toList passed.toList (s.sliceFrom stop).copy.toList := by
        intro us vs hpassed hvs hfound
        rw [List.map_id] at hfound
        obtain ⟨tail, htail⟩ := hfound
        have hvs' : String.ofList vs ++ (s.sliceFrom stop).copy = pat ++ String.ofList tail := by
          apply String.toList_injective
          simpa using htail.symm
        have hpassed' : passed = String.ofList us ++ String.ofList vs := by
          apply String.toList_injective
          simpa using hpassed
        have hcopy : s.copy = (done ++ String.ofList us) ++ (pat ++ String.ofList tail) := by
          rw [hsplits.eq_append, hrest, ← hvs', hpassed', String.append_assoc, String.append_assoc]
        have hpos := String.Slice.Pos.splits_ofEqAppend hcopy
        refine hnone _ ?_ ?_ (ForwardStringSearcher.matchesAt_iff_splits.2 ⟨_, _, hpos⟩)
        · refine (hsplits.le_iff_exists_eq_append hpos).2 ⟨String.ofList us, rfl, ?_⟩
          rw [hrest, ← hvs', hpassed', String.append_assoc]
        · refine (hpos.lt_iff_exists_eq_append stop.splits).2 ⟨String.ofList vs, ?_, ?_, hvs'.symm⟩
          · simpa using hvs
          · rw [hdone, hpassed', String.append_assoc]
      rw [List.foldl_cons, ih stop.splits, step, hrest, String.toList_append, replaceAll_passes hpasses]
      simp [hslice]

theorem toList_replace (hpat : pat ≠ "") (s : String) :
    (s.replace pat new).toList = replaceAll id pat.toList new.toList 0 s.toList := by
  have hlawful := ForwardStringSearcher.lawfulToForwardSearcherModel hpat
  have hvalid := hlawful.isValidSearchFrom_toList s.toSlice
  have hfold := @foldl_step pat new hpat _ _ _ hvalid _ _ s.toSlice.splits_startPos ""
  have hsteps : s.replace pat new = (ToForwardSearcher.toSearcher pat s.toSlice).fold (step new) "" := by
    rw [String.replace, Slice.replace]
    congr 1
    funext sofar found
    cases found with
    | matched start stop => exact congrArg (sofar ++ ·) String.copy_toSlice
    | rejected start stop => rfl
  rw [hsteps, ← Std.Iter.foldl_toList, hfold]
  simp

end

end Replace
