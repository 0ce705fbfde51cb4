import Mathlib.Data.List.Nodup
import Mathlib.Data.List.Sort
import Mathlib.Tactic.Common

/-! Rows that are read in pages, each from the key of the last row on that has been read. -/

namespace Keyset
variable {α κ : Type} [LinearOrder κ] (key : α → κ)

def ordered (rows : List α) : List α := rows.insertionSort fun a b => key a ≤ key b

def page (limit : ℕ) (after : Option κ) (rows : List α) : List α :=
  (ordered key (rows.filter fun row => after.all (· < key row))).take limit

variable {key} {rows : List α}

theorem ordered_perm : (ordered key rows).Perm rows := List.perm_insertionSort _ _

theorem mem_ordered {row : α} : row ∈ ordered key rows ↔ row ∈ rows := List.mem_insertionSort _

theorem ordered_pairwise (h : (rows.map key).Nodup) :
    (ordered key rows).Pairwise fun a b => key a < key b := by
  have : Std.Total fun a b : α => key a ≤ key b := ⟨fun a b => le_total (key a) (key b)⟩
  have : IsTrans α fun a b => key a ≤ key b := ⟨fun _ _ _ hab hbc => le_trans hab hbc⟩
  have hle : (ordered key rows).Pairwise fun a b => key a ≤ key b := List.pairwise_insertionSort _ _
  have hne : (ordered key rows).Pairwise fun a b => key a ≠ key b :=
    List.pairwise_map.1 ((ordered_perm.map key).nodup_iff.2 h)
  exact hle.imp₂ (fun a b hab hne => lt_of_le_of_ne hab hne) hne

theorem ordered_filter (p : α → Bool) (h : (rows.map key).Nodup) :
    ordered key (rows.filter p) = (ordered key rows).filter p := by
  have hkept : ((rows.filter p).map key).Nodup := h.sublist (List.filter_sublist.map key)
  have hperm : (ordered key (rows.filter p)).Perm ((ordered key rows).filter p) :=
    ordered_perm.trans (ordered_perm.filter p).symm
  exact hperm.eq_of_pairwise (fun a b _ _ hab hba => absurd hab (lt_asymm hba))
    (ordered_pairwise hkept) ((ordered_pairwise h).filter p)

/-- A page goes on where the rows that have been read end. -/
theorem page_after {before rest : List α} {limit : ℕ} (h : (rows.map key).Nodup)
    (hsplit : ordered key rows = before ++ rest) :
    page key limit (before.getLast?.map key) rows = rest.take limit := by
  have hsorted := ordered_pairwise h
  rw [hsplit, List.pairwise_append] at hsorted
  obtain ⟨hbefore, -, hacross⟩ := hsorted
  rw [page, ordered_filter _ h, hsplit, List.filter_append]
  have hrest : rest.filter (fun row => (before.getLast?.map key).all (· < key row)) = rest := by
    refine List.filter_eq_self.2 fun row hrow => ?_
    rw [Option.all_map]
    cases hlast : before.getLast? with
    | none => rfl
    | some last => simpa using hacross last (List.mem_of_getLast? hlast) row hrow
  have hread : before.filter (fun row => (before.getLast?.map key).all (· < key row)) = [] := by
    refine List.filter_eq_nil_iff.2 fun row hrow => ?_
    obtain ⟨init, last, rfl⟩ : ∃ init last, before = init ++ [last] :=
      List.eq_nil_or_concat' before |>.resolve_left (List.ne_nil_of_mem hrow)
    rw [List.getLast?_concat]
    rw [List.pairwise_append] at hbefore
    rcases List.mem_append.1 hrow with hinit | hlast
    · simpa using (hbefore.2.2 row hinit last (List.mem_singleton_self _)).le
    · simp [List.mem_singleton.1 hlast]
  rw [hrest, hread, List.nil_append]

end Keyset
