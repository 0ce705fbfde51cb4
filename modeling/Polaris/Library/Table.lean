import Mathlib.Data.List.Nodup
import Mathlib.Data.List.Sort
import Mathlib.Algebra.BigOperators.Group.List.Basic
import Mathlib.Tactic.Abel
import Mathlib.Tactic.Common

namespace Table
variable {α κ : Type} [DecidableEq κ]

def find (key : α → κ) (k : κ) (rows : List α) : Option α := rows.find? fun r => key r = k

def updateWhere (p : α → Bool) (f : α → α) (rows : List α) : List α :=
  rows.map fun r => if p r then f r else r

def put (key : α → κ) (row : α) (rows : List α) : List α :=
  rows.map fun r => if key r = key row then row else r

def Keyed (key : α → κ) (rows : List α) : Prop := (rows.map key).Nodup

variable {key : α → κ} {rows : List α} {row r : α} {k : κ}

theorem find_mem (h : find key k rows = some r) : r ∈ rows := List.mem_of_find?_eq_some h

theorem find_key (h : find key k rows = some r) : key r = k := by
  simpa using List.find?_some h

theorem find_none (h : find key k rows = none) : ∀ r ∈ rows, key r ≠ k := by
  simpa [find] using h

theorem find_append_of_none {more : List α} (h : find key k rows = none) :
    find key k (rows ++ more) = find key k more := by
  simp only [find] at h ⊢
  rw [List.find?_append, h, Option.none_or]

theorem find_append_of_some {more : List α} (h : find key k rows = some r) :
    find key k (rows ++ more) = some r := by
  simp only [find] at h ⊢
  rw [List.find?_append, h, Option.some_or]

theorem find_concat : find key k (rows ++ [row]) =
    (find key k rows).or (if key row = k then some row else none) := by
  rw [find, List.find?_append]
  by_cases h : key row = k <;> simp [find, h]

omit [DecidableEq κ] in
theorem Keyed.eq_of_key {a b : α} (h : Keyed key rows) (ha : a ∈ rows) (hb : b ∈ rows)
    (hk : key a = key b) : a = b := List.inj_on_of_nodup_map h ha hb hk

theorem Keyed.find (h : Keyed key rows) (hr : r ∈ rows) : find key (key r) rows = some r := by
  cases hf : Table.find key (key r) rows with
  | none => exact absurd rfl (find_none hf r hr)
  | some s => rw [h.eq_of_key (find_mem hf) hr (find_key hf)]

theorem Keyed.append (h : Keyed key rows) (hn : Table.find key (key row) rows = none) :
    Keyed key (rows ++ [row]) := by
  simp only [Keyed, List.map_append, List.map_cons, List.map_nil]
  refine List.nodup_append.2 ⟨h, by simp, ?_⟩
  intro a ha b hb
  obtain ⟨r, hr, rfl⟩ := List.mem_map.1 ha
  obtain rfl : b = key row := by simpa using hb
  exact find_none hn r hr

theorem map_key_put : (put key row rows).map key = rows.map key := by
  simp only [put, List.map_map]
  refine List.map_congr_left fun r _ => ?_
  by_cases h : key r = key row <;> simp [h]

theorem Keyed.put (h : Keyed key rows) : Keyed key (Table.put key row rows) := by
  simpa [Keyed, map_key_put] using h

theorem mem_put : r ∈ put key row rows ↔
    r = row ∧ (∃ s ∈ rows, key s = key row) ∨ r ∈ rows ∧ key r ≠ key row := by
  simp only [put, List.mem_map]
  constructor
  · rintro ⟨s, hs, rfl⟩
    by_cases h : key s = key row
    · exact .inl ⟨by simp [h], s, hs, h⟩
    · exact .inr (by simp [h, hs])
  · rintro (⟨rfl, s, hs, h⟩ | ⟨hr, h⟩)
    · exact ⟨s, hs, by simp [h]⟩
    · exact ⟨r, hr, by simp [h]⟩

theorem mem_put_of_ne (h : r ∈ rows) (hne : key r ≠ key row) : r ∈ put key row rows :=
  mem_put.2 (.inr ⟨h, hne⟩)

/-- What is put stands in the place of the row with its key. -/
theorem put_perm {old : α} (h : Keyed key rows) (hold : old ∈ rows) (hk : key old = key row) :
    (put key row rows).Perm (rows.filter (fun r => key r ≠ key row) ++ [row]) := by
  have hrest : (rows.filter fun r => key r ≠ key row).Nodup := (List.Nodup.of_map key h).filter _
  have hnodup : (rows.filter (fun r => key r ≠ key row) ++ [row]).Nodup := by
    refine List.nodup_append.2 ⟨hrest, by simp, ?_⟩
    rintro r hr b hb rfl
    obtain rfl := List.mem_singleton.1 hb
    simp at hr
  refine (List.perm_ext_iff_of_nodup (List.Nodup.of_map key h.put) hnodup).2 fun r => ?_
  rw [mem_put, List.mem_append, List.mem_filter, List.mem_singleton, decide_eq_true_eq]
  constructor
  · rintro (⟨rfl, -⟩ | hother)
    · exact .inr rfl
    · exact .inl hother
  · rintro (hother | rfl)
    · exact .inr hother
    · exact .inl ⟨rfl, old, hold, hk⟩

theorem find_put (hs : (find key (key row) rows).isSome) :
    find key k (put key row rows) = if k = key row then some row else find key k rows := by
  induction rows with
  | nil => simp [find] at hs
  | cons a rows ih =>
      by_cases ha : key a = key row
      · by_cases hk : k = key row
        · simp [find, put, ha, hk]
        · have hk' : ¬ key row = k := fun h => hk h.symm
          have hput : find key k (put key row rows) = find key k rows := by
            clear ih hs
            induction rows with
            | nil => rfl
            | cons b rows ih =>
                by_cases hb : key b = key row
                · simpa [find, put, hb, hk'] using ih
                · by_cases hbk : key b = k
                  · simp [find, put, hbk, hk]
                  · simpa [find, put, hb, hbk] using ih
          simpa [find, put, ha, hk, hk'] using hput
      · have hs' : (find key (key row) rows).isSome := by simpa [find, ha] using hs
        by_cases hak : key a = k
        · subst hak
          simp [find, put, ha]
        · simpa [find, put, ha, hak] using ih hs'

theorem find_updateWhere {p : α → Bool} {f : α → α} (hf : ∀ r, key (f r) = key r) :
    find key k (updateWhere p f rows) = (find key k rows).map fun r => if p r then f r else r := by
  have hkey : ((fun r => decide (key r = k)) ∘ fun r => if p r then f r else r) =
      fun r => decide (key r = k) := by
    funext r
    by_cases hp : p r = true <;> simp [hp, hf]
  rw [find, updateWhere, List.find?_map, hkey, find]

omit [DecidableEq κ] in
theorem Keyed.updateWhere {p : α → Bool} {f : α → α} (h : Keyed key rows)
    (hf : ∀ r, key (f r) = key r) : Keyed key (Table.updateWhere p f rows) := by
  have hkeys : (Table.updateWhere p f rows).map key = rows.map key := by
    rw [Table.updateWhere, List.map_map]
    refine List.map_congr_left fun r _ => ?_
    by_cases hp : p r = true <;> simp [hp, hf]
  rwa [Keyed, hkeys]

theorem updateWhere_eq_put {p : α → Bool} {f : α → α} (h : Keyed key rows) (hr : row ∈ rows)
    (hp : p row = true) (hkey : ∀ r, p r = true → key r = key row) (hf : key (f row) = key row) :
    updateWhere p f rows = put key (f row) rows := by
  refine List.map_congr_left fun s hs => ?_
  by_cases hk : key s = key row
  · obtain rfl := h.eq_of_key hs hr hk
    simp [hp, hf]
  · have hps : p s = false := by
      by_contra hps
      exact hk (hkey s (by simpa using hps))
    simp [hps, hf, hk]

theorem put_eq_updateWhere :
    put key row rows = updateWhere (fun r => key r = key row) (fun _ => row) rows := by
  simp [put, updateWhere]

omit [DecidableEq κ] in
/-- What is seen of a table changes with the rows that are seen. -/
theorem view_updateWhere {β : Type} {p q : α → Bool} {f : α → α} (view : α → β) (g : β → β)
    (hq : ∀ r ∈ rows, p r = true → q (f r) = q r)
    (hview : ∀ r ∈ rows, q r = true → view (if p r then f r else r) = g (view r)) :
    ((updateWhere p f rows).filter q).map view = ((rows.filter q).map view).map g := by
  have hsame : ∀ r ∈ rows, q (if p r then f r else r) = q r := by
    intro r hr
    split
    · exact hq r hr ‹_›
    · rfl
  rw [updateWhere, List.filter_map, List.map_map, List.map_map,
    List.filter_congr (q := q) (by simpa using hsame)]
  refine List.map_congr_left fun r hr => ?_
  obtain ⟨hr, hqr⟩ := List.mem_filter.1 hr
  exact hview r hr hqr

section
variable {M : Type} [AddCommGroup M]

def total (f : α → M) (rows : List α) : M := (rows.map f).sum

theorem total_concat (f : α → M) : total f (rows ++ [row]) = total f rows + f row := by
  simp [total]

theorem total_zero {f : α → M} (h : ∀ r ∈ rows, f r = 0) : total f rows = 0 := by
  induction rows with
  | nil => rfl
  | cons r rows ih =>
      have hr := h r (by simp)
      have hrows := ih fun s hs => h s (List.mem_cons_of_mem _ hs)
      simp only [total, List.map_cons, List.sum_cons] at hrows ⊢
      rw [hr, hrows, add_zero]

theorem total_put {row' : α} (f : α → M) (h : Keyed key rows) (hr : row ∈ rows)
    (hk : key row' = key row) : total f (put key row' rows) = total f rows - f row + f row' := by
  induction rows with
  | nil => simp at hr
  | cons a rows ih =>
      obtain ⟨hnot, hrows⟩ := List.nodup_cons.1 h
      rcases List.mem_cons.1 hr with rfl | hr
      · have hsame : put key row' rows = rows := by
          have hne : ∀ s ∈ rows, ¬ key s = key row' := by
            intro s hs heq
            exact hnot (List.mem_map.2 ⟨s, hs, heq.trans hk⟩)
          rw [put, List.map_congr_left (g := id) fun s hs => by simp [hne s hs], List.map_id]
        have hput : put key row' (row :: rows) = row' :: put key row' rows := by
          simp [put, hk]
        rw [hput, hsame]
        simp only [total, List.map_cons, List.sum_cons]
        abel
      · have hne : ¬ key a = key row' := fun heq =>
          hnot (List.mem_map.2 ⟨row, hr, (heq.trans hk).symm⟩)
        have ih := ih hrows hr
        simp only [total, put, List.map_cons, List.sum_cons, if_neg hne] at ih ⊢
        rw [ih]
        abel

end

end Table
