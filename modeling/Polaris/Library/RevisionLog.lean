import Polaris.Library.Table

/-! A table whose rows are counted up with every change, next to the log of all their values. -/

namespace RevisionLog
variable {α κ τ : Type} [DecidableEq κ]

def valuesOf (key : α → κ) (k : κ) (log : List α) : List α := log.filter fun v => key v = k

structure Logged (key : α → κ) (revision : α → ℕ) (tag : α → τ) (rows log : List α) : Prop where
  keyed : Table.Keyed key rows
  numbered : ∀ row ∈ rows, (valuesOf key (key row) log).map revision = List.range' 1 (revision row)
  current : ∀ row ∈ rows, (valuesOf key (key row) log).getLast? = some row
  tagged : ∀ v ∈ log, ∀ row ∈ rows, key v = key row → tag v = tag row
  owned : ∀ v ∈ log, ∃ row ∈ rows, key row = key v

variable {key : α → κ} {revision : α → ℕ} {tag : α → τ} {rows log : List α} {row old v : α} {k : κ}

theorem valuesOf_append_of_ne (h : key v ≠ k) : valuesOf key k (log ++ [v]) = valuesOf key k log := by
  simp [valuesOf, h]

theorem valuesOf_append_self : valuesOf key (key v) (log ++ [v]) = valuesOf key (key v) log ++ [v] := by
  simp [valuesOf]

namespace Logged

theorem empty : Logged key revision tag [] [] where
  keyed := List.nodup_nil
  numbered := by simp
  current := by simp
  tagged := by simp
  owned := by simp

theorem current_mem (h : Logged key revision tag rows log) (hrow : row ∈ rows) : row ∈ log :=
  (List.mem_filter.1 (List.mem_of_getLast? (h.current row hrow))).1

theorem revision_le (h : Logged key revision tag rows log) (hrow : row ∈ rows) (hv : v ∈ log)
    (hkey : key v = key row) : 1 ≤ revision v ∧ revision v ≤ revision row := by
  have hmem : revision v ∈ (valuesOf key (key row) log).map revision :=
    List.mem_map_of_mem (List.mem_filter.2 ⟨hv, by simpa using hkey⟩)
  rw [h.numbered row hrow, List.mem_range'_1] at hmem
  omega

/-- A key that no row has begins its values with the first. -/
theorem insert (h : Logged key revision tag rows log)
    (hfresh : Table.find key (key row) rows = none) (hfirst : revision row = 1) :
    Logged key revision tag (rows ++ [row]) (log ++ [row]) := by
  have hother : ∀ r ∈ rows, key r ≠ key row := Table.find_none hfresh
  have hnew : ∀ v ∈ log, key v ≠ key row := fun v hv hkey => by
    obtain ⟨r, hr, hkey'⟩ := h.owned v hv
    exact hother r hr (hkey'.trans hkey)
  have hnone : valuesOf key (key row) log = [] :=
    List.filter_eq_nil_iff.2 fun v hv => by simpa using hnew v hv
  refine ⟨h.keyed.append hfresh, ?_, ?_, ?_, ?_⟩
  · intro r hr
    rcases List.mem_append.1 hr with hr | hr
    · rw [valuesOf_append_of_ne (hother r hr).symm]
      exact h.numbered r hr
    · obtain rfl := List.mem_singleton.1 hr
      rw [valuesOf_append_self, hnone, hfirst]
      simp [hfirst]
  · intro r hr
    rcases List.mem_append.1 hr with hr | hr
    · rw [valuesOf_append_of_ne (hother r hr).symm]
      exact h.current r hr
    · obtain rfl := List.mem_singleton.1 hr
      rw [valuesOf_append_self, hnone]
      rfl
  · intro v hv r hr hkey
    rcases List.mem_append.1 hv with hlog | hlast
    · rcases List.mem_append.1 hr with hrows | hlast
      · exact h.tagged v hlog r hrows hkey
      · exact absurd (hkey.trans (congrArg key (List.mem_singleton.1 hlast))) (hnew v hlog)
    · obtain rfl := List.mem_singleton.1 hlast
      rcases List.mem_append.1 hr with hrows | hlast
      · exact absurd hkey.symm (hother r hrows)
      · rw [List.mem_singleton.1 hlast]
  · intro v hv
    rcases List.mem_append.1 hv with hv | hv
    · obtain ⟨r, hr, hkey⟩ := h.owned v hv
      exact ⟨r, List.mem_append_left _ hr, hkey⟩
    · exact ⟨row, by simp, by rw [List.mem_singleton.1 hv]⟩

/-- A new value of a row follows the one that it replaces. -/
theorem revise (h : Logged key revision tag rows log) (hold : old ∈ rows)
    (hkey : key row = key old) (hnext : revision row = revision old + 1) (htag : tag row = tag old) :
    Logged key revision tag (Table.put key row rows) (log ++ [row]) := by
  have hvalues : valuesOf key (key old) (log ++ [row]) = valuesOf key (key old) log ++ [row] := by
    rw [← hkey, valuesOf_append_self]
  refine ⟨h.keyed.put, ?_, ?_, ?_, ?_⟩
  · intro r hr
    rcases Table.mem_put.1 hr with ⟨rfl, -⟩ | ⟨hr, hne⟩
    · rw [hkey, hvalues, List.map_append, h.numbered old hold, List.map_singleton, hnext,
        List.range'_1_concat, Nat.add_comm]
    · rw [valuesOf_append_of_ne (Ne.symm hne)]
      exact h.numbered r hr
  · intro r hr
    rcases Table.mem_put.1 hr with ⟨rfl, -⟩ | ⟨hr, hne⟩
    · rw [hkey, hvalues, List.getLast?_concat]
    · rw [valuesOf_append_of_ne (Ne.symm hne)]
      exact h.current r hr
  · intro v hv r hr hsame
    have hall : ∀ v ∈ log ++ [row], key v = key old → tag v = tag old := fun v hv hv' => by
      rcases List.mem_append.1 hv with hv | hv
      · exact h.tagged v hv old hold hv'
      · obtain rfl := List.mem_singleton.1 hv
        exact htag
    rcases Table.mem_put.1 hr with ⟨rfl, -⟩ | ⟨hr, hne⟩
    · rw [htag]
      exact hall v hv (hsame.trans hkey)
    · rcases List.mem_append.1 hv with hv | hv
      · exact h.tagged v hv r hr hsame
      · obtain rfl := List.mem_singleton.1 hv
        exact absurd hsame.symm hne
  · intro v hv
    have hput : row ∈ Table.put key row rows := Table.mem_put.2 (.inl ⟨rfl, old, hold, hkey.symm⟩)
    rcases List.mem_append.1 hv with hv | hv
    · obtain ⟨r, hr, hrv⟩ := h.owned v hv
      by_cases hsame : key r = key row
      · exact ⟨row, hput, hsame.symm.trans hrv⟩
      · exact ⟨r, Table.mem_put_of_ne hr hsame, hrv⟩
    · obtain rfl := List.mem_singleton.1 hv
      exact ⟨v, hput, rfl⟩

end Logged

end RevisionLog
