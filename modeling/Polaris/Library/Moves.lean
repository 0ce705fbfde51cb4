import Polaris.Library.Table

namespace Table
variable {α κ : Type} [DecidableEq κ] {key : α → κ} {R : κ → Option α → Option α → Prop}
  {rows rows' rows'' : List α} {row : α} {p : α → Bool} {f : α → α}

/-- What the change of a table makes of the row of each key. -/
def Moves (key : α → κ) (R : κ → Option α → Option α → Prop) (rows rows' : List α) : Prop :=
  ∀ k, R k (find key k rows) (find key k rows')

theorem Moves.refl (h : ∀ k r, R k r r) : Moves key R rows rows := fun k => h k _

theorem Moves.mono {R' : κ → Option α → Option α → Prop} (h : Moves key R rows rows')
    (hR : ∀ k r r', R k r r' → R' k r r') : Moves key R' rows rows' := fun k => hR k _ _ (h k)

theorem moves_concat (hsame : ∀ k r, R k r r) (hnone : find key (key row) rows = none)
    (hnew : R (key row) none (some row)) : Moves key R rows (rows ++ [row]) := by
  intro k
  rw [find_concat]
  by_cases hk : key row = k
  · subst hk
    simpa [hnone] using hnew
  · simpa [hk] using hsame k _

theorem moves_updateWhere (hkey : ∀ r, key (f r) = key r) (hsame : ∀ k r, R k r r)
    (h : ∀ r, p r = true → R (key r) (some r) (some (f r))) :
    Moves key R rows (updateWhere p f rows) := by
  intro k
  rw [find_updateWhere hkey]
  cases hfind : find key k rows with
  | none => exact hsame k none
  | some r =>
      obtain rfl := find_key hfind
      by_cases hp : p r = true
      · simpa [hp] using h r hp
      · simpa [hp] using hsame _ (some r)

/-- Two changes in a row, where the second leaves the rows alone that the first has moved. -/
theorem Moves.trans (h : Moves key R rows rows') (h' : Moves key R rows' rows'')
    (hR : ∀ k r r' r'', R k r r' → R k r' r'' → R k r r'') : Moves key R rows rows'' :=
  fun k => hR k _ _ _ (h k) (h' k)

end Table
