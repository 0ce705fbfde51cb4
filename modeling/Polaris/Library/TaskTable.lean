import Polaris.Library.SortedDict

open SortedDict

/-- What a table of tasks has to know of a task: its key, whether it is done, and whether the
callback that takes it out of the table is still due. -/
structure TaskKind (τ κ : Type) where
  key : τ → κ
  done : τ → Bool
  due : τ → Bool

namespace TaskKind
variable {τ κ : Type} [LinearOrder κ] (K : TaskKind τ κ)

/-- The tasks of a loop by their number, and the table that names one for a key. -/
structure Board (τ κ : Type) where
  loop : List τ
  table : List (κ × ℕ)

def Open (t : τ) : Prop := K.done t = false ∨ K.due t = true

structure Ordered (b : Board τ κ) : Prop where
  tabled : ∀ i t, b.loop[i]? = some t → K.Open t → lookup (K.key t) b.table = some i
  listed : ∀ k i, lookup k b.table = some i → ∃ t, b.loop[i]? = some t ∧ K.key t = k ∧ K.Open t
  due : ∀ t ∈ b.loop, K.due t = true → K.done t = true

namespace Board

def start (t : τ) (b : Board τ κ) : Board τ κ := ⟨b.loop ++ [t], setKey (K.key t) b.loop.length b.table⟩

def update (i : ℕ) (t : τ) (b : Board τ κ) : Board τ κ := ⟨b.loop.set i t, b.table⟩

def drop (i : ℕ) (t : τ) (b : Board τ κ) : Board τ κ :=
  ⟨b.loop.set i t, b.table.filter fun e => e.1 ≠ K.key t⟩

end Board

variable {K} {b : Board τ κ} {t t' : τ} {i k : ℕ}

theorem ordered_empty : K.Ordered ⟨[], []⟩ where
  tabled := by simp
  listed := by simp [lookup]
  due := by simp

theorem Ordered.unique (h : K.Ordered b) (ht : b.loop[i]? = some t) (hu : b.loop[k]? = some t')
    (hkey : K.key t = K.key t') (hopen : K.Open t) (hopen' : K.Open t') : i = k := by
  have hi := h.tabled i t ht hopen
  rw [hkey, h.tabled k t' hu hopen'] at hi
  exact (Option.some.inj hi).symm

/-- A key is free when its entry is done and no callback of the key is due. -/
theorem Ordered.free (h : K.Ordered b) {k : κ}
    (hdone : ∀ i, lookup k b.table = some i → ∀ t, b.loop[i]? = some t → K.done t = true)
    (hdue : ∀ t ∈ b.loop, K.key t = k → K.due t = false) : lookup k b.table = none := by
  cases hlookup : lookup k b.table with
  | none => rfl
  | some i =>
      obtain ⟨t, ht, hkey, hopen | hopen⟩ := h.listed k i hlookup
      · rw [hdone i hlookup t ht] at hopen
        simp at hopen
      · rw [hdue t (List.mem_of_getElem? ht) hkey] at hopen
        simp at hopen

theorem Ordered.start (h : K.Ordered b) (hfree : lookup (K.key t) b.table = none)
    (hdone : K.done t = false) (hdue : K.due t = false) : K.Ordered (b.start K t) where
  tabled i u hu hopen := by
    simp only [Board.start, lookup_setKey] at hu ⊢
    by_cases hi : i < b.loop.length
    · rw [List.getElem?_append_left hi] at hu
      have hold := h.tabled i u hu hopen
      by_cases hkey : K.key u = K.key t
      · rw [hkey, hfree] at hold
        simp at hold
      · rw [if_neg hkey, hold]
    · have hlt := (List.getElem?_eq_some_iff.1 hu).1
      obtain rfl : i = b.loop.length := by
        simp only [List.length_append, List.length_singleton] at hlt
        omega
      obtain rfl : t = u := by simpa using hu
      simp
  listed k i hlookup := by
    simp only [Board.start, lookup_setKey] at hlookup ⊢
    by_cases hk : k = K.key t
    · rw [if_pos hk] at hlookup
      obtain rfl := Option.some.inj hlookup
      exact ⟨t, by simp, hk.symm, .inl hdone⟩
    · rw [if_neg hk] at hlookup
      obtain ⟨u, hu, hkey, hopen⟩ := h.listed k i hlookup
      exact ⟨u, by rw [List.getElem?_append_left (List.getElem?_eq_some_iff.1 hu).1, hu], hkey, hopen⟩
  due u hu hdue' := by
    rcases List.mem_append.1 hu with hu | hu
    · exact h.due u hu hdue'
    · obtain rfl : u = t := by simpa using hu
      simp [hdue] at hdue'

theorem Ordered.update (h : K.Ordered b) (ht : b.loop[i]? = some t) (hkey : K.key t' = K.key t)
    (hopen : K.Open t ↔ K.Open t') (hdue : K.due t' = true → K.done t' = true) :
    K.Ordered (b.update i t') where
  tabled k u hu hu' := by
    simp only [Board.update] at hu ⊢
    by_cases hk : i = k
    · subst hk
      rw [List.getElem?_set_self (List.getElem?_eq_some_iff.1 ht).1] at hu
      obtain rfl := Option.some.inj hu
      rw [hkey]
      exact h.tabled i t ht (hopen.2 hu')
    · rw [List.getElem?_set_ne hk] at hu
      exact h.tabled k u hu hu'
  listed k n hlookup := by
    obtain ⟨u, hu, hukey, huopen⟩ := h.listed k n hlookup
    simp only [Board.update]
    by_cases hn : i = n
    · subst hn
      obtain rfl := Option.some.inj (ht.symm.trans hu)
      exact ⟨t', List.getElem?_set_self (List.getElem?_eq_some_iff.1 ht).1, hkey.trans hukey,
        hopen.1 huopen⟩
    · exact ⟨u, by rw [List.getElem?_set_ne hn, hu], hukey, huopen⟩
  due u hu hdue' := by
    rcases List.mem_or_eq_of_mem_set hu with hu | rfl
    · exact h.due u hu hdue'
    · exact hdue hdue'

theorem lookup_filter_ne {l m : κ} {es : List (κ × ℕ)} :
    lookup l (es.filter fun e => e.1 ≠ m) = if l = m then none else lookup l es := by
  induction es with
  | nil => simp [lookup]
  | cons e es ih =>
      by_cases hem : e.1 = m
      · rw [List.filter_cons_of_neg (by simpa using hem), ih]
        by_cases hl : l = m
        · simp [hl]
        · have hne : ¬ l = e.1 := fun h => hl (h.trans hem)
          simp only [if_neg hl, lookup, if_neg hne]
      · rw [List.filter_cons_of_pos (by simpa using hem)]
        by_cases hel : l = e.1
        · have hl : ¬ l = m := fun h => hem (hel.symm.trans h)
          simp only [lookup, if_pos hel, if_neg hl]
        · simp only [lookup, if_neg hel, ih]

/-- The callback of a task leaves every other open task in the table. -/
theorem Ordered.callback (h : K.Ordered b) (ht : b.loop[i]? = some t) (hkey : K.key t' = K.key t)
    (hopen : K.Open t) (hclosed : ¬ K.Open t') : K.Ordered (b.drop K i t') where
  tabled k u hu hu' := by
    simp only [Board.drop] at hu ⊢
    by_cases hk : i = k
    · subst hk
      rw [List.getElem?_set_self (List.getElem?_eq_some_iff.1 ht).1] at hu
      obtain rfl := Option.some.inj hu
      exact absurd hu' hclosed
    · rw [List.getElem?_set_ne hk] at hu
      have hne : K.key u ≠ K.key t' := by
        intro hsame
        exact hk (h.unique ht hu (hkey.symm.trans hsame.symm) hopen hu')
      rw [lookup_filter_ne, if_neg hne]
      exact h.tabled k u hu hu'
  listed k n hlookup := by
    simp only [Board.drop, lookup_filter_ne] at hlookup ⊢
    by_cases hk : k = K.key t'
    · simp [hk] at hlookup
    · rw [if_neg hk] at hlookup
      obtain ⟨u, hu, hukey, huopen⟩ := h.listed k n hlookup
      have hn : i ≠ n := by
        rintro rfl
        obtain rfl := Option.some.inj (ht.symm.trans hu)
        exact hk (hukey.symm.trans hkey.symm)
      exact ⟨u, by rw [List.getElem?_set_ne hn, hu], hukey, huopen⟩
  due u hu hdue' := by
    rcases List.mem_or_eq_of_mem_set hu with hu | rfl
    · exact h.due u hu hdue'
    · exact absurd (.inr hdue') hclosed

end TaskKind
