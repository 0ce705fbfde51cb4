import Mathlib.Data.List.Dedup
import Mathlib.Data.List.Perm.Lattice
import Polaris.Memory.Snapshot

namespace Polaris
open PyJson

namespace MemoryBackend
variable (backend : MemoryBackend)

def snapshotBudget (charBudget : ℤ) (tokenBudget : Option ℤ) : Except PyError ℕ :=
  if charBudget < 0 ∨ tokenBudget.any (· < 0) then
    .error (validation "budgets must be non-negative")
  else .ok (tokenBudget.elim charBudget fun tokens => min charBudget (tokens * 4)).toNat

/-- The budget of a rendering, `none` where the text may be of any length. -/
def renderBudget (charBudget tokenBudget : Option ℤ) : Except PyError (Option ℕ) :=
  if tokenBudget.any (· < 0) then .error (validation "token_budget must be non-negative")
  else
    let budget := match tokenBudget with
      | none => charBudget
      | some tokens => some (charBudget.elim (tokens * 4) (min · (tokens * 4)))
    if budget.any (· < 0) then .error (validation "char_budget must be non-negative")
    else .ok (budget.map Int.toNat)

/-- Without a budget no line is left out. -/
def renderWithin (snapshot : MemorySnapshot) : Option ℕ → String
  | some budget => backend.renderPromptContext snapshot budget
  | none => backend.contextHeader snapshot ++
      snapshot.entries.foldr (fun entry rest => backend.contextLine entry ++ rest) "" ++ contextFooter

def render (snapshot : MemorySnapshot) (charBudget tokenBudget : Option ℤ) :
    Except PyError String := do
  return backend.renderWithin snapshot (← renderBudget charBudget tokenBudget)

def snapshotOf (scope : MemoryScope) (charBudget : ℤ) (tokenBudget : Option ℤ) (s : MemoryStore) :
    Except PyError MemorySnapshot := do
  return backend.sessionSnapshot scope (← snapshotBudget charBudget tokenBudget) s

section
variable {backend : MemoryBackend} {snapshot snapshot' : MemorySnapshot}

theorem contextLines_all {budget size : ℕ} {entries : List MemoryEntry}
    (h : size + (entries.foldr (fun entry rest => backend.contextLine entry ++ rest) "").length ≤
      budget) : backend.contextLines budget size entries =
        entries.foldr (fun entry rest => backend.contextLine entry ++ rest) "" := by
  induction entries generalizing size with
  | nil => rfl
  | cons entry entries ih =>
      simp only [List.foldr_cons, String.length_append] at h
      simp only [contextLines, List.foldr_cons]
      rw [if_neg (by omega), ih (by omega)]

theorem renderWithin_none {budget : ℕ} (h : (backend.renderWithin snapshot none).length ≤ budget) :
    backend.renderWithin snapshot none = backend.renderPromptContext snapshot budget := by
  simp only [renderWithin, String.length_append] at h ⊢
  rw [renderPromptContext, contextLines_all (by omega)]
  simp only [String.length_append]
  rw [if_neg (by omega)]

/-- The lines around the entries fit the budget. -/
def FrameFits (backend : MemoryBackend) (snapshot : MemorySnapshot) (budget : Option ℕ) : Prop :=
  ∀ chars, budget = some chars → backend.Framed snapshot chars

theorem version_of_renderWithin {budget : Option ℕ} (h : backend.FrameFits snapshot budget)
    (hsame : backend.renderWithin snapshot budget = backend.renderWithin snapshot' budget) :
    backend.FrameFits snapshot' budget ∧ snapshot.version = snapshot'.version := by
  cases budget with
  | some chars =>
      obtain ⟨hframed, hversion⟩ := version_of_render (h chars rfl) hsame
      exact ⟨fun _ hchars => Option.some.inj hchars ▸ hframed, hversion⟩
  | none =>
      let chars := (backend.renderWithin snapshot none).length
      have hfits : backend.Framed snapshot chars := by
        simp only [Framed, chars, renderWithin, String.length_append]
        omega
      have hequal : backend.renderWithin snapshot none = backend.renderPromptContext snapshot chars :=
        renderWithin_none le_rfl
      have hequal' : backend.renderWithin snapshot' none = backend.renderPromptContext snapshot' chars :=
        renderWithin_none (congrArg String.length hsame).ge
      refine ⟨fun _ hnone => absurd hnone (by simp), (version_of_render hfits ?_).2⟩
      rw [← hequal, ← hequal', hsame]

theorem renderWithin_of_not_fits {budget : Option ℕ}
    (h : ¬ backend.FrameFits snapshot budget) : backend.renderWithin snapshot budget = "" := by
  cases budget with
  | none => exact absurd (fun _ hnone => absurd hnone (by simp)) h
  | some chars =>
      refine renderPromptContext_of_not_framed fun hframed => h ?_
      rintro _ ⟨⟩
      exact hframed

end

/-! Stores that hold the same entries in a scope. -/

/-- No two entries of a store have one id. -/
structure AgreeOn (scope : MemoryScope) (m m' : MemoryStore) : Prop where
  keyed : (m.entries.map MemoryEntry.id).Nodup
  keyed' : (m'.entries.map MemoryEntry.id).Nodup
  same : ∀ e, e.scope = scope → (e ∈ m.entries ↔ e ∈ m'.entries)

section
variable {scope : MemoryScope} {m m' : MemoryStore}

theorem entryBefore_total (a b : MemoryEntry) : entryBefore a b = true ∨ entryBefore b a = true := by
  simp only [entryBefore, Bool.or_eq_true, Bool.and_eq_true, decide_eq_true_eq, Bool.not_eq_true',
    decide_eq_false_iff_not, not_lt]
  rcases lt_trichotomy a.createdAt b.createdAt with h | h | h
  · exact .inl (.inl h)
  · rcases le_total a.id b.id with hid | hid
    · exact .inl (.inr ⟨h, hid⟩)
    · exact .inr (.inr ⟨h.symm, hid⟩)
  · exact .inr (.inl h)

theorem entryBefore_trans {a b c : MemoryEntry} (h : entryBefore a b = true)
    (h' : entryBefore b c = true) : entryBefore a c = true := by
  simp only [entryBefore, Bool.or_eq_true, Bool.and_eq_true, decide_eq_true_eq, Bool.not_eq_true',
    decide_eq_false_iff_not, not_lt] at h h' ⊢
  rcases h with h | ⟨h, hid⟩
  · rcases h' with h' | ⟨h', -⟩
    · exact .inl (h.trans h')
    · exact .inl (h' ▸ h)
  · rcases h' with h' | ⟨h', hid'⟩
    · exact .inl (h ▸ h')
    · exact .inr ⟨h.trans h', hid.trans hid'⟩

theorem id_of_entryBefore {a b : MemoryEntry} (h : entryBefore a b = true)
    (h' : entryBefore b a = true) : a.id = b.id := by
  simp only [entryBefore, Bool.or_eq_true, Bool.and_eq_true, decide_eq_true_eq, Bool.not_eq_true',
    decide_eq_false_iff_not, not_lt] at h h'
  rcases h with h | ⟨h, hid⟩
  · rcases h' with h' | ⟨h', -⟩
    · exact absurd h' h.not_gt
    · exact absurd h' h.ne'
  · rcases h' with h' | ⟨-, hid'⟩
    · exact absurd h h'.ne'
    · exact le_antisymm hid hid'

theorem activeEntries_sorted : (activeEntries scope m).Pairwise fun a b => entryBefore a b = true := by
  have : Std.Total fun a b : MemoryEntry => entryBefore a b = true := ⟨entryBefore_total⟩
  have : IsTrans MemoryEntry fun a b => entryBefore a b = true := ⟨fun _ _ _ => entryBefore_trans⟩
  exact List.pairwise_insertionSort _ _

theorem mem_activeEntries {e : MemoryEntry} :
    e ∈ activeEntries scope m ↔ e ∈ m.entries ∧ e.scope = scope ∧ e.tombstoned = false := by
  simp [activeEntries, List.mem_insertionSort]

theorem activeEntries_nodup (hkeyed : (m.entries.map MemoryEntry.id).Nodup) :
    (activeEntries scope m).Nodup :=
  (List.perm_insertionSort _ _).nodup_iff.2 (hkeyed.of_map.filter _)

theorem AgreeOn.activeEntries (h : AgreeOn scope m m') :
    activeEntries scope m = activeEntries scope m' := by
  have hmem : ∀ e, e ∈ MemoryBackend.activeEntries scope m ↔
      e ∈ MemoryBackend.activeEntries scope m' := by
    intro e
    rw [mem_activeEntries, mem_activeEntries]
    constructor
    · exact fun ⟨he, hscope, hactive⟩ => ⟨(h.same e hscope).1 he, hscope, hactive⟩
    · exact fun ⟨he, hscope, hactive⟩ => ⟨(h.same e hscope).2 he, hscope, hactive⟩
  refine List.Perm.eq_of_pairwise (fun a b ha hb hab hba => ?_) activeEntries_sorted
    activeEntries_sorted ((List.perm_ext_iff_of_nodup (activeEntries_nodup h.keyed)
      (activeEntries_nodup h.keyed')).2 hmem)
  exact List.inj_on_of_nodup_map h.keyed (mem_activeEntries.1 ha).1
    (mem_activeEntries.1 ((hmem b).2 hb)).1 (id_of_entryBefore hab hba)

end

end MemoryBackend

end Polaris
