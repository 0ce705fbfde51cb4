import Polaris.Library.PyJson

namespace PyJson
open SortedDict PyVal

theorem keyword_plain {cs rest : List Char} {v : PyVal} (h : keyword cs = some (v, rest)) :
    v.isPlain = true := by
  unfold keyword at h
  split at h <;> simp only [Option.some.injEq, Prod.mk.injEq, reduceCtorEq] at h <;>
    obtain ⟨rfl, -⟩ := h <;> rfl

theorem parseNumber_plain {cs rest : List Char} {v : PyVal}
    (h : parseNumber cs = some (v, rest)) : v.isPlain = true := by
  simp only [parseNumber] at h
  split at h
  · obtain ⟨rfl, -⟩ := Prod.mk.inj (Option.some.inj h); rfl
  · split at h
    · obtain ⟨rfl, -⟩ := Prod.mk.inj (Option.some.inj h); rfl
    · simp at h

theorem parse_plain (n : ℕ) :
    (∀ cs v rest, parseValue n cs = some (v, rest) → v.isPlain = true) ∧
    (∀ cs xs rest, parseItems n cs = some (xs, rest) → itemsPlain xs = true) ∧
    (∀ cs es rest, parseEntries n cs = some (es, rest) → entriesPlain es = true) := by
  induction n with
  | zero => simp [parseValue, parseItems, parseEntries]
  | succ n ih =>
      obtain ⟨hvalue, hitems, hentries⟩ := ih
      refine ⟨?_, ?_, ?_⟩
      · intro cs v rest h
        cases cs with
        | nil => simp [parseValue] at h
        | cons c cs =>
            simp only [parseValue] at h
            split at h
            · simp only [Option.bind_eq_bind, Option.bind_eq_some_iff, Option.pure_def,
                Option.some.injEq, Prod.mk.injEq, Prod.exists] at h
              obtain ⟨_, _, -, rfl, -⟩ := h
              rfl
            · split at h
              · split at h
                · obtain ⟨rfl, -⟩ := Prod.mk.inj (Option.some.inj h); rfl
                · simp only [Option.bind_eq_bind, Option.bind_eq_some_iff, Option.pure_def,
                    Option.some.injEq, Prod.mk.injEq, Prod.exists] at h
                  obtain ⟨xs, _, hxs, rfl, -⟩ := h
                  exact hitems _ _ _ hxs
              · split at h
                · split at h
                  · obtain ⟨rfl, -⟩ := Prod.mk.inj (Option.some.inj h); rfl
                  · simp only [Option.bind_eq_bind, Option.bind_eq_some_iff, Option.pure_def,
                      Option.some.injEq, Prod.mk.injEq, Prod.exists] at h
                    obtain ⟨es, _, hes, rfl, -⟩ := h
                    have hplain := entriesPlain_iff.1 (hentries _ _ _ hes)
                    simp only [isPlain, Bool.and_eq_true, decide_eq_true_eq]
                    exact ⟨ofPairs_nodup es,
                      entriesPlain_iff.2 fun e he => hplain e (mem_ofPairs he)⟩
                · rcases Option.or_eq_some_iff.1 h with h | ⟨-, h⟩
                  · exact keyword_plain h
                  · exact parseNumber_plain h
      · intro cs xs rest h
        simp only [parseItems, Option.bind_eq_bind, Option.bind_eq_some_iff, Prod.exists] at h
        obtain ⟨x, rest', hx, h⟩ := h
        have hplain := hvalue _ _ _ hx
        split at h
        · simp only [Option.pure_def, Option.some.injEq, Prod.mk.injEq] at h
          obtain ⟨rfl, -⟩ := h
          simp [itemsPlain, hplain]
        · simp only [Option.bind_eq_some_iff, Option.pure_def,
            Option.some.injEq, Prod.mk.injEq, Prod.exists] at h
          obtain ⟨ys, _, hys, rfl, -⟩ := h
          simp [itemsPlain, hplain, hitems _ _ _ hys]
        · simp at h
      · intro cs es rest h
        cases cs with
        | nil => simp [parseEntries] at h
        | cons c cs =>
            by_cases hc : c = '"'
            · subst hc
              simp only [parseEntries, Option.bind_eq_bind, Option.bind_eq_some_iff,
                Prod.exists] at h
              obtain ⟨k, _, -, h⟩ := h
              split at h
              · simp only [Option.bind_eq_some_iff, Prod.exists] at h
                obtain ⟨x, _, hx, h⟩ := h
                have hplain := hvalue _ _ _ hx
                split at h
                · simp only [Option.pure_def, Option.some.injEq, Prod.mk.injEq] at h
                  obtain ⟨rfl, -⟩ := h
                  simp [entriesPlain, hplain]
                · simp only [Option.bind_eq_some_iff, Option.pure_def,
                    Option.some.injEq, Prod.mk.injEq, Prod.exists] at h
                  obtain ⟨fs, _, hfs, rfl, -⟩ := h
                  simp [entriesPlain, hplain, hentries _ _ _ hfs]
                · simp at h
              · simp at h
            · simp [parseEntries, hc] at h

theorem loads_plain {s : String} {v : PyVal} (h : loads s = some v) : v.isPlain = true := by
  simp only [loads, Option.bind_eq_bind, Option.bind_eq_some_iff, Prod.exists] at h
  obtain ⟨w, rest, hw, h⟩ := h
  split at h
  · obtain rfl := Option.some.inj h
    exact (parse_plain _).1 _ _ _ hw
  · simp at h

end PyJson
