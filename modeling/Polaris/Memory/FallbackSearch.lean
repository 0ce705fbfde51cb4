import Mathlib.Data.List.Perm.Basic
import Mathlib.Data.Char
import Polaris.Memory.Recall

namespace Polaris
open PyJson

namespace Text

theorem within_iff {needle text : List Char} : within needle text = true ↔ needle <:+: text := by
  simp only [within, List.any_eq_true, List.mem_tails, List.isPrefixOf_iff_prefix]
  constructor
  · rintro ⟨tail, ⟨before, rfl⟩, after, rfl⟩
    exact ⟨before, after, by simp⟩
  · rintro ⟨before, after, rfl⟩
    exact ⟨needle ++ after, ⟨before, by simp⟩, after, rfl⟩

theorem replaceChar_quote (word : List Char) :
    replaceChar '_' ['\\', '_'] (replaceChar '%' ['\\', '%'] (replaceChar '\\' ['\\', '\\'] word)) =
      word.flatMap (Like.quote '\\') := by
  induction word with
  | nil => rfl
  | cons c word ih =>
      simp only [replaceChar, List.flatMap_cons, List.flatMap_append] at ih ⊢
      rw [ih]
      congr 1
      by_cases hescape : c = '\\'
      · subst hescape
        decide
      · by_cases hanything : c = '%'
        · subst hanything
          decide
        · by_cases hsingle : c = '_'
          · subst hsingle
            decide
          · simp [Like.quote, hescape, hanything, hsingle]

end Text

namespace SearchEngine
variable {engine : SearchEngine} {query : String} {scope : MemoryScope} {s : MemoryStore}

theorem sameLetters_iff {word part : List Char} :
    List.Forall₂ (fun c d => decide (c.toLower = d.toLower) = true) word part ↔
      word.map Char.toLower = part.map Char.toLower := by
  rw [← List.forall₂_eq_eq_eq, List.forall₂_map_left_iff, List.forall₂_map_right_iff]
  simp only [decide_eq_true_eq]

theorem toLower_toLower (c : Char) : c.toLower.toLower = c.toLower := by
  have hother : ∀ d : Char, ¬ (d.val ≥ 'A'.val ∧ d.val ≤ 'Z'.val) → d.toLower = d := by
    intro d hd
    unfold Char.toLower
    rw [dif_neg hd]
  refine hother _ ?_
  unfold Char.toLower
  split
  next hupper =>
    simp only [UInt32.le_iff_toNat_le, ge_iff_le, UInt32.toNat_add] at hupper ⊢
    simp at hupper ⊢
    omega
  next hupper => exact hupper

theorem lower_part {text before part after : List Char}
    (h : text.map Char.toLower = before ++ part ++ after) : part.map Char.toLower = part := by
  refine (List.map_congr_left fun c hc => ?_).trans (List.map_id part)
  have hmem : c ∈ text.map Char.toLower := by simp [h, hc]
  obtain ⟨d, -, rfl⟩ := List.mem_map.1 hmem
  exact toLower_toLower d

/-- The rows that SQL selects: ASCII letters of either case are equal, other characters are not. -/
theorem isCandidate_iff {e : MemoryEntry} : engine.isCandidate query e = true ↔
    (engine.casefold query).map Char.toLower <:+: e.content.toList.map Char.toLower := by
  rw [isCandidate, likePattern, Text.replaceChar_quote, Like.like_quoted (by decide)]
  constructor
  · rintro ⟨before, part, after, htext, hall⟩
    refine ⟨before, after, ?_⟩
    rw [sameLetters_iff.1 hall, lower_part htext, htext]
  · rintro ⟨before, after, htext⟩
    refine ⟨before, _, after, htext.symm, sameLetters_iff.2 ?_⟩
    simp [Function.comp_def, toLower_toLower]

/-- The entries that hold the query, whatever the case of their letters. -/
def Holds (engine : SearchEngine) (query : String) (e : MemoryEntry) : Prop :=
  engine.casefold query <:+: engine.casefold e.content

instance (e : MemoryEntry) : Decidable (engine.Holds query e) :=
  decidable_of_iff _ Text.within_iff

/-- The order of the hits: most occurrences first, then the first position, the time of the last
update and the id. -/
structure Precedes (engine : SearchEngine) (query : String) (a b : MemoryEntry) : Prop where
  occurrences : engine.occurrences query b ≤ engine.occurrences query a
  position : engine.occurrences query a = engine.occurrences query b →
    engine.position query a ≤ engine.position query b
  updated : engine.occurrences query a = engine.occurrences query b →
    engine.position query a = engine.position query b → a.updatedAt ≤ b.updatedAt
  id : engine.occurrences query a = engine.occurrences query b →
    engine.position query a = engine.position query b → a.updatedAt = b.updatedAt → a.id ≤ b.id

theorem rankedBefore_iff {a b : MemoryEntry} :
    engine.rankedBefore query a b = true ↔ engine.Precedes query a b := by
  simp only [rankedBefore, updatedBefore, Bool.or_eq_true, Bool.and_eq_true, decide_eq_true_eq,
    Bool.not_eq_true', decide_eq_false_iff_not, not_lt]
  constructor
  · rintro (h | ⟨h, h' | ⟨h', h'' | ⟨h'', hid⟩⟩⟩)
    · exact ⟨h.le, fun he => absurd he h.ne', fun he => absurd he h.ne', fun he => absurd he h.ne'⟩
    · exact ⟨h.ge, fun _ => h'.le, fun _ he => absurd he h'.ne, fun _ he => absurd he h'.ne⟩
    · exact ⟨h.ge, fun _ => h'.le, fun _ _ => h''.le, fun _ _ he => absurd he h''.ne⟩
    · exact ⟨h.ge, fun _ => h'.le, fun _ _ => h''.le, fun _ _ _ => hid⟩
  · rintro ⟨hcount, hposition, hupdated, hid⟩
    rcases hcount.lt_or_eq with h | h
    · exact .inl h
    · refine .inr ⟨h.symm, ?_⟩
      rcases (hposition h.symm).lt_or_eq with h' | h'
      · exact .inl h'
      · refine .inr ⟨h', ?_⟩
        rcases (hupdated h.symm h').lt_or_eq with h'' | h''
        · exact .inl h''
        · exact .inr ⟨h'', hid h.symm h' h''⟩

theorem rankedBefore_total (a b : MemoryEntry) :
    engine.rankedBefore query a b = true ∨ engine.rankedBefore query b a = true := by
  simp only [rankedBefore, updatedBefore, Bool.or_eq_true, Bool.and_eq_true, decide_eq_true_eq,
    Bool.not_eq_true', decide_eq_false_iff_not, not_lt]
  rcases lt_trichotomy (engine.occurrences query a) (engine.occurrences query b) with h | h | h
  · exact .inr (.inl h)
  · rcases lt_trichotomy (engine.position query a) (engine.position query b) with h' | h' | h'
    · exact .inl (.inr ⟨h.symm.symm, .inl h'⟩)
    · rcases lt_trichotomy a.updatedAt b.updatedAt with h'' | h'' | h''
      · exact .inl (.inr ⟨h, .inr ⟨h', .inl h''⟩⟩)
      · rcases le_total a.id b.id with hid | hid
        · exact .inl (.inr ⟨h, .inr ⟨h', .inr ⟨h'', hid⟩⟩⟩)
        · exact .inr (.inr ⟨h.symm, .inr ⟨h'.symm, .inr ⟨h''.symm, hid⟩⟩⟩)
      · exact .inr (.inr ⟨h.symm, .inr ⟨h'.symm, .inl h''⟩⟩)
    · exact .inr (.inr ⟨h.symm, .inl h'⟩)
  · exact .inl (.inl h)

theorem Precedes.trans {a b c : MemoryEntry} (h : engine.Precedes query a b)
    (h' : engine.Precedes query b c) : engine.Precedes query a c := by
  have hcount := h.occurrences
  have hcount' := h'.occurrences
  refine ⟨hcount'.trans hcount, fun he => ?_, fun he hp => ?_, fun he hp hu => ?_⟩
  all_goals
    have hab : engine.occurrences query a = engine.occurrences query b := by omega
    have hbc : engine.occurrences query b = engine.occurrences query c := by omega
    have hposition := h.position hab
    have hposition' := h'.position hbc
  · exact hposition.trans hposition'
  all_goals
    have hpab : engine.position query a = engine.position query b := by omega
    have hpbc : engine.position query b = engine.position query c := by omega
    have hupdated := h.updated hab hpab
    have hupdated' := h'.updated hbc hpbc
  · exact hupdated.trans hupdated'
  · have huab := hupdated.antisymm (hu ▸ hupdated')
    have hubc := hupdated'.antisymm (hu ▸ hupdated)
    exact (h.id hab hpab huab).trans (h'.id hbc hpbc hubc)

theorem ranked_sorted : (engine.ranked query scope s).Pairwise (engine.Precedes query) := by
  have : Std.Total fun a b : MemoryEntry => engine.rankedBefore query a b = true :=
    ⟨rankedBefore_total⟩
  have : IsTrans MemoryEntry fun a b => engine.rankedBefore query a b = true :=
    ⟨fun _ _ _ h h' => rankedBefore_iff.2 ((rankedBefore_iff.1 h).trans (rankedBefore_iff.1 h'))⟩
  exact (List.pairwise_insertionSort _ _).imp fun h => rankedBefore_iff.1 h

def active (scope : MemoryScope) (s : MemoryStore) : List MemoryEntry :=
  s.entries.filter fun e => e.scope = scope && !e.tombstoned

theorem ranked_perm : (engine.ranked query scope s).Perm
    ((active scope s).filter (engine.isCandidate query)) := by
  rw [active, List.filter_filter]
  refine (List.perm_insertionSort _ _).trans (List.Perm.of_eq (List.filter_congr fun e _ => ?_))
  simp only [Bool.and_comm]

theorem filter_perm_iff {α : Type} {p q : α → Bool} {xs : List α} :
    (xs.filter p).Perm (xs.filter q) ↔ ∀ x ∈ xs, p x = q x := by
  constructor
  · intro h x hx
    have hmem := h.mem_iff (a := x)
    simp only [List.mem_filter, hx, true_and] at hmem
    exact Bool.eq_iff_iff.2 hmem
  · exact fun h => .of_eq (List.filter_congr h)

end SearchEngine

namespace MemoryWriter
open SearchEngine

section
variable {writer : MemoryWriter} {engine : SearchEngine} {query : String} {scope : MemoryScope}
  {limit : ℤ} {t : MemoryTables}

/-- The search finds the entries that hold the query, in the order of the hits. -/
structure SearchesExactly (writer : MemoryWriter) (engine : SearchEngine) (query : String)
    (scope : MemoryScope) (limit : ℤ) (t : MemoryTables) : Prop where
  ranks : (engine.ranked query scope t.toMemoryStore).Perm
    ((active scope t.toMemoryStore).filter fun e => engine.Holds query e)
  sorted : (engine.ranked query scope t.toMemoryStore).Pairwise (engine.Precedes query)
  returns : writer.recall engine query scope limit t =
    .ok (((engine.ranked query scope t.toMemoryStore).take limit.toNat).map fun e =>
      ⟨writer.backend.safeEntry e, (engine.occurrences query e : ℚ), "like"⟩)

theorem recall_fallback (hfts : writer.ftsAvailable = false) (hquery : isBlankText query = false)
    (hlimit : 0 ≤ limit) : writer.recall engine query scope limit t =
      .ok (recallLike writer engine query scope limit.toNat t) := by
  rw [«recall», if_neg (by simp [hquery]), if_neg hlimit.not_gt]
  by_cases hzero : limit = 0
  · simp [hzero, recallLike]
  · rw [if_neg hzero, if_neg (by simp [hfts])]

/-- Texts of ASCII characters only are searched as they should be. -/
theorem holds_iff_of_ascii {e : MemoryEntry}
    (hfold : ∀ c : Char, c.toNat < 128 → engine.fold c = [c.toLower])
    (hquery : ∀ c ∈ query.toList, c.toNat < 128) (hcontent : ∀ c ∈ e.content.toList, c.toNat < 128) :
    engine.Holds query e ↔
      (engine.casefold query).map Char.toLower <:+: e.content.toList.map Char.toLower := by
  have hlower : ∀ text : String, (∀ c ∈ text.toList, c.toNat < 128) →
      engine.casefold text = text.toList.map Char.toLower := by
    intro text hascii
    rw [casefold, List.flatMap_congr (fun c hc => hfold c (hascii c hc))]
    exact List.flatMap_pure_eq_map Char.toLower text.toList
  rw [Holds, hlower query hquery, hlower e.content hcontent]
  simp [Function.comp_def, toLower_toLower]

end

/-! A note with a capital letter outside ASCII. -/

namespace Accented

def engine : SearchEngine where
  fold c := if c = 'É' then ['é'] else [c.toLower]
  words query := [query]
  rank _ _ := []

def writer : MemoryWriter := ⟨⟨.ofTable [], ⟨⟨fun _ _ => false, fun _ _ text => text⟩, []⟩⟩, false⟩

def scope : MemoryScope := ⟨.defaultProfile, .defaultProfile⟩

def tables : MemoryTables := (MemoryIssued.after ⟨writer, ⟨1, 1, 1, "55555555555555555555555555555555"⟩,
  .append scope ⟨⟨"École", by decide⟩, .fact, .userAsserted, none, ⟨none, none, none⟩⟩⟩ .empty)

end Accented

end MemoryWriter

end Polaris
