import Mathlib.Data.List.Forall2
import Mathlib.Data.List.Infix
import Mathlib.Tactic.Common

/-! The patterns of SQL's `LIKE`: `%` stands for any text, `_` for one character. -/

namespace Like

inductive Token where
  | anything
  | single
  | char (c : Char)
deriving DecidableEq

/-- The tokens of a pattern, `none` where the escape character has nothing to escape. -/
def tokens (escape : Char) : Bool → List Char → Option (List Token)
  | false, [] => some []
  | true, [] => none
  | true, c :: cs => (tokens escape false cs).map (.char c :: ·)
  | false, c :: cs =>
      if c = escape then tokens escape true cs
      else if c = '%' then (tokens escape false cs).map (.anything :: ·)
      else if c = '_' then (tokens escape false cs).map (.single :: ·)
      else (tokens escape false cs).map (.char c :: ·)

def accepts (same : Char → Char → Bool) : List Token → List Char → Bool
  | [], text => text.isEmpty
  | .anything :: ts, text => text.tails.any (accepts same ts)
  | .single :: _, [] => false
  | .single :: ts, _ :: cs => accepts same ts cs
  | .char _ :: _, [] => false
  | .char c :: ts, d :: cs => same c d && accepts same ts cs

def like (same : Char → Char → Bool) (escape : Char) (pattern text : List Char) : Bool :=
  (tokens escape false pattern).any fun ts => accepts same ts text

def quote (escape : Char) (c : Char) : List Char :=
  if c = escape ∨ c = '%' ∨ c = '_' then [escape, c] else [c]

variable {same : Char → Char → Bool} {escape : Char} {text : List Char}

theorem tokens_quote (c : Char) (rest : List Char) :
    tokens escape false (quote escape c ++ rest) =
      (tokens escape false rest).map (.char c :: ·) := by
  unfold quote
  split
  · simp [tokens]
  next hplain =>
    obtain ⟨hescape, hanything, hsingle⟩ := not_or.1 hplain |>.imp_right not_or.1
    simp [tokens, hescape, hanything, hsingle]

theorem tokens_quoted (word rest : List Char) :
    tokens escape false (word.flatMap (quote escape) ++ rest) =
      (tokens escape false rest).map (word.map .char ++ ·) := by
  induction word with
  | nil => simp
  | cons c word ih =>
      rw [List.flatMap_cons, List.append_assoc, tokens_quote, ih]
      cases tokens escape false rest <;> rfl

theorem accepts_anything : accepts same [.anything] text = true := by
  simp only [accepts, List.any_eq_true, List.mem_tails]
  exact ⟨[], List.nil_suffix, rfl⟩

theorem accepts_word {word : List Char} : accepts same (word.map .char ++ [.anything]) text = true ↔
    ∃ part rest, text = part ++ rest ∧ List.Forall₂ (fun c d => same c d = true) word part := by
  induction word generalizing text with
  | nil => exact iff_of_true accepts_anything ⟨[], text, rfl, .nil⟩
  | cons c word ih =>
      cases text with
      | nil =>
          refine iff_of_false (by simp [accepts]) ?_
          rintro ⟨part, rest, htext, hall⟩
          obtain ⟨d, tail, -, -, rfl⟩ := List.forall₂_cons_left_iff.1 hall
          simp at htext
      | cons d text =>
          simp only [List.map_cons, List.cons_append, accepts, Bool.and_eq_true, ih]
          constructor
          · rintro ⟨hsame, part, rest, rfl, hall⟩
            exact ⟨d :: part, rest, rfl, .cons hsame hall⟩
          · rintro ⟨part, rest, htext, hall⟩
            obtain ⟨d', tail, hsame, htail, rfl⟩ := List.forall₂_cons_left_iff.1 hall
            obtain ⟨rfl, rfl⟩ := List.cons.inj htext
            exact ⟨hsame, tail, rest, rfl, htail⟩

/-- The quoted word between two `%` is found wherever it is part of the text. -/
theorem like_quoted {word : List Char} (hescape : escape ≠ '%') :
    like same escape ('%' :: (word.flatMap (quote escape) ++ ['%'])) text = true ↔
      ∃ before part after, text = before ++ part ++ after ∧
        List.Forall₂ (fun c d => same c d = true) word part := by
  have hlast : tokens escape false ['%'] = some [.anything] := by simp [tokens, hescape.symm]
  have htokens : tokens escape false ('%' :: (word.flatMap (quote escape) ++ ['%'])) =
      some (.anything :: (word.map .char ++ [.anything])) := by
    rw [tokens, if_neg hescape.symm, if_pos rfl, tokens_quoted, hlast]
    rfl
  rw [like, htokens, Option.any_some, accepts, List.any_eq_true]
  constructor
  · rintro ⟨tail, htail, haccepts⟩
    obtain ⟨before, rfl⟩ := (List.mem_tails ..).1 htail
    obtain ⟨part, after, rfl, hall⟩ := accepts_word.1 haccepts
    exact ⟨before, part, after, (List.append_assoc ..).symm, hall⟩
  · rintro ⟨before, part, after, rfl, hall⟩
    refine ⟨part ++ after, (List.mem_tails ..).2 ⟨before, (List.append_assoc ..).symm⟩, ?_⟩
    exact accepts_word.2 ⟨part, after, rfl, hall⟩

end Like
