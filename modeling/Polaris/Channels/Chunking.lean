import Polaris.Channels.Verdicts

namespace Polaris

/-- Texts, none of them empty, that make up the value; one empty text stands for no text. -/
def SplitsInto (value : List Char) (pieces : List (List Char)) : Prop :=
  pieces.flatten = value ∧ (pieces = [[]] ∨ pieces ≠ [] ∧ ∀ piece ∈ pieces, piece ≠ [])

def openingLine (opened : Bool) : List Char := if opened then codeFence ++ ['\n'] else []

def closingLine (closed : Bool) : List Char := if closed then '\n' :: codeFence else []

/-- A chunk is a piece, perhaps with a fence line before it, perhaps with one behind it. -/
def Fenced (piece chunk : List Char) : Prop :=
  ∃ opened closed, chunk = openingLine opened ++ piece ++ closingLine closed

def FencesPaired (chunk : List Char) : Prop := countFences 0 chunk % 2 = 0

section
variable {limit : ℕ} {value : List Char}

/-! Fences are counted on each side of a line break for itself. -/

theorem isPrefixOf_codeFence {c : Char} {cs : List Char} :
    codeFence.isPrefixOf (c :: cs) = true ↔ c = '`' ∧ ∃ more, cs = '`' :: '`' :: more := by
  rw [List.isPrefixOf_iff_prefix]
  constructor
  · rintro ⟨more, hmore⟩
    obtain ⟨rfl, rfl⟩ := List.cons_eq_cons.1 hmore
    exact ⟨rfl, more, rfl⟩
  · rintro ⟨rfl, more, rfl⟩
    exact ⟨more, rfl⟩

theorem isPrefixOf_codeFence_append {c : Char} {xs ys : List Char} :
    codeFence.isPrefixOf (c :: (xs ++ '\n' :: ys)) = codeFence.isPrefixOf (c :: xs) := by
  rw [Bool.eq_iff_iff, isPrefixOf_codeFence, isPrefixOf_codeFence]
  refine and_congr_right fun _ => ?_
  rcases xs with _ | ⟨x, _ | ⟨x', xs⟩⟩
  · simp
  · simp
  · simp

theorem countFences_append {skip : ℕ} {xs ys : List Char} (h : skip ≤ xs.length) :
    countFences skip (xs ++ '\n' :: ys) = countFences skip xs + countFences 0 ys := by
  induction xs generalizing skip with
  | nil =>
      obtain rfl := Nat.le_zero.1 h
      have hbreak : codeFence.isPrefixOf ('\n' :: ys) = false := rfl
      simp [countFences, hbreak]
  | cons c cs ih =>
      cases skip with
      | succ skip =>
          rw [List.cons_append, countFences, countFences]
          exact ih (Nat.le_of_succ_le_succ h)
      | zero =>
          rw [List.cons_append, countFences, countFences, isPrefixOf_codeFence_append]
          by_cases hfence : codeFence.isPrefixOf (c :: cs) = true
          · obtain ⟨-, more, rfl⟩ := isPrefixOf_codeFence.1 hfence
            rw [if_pos hfence, if_pos hfence, ih (by simp)]
            omega
          · rw [if_neg hfence, if_neg hfence]
            exact ih (Nat.zero_le _)

theorem countFences_opened (piece : List Char) :
    countFences 0 (codeFence ++ '\n' :: piece) = countFences 0 piece + 1 := by
  rw [countFences_append (Nat.zero_le _), Nat.add_comm]
  rfl

theorem countFences_closed (chunk : List Char) :
    countFences 0 (chunk ++ '\n' :: codeFence) = countFences 0 chunk + 1 := by
  rw [countFences_append (Nat.zero_le _)]
  rfl

/-! What the pass over the fences makes of the pieces. -/

theorem fenceChunks_fenced {inFence : Bool} {pieces chunks : List (List Char)}
    (h : fenceChunks limit inFence pieces = some chunks) :
    List.Forall₂ Fenced pieces chunks ∧ ∀ chunk ∈ chunks.dropLast, FencesPaired chunk := by
  induction pieces generalizing inFence chunks with
  | nil =>
      obtain rfl := Option.some.inj h
      simp
  | cons piece rest ih =>
      unfold fenceChunks at h
      generalize hopened : (if inFence = true then codeFence ++ '\n' :: piece else piece) =
        chunk at h
      have hchunk : chunk = openingLine inFence ++ piece ++ closingLine false := by
        cases inFence <;> simp [← hopened, openingLine, closingLine]
      have hclosed : chunk ++ '\n' :: codeFence =
          openingLine inFence ++ piece ++ closingLine true := by
        cases inFence <;> simp [← hopened, openingLine, closingLine]
      have hcount : countFences 0 chunk = countFences 0 piece + inFence.toNat := by
        cases inFence with
        | true => rw [← hopened, if_pos rfl, countFences_opened, Bool.toNat_true]
        | false => rw [← hopened, if_neg Bool.false_ne_true, Bool.toNat_false, Nat.add_zero]
      have hcons : ∀ {first : List Char} {more : List (List Char)} {fence : Bool},
          Fenced piece first → (rest ≠ [] → FencesPaired first) →
          fenceChunks limit fence rest = some more →
          List.Forall₂ Fenced (piece :: rest) (first :: more) ∧
            ∀ chunk ∈ (first :: more).dropLast, FencesPaired chunk := by
        intro first more fence hfirst hpaired hmore
        obtain ⟨hfenced, hparity⟩ := ih hmore
        refine ⟨.cons hfirst hfenced, ?_⟩
        cases more with
        | nil => simp
        | cons next more =>
            have hrest : rest ≠ [] := by
              rintro rfl
              cases hfenced
            rw [List.dropLast_cons_cons]
            exact List.forall_mem_cons.2 ⟨hpaired hrest, hparity⟩
      dsimp only at h
      split at h
      · simp at h
      · split at h
        · rename_i hopen
          split at h
          · obtain ⟨more, hmore, rfl⟩ := Option.map_eq_some_iff.1 h
            refine hcons ⟨inFence, true, hclosed⟩ (fun _ => ?_) hmore
            -- the chunk leaves a fence open, and the line behind it closes that one
            rw [FencesPaired, countFences_closed, hcount]
            have hopen := hopen.1
            cases inFence <;> simp at hopen ⊢ <;> omega
          · simp at h
        · rename_i hclosed
          obtain ⟨more, hmore, rfl⟩ := Option.map_eq_some_iff.1 h
          refine hcons ⟨inFence, false, hchunk⟩ (fun hrest => ?_) hmore
          rw [FencesPaired, hcount]
          cases inFence <;> simp [hrest] at hclosed ⊢ <;> omega

/-! The loop over what remains. -/

theorem takeUnits_ne_nil {c : Char} {cs : List Char} (h : charUnits c ≤ limit) :
    (takeUnits (c :: cs) limit).1 ≠ [] := by
  have hloop : takeUnitsLoop limit (c :: cs) 0 0 0 =
      takeUnitsLoop limit cs (0 + charUnits c) (if isBreak c then 0 + 1 else 0) (0 + 1) := by
    rw [takeUnitsLoop, if_neg (by omega)]
  obtain ⟨n, hstop, -⟩ :=
    @takeUnitsLoop_spec limit cs (0 + charUnits c) (if isBreak c then 0 + 1 else 0) (0 + 1)
      (by split <;> omega) (by omega)
  rw [← hloop] at hstop
  unfold takeUnits
  simp only
  split
  · exact List.cons_ne_nil c cs
  · have hpos : (if (takeUnitsLoop limit (c :: cs) 0 0 0).1 ≠ 0 ∧
          (takeUnitsLoop limit (c :: cs) 0 0 0).2 / 2 ≤ (takeUnitsLoop limit (c :: cs) 0 0 0).1
        then (takeUnitsLoop limit (c :: cs) 0 0 0).1
        else (takeUnitsLoop limit (c :: cs) 0 0 0).2) ≠ 0 := by
      split <;> omega
    simpa [List.take_eq_nil_iff] using hpos

theorem takeUnits_eq_nil {c : Char} {cs : List Char} (h : limit < charUnits c) :
    (takeUnits (c :: cs) limit).1 = [] := by
  have hloop : takeUnitsLoop limit (c :: cs) 0 0 0 = (0, 0) := by
    rw [takeUnitsLoop, if_pos (by omega)]
  simp [takeUnits, hloop]

theorem charUnits_le_utf16Units {c : Char} (h : c ∈ value) : charUnits c ≤ utf16Units value := by
  induction value with
  | nil => simp at h
  | cons x xs ih =>
      rw [utf16Units_cons]
      rcases List.mem_cons.1 h with rfl | h
      · exact Nat.le_add_right _ _
      · exact (ih h).trans (Nat.le_add_left _ _)

/-- With room for each character there are pieces; without it there is an error. -/
theorem takeChunks_result {fuel : ℕ} (hfuel : value.length ≤ fuel) :
    ((∀ c ∈ value, charUnits c ≤ limit) ∧ ∃ pieces, takeChunks limit fuel value = .ok pieces ∧
      ∀ piece ∈ pieces, piece ≠ []) ∨
    (∃ c ∈ value, limit < charUnits c) ∧ ∃ e, takeChunks limit fuel value = .error e := by
  induction fuel generalizing value with
  | zero =>
      obtain rfl := List.length_eq_zero_iff.1 (Nat.le_zero.1 hfuel)
      exact .inl ⟨by simp, [], rfl, by simp⟩
  | succ fuel ih =>
      unfold takeChunks
      cases value with
      | nil => exact .inl ⟨by simp, [], rfl, by simp⟩
      | cons c cs =>
          rw [if_neg (List.cons_ne_nil c cs)]
          simp only
          by_cases hfits : charUnits c ≤ limit
          · have hchunk := @takeUnits_ne_nil limit c cs hfits
            have happend := @takeUnits_append limit (c :: cs)
            have hle := @takeUnits_le limit (c :: cs)
            rw [if_neg hchunk]
            generalize (takeUnits (c :: cs) limit).1 = chunk at *
            generalize (takeUnits (c :: cs) limit).2 = rest at *
            have hpos := List.length_pos_iff.2 hchunk
            have hlength := congrArg List.length happend
            rw [List.length_append] at hlength
            have hroom : ∀ x ∈ chunk, charUnits x ≤ limit := fun x hx =>
              (charUnits_le_utf16Units hx).trans hle
            rw [← happend]
            rcases ih (show rest.length ≤ fuel by omega) with
              ⟨hall, pieces, hpieces, hne⟩ | ⟨⟨x, hx, hwide⟩, e, he⟩
            · refine .inl ⟨List.forall_mem_append.2 ⟨hroom, hall⟩, chunk :: pieces, ?_,
                List.forall_mem_cons.2 ⟨hchunk, hne⟩⟩
              rw [hpieces]
              rfl
            · refine .inr ⟨⟨x, List.mem_append_right _ hx, hwide⟩, e, ?_⟩
              rw [he]
              rfl
          · have hwide := not_le.1 hfits
            rw [if_pos (takeUnits_eq_nil hwide)]
            exact .inr ⟨⟨c, List.mem_cons_self, hwide⟩, _, rfl⟩

/-- The loop has come to its end before the fuel has. -/
theorem takeChunks_fuel {fuel : ℕ} (hfuel : value.length ≤ fuel) :
    takeChunks limit fuel value = takeChunks limit value.length value := by
  induction hn : value.length using Nat.strong_induction_on generalizing value fuel with
  | _ n ih =>
      subst hn
      cases value with
      | nil => cases fuel <;> rfl
      | cons c cs =>
          obtain ⟨fuel, rfl⟩ : ∃ k, fuel = k + 1 :=
            ⟨fuel - 1, by rw [List.length_cons] at hfuel; omega⟩
          rw [List.length_cons, takeChunks, takeChunks]
          by_cases hchunk : (takeUnits (c :: cs) limit).1 = []
          · simp [hchunk]
          · have hpos := List.length_pos_iff.2 hchunk
            have hlength := congrArg List.length (@takeUnits_append limit (c :: cs))
            rw [List.length_append, List.length_cons] at hlength
            rw [List.length_cons] at hfuel
            have hrest : (takeUnits (c :: cs) limit).2.length < (c :: cs).length := by
              rw [List.length_cons]
              omega
            simp only [if_neg hchunk]
            rw [ih _ hrest (show _ ≤ fuel by omega) rfl, ih _ hrest (show _ ≤ cs.length by omega) rfl]

theorem limit_lt_charUnits (hlimit : 0 < limit) :
    (∃ c ∈ value, limit < charUnits c) ↔ limit = 1 ∧ ∃ c ∈ value, 0xffff < c.toNat := by
  have hchar : ∀ c, limit < charUnits c ↔ limit = 1 ∧ 0xffff < c.toNat := fun c => by
    unfold charUnits
    split <;> omega
  simp only [hchar]
  exact ⟨fun ⟨c, hc, hone, hwide⟩ => ⟨hone, c, hc, hwide⟩, fun ⟨hone, c, hc, hwide⟩ =>
    ⟨c, hc, hone, hwide⟩⟩

theorem chunkText_raises :
    (∃ e, chunkText value limit = .error e) ↔
      limit < 1 ∨ limit = 1 ∧ ∃ c ∈ value, 0xffff < c.toNat := by
  unfold chunkText
  by_cases hlimit : limit < 1
  · simp [hlimit]
  · rw [if_neg hlimit, ← limit_lt_charUnits (by omega)]
    by_cases hnil : value = []
    · simp [hnil, hlimit]
    · rw [if_neg hnil]
      rcases @takeChunks_result limit value _ le_rfl with
        ⟨hall, pieces, hpieces, -⟩ | ⟨hwide, e, he⟩
      · have hroom : ¬∃ c ∈ value, limit < charUnits c := fun ⟨c, hc, hwide⟩ =>
          absurd (hall c hc) (not_le.2 hwide)
        rw [hpieces]
        simp [hroom, hlimit, bind, Except.bind, pure, Except.pure]
      · rw [he]
        simp [hwide, bind, Except.bind]

/-- What is returned is the pieces of a text, or these with the fences closed and opened again. -/
theorem chunkText_pieces {chunks : List (List Char)} (h : chunkText value limit = .ok chunks) :
    ∃ pieces, SplitsInto value pieces ∧ (chunks = pieces ∨
      List.Forall₂ Fenced pieces chunks ∧ ∀ chunk ∈ chunks.dropLast, FencesPaired chunk) := by
  unfold chunkText at h
  split at h
  · simp at h
  · split at h
    · rename_i hnil
      obtain rfl := Except.ok.inj h
      exact ⟨[[]], ⟨by simp [hnil], .inl rfl⟩, .inl rfl⟩
    · rename_i hvalue
      obtain ⟨pieces, hpieces, hchunks⟩ := bind_eq_ok.1 h
      obtain rfl := Except.ok.inj hchunks
      have hflatten := (takeChunks_spec le_rfl hpieces).2
      have hsplits : SplitsInto value pieces := by
        refine ⟨hflatten, .inr ⟨?_, ?_⟩⟩
        · rintro rfl
          exact hvalue hflatten.symm
        · rcases @takeChunks_result limit value _ le_rfl with ⟨-, taken, htaken, hne⟩ | ⟨-, e, he⟩
          · obtain rfl := Except.ok.inj (hpieces.symm.trans htaken)
            exact hne
          · simp [hpieces] at he
      refine ⟨pieces, hsplits, ?_⟩
      unfold preserveCodeFences
      split
      · exact .inl rfl
      · cases hfenced : fenceChunks limit false pieces with
        | none => exact .inl rfl
        | some fenced => exact .inr (fenceChunks_fenced hfenced)

end

/-- The text is split without loss, within the limit, and for good; a limit below zero is no
other than zero. -/
theorem chunkText_correct (value : List Char) (limit : ℤ) :
    (∀ fuel, value.length ≤ fuel →
      takeChunks limit.toNat fuel value = takeChunks limit.toNat value.length value) ∧
    ((∃ e, chunkText value limit.toNat = .error e) ↔
      limit < 1 ∨ limit = 1 ∧ ∃ c ∈ value, 0xffff < c.toNat) ∧
    (∀ chunks, chunkText value limit.toNat = .ok chunks →
      (∃ pieces, SplitsInto value pieces ∧ (chunks = pieces ∨
        List.Forall₂ Fenced pieces chunks ∧ ∀ chunk ∈ chunks.dropLast, FencesPaired chunk)) ∧
      ∀ chunk ∈ chunks, utf16Units chunk ≤ limit ∧ chunkText chunk limit.toNat = .ok [chunk]) ∧
    (∀ message parts part, TelegramAdapter.prepareOutbound message = .ok parts → part ∈ parts →
      TelegramAdapter.prepareOutbound part.stored = .ok [part.stored]) ∧
    ∀ message parts part, SlackAdapter.prepareOutbound message = .ok parts → part ∈ parts →
      SlackAdapter.prepareOutbound part.stored = .ok [part.stored] := by
  refine ⟨fun fuel hfuel => takeChunks_fuel hfuel, ?_, fun chunks h => ⟨chunkText_pieces h,
    fun chunk hchunk => ?_⟩, fun _ _ _ h hpart => (TelegramAdapter.prepareOutbound_single h hpart).1,
    fun _ _ _ h hpart => (SlackAdapter.prepareOutbound_single h hpart).1⟩
  · rw [chunkText_raises]
    exact or_congr (by omega) (and_congr_left fun _ => by omega)
  · have hle := chunkText_le h chunk hchunk
    have hlimit : 1 ≤ limit.toNat := by
      by_contra hbelow
      rw [chunkText, if_pos (by omega)] at h
      cases h
    exact ⟨by omega, chunkText_of_le hlimit hle⟩

theorem chunkText_correct_fenced :
    ∃ pieces, SplitsInto "```\nab cdefghi".toList pieces ∧
      (["```\nab \n```".toList, "```\ncdefghi".toList] = pieces ∨
        List.Forall₂ Fenced pieces ["```\nab \n```".toList, "```\ncdefghi".toList] ∧
          FencesPaired "```\nab \n```".toList) := by
  have hchunks : chunkText "```\nab cdefghi".toList 12 =
      .ok ["```\nab \n```".toList, "```\ncdefghi".toList] := by decide +kernel
  obtain ⟨-, -, hcorrect, -⟩ := chunkText_correct "```\nab cdefghi".toList 12
  obtain ⟨⟨pieces, hpieces, hfenced⟩, -⟩ := hcorrect _ hchunks
  exact ⟨pieces, hpieces, hfenced.imp_right fun ⟨hall, hparity⟩ =>
    ⟨hall, hparity _ List.mem_cons_self⟩⟩

end Polaris
