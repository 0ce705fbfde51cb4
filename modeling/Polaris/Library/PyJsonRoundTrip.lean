import Mathlib.Data.List.TakeWhile
import Polaris.Library.PyJson

namespace PyJson
open SortedDict PyVal

theorem hexValue_hexDigit : ∀ d, d < 16 → hexValue (hexDigit d) = some d := by decide

theorem hex4_low {n : ℕ} (h : n < 32) :
    hex4 '0' '0' (hexDigit (n / 16)) (hexDigit (n % 16)) = some n := by
  have hhi := hexValue_hexDigit (n / 16) (by omega)
  have hlo := hexValue_hexDigit (n % 16) (by omega)
  have hz : hexValue '0' = some 0 := by decide
  simp only [hex4, hz, hhi, hlo]
  simp only [Option.bind_eq_bind, Option.bind_some, Option.pure_def, Option.some.injEq]
  omega

def unitOf (c : Char) : Char ⊕ ℕ :=
  if escape c = ['\\', 'u', '0', '0', hexDigit (c.toNat / 16), hexDigit (c.toNat % 16)] then
    .inr c.toNat
  else .inl c

theorem readString_escape (c : Char) (cs : List Char) :
    readString (escape c ++ cs) = (readString cs).map fun p => (unitOf c :: p.1, p.2) := by
  unfold unitOf escape
  iterate 7 (split; · subst_vars; simp [readString, unescape])
  split
  · rename_i h
    simp [readString, hex4_low h]
  · rename_i hq hb _ _ _ _ _ hlow
    simp only [List.cons_append, List.nil_append]
    rw [readString]
    · simp [hlow]
    all_goals simp_all

theorem escape_of_ge {c : Char} (h : 32 ≤ c.toNat) : unitOf c = .inl c := by
  unfold unitOf escape
  iterate 7 (split; · subst_vars; simp)
  simp [Nat.not_lt.2 h]

theorem unitOf_inr {c : Char} {n : ℕ} (h : unitOf c = .inr n) : n = c.toNat ∧ n < 32 := by
  by_cases hc : 32 ≤ c.toNat
  · simp [escape_of_ge hc] at h
  · unfold unitOf at h
    split at h
    · exact ⟨by simpa using h.symm, by have := Sum.inr.inj h; omega⟩
    · simp at h

theorem unitOf_inl {c d : Char} (h : unitOf c = .inl d) : d = c := by
  unfold unitOf at h
  split at h
  · simp at h
  · exact (Sum.inl.inj h).symm

theorem joinUnits_units (cs : List Char) : joinUnits (cs.map unitOf) = some cs := by
  induction cs with
  | nil => rfl
  | cons c cs ih =>
      cases hc : unitOf c with
      | inl d =>
          simp [hc, joinUnits, ih, unitOf_inl hc]
      | inr n =>
          obtain ⟨rfl, hn⟩ := unitOf_inr hc
          have h1 : ¬ (0xd800 ≤ c.toNat ∧ c.toNat < 0xdc00) := by omega
          have h2 : ¬ (0xdc00 ≤ c.toNat ∧ c.toNat < 0xe000) := by omega
          have h3 : ¬ (0xd800 ≤ c.toNat ∧ c.toNat < 0xe000) := by omega
          rw [List.map_cons, hc]
          cases hs : cs.map unitOf with
          | nil =>
              obtain rfl : cs = [] := by simpa using hs
              simp [joinUnits, h3]
          | cons u us =>
              rw [hs] at ih
              cases u with
              | inl d => rw [joinUnits, if_neg h3, ih] <;> simp
              | inr m => rw [joinUnits, if_neg h1, if_neg h2, ih]; simp

theorem readString_stringText (cs rest : List Char) :
    readString (cs.flatMap escape ++ '"' :: rest) = some (cs.map unitOf, rest) := by
  induction cs with
  | nil => simp [readString]
  | cons c cs ih =>
      rw [List.flatMap_cons, List.append_assoc, readString_escape, ih]
      rfl

theorem parseString_stringText (s : String) (rest : List Char) :
    parseString (s.toList.flatMap escape ++ '"' :: rest) = some (s.toList, rest) := by
  simp [parseString, readString_stringText, joinUnits_units]

def EndsNumber (cs : List Char) : Prop := ∀ c ∈ cs.head?, isNumberChar c = false

theorem span_literal {literal rest : List Char} (hl : ∀ c ∈ literal, isNumberChar c = true)
    (hr : EndsNumber rest) :
    (literal ++ rest).takeWhile isNumberChar = literal ∧
      (literal ++ rest).dropWhile isNumberChar = rest := by
  rw [List.takeWhile_append_of_pos hl, List.dropWhile_append_of_pos hl]
  cases rest with
  | nil => simp
  | cons c cs =>
      have hc : isNumberChar c = false := hr c (by simp)
      simp [hc]

theorem digit_isNumberChar {c : Char} (h : c.isDigit = true) : isNumberChar c = true := by
  simp [isNumberChar, h]

theorem toDigits_digit (n : ℕ) : ∀ c ∈ Nat.toDigits 10 n, c.isDigit = true := fun _ hc =>
  Nat.isDigit_of_mem_toDigits (by decide) (by decide) hc

/-- Digits that end at a separator determine the number and what follows. -/
theorem digits_of_separator {c : Char} (hc : c.isDigit = false) {m n : ℕ} {x y : List Char}
    (h : Nat.toDigits 10 m ++ c :: x = Nat.toDigits 10 n ++ c :: y) : m = n ∧ x = y := by
  have htake : ∀ (k : ℕ) (z : List Char),
      (Nat.toDigits 10 k ++ c :: z).takeWhile Char.isDigit = Nat.toDigits 10 k := by
    intro k z
    rw [List.takeWhile_append_of_pos (by simpa using toDigits_digit k)]
    simp [hc]
  have hdigits := congrArg (List.takeWhile Char.isDigit) h
  rw [htake, htake] at hdigits
  have hvalue := congrArg (fun cs => Nat.ofDigitChars 10 cs 0) hdigits
  obtain rfl : m = n := by simpa only [Nat.ofDigitChars_ten_toDigits] using hvalue
  exact ⟨rfl, by simpa using h⟩

theorem isWhole_of_digits {c : Char} {cs : List Char} (hc : c.isDigit = true) (h0 : c ≠ '0')
    (hcs : ∀ d ∈ cs, d.isDigit = true) : isWhole (c :: cs) = true := by
  rw [isWhole.eq_def]
  split
  · simp_all
  · rfl
  · rename_i heq
    obtain ⟨rfl, rfl⟩ := heq
    simpa [hc, h0] using hcs

theorem digitChar_ne_zero : ∀ d, d < 10 → d ≠ 0 → Nat.digitChar d ≠ '0' := by decide

theorem toDigits_head {n : ℕ} (hn : n ≠ 0) :
    ∃ c cs, Nat.toDigits 10 n = c :: cs ∧ c ≠ '0' := by
  induction n using Nat.strong_induction_on with
  | _ n ih =>
      by_cases hlt : n < 10
      · exact ⟨_, [], Nat.toDigits_of_lt_base hlt, digitChar_ne_zero n hlt hn⟩
      · obtain ⟨c, cs, h, hc⟩ := ih (n / 10) (by omega) (by omega)
        refine ⟨c, cs ++ [Nat.digitChar (n % 10)], ?_, hc⟩
        rw [Nat.toDigits_of_base_le (by decide) (by omega), h, List.cons_append]

theorem toDigits_isWhole (n : ℕ) : isWhole (Nat.toDigits 10 n) = true := by
  by_cases hn : n = 0
  · subst hn; decide
  · obtain ⟨c, cs, h, hc⟩ := toDigits_head hn
    have hd := toDigits_digit n
    rw [h] at hd ⊢
    exact isWhole_of_digits (hd c (by simp)) hc fun d hd' => hd d (by simp [hd'])

theorem dropSign_of_digit {c : Char} {cs : List Char} (h : c.isDigit = true) :
    dropSign (c :: cs) = c :: cs := by
  rw [dropSign.eq_def]
  split
  · rename_i heq
    obtain ⟨rfl, rfl⟩ := heq
    simp at h
  · rfl

theorem integerValue_of_digit {c : Char} {cs : List Char} (h : c.isDigit = true) :
    integerValue (c :: cs) = (Nat.ofDigitChars 10 (c :: cs) 0 : ℤ) := by
  rw [integerValue.eq_def]
  split
  · rename_i heq
    obtain ⟨rfl, rfl⟩ := heq
    simp at h
  · rfl

theorem toDigits_cons (n : ℕ) : ∃ c cs, Nat.toDigits 10 n = c :: cs ∧ c.isDigit = true := by
  have hd := toDigits_digit n
  cases h : Nat.toDigits 10 n with
  | nil => exact absurd h Nat.toDigits_ne_nil
  | cons c cs => exact ⟨c, cs, rfl, hd c (by simp [h])⟩

theorem intText_spec (n : ℤ) : isInteger (intText n) = true ∧ integerValue (intText n) = n := by
  unfold intText
  split
  · refine ⟨by simpa [isInteger, dropSign] using toDigits_isWhole n.natAbs, ?_⟩
    simp only [integerValue, Nat.ofDigitChars_ten_toDigits]
    omega
  · obtain ⟨c, cs, h, hc⟩ := toDigits_cons n.natAbs
    have hw := toDigits_isWhole n.natAbs
    have hv := Nat.ofDigitChars_ten_toDigits (n := n.natAbs)
    rw [h] at hw hv ⊢
    rw [isInteger, dropSign_of_digit hc, integerValue_of_digit hc, hv]
    exact ⟨hw, by omega⟩

theorem intText_numberChars (n : ℤ) : ∀ c ∈ intText n, isNumberChar c = true := by
  intro c hc
  unfold intText at hc
  split at hc
  · rcases List.mem_cons.1 hc with rfl | hc
    · decide
    · exact digit_isNumberChar (toDigits_digit _ c hc)
  · exact digit_isNumberChar (toDigits_digit _ c hc)

theorem parseNumber_intText (n : ℤ) {rest : List Char} (hr : EndsNumber rest) :
    parseNumber (intText n ++ rest) = some (.int n, rest) := by
  obtain ⟨ht, hd⟩ := span_literal (intText_numberChars n) hr
  obtain ⟨hi, hv⟩ := intText_spec n
  simp [parseNumber, ht, hd, hi, hv]

theorem isExponent_numberChars {cs : List Char} (h : isExponent cs = true) :
    ∀ c ∈ cs, isNumberChar c = true := by
  unfold isExponent at h
  split at h <;> simp only [Bool.and_eq_true, List.all_eq_true] at h <;> intro c hc
  · rcases List.mem_cons.1 hc with rfl | hc
    · decide
    · exact digit_isNumberChar (h.2 c hc)
  · rcases List.mem_cons.1 hc with rfl | hc
    · decide
    · exact digit_isNumberChar (h.2 c hc)
  · exact digit_isNumberChar (h.2 c hc)

theorem marker_exponent_numberChars {c : Char} {cs : List Char}
    (h : (isMarker c && isExponent cs) = true) : ∀ d ∈ c :: cs, isNumberChar d = true := by
  simp only [Bool.and_eq_true] at h
  intro d hd
  rcases List.mem_cons.1 hd with rfl | hd
  · have hm : d = 'e' ∨ d = 'E' := by simpa [isMarker] using h.1
    rcases hm with rfl | rfl <;> decide
  · exact isExponent_numberChars h.2 d hd

theorem isFloatTail_numberChars {cs : List Char} (h : isFloatTail cs = true) :
    ∀ c ∈ cs, isNumberChar c = true := by
  unfold isFloatTail at h
  split at h
  · rename_i cs
    simp only [Bool.and_eq_true] at h
    intro c hc
    rcases List.mem_cons.1 hc with rfl | hc
    · decide
    · rw [← List.takeWhile_append_dropWhile (p := Char.isDigit) (l := cs), List.mem_append] at hc
      rcases hc with hc | hc
      · exact digit_isNumberChar (List.mem_takeWhile_imp hc)
      · have h2 := h.2
        split at h2
        · rename_i hnil; simp [hnil] at hc
        · rename_i heq; rw [heq] at hc; exact marker_exponent_numberChars h2 c hc
  · exact marker_exponent_numberChars h
  · simp at h

theorem isFloat_numberChars {cs : List Char} (h : isFloat cs = true) :
    ∀ c ∈ cs, isNumberChar c = true := by
  simp only [isFloat, Bool.and_eq_true] at h
  have hrest : ∀ c ∈ dropSign cs, isNumberChar c = true := by
    intro c hc
    rw [← List.takeWhile_append_dropWhile (p := Char.isDigit) (l := dropSign cs),
      List.mem_append] at hc
    rcases hc with hc | hc
    · exact digit_isNumberChar (List.mem_takeWhile_imp hc)
    · exact isFloatTail_numberChars h.2 c hc
  intro c hc
  rw [dropSign.eq_def] at hrest
  split at hrest
  · rcases List.mem_cons.1 hc with rfl | hc
    · decide
    · exact hrest c hc
  · exact hrest c hc

theorem isWhole_digits {cs : List Char} (h : isWhole cs = true) : ∀ c ∈ cs, c.isDigit = true := by
  unfold isWhole at h
  split at h
  · simp at h
  · simp
  · simp only [Bool.and_eq_true, List.all_eq_true] at h
    intro c hc
    rcases List.mem_cons.1 hc with rfl | hc
    · exact h.1.1
    · exact h.2 c hc

theorem isFloat_not_isInteger {cs : List Char} (h : isFloat cs = true) : isInteger cs = false := by
  by_contra hi
  have hd := isWhole_digits (by simpa [isInteger] using hi : isWhole (dropSign cs) = true)
  simp only [isFloat, Bool.and_eq_true] at h
  have hnil : (dropSign cs).dropWhile Char.isDigit = [] := List.dropWhile_eq_nil_iff.2 hd
  simp [hnil, isFloatTail] at h

theorem parseNumber_float (literal : FloatLiteral) {rest : List Char} (hr : EndsNumber rest) :
    parseNumber (literal.chars ++ rest) = some (.float (.finite literal), rest) := by
  obtain ⟨ht, hd⟩ := span_literal (isFloat_numberChars literal.wellFormed) hr
  have hi := isFloat_not_isInteger literal.wellFormed
  unfold parseNumber
  simp only [ht, hd, hi, Bool.false_eq_true, if_false, literal.wellFormed, dif_pos]

def OpensNumber : List Char → Prop
  | c :: cs => c.isDigit = true ∨ c = '-' ∧ ∃ d ds, cs = d :: ds ∧ d.isDigit = true
  | [] => False

theorem opensNumber_of_digit {cs ds : List Char} {d : Char} (hd : dropSign cs = d :: ds)
    (hdig : d.isDigit = true) : OpensNumber cs := by
  rw [dropSign.eq_def] at hd
  split at hd
  · exact .inr ⟨rfl, d, ds, hd, hdig⟩
  · rw [hd]; exact .inl hdig

theorem intText_opens (n : ℤ) : OpensNumber (intText n) := by
  have hw : isWhole (dropSign (intText n)) = true := (intText_spec n).1
  cases hd : dropSign (intText n) with
  | nil => simp [hd, isWhole] at hw
  | cons d ds => exact opensNumber_of_digit hd (isWhole_digits hw d (by simp [hd]))

theorem float_opens (literal : FloatLiteral) : OpensNumber literal.chars := by
  have h := literal.wellFormed
  simp only [isFloat, Bool.and_eq_true] at h
  cases hd : dropSign literal.chars with
  | nil => simp [hd, isWhole] at h
  | cons d ds =>
      by_cases hdig : d.isDigit = true
      · exact opensNumber_of_digit hd hdig
      · simp [hd, hdig, isWhole] at h

theorem keyword_of_opensNumber {cs : List Char} (h : OpensNumber cs) (rest : List Char) :
    keyword (cs ++ rest) = none := by
  have hdig : ∀ c : Char, c.isDigit = true →
      c ≠ 'n' ∧ c ≠ 't' ∧ c ≠ 'f' ∧ c ≠ 'N' ∧ c ≠ 'I' ∧ c ≠ '-' := by
    intro c hc
    refine ⟨?_, ?_, ?_, ?_, ?_, ?_⟩ <;> (rintro rfl; revert hc; decide)
  cases cs with
  | nil => exact absurd h id
  | cons c cs =>
      rw [keyword.eq_def]
      rcases h with hc | ⟨rfl, d, ds, rfl, hd⟩
      · obtain ⟨h1, h2, h3, h4, h5, h6⟩ := hdig c hc
        split <;> simp_all
      · obtain ⟨-, -, -, -, h5, -⟩ := hdig d hd
        split <;> simp_all

theorem parseValue_number {cs : List Char} (h : OpensNumber cs) (n : ℕ) (rest : List Char) :
    parseValue (n + 1) (cs ++ rest) = parseNumber (cs ++ rest) := by
  have hk := keyword_of_opensNumber h rest
  cases cs with
  | nil => exact absurd h id
  | cons c cs =>
      have hne : c ≠ '"' ∧ c ≠ '[' ∧ c ≠ '{' := by
        rcases h with hc | ⟨rfl, -⟩
        · refine ⟨?_, ?_, ?_⟩ <;> (rintro rfl; revert hc; decide)
        · decide
      rw [List.cons_append] at hk ⊢
      simp [parseValue, hne, hk]

theorem parseValue_keyword {c : Char} {cs rest : List Char} {v : PyVal}
    (hc : c ≠ '"' ∧ c ≠ '[' ∧ c ≠ '{') (h : keyword (c :: cs) = some (v, rest)) (n : ℕ) :
    parseValue (n + 1) (c :: cs) = some (v, rest) := by
  simp [parseValue, hc, h]

def OpensValue (cs : List Char) : Prop :=
  ∃ c rest, cs = c :: rest ∧ isBlank c = false ∧ c ≠ ']' ∧ c ≠ '}'

theorem OpensValue.append {cs : List Char} (h : OpensValue cs) (rest : List Char) :
    OpensValue (cs ++ rest) := by
  obtain ⟨c, cs, rfl, hc⟩ := h
  exact ⟨c, cs ++ rest, rfl, hc⟩

theorem OpensValue.skipBlanks {cs : List Char} (h : OpensValue cs) : skipBlanks cs = cs := by
  obtain ⟨c, cs, rfl, hc, -⟩ := h
  simp [PyJson.skipBlanks, hc]

theorem OpensNumber.opensValue {cs : List Char} (h : OpensNumber cs) : OpensValue cs := by
  cases cs with
  | nil => exact absurd h id
  | cons c cs =>
      refine ⟨c, cs, rfl, ?_⟩
      rcases h with hc | ⟨rfl, -⟩
      · refine ⟨?_, ?_, ?_⟩
        · by_contra hb
          simp only [isBlank, Bool.not_eq_false, Bool.or_eq_true, beq_iff_eq] at hb
          rcases hb with ((rfl | rfl) | rfl) | rfl <;> revert hc <;> decide
        · rintro rfl; revert hc; decide
        · rintro rfl; revert hc; decide
      · decide

theorem text_opens : ∀ v : PyVal, OpensValue (text v)
  | .null => ⟨'n', _, rfl, by decide⟩
  | .bool true => ⟨'t', _, rfl, by decide⟩
  | .bool false => ⟨'f', _, rfl, by decide⟩
  | .int n => by rw [text]; exact (intText_opens n).opensValue
  | .float (.finite literal) => by rw [text, floatText]; exact (float_opens literal).opensValue
  | .float .nan => ⟨'N', _, rfl, by decide⟩
  | .float (.inf false) => ⟨'I', _, rfl, by decide⟩
  | .float (.inf true) => ⟨'-', _, rfl, by decide⟩
  | .str s => ⟨'"', _, rfl, by decide⟩
  | .seq _ [] => ⟨'[', _, rfl, by decide⟩
  | .seq _ (_ :: _) => ⟨'[', _, rfl, by decide⟩
  | .map _ [] => ⟨'{', _, rfl, by decide⟩
  | .map _ (_ :: _) => ⟨'{', _, rfl, by decide⟩

theorem itemsText_endsNumber (xs : List PyVal) (rest : List Char) :
    EndsNumber (itemsText xs ++ rest) := by
  cases xs <;> simp [itemsText, EndsNumber, isNumberChar]

theorem entriesText_endsNumber (es : List (String × PyVal)) (rest : List Char) :
    EndsNumber (entriesText es ++ rest) := by
  cases es <;> simp [entriesText, EndsNumber, isNumberChar]

theorem itemsText_skipBlanks (xs : List PyVal) (rest : List Char) :
    skipBlanks (itemsText xs ++ rest) = itemsText xs ++ rest := by
  cases xs <;> simp [itemsText, skipBlanks, isBlank]

theorem entriesText_skipBlanks (es : List (String × PyVal)) (rest : List Char) :
    skipBlanks (entriesText es ++ rest) = entriesText es ++ rest := by
  cases es <;> simp [entriesText, skipBlanks, isBlank]

def Reads (v : PyVal) : Prop := ∀ (n : ℕ) (rest : List Char), (text v).length ≤ n →
  EndsNumber rest → parseValue (n + 1) (text v ++ rest) = some (v, rest)

theorem Reads.first {x : PyVal} (h : Reads x) {n : ℕ} {tail rest : List Char}
    (hn : (text x ++ tail).length ≤ n) (htail : EndsNumber (tail ++ rest)) (hpos : tail ≠ []) :
    parseValue n (text x ++ (tail ++ rest)) = some (x, tail ++ rest) := by
  have hlen := List.length_pos_iff.2 hpos
  rw [List.length_append] at hn
  obtain ⟨m, rfl⟩ : ∃ m, n = m + 1 := ⟨n - 1, by omega⟩
  exact h m _ (by omega) htail

theorem itemsText_ne_nil (xs : List PyVal) : itemsText xs ≠ [] := by
  cases xs <;> simp [itemsText]

theorem entriesText_ne_nil (es : List (String × PyVal)) : entriesText es ≠ [] := by
  cases es <;> simp [entriesText]

mutual
theorem reads_of_isNormal : ∀ v : PyVal, IsNormal v → Reads v
  | .null, _ => fun n _ _ _ => parseValue_keyword (by decide) rfl n
  | .bool true, _ => fun n _ _ _ => parseValue_keyword (by decide) rfl n
  | .bool false, _ => fun n _ _ _ => parseValue_keyword (by decide) rfl n
  | .int i, _ => fun n rest _ hr => by
      rw [text, parseValue_number (intText_opens i), parseNumber_intText i hr]
  | .float (.finite literal), _ => fun n rest _ hr => by
      rw [text, floatText, parseValue_number (float_opens literal), parseNumber_float literal hr]
  | .float .nan, _ => fun n _ _ _ => parseValue_keyword (by decide) rfl n
  | .float (.inf false), _ => fun n _ _ _ => parseValue_keyword (by decide) rfl n
  | .float (.inf true), _ => fun n _ _ _ => parseValue_keyword (by decide) rfl n
  | .str s, _ => fun n rest _ _ => by
      have h := parseString_stringText s rest
      simp [text, stringText, parseValue, h]
  | .seq k [], hv => fun n rest _ _ => by
      obtain rfl : k = .list := hv.1
      simp [text, parseValue, skipBlanks, isBlank]
  | .seq k (x :: xs), hv => fun n rest hn _ => by
      obtain rfl : k = .list := hv.1
      simp only [text, List.length_cons] at hn
      obtain ⟨m, rfl⟩ : ∃ m, n = m + 1 := ⟨n - 1, by omega⟩
      have hitems := parseItems_text xs hv.2.2 x m rest (reads_of_isNormal x hv.2.1) (by omega)
      have hopens := (text_opens x).append (itemsText xs ++ rest)
      have hskip := hopens.skipBlanks
      obtain ⟨c, cs, hc, -, hs, -⟩ := hopens
      simp only [text, List.cons_append, List.append_assoc, parseValue]
      rw [hskip]
      rw [hc] at hitems ⊢
      simp [hs, hitems]
  | .map k [], hv => fun n rest _ _ => by
      obtain rfl : k = .dict := hv.1
      simp [text, parseValue, skipBlanks, isBlank]
  | .map k ((l, x) :: es), hv => fun n rest hn _ => by
      obtain rfl : k = .dict := hv.1
      simp only [text, List.length_cons] at hn
      obtain ⟨m, rfl⟩ : ∃ m, n = m + 1 := ⟨n - 1, by omega⟩
      have hentries := parseEntries_text es hv.2.2.2 l x m rest
        (reads_of_isNormal x hv.2.2.1) (by omega)
      have hsorted := ofPairs_of_sorted hv.2.1
      simp only [stringText, List.cons_append, List.append_assoc, List.nil_append] at hentries
      simp [text, stringText, parseValue, skipBlanks, isBlank, hentries, hsorted]
theorem parseItems_text : ∀ xs : List PyVal, AllNormal xs → ∀ (x : PyVal) (n : ℕ)
    (rest : List Char), Reads x → (text x ++ itemsText xs).length ≤ n →
    parseItems (n + 1) (text x ++ (itemsText xs ++ rest)) = some (x :: xs, rest)
  | [], _ => fun x n rest hx hn => by
      rw [parseItems, hx.first hn (itemsText_endsNumber _ rest) (itemsText_ne_nil _)]
      simp [itemsText, skipBlanks, isBlank]
  | y :: ys, hys => fun x n rest hx hn => by
      have h := hx.first hn (itemsText_endsNumber _ rest) (itemsText_ne_nil _)
      simp only [itemsText, List.length_append, List.length_cons] at hn
      obtain ⟨m, rfl⟩ : ∃ m, n = m + 1 := ⟨n - 1, by omega⟩
      have hrest := parseItems_text ys hys.2 y m rest (reads_of_isNormal y hys.1) (by
        simp only [List.length_append]; omega)
      have hskip := ((text_opens y).append (itemsText ys ++ rest)).skipBlanks
      rw [parseItems, h]
      simp only [Option.bind_eq_bind, Option.bind_some]
      rw [itemsText_skipBlanks]
      simp only [itemsText, List.cons_append, List.append_assoc]
      rw [hskip, hrest]
      simp
theorem parseEntries_text : ∀ es : List (String × PyVal), EntriesNormal es → ∀ (k : String)
    (x : PyVal) (n : ℕ) (rest : List Char), Reads x →
    (stringText k ++ ':' :: (text x ++ entriesText es)).length ≤ n →
    parseEntries (n + 1) (stringText k ++ ':' :: (text x ++ (entriesText es ++ rest))) =
      some ((k, x) :: es, rest)
  | [], _ => fun k x n rest hx hn => by
      have h := @Reads.first x hx n _ _ (by simp only [List.length_append, List.length_cons] at hn ⊢; omega)
        (entriesText_endsNumber [] rest) (entriesText_ne_nil _)
      have hk := parseString_stringText k (':' :: (text x ++ (entriesText [] ++ rest)))
      have hskip := ((text_opens x).append (entriesText [] ++ rest)).skipBlanks
      simp only [stringText, List.cons_append, List.append_assoc, List.nil_append, parseEntries]
      rw [hk]
      simp only [Option.bind_eq_bind, Option.bind_some]
      rw [show skipBlanks (':' :: (text x ++ (entriesText [] ++ rest))) =
        ':' :: (text x ++ (entriesText [] ++ rest)) by simp [skipBlanks, isBlank]]
      simp only
      rw [hskip, h]
      simp [entriesText, skipBlanks, isBlank]
  | (l, y) :: es, hes => fun k x n rest hx hn => by
      have h := @Reads.first x hx n _ _ (by simp only [List.length_append, List.length_cons] at hn ⊢; omega)
        (entriesText_endsNumber ((l, y) :: es) rest) (entriesText_ne_nil _)
      simp only [stringText, entriesText, List.length_append, List.length_cons] at hn
      obtain ⟨m, rfl⟩ : ∃ m, n = m + 1 := ⟨n - 1, by omega⟩
      have hrest := parseEntries_text es hes.2 l y m rest (reads_of_isNormal y hes.1) (by
        simp only [stringText, List.length_append, List.length_cons]; omega)
      have hk := parseString_stringText k
        (':' :: (text x ++ (entriesText ((l, y) :: es) ++ rest)))
      have hskip := ((text_opens x).append (entriesText ((l, y) :: es) ++ rest)).skipBlanks
      have hl : skipBlanks (stringText l ++ ':' :: (text y ++ (entriesText es ++ rest))) =
          stringText l ++ ':' :: (text y ++ (entriesText es ++ rest)) := by
        simp [stringText, skipBlanks, isBlank]
      simp only [stringText, List.cons_append, List.append_assoc, List.nil_append, parseEntries]
      rw [hk]
      simp only [Option.bind_eq_bind, Option.bind_some]
      rw [show skipBlanks (':' :: (text x ++ (entriesText ((l, y) :: es) ++ rest))) =
        ':' :: (text x ++ (entriesText ((l, y) :: es) ++ rest)) by simp [skipBlanks, isBlank]]
      simp only
      rw [hskip, h]
      simp only [Option.bind_some]
      rw [entriesText_skipBlanks]
      simp only [entriesText, List.cons_append, List.append_assoc]
      rw [hl, hrest]
      simp
end

theorem parseValue_normal (v : PyVal) :
    parseValue ((text v.normal).length + 1) (skipBlanks (text v.normal)) = some (v.normal, []) := by
  have h := reads_of_isNormal v.normal (normal_isNormal v) _ [] le_rfl (by simp [EndsNumber])
  rw [(text_opens v.normal).skipBlanks]
  simpa using h

theorem loads_dumps {v : PyVal} {s : String} (h : dumps v = some s) : loads s = some v.normal := by
  unfold dumps at h
  split at h
  · obtain rfl := Option.some.inj h
    unfold loads
    rw [String.toList_ofList, parseValue_normal]
    rfl
  · simp at h

theorem dumps_inj {v w : PyVal} {s t : String} (hv : dumps v = some s) (hw : dumps w = some t) :
    s = t ↔ v.normal = w.normal := by
  constructor
  · rintro rfl
    exact Option.some.inj ((loads_dumps hv).symm.trans (loads_dumps hw))
  · intro h
    unfold dumps at hv hw
    split at hv <;> split at hw <;> simp_all

end PyJson
