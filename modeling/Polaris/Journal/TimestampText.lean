import Polaris.Journal.Timestamps

namespace Polaris
open FixedWidth Replace

theorem toList_padded {width n : ℕ} (hwidth : 0 < width) (hn : n < 10 ^ width) :
    (padded width n).toList = digits width n := by
  rw [padded, String.toList_ofList, padded_digits hwidth hn]

def fractionChars (timespec : Timespec) (t : Timestamp) : List Char :=
  if timespec = .auto ∧ t % 1000000 = 0 then [] else '.' :: digits 6 (t % 1000000)

theorem toList_wallText {t : Timestamp} (ht : t < timestampLimit) (timespec : Timespec) :
    (wallText timespec t).toList = wallChars t (fractionChars timespec t) := by
  obtain ⟨year, month, day, hdate⟩ := exists_isDate (t / microsecondsPerDay)
  obtain ⟨hyear, hmonth, hday⟩ := hdate.bounds (day_lt ht)
  have hseconds := secondsOfDay_lt t
  have hfraction : (if timespec = .auto ∧ t % 1000000 = 0 then "" else
      "." ++ padded 6 (t % 1000000)).toList = fractionChars timespec t := by
    unfold fractionChars
    split
    · rfl
    · rw [String.toList_append, toList_padded (by omega) (by omega)]
      rfl
  unfold wallText wallChars
  rw [hdate.dateOfDay]
  dsimp only
  change _ = dateChars _ ('T' :: clockChars (secondsOfDay t) _)
  rw [← secondsOfDay]
  simp only [String.toList_append]
  rw [hfraction, toList_padded (by omega) hyear, toList_padded (by omega) hmonth,
    toList_padded (by omega) hday, toList_padded (by omega) (by omega),
    toList_padded (by omega) (by omega), toList_padded (by omega) (by omega)]
  simp [dateChars, clockChars]

def offsetChars (offset : ℤ) : List Char :=
  let n := offset.natAbs
  (if offset < 0 then '-' else '+') :: (digits 2 (n / 3600000000) ++
    ':' :: (digits 2 (n / 60000000 % 60) ++
      if n % 60000000 = 0 then [] else
        ':' :: (digits 2 (n / 1000000 % 60) ++
          if n % 1000000 = 0 then [] else '.' :: digits 6 (n % 1000000))))

theorem toList_offsetText {offset : ℤ} (h : offset.natAbs < microsecondsPerDay) :
    (offsetText offset).toList = offsetChars offset := by
  unfold microsecondsPerDay at h
  unfold offsetText offsetChars
  simp only [String.toList_append]
  have hseconds : (padded 2 (offset.natAbs / 1000000 % 60)).toList =
      digits 2 (offset.natAbs / 1000000 % 60) := toList_padded (by omega) (by omega)
  have hmicroseconds : (padded 6 (offset.natAbs % 1000000)).toList =
      digits 6 (offset.natAbs % 1000000) := toList_padded (by omega) (by omega)
  rw [toList_padded (by omega) (by omega), toList_padded (by omega) (by omega)]
  split_ifs <;> simp [hseconds, hmicroseconds]

/-! The texts are read as they were written. -/

/-- What follows does not go on with the time. -/
def EndsClock (rest : List Char) : Prop :=
  ∀ c ∈ rest.head?, c.isDigit = false ∧ c ≠ '.' ∧ c ≠ ',' ∧ c ≠ ':'

theorem readFraction_end {fields : TimeFields} {rest : List Char} (h : EndsClock rest) :
    readFraction fields rest = some (fields, rest) := by
  cases rest with
  | nil => rfl
  | cons c cs =>
      obtain ⟨-, hdot, hcomma, -⟩ := h c rfl
      rw [readFraction, if_neg (by simp [hdot, hcomma])]

theorem readFraction_digits {fields : TimeFields} {rest : List Char} {fraction : ℕ}
    (hfraction : fraction < 10 ^ 6) (h : EndsClock rest) :
    readFraction fields ('.' :: (digits 6 fraction ++ rest)) =
      some ({ fields with fraction := fraction }, rest) := by
  have hall : ∀ c ∈ digits 6 fraction, c.isDigit = true := fun c hc => isDigit_of_mem hc
  have htake : (digits 6 fraction ++ rest).takeWhile Char.isDigit = digits 6 fraction ∧
      (digits 6 fraction ++ rest).dropWhile Char.isDigit = rest := by
    rw [List.takeWhile_append_of_pos hall, List.dropWhile_append_of_pos hall]
    cases rest with
    | nil => simp
    | cons c cs => simp [(h c rfl).1]
  have hlength : (digits 6 fraction).length = 6 := digits_length 6 fraction
  have hne : digits 6 fraction ≠ [] := by
    intro hnil
    rw [hnil] at hlength
    simp at hlength
  have hsix : (digits 6 fraction ++ List.replicate 6 '0').take 6 = digits 6 fraction := by
    rw [List.take_append_of_le_length hlength.ge, List.take_of_length_le hlength.le]
  rw [readFraction, if_pos (.inl rfl)]
  dsimp only
  rw [htake.1, htake.2, if_neg hne, hsix, value_digits hfraction]

theorem readTime_clockChars {n : ℕ} (hn : n < 86400) {rest : List Char} :
    readTime (clockChars n rest) =
      readFraction ⟨n / 3600, n / 60 % 60, n % 60, 0⟩ rest := by
  unfold readTime clockChars
  rw [readDigits_digits (by omega)]
  simp only [Option.bind_eq_bind, Option.bind_some]
  rw [readDigits_digits (by omega)]
  simp only [Option.bind_some, readSecond, Option.bind_eq_bind]
  rw [readDigits_digits (by omega)]
  rfl

theorem readTime_wall {t : Timestamp} {timespec : Timespec} {rest : List Char} (h : EndsClock rest) :
    readTime (clockChars (secondsOfDay t) (fractionChars timespec t ++ rest)) =
      some (⟨secondsOfDay t / 3600, secondsOfDay t / 60 % 60, secondsOfDay t % 60, t % 1000000⟩,
        rest) := by
  rw [readTime_clockChars (secondsOfDay_lt t), fractionChars]
  split
  · rename_i hzero
    rw [List.nil_append, readFraction_end h, hzero.2]
  · rw [List.cons_append, readFraction_digits (by omega) h]

theorem readOffset_offsetChars {offset : ℤ} (h : offset.natAbs < microsecondsPerDay) :
    readOffset (offsetChars offset) = some (some offset) := by
  unfold microsecondsPerDay at h
  have hread : ∀ n : ℕ, n < 86400000000 → readTime (digits 2 (n / 3600000000) ++
      ':' :: (digits 2 (n / 60000000 % 60) ++
        if n % 60000000 = 0 then [] else
          ':' :: (digits 2 (n / 1000000 % 60) ++
            if n % 1000000 = 0 then [] else '.' :: digits 6 (n % 1000000)))) =
      some (⟨n / 3600000000, n / 60000000 % 60, n / 1000000 % 60, n % 1000000⟩, []) := by
    intro n hn
    unfold readTime
    rw [readDigits_digits (by omega)]
    simp only [Option.bind_eq_bind, Option.bind_some]
    rw [readDigits_digits (by omega)]
    simp only [Option.bind_some]
    split
    · have hsecond : n / 1000000 % 60 = 0 := by omega
      have hfraction : n % 1000000 = 0 := by omega
      rw [readSecond, hsecond, hfraction]
      simp
    · simp only [readSecond, Option.bind_eq_bind]
      rw [readDigits_digits (by omega)]
      simp only [Option.bind_some]
      split
      · rename_i hfraction
        rw [hfraction]
        rfl
      · have hdigits := @readFraction_digits
          ⟨n / 3600000000, n / 60000000 % 60, n / 1000000 % 60, 0⟩ [] (n % 1000000) (by omega)
          (by simp [EndsClock])
        rwa [List.append_nil] at hdigits
  have hvalue : ((TimeFields.mk (offset.natAbs / 3600000000) (offset.natAbs / 60000000 % 60)
      (offset.natAbs / 1000000 % 60) (offset.natAbs % 1000000)).microseconds : ℕ) =
        offset.natAbs := by
    unfold TimeFields.microseconds
    dsimp only
    omega
  unfold readOffset offsetChars
  dsimp only
  by_cases hneg : offset < 0
  · simp only [hneg, if_true]
    rw [if_neg fun hz => absurd hz.1 (by decide), if_pos (by decide), hread _ h]
    simp only [Option.bind_eq_bind, Option.bind_some, if_true, hvalue]
    congr 2
    omega
  · simp only [hneg, if_false]
    rw [if_neg fun hz => absurd hz.1 (by decide), if_pos (by decide), hread _ h]
    simp only [Option.bind_eq_bind, Option.bind_some, if_true, hvalue]
    congr 2
    simp
    omega

end Polaris
