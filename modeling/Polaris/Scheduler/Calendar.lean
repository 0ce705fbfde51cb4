import Mathlib.Tactic.IntervalCases
import Polaris.Journal.Codec

namespace Polaris

/-! Days by their year, month and day. -/

def daysBeforeYear (year : ℕ) : ℕ :=
  365 * (year - 1) + (year - 1) / 4 - (year - 1) / 100 + (year - 1) / 400

def yearLength (year : ℕ) : ℕ := if isLeapYear year then 366 else 365

/-- The day that a year, a month and a day name, where both months and days count from zero. -/
def dayOf (year month day : ℕ) : ℕ :=
  daysBeforeYear year + ((monthLengths year).take month).sum + day

theorem isLeapYear_iff {year : ℕ} :
    isLeapYear year = true ↔ year % 4 = 0 ∧ (year % 100 ≠ 0 ∨ year % 400 = 0) := by
  simp [isLeapYear]

theorem yearLength_of {year : ℕ} :
    (yearLength year = 366 ∧ year % 4 = 0 ∧ (year % 100 ≠ 0 ∨ year % 400 = 0)) ∨
      (yearLength year = 365 ∧ ¬(year % 4 = 0 ∧ (year % 100 ≠ 0 ∨ year % 400 = 0))) := by
  rw [← isLeapYear_iff]
  unfold yearLength
  cases isLeapYear year <;> simp

theorem daysBeforeYear_succ {year : ℕ} (h : 1 ≤ year) :
    daysBeforeYear (year + 1) = daysBeforeYear year + yearLength year := by
  obtain ⟨n, rfl⟩ : ∃ n, year = n + 1 := ⟨year - 1, by omega⟩
  have h4 : (n + 1) / 4 = n / 4 + if (n + 1) % 4 = 0 then 1 else 0 := by split <;> omega
  have h100 : (n + 1) / 100 = n / 100 + if (n + 1) % 100 = 0 then 1 else 0 := by split <;> omega
  have h400 : (n + 1) / 400 = n / 400 + if (n + 1) % 400 = 0 then 1 else 0 := by split <;> omega
  have hlength := @yearLength_of (n + 1)
  have hle : n / 100 ≤ n / 4 := by omega
  have hcentury : (n + 1) % 100 = 0 → (n + 1) % 4 = 0 := by omega
  have hera : (n + 1) % 400 = 0 → (n + 1) % 100 = 0 := by omega
  simp only [daysBeforeYear, Nat.add_sub_cancel, h4, h100, h400]
  generalize n / 4 = q4 at *
  generalize n / 100 = q100 at *
  generalize n / 400 = q400 at *
  generalize (n + 1) % 4 = r4 at *
  generalize (n + 1) % 100 = r100 at *
  generalize (n + 1) % 400 = r400 at *
  split_ifs <;> omega

theorem exists_year (day : ℕ) :
    ∃ year rest, 1 ≤ year ∧ rest < yearLength year ∧ day = daysBeforeYear year + rest := by
  induction day with
  | zero => exact ⟨1, 0, le_rfl, by decide, rfl⟩
  | succ day ih =>
      obtain ⟨year, rest, hyear, hrest, rfl⟩ := ih
      by_cases hlast : rest + 1 < yearLength year
      · exact ⟨year, rest + 1, hyear, hlast, rfl⟩
      · refine ⟨year + 1, 0, by omega, ?_, ?_⟩
        · have hlength := @yearLength_of (year + 1)
          omega
        · rw [daysBeforeYear_succ hyear]
          omega

theorem dateOfDay_of {year rest : ℕ} (hyear : 1 ≤ year) (hrest : rest < yearLength year) :
    dateOfDay (daysBeforeYear year + rest) = (year, monthAndDay (monthLengths year) rest) := by
  obtain ⟨a, b, c, d, hb, hc, hd, rfl⟩ : ∃ a b c d, b < 4 ∧ c < 25 ∧ d < 4 ∧
      year = 400 * a + 100 * b + 4 * c + d + 1 :=
    ⟨(year - 1) / 400, (year - 1) % 400 / 100, (year - 1) % 100 / 4, (year - 1) % 4, by omega,
      by omega, by omega, by omega⟩
  have hlength : rest < 365 ∨ rest = 365 ∧ d = 3 ∧ (c ≠ 24 ∨ b = 3) := by
    have hlength := @yearLength_of (400 * a + 100 * b + 4 * c + d + 1)
    omega
  have hbefore : daysBeforeYear (400 * a + 100 * b + 4 * c + d + 1) =
      146097 * a + 36524 * b + 1461 * c + 365 * d := by
    unfold daysBeforeYear
    omega
  generalize hday : daysBeforeYear (400 * a + 100 * b + 4 * c + d + 1) + rest = day
  rw [hbefore] at hday
  have h400 : day / 146097 = a := by omega
  have hera : day % 146097 = 36524 * b + 1461 * c + 365 * d + rest := by omega
  have h100 : min 3 (day % 146097 / 36524) = b := by omega
  have hcentury : day % 146097 - b * 36524 = 1461 * c + 365 * d + rest := by omega
  have h4 : (1461 * c + 365 * d + rest) / 1461 = c := by omega
  have hcycle : (1461 * c + 365 * d + rest) % 1461 = 365 * d + rest := by omega
  have h1 : min 3 ((365 * d + rest) / 365) = d := by omega
  have hyearDay : 365 * d + rest - d * 365 = rest := by omega
  have hyears : a * 400 + b * 100 + c * 4 + d + 1 = 400 * a + 100 * b + 4 * c + d + 1 := by omega
  simp only [dateOfDay, h400, h100, hcentury, h4, hcycle, h1, hyearDay, hyears]

/-! Months. -/

theorem monthAndDay_take {lengths : List ℕ} {month day : ℕ} (hmonth : month < lengths.length)
    (hday : day < lengths[month]) :
    monthAndDay lengths ((lengths.take month).sum + day) = (month + 1, day + 1) := by
  induction lengths generalizing month with
  | nil => simp at hmonth
  | cons length lengths ih =>
      cases month with
      | zero =>
          simp only [List.getElem_cons_zero] at hday
          simp [monthAndDay, hday]
      | succ month =>
          simp only [List.length_cons, List.getElem_cons_succ] at hmonth hday
          have hrest := ih (Nat.lt_of_succ_lt_succ hmonth) hday
          rw [List.take_succ_cons, List.sum_cons, monthAndDay, if_neg (by omega), Nat.add_assoc,
            Nat.add_sub_cancel_left, hrest]

theorem exists_month {lengths : List ℕ} {day : ℕ} (h : day < lengths.sum) :
    ∃ month rest, ∃ hmonth : month < lengths.length, rest < lengths[month] ∧
      day = (lengths.take month).sum + rest := by
  induction lengths generalizing day with
  | nil => simp at h
  | cons length lengths ih =>
      by_cases hfirst : day < length
      · exact ⟨0, day, by simp, by simpa using hfirst, by simp⟩
      · rw [List.sum_cons] at h
        obtain ⟨month, rest, hmonth, hrest, hday⟩ := @ih (day - length) (by omega)
        refine ⟨month + 1, rest, by simpa using hmonth, by simpa using hrest, ?_⟩
        rw [List.take_succ_cons, List.sum_cons]
        omega

theorem monthLengths_sum {year : ℕ} : (monthLengths year).sum = yearLength year := by
  unfold monthLengths yearLength
  cases isLeapYear year <;> rfl

theorem monthLengths_length {year : ℕ} : (monthLengths year).length = 12 := rfl

/-- Only the second month depends on the year, and no month has fewer than 28 days. -/
theorem monthLengths_get {year month : ℕ} (h : month < (monthLengths year).length) :
    28 ≤ (monthLengths year)[month] ∧ ∀ year' (h' : month < (monthLengths year').length),
      month ≠ 1 → (monthLengths year')[month] = (monthLengths year)[month] := by
  rw [monthLengths_length] at h
  interval_cases month
  all_goals refine ⟨?_, fun year' h' hmonth => ?_⟩
  all_goals first | exact absurd rfl hmonth | rfl | simp [monthLengths]
  split <;> omega

theorem take_sum_add_lt {year month day : ℕ} (hmonth : month < (monthLengths year).length)
    (hday : day < (monthLengths year)[month]) :
    ((monthLengths year).take month).sum + day < yearLength year := by
  have hsplit := congrArg List.sum (List.take_append_drop month (monthLengths year))
  rw [List.sum_append, List.drop_eq_getElem_cons hmonth, List.sum_cons, monthLengths_sum] at hsplit
  omega

theorem dateOfDay_dayOf {year month day : ℕ} (hyear : 1 ≤ year)
    (hmonth : month < (monthLengths year).length) (hday : day < (monthLengths year)[month]) :
    dateOfDay (dayOf year month day) = (year, month + 1, day + 1) := by
  rw [dayOf, Nat.add_assoc, dateOfDay_of hyear (take_sum_add_lt hmonth hday),
    monthAndDay_take hmonth hday]

theorem exists_dayOf (n : ℕ) : ∃ year month day, 1 ≤ year ∧
    ∃ hmonth : month < (monthLengths year).length, day < (monthLengths year)[month] ∧
      n = dayOf year month day := by
  obtain ⟨year, rest, hyear, hrest, rfl⟩ := exists_year n
  rw [← monthLengths_sum] at hrest
  obtain ⟨month, day, hmonth, hday, rfl⟩ := exists_month hrest
  exact ⟨year, month, day, hyear, hmonth, hday, (Nat.add_assoc _ _ _).symm⟩

/-! What has been once comes again within eight years. -/

/-- The years between two leap days, at the turn of most centuries. -/
theorem leap_day_recurs (n : ℕ) :
    ∃ year, 1 ≤ year ∧ isLeapYear year = true ∧ n < dayOf year 1 28 ∧
      dayOf year 1 28 ≤ n + 2921 := by
  obtain ⟨year, rest, hyear, hrest, rfl⟩ := exists_year n
  have hleap (year : ℕ) : dayOf year 1 28 = daysBeforeYear year + 59 := rfl
  have hlength := @yearLength_of year
  simp only [isLeapYear_iff, hleap]
  by_cases hahead : yearLength year = 366 ∧ rest < 59
  · exact ⟨year, hyear, by omega, by omega, by omega⟩
  · -- the next multiple of four, or the one after it where a century is not leap
    by_cases hnext : (year / 4 * 4 + 4) % 100 ≠ 0 ∨ (year / 4 * 4 + 4) % 400 = 0
    · refine ⟨year / 4 * 4 + 4, by omega, by omega, ?_, ?_⟩
      all_goals
        unfold daysBeforeYear
        omega
    · refine ⟨year / 4 * 4 + 8, by omega, by omega, ?_, ?_⟩
      all_goals
        unfold daysBeforeYear
        omega

/-- The next year's place of a month and a day, which may be beyond the end of that month. -/
theorem dayOf_next_year {year month day month' day' : ℕ} (hyear : 1 ≤ year)
    (hmonth : month < (monthLengths year).length) (hday : day < (monthLengths year)[month])
    (hmonth' : month' < (monthLengths (year + 1)).length)
    (hday' : day' < (monthLengths (year + 1))[month']) :
    dayOf year month day < dayOf (year + 1) month' day' ∧
      dayOf (year + 1) month' day' ≤ dayOf year month day + 2927 := by
  have hrest := take_sum_add_lt hmonth hday
  have hrest' := take_sum_add_lt hmonth' hday'
  have hlength := @yearLength_of year
  have hlength' := @yearLength_of (year + 1)
  simp only [dayOf, daysBeforeYear_succ hyear]
  omega

theorem date_recurs (x n : ℕ) :
    ∃ day, n < day ∧ day ≤ n + 2927 ∧ (dateOfDay day).2 = (dateOfDay x).2 := by
  obtain ⟨year, month, day, hyear, hmonth, hday, rfl⟩ := exists_dayOf x
  by_cases hleap : month = 1 ∧ day = 28
  · obtain ⟨rfl, rfl⟩ := hleap
    obtain ⟨next, hnext, hleap, hlt, hle⟩ := leap_day_recurs n
    have hlong : 28 < (monthLengths next)[1] := by simp [monthLengths, hleap]
    refine ⟨dayOf next 1 28, hlt, by omega, ?_⟩
    rw [dateOfDay_dayOf hnext (show 1 < 12 by decide) hlong, dateOfDay_dayOf hyear hmonth hday]
  · obtain ⟨year', month', day', hyear', hmonth', hday', rfl⟩ := exists_dayOf n
    have hsame : month < (monthLengths (year' + 1)).length := hmonth
    have hfits : day < (monthLengths (year' + 1))[month] := by
      obtain ⟨h28, -⟩ := monthLengths_get hsame
      by_cases hfebruary : month = 1
      · have hle : (monthLengths year)[month] ≤ 29 := by
          subst hfebruary
          simp only [monthLengths, List.getElem_cons_succ, List.getElem_cons_zero]
          split <;> omega
        omega
      · rwa [(monthLengths_get hmonth).2 _ hsame hfebruary]
    obtain ⟨hlt, hle⟩ := dayOf_next_year hyear' hmonth' hday' hsame hfits
    refine ⟨_, hlt, hle, ?_⟩
    rw [dateOfDay_dayOf (by omega) hsame hfits, dateOfDay_dayOf hyear hmonth hday]

theorem weekday_recurs (x n : ℕ) :
    ∃ day, n < day ∧ day ≤ n + 2927 ∧ (dateOfDay day).2.1 = (dateOfDay x).2.1 ∧ day % 7 = x % 7 := by
  obtain ⟨year, month, day, hyear, hmonth, hday, hx⟩ := exists_dayOf x
  obtain ⟨year', month', day', hyear', hmonth', hday', rfl⟩ := exists_dayOf n
  have hsame : month < (monthLengths (year' + 1)).length := hmonth
  obtain ⟨i, hi, hweekday⟩ : ∃ i < 7, dayOf (year' + 1) month i % 7 = x % 7 :=
    ⟨(x + 7 - dayOf (year' + 1) month 0 % 7) % 7, by omega, by unfold dayOf; omega⟩
  have hfits : i < (monthLengths (year' + 1))[month] := by
    have h28 := (monthLengths_get hsame).1
    omega
  obtain ⟨hlt, hle⟩ := dayOf_next_year hyear' hmonth' hday' hsame hfits
  refine ⟨_, hlt, hle, ?_, hweekday⟩
  rw [dateOfDay_dayOf (by omega) hsame hfits, hx, dateOfDay_dayOf hyear hmonth hday]

end Polaris
