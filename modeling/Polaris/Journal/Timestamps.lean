import Polaris.Journal.Datetime

namespace Polaris
open FixedWidth

/-! Dates in their order. -/

theorem daysBeforeYear_mono {m n : ℕ} (hm : 1 ≤ m) (h : m ≤ n) :
    daysBeforeYear m ≤ daysBeforeYear n := by
  induction n, h using Nat.le_induction with
  | base => exact le_rfl
  | succ n hn ih =>
      rw [daysBeforeYear_succ (hm.trans hn)]
      omega

theorem take_sum_lt {lengths : List ℕ} {m n day : ℕ} (hm : m < lengths.length)
    (hday : day < lengths[m]) (h : m < n) :
    (lengths.take m).sum + day < (lengths.take n).sum := by
  have hsplit : (lengths.take n).take (m + 1) = lengths.take (m + 1) := by
    rw [List.take_take, Nat.min_eq_left h]
  have hsum := congrArg List.sum (List.take_append_drop (m + 1) (lengths.take n))
  rw [List.sum_append, hsplit, List.take_succ_eq_append_getElem hm, List.sum_append,
    List.sum_singleton] at hsum
  omega

/-- A day by its year, month and day, which count from one, zero and zero. -/
structure IsDate (n year month day : ℕ) : Prop where
  first : 1 ≤ year
  within : month < (monthLengths year).length
  short : ∀ h : month < (monthLengths year).length, day < (monthLengths year)[month]
  eq : n = dayOf year month day

theorem IsDate.dateOfDay {n year month day : ℕ} (h : IsDate n year month day) :
    dateOfDay n = (year, month + 1, day + 1) := by
  rw [h.eq]
  exact dateOfDay_dayOf h.first h.within (h.short h.within)

theorem exists_isDate (n : ℕ) : ∃ year month day, IsDate n year month day := by
  obtain ⟨year, month, day, hyear, hmonth, hday, rfl⟩ := exists_dayOf n
  exact ⟨year, month, day, hyear, hmonth, fun _ => hday, rfl⟩

theorem IsDate.lt_of_year {m n year month day year' month' day' : ℕ} (h : IsDate m year month day)
    (h' : IsDate n year' month' day') (hlt : year < year') : m < n := by
  have hday := take_sum_add_lt h.within (h.short h.within)
  have hnext := daysBeforeYear_succ h.first
  have hle := daysBeforeYear_mono (by omega : 1 ≤ year + 1) hlt
  rw [h.eq, h'.eq, dayOf, dayOf]
  omega

theorem IsDate.lt_of_month {m n year month day month' day' : ℕ} (h : IsDate m year month day)
    (h' : IsDate n year month' day') (hlt : month < month') : m < n := by
  have hsum := take_sum_lt h.within (h.short h.within) hlt
  rw [h.eq, h'.eq, dayOf, dayOf]
  omega

theorem IsDate.lt_iff {m n year month day year' month' day' : ℕ} (h : IsDate m year month day)
    (h' : IsDate n year' month' day') {p : Prop} :
    (year < year' ∨ year = year' ∧ (month + 1 < month' + 1 ∨ month + 1 = month' + 1 ∧
      (day + 1 < day' + 1 ∨ day + 1 = day' + 1 ∧ p))) ↔ m < n ∨ m = n ∧ p := by
  rcases lt_trichotomy year year' with hlt | rfl | hgt
  · simp [hlt, h.lt_of_year h' hlt]
  · rcases lt_trichotomy month month' with hlt | rfl | hgt
    · simp [hlt, h.lt_of_month h' hlt]
    · have hm := h.eq
      have hn := h'.eq
      simp only [dayOf] at hm hn
      have hlt : m < n ↔ day < day' := by omega
      have heq : m = n ↔ day = day' := by omega
      simp [hlt, heq]
    · have hnm := h'.lt_of_month h hgt
      simp [hgt.not_gt, hgt.ne', hnm.not_gt, hnm.ne']
  · have hnm := h'.lt_of_year h hgt
    simp [hgt.not_gt, hgt.ne', hnm.not_gt, hnm.ne']

theorem IsDate.bounds {n year month day : ℕ} (h : IsDate n year month day)
    (hn : n < 3652059) : year < 10 ^ 4 ∧ month + 1 < 10 ^ 2 ∧ day + 1 < 10 ^ 2 := by
  have hmonth : month < 12 := h.within
  have hday : day < 31 := by
    have hle : ∀ length ∈ monthLengths year, length ≤ 31 := by
      simp only [monthLengths]
      cases isLeapYear year <;> decide
    exact (h.short h.within).trans_le (hle _ (List.getElem_mem _))
  have hyear : year < 10000 := by
    by_contra hge
    have hle := daysBeforeYear_mono (by omega : 1 ≤ 10000) (not_lt.1 hge)
    have hlast : daysBeforeYear 10000 = 3652059 := by decide
    have heq := h.eq
    rw [dayOf] at heq
    omega
  omega

/-! The text of a clock. -/

/-- The order by quotients and then by remainders. -/
theorem lt_or_eq_div (k : ℕ) {m n : ℕ} {p : Prop} :
    (m / k < n / k ∨ m / k = n / k ∧ (m % k < n % k ∨ m % k = n % k ∧ p)) ↔ m < n ∨ m = n ∧ p := by
  have heq : m = n ↔ m / k = n / k ∧ m % k = n % k := by
    constructor
    · rintro rfl
      exact ⟨rfl, rfl⟩
    · rintro ⟨hdiv, hmod⟩
      rw [← Nat.div_add_mod m k, hdiv, hmod, Nat.div_add_mod]
  have hlt := lt_iff_div k (m := m) (n := n)
  tauto

def clockChars (seconds : ℕ) (rest : List Char) : List Char :=
  digits 2 (seconds / 3600) ++ ':' :: (digits 2 (seconds / 60 % 60) ++ ':' ::
    (digits 2 (seconds % 60) ++ rest))

def dateChars (date : ℕ × ℕ × ℕ) (rest : List Char) : List Char :=
  digits 4 date.1 ++ '-' :: (digits 2 date.2.1 ++ '-' :: (digits 2 date.2.2 ++ rest))

def secondsOfDay (t : Timestamp) : ℕ := t % microsecondsPerDay / 1000000

def wallChars (t : Timestamp) (rest : List Char) : List Char :=
  dateChars (dateOfDay (t / microsecondsPerDay)) ('T' :: clockChars (secondsOfDay t) rest)

theorem secondsOfDay_lt (t : Timestamp) : secondsOfDay t < 86400 := by
  unfold secondsOfDay microsecondsPerDay
  omega

theorem clockChars_lt {m n : ℕ} (hm : m < 86400) (hn : n < 86400) {us vs : List Char} :
    clockChars m us < clockChars n vs ↔ m < n ∨ m = n ∧ us < vs := by
  have hminute : ∀ k : ℕ, k / 60 % 60 = k % 3600 / 60 := fun k => by omega
  have hsecond : ∀ k : ℕ, k % 60 = k % 3600 % 60 := fun k => by omega
  unfold clockChars
  rw [field_lt (by omega) (by omega), cons_lt, field_lt (by omega) (by omega), cons_lt,
    field_lt (by omega) (by omega), hminute m, hminute n, hsecond m, hsecond n, lt_or_eq_div 60,
    lt_or_eq_div 3600]

theorem dateChars_lt {m n : ℕ} (hm : m < 3652059) (hn : n < 3652059) {us vs : List Char} :
    dateChars (dateOfDay m) us < dateChars (dateOfDay n) vs ↔ m < n ∨ m = n ∧ us < vs := by
  obtain ⟨year, month, day, h⟩ := exists_isDate m
  obtain ⟨year', month', day', h'⟩ := exists_isDate n
  have hb := h.bounds hm
  have hb' := h'.bounds hn
  rw [h.dateOfDay, h'.dateOfDay, dateChars, dateChars]
  rw [field_lt hb.1 hb'.1, cons_lt, field_lt hb.2.1 hb'.2.1, cons_lt, field_lt hb.2.2 hb'.2.2,
    h.lt_iff h']

theorem day_lt {t : Timestamp} (h : t < timestampLimit) : t / microsecondsPerDay < 3652059 :=
  Nat.div_lt_of_lt_mul (by rwa [Nat.mul_comm])

theorem wallChars_lt {s t : Timestamp} (hs : s < timestampLimit) (ht : t < timestampLimit)
    {us vs : List Char} :
    wallChars s us < wallChars t vs ↔ s / 1000000 < t / 1000000 ∨ s / 1000000 = t / 1000000 ∧ us < vs := by
  have hday : ∀ k : Timestamp, k / microsecondsPerDay = k / 1000000 / 86400 := by
    intro k
    rw [Nat.div_div_eq_div_mul]
    rfl
  have hseconds : ∀ k : Timestamp, secondsOfDay k = k / 1000000 % 86400 := by
    intro k
    unfold secondsOfDay microsecondsPerDay
    omega
  unfold wallChars
  rw [dateChars_lt (day_lt hs) (day_lt ht), cons_lt,
    clockChars_lt (secondsOfDay_lt s) (secondsOfDay_lt t), hday s, hday t, hseconds s, hseconds t,
    lt_or_eq_div 86400]

theorem fraction_lt {s t : Timestamp} (hs : s < timestampLimit) (ht : t < timestampLimit)
    {suffix : List Char} :
    wallChars s ('.' :: (digits 6 (s % 1000000) ++ suffix)) <
      wallChars t ('.' :: (digits 6 (t % 1000000) ++ suffix)) ↔ s < t := by
  rw [wallChars_lt hs ht, cons_lt, field_lt (by omega) (by omega), lt_or_eq_div 1000000]
  simp

end Polaris
