import Mathlib.Order.Bounds.Basic
import Polaris.Scheduler.Calendar
import Polaris.Scheduler.Cron

namespace Polaris

def yearStart (year : ℕ) : ℕ := daysBeforeYear year * microsecondsPerDay

def ZoneInfo.utc : ZoneInfo := ⟨fun t => ⟨t, false⟩, fun _ => 0⟩

/-- There is a local time for each instant that a scan can reach. -/
def ZoneInfo.Converts (zone : ZoneInfo) : Prop :=
  ∀ t : ℕ, yearStart 11 ≤ t → t < yearStart 9910 →
    0 ≤ (zone.localTime t).naive ∧ (zone.localTime t).naive < timestampLimit

namespace CronExpression

/-- A whole minute whose local time matches. -/
def Occurs (e : CronExpression) (zone : ZoneInfo) (t : ℕ) : Prop :=
  t % minute = 0 ∧ e.matchesAt zone t = .ok true

section
variable {e : CronExpression} {zone : ZoneInfo} {direction : ℤ} {limit : ℕ} {t candidate m : ℕ}

theorem scanFrom_succ : e.scanFrom zone direction (limit + 1) candidate =
    (e.matchesAt zone candidate).bind fun hit =>
      if hit then .ok candidate
      else (checkedInstant (candidate + direction * minute)).bind
        (e.scanFrom zone direction limit) := by
  rw [scanFrom]
  cases e.matchesAt zone candidate with
  | error err => rfl
  | ok hit => cases hit <;> rfl

theorem checkedInstant_ok {x : ℤ} :
    checkedInstant x = .ok t ↔ (t : ℤ) = x ∧ t < timestampLimit := by
  unfold checkedInstant
  constructor
  · intro h
    split at h
    · rename_i hrange
      obtain rfl := Except.ok.inj h
      have hcast := Int.toNat_of_nonneg hrange.1
      exact ⟨hcast, Int.ofNat_lt.1 (hcast.symm ▸ hrange.2)⟩
    · simp at h
  · rintro ⟨rfl, hlt⟩
    rw [if_pos ⟨Int.natCast_nonneg t, Int.ofNat_lt.2 hlt⟩, Int.toNat_natCast]

/-- The scan returns the first candidate that matches. -/
theorem scanFrom_ok (h : e.scanFrom zone direction limit candidate = .ok m) :
    ∃ k : ℕ, k < limit ∧ (m : ℤ) = candidate + k * (direction * minute) ∧
      e.matchesAt zone m = .ok true ∧ ∀ j : ℕ, j < k → ∀ c : ℕ,
        (c : ℤ) = candidate + j * (direction * minute) → e.matchesAt zone c = .ok false := by
  induction limit generalizing candidate with
  | zero => simp [scanFrom] at h
  | succ limit ih =>
      rw [scanFrom_succ] at h
      cases hhit : e.matchesAt zone candidate with
      | error err => simp [hhit, Except.bind] at h
      | ok hit =>
          rw [hhit] at h
          cases hit with
          | true =>
              obtain rfl := Except.ok.inj h
              exact ⟨0, Nat.succ_pos _, by simp, hhit, fun j hj => absurd hj (Nat.not_lt_zero j)⟩
          | false =>
              simp only [Except.bind, Bool.false_eq_true, if_false] at h
              obtain ⟨next, hnext, h⟩ := bind_eq_ok.1 h
              obtain ⟨hnext, -⟩ := checkedInstant_ok.1 hnext
              obtain ⟨k, hk, hm, hmatches, hbefore⟩ := ih h
              refine ⟨k + 1, Nat.succ_lt_succ hk, ?_, hmatches, fun j hj c hc => ?_⟩
              · rw [hm, hnext]
                push_cast
                ring
              · cases j with
                | zero =>
                    obtain rfl : c = candidate := by simpa using hc
                    exact hhit
                | succ j =>
                    refine hbefore j (Nat.lt_of_succ_lt_succ hj) c ?_
                    rw [hc, hnext]
                    push_cast
                    ring

/-- A scan whose candidates are instants with a local time finds a match that it reaches. -/
theorem scanFrom_of_match {k : ℕ} (hk : k < limit)
    (hcandidates : ∀ j : ℕ, j ≤ k → ∃ c : ℕ, (c : ℤ) = candidate + j * (direction * minute) ∧
      c < timestampLimit ∧ ∃ hit, e.matchesAt zone c = .ok hit)
    (hm : (m : ℤ) = candidate + k * (direction * minute)) (hmatches : e.matchesAt zone m = .ok true) :
    ∃ found, e.scanFrom zone direction limit candidate = .ok found := by
  induction limit generalizing candidate k with
  | zero => exact absurd hk (Nat.not_lt_zero k)
  | succ limit ih =>
      rw [scanFrom_succ]
      obtain ⟨c, hc, -, hit, hhit⟩ := hcandidates 0 (Nat.zero_le _)
      obtain rfl : c = candidate := by simpa using hc
      rw [hhit]
      cases hit with
      | true => exact ⟨c, rfl⟩
      | false =>
          cases k with
          | zero =>
              obtain rfl : m = c := by simpa using hm
              simp [hmatches] at hhit
          | succ k =>
              obtain ⟨next, hnext, hlt, -⟩ := hcandidates 1 (by omega)
              have hchecked : checkedInstant (c + direction * minute) = .ok next :=
                checkedInstant_ok.2 ⟨by simpa using hnext, hlt⟩
              have hshift : ∀ j : ℕ, (c : ℤ) + (j + 1 : ℕ) * (direction * minute) =
                  next + j * (direction * minute) := fun j => by
                rw [hnext]
                push_cast
                ring
              simp only [Except.bind, Bool.false_eq_true, if_false, hchecked]
              refine ih (Nat.lt_of_succ_lt_succ hk) (fun j hj => ?_) ((hshift k) ▸ hm)
              obtain ⟨c', hc', hlt', hhit'⟩ := hcandidates (j + 1) (Nat.succ_le_succ hj)
              exact ⟨c', (hshift j) ▸ hc', hlt', hhit'⟩

theorem nextAfter_eq : e.nextAfter t zone =
    (checkedInstant ((t - t % minute : ℕ) + minute)).bind (e.scanFrom zone 1 scanLimit) := by
  simp [nextAfter, scan, bind]

theorem previousOrAt_eq :
    e.previousOrAt t zone = e.scanFrom zone (-1) scanLimit (t - t % minute) := by
  have hle : ¬t < t - t % minute := by omega
  simp [previousOrAt, scan, hle, bind, Except.bind]

theorem nextAfter_least (h : e.nextAfter t zone = .ok m) :
    IsLeast {m : ℕ | t < m ∧ e.Occurs zone m} m := by
  rw [nextAfter_eq] at h
  obtain ⟨first, hfirst, h⟩ := bind_eq_ok.1 h
  obtain ⟨hfirst, -⟩ := checkedInstant_ok.1 hfirst
  obtain ⟨k, -, hm, hmatches, hbefore⟩ := scanFrom_ok h
  simp only [minute] at hfirst hm
  refine ⟨⟨by omega, by simp only [minute]; omega, hmatches⟩, fun m' hm' => ?_⟩
  obtain ⟨hlt, hwhole, hmatches'⟩ := hm'
  simp only [minute] at hwhole
  by_contra hless
  obtain ⟨j, hj⟩ : ∃ j : ℕ, (m' : ℤ) = first + j * 60000000 :=
    ⟨(m' - first) / 60000000, by omega⟩
  have hfalse := hbefore j (by omega) m' (by simpa [minute] using hj)
  simp [hmatches'] at hfalse

theorem previousOrAt_greatest (h : e.previousOrAt t zone = .ok m) :
    IsGreatest {m : ℕ | m ≤ t ∧ e.Occurs zone m} m := by
  rw [previousOrAt_eq] at h
  obtain ⟨k, -, hm, hmatches, hbefore⟩ := scanFrom_ok h
  simp only [minute] at hm
  refine ⟨⟨by omega, by simp only [minute]; omega, hmatches⟩, fun m' hm' => ?_⟩
  obtain ⟨hle, hwhole, hmatches'⟩ := hm'
  simp only [minute] at hwhole
  by_contra hless
  obtain ⟨j, hj⟩ : ∃ j : ℕ, (m' : ℤ) = (t - t % 60000000 : ℕ) + j * (-1 * 60000000) :=
    ⟨(t - t % 60000000 - m') / 60000000, by omega⟩
  have hfalse := hbefore j (by omega) m' (by simpa [minute] using hj)
  simp [hmatches'] at hfalse

/-! A match within the bound is found. -/

theorem matchesAt_of_converts (hzone : zone.Converts) (hfrom : yearStart 11 ≤ t)
    (hto : t < yearStart 9910) : ∃ hit, e.matchesAt zone t = .ok hit := by
  obtain ⟨hlow, hhigh⟩ := hzone t hfrom hto
  refine ⟨e.matchesFields (zone.localTime t).fields, ?_⟩
  rw [matchesAt, ZoneInfo.astimezone, if_pos ⟨hlow, hhigh⟩]
  rfl

theorem nextAfter_of_match (hzone : zone.Converts) (hfrom : yearStart 20 ≤ t)
    (hto : t < yearStart 9901) (hlt : t < m) (hle : m ≤ t - t % minute + scanLimit * minute)
    (hmatch : e.Occurs zone m) : ∃ found, e.nextAfter t zone = .ok found := by
  obtain ⟨hwhole, hmatches⟩ := hmatch
  rw [nextAfter_eq]
  simp only [yearStart, daysBeforeYear, microsecondsPerDay] at hfrom hto
  simp only [scanLimit, minute] at hle hwhole
  have hfirst : checkedInstant ((t - t % minute : ℕ) + minute) = .ok (t - t % minute + minute) :=
    checkedInstant_ok.2 ⟨by push_cast; rfl, by
      simp only [minute, timestampLimit, microsecondsPerDay]
      omega⟩
  rw [hfirst]
  obtain ⟨k, hk⟩ : ∃ k : ℕ, m = t - t % 60000000 + 60000000 + k * 60000000 :=
    ⟨(m - (t - t % 60000000 + 60000000)) / 60000000, by omega⟩
  refine scanFrom_of_match (show k < scanLimit by simp only [scanLimit]; omega) (fun j hj => ?_)
    (by simp only [minute]; push_cast [hk]; ring) hmatches
  refine ⟨t - t % minute + minute + j * minute, by push_cast; ring, ?_,
    matchesAt_of_converts hzone ?_ ?_⟩
  all_goals
    simp only [minute, timestampLimit, yearStart, daysBeforeYear, microsecondsPerDay]
    omega

theorem previousOrAt_of_match (hzone : zone.Converts) (hfrom : yearStart 20 ≤ t)
    (hto : t < yearStart 9901) (hle : m ≤ t) (hlt : t - t % minute < m + scanLimit * minute)
    (hmatch : e.Occurs zone m) : ∃ found, e.previousOrAt t zone = .ok found := by
  obtain ⟨hwhole, hmatches⟩ := hmatch
  rw [previousOrAt_eq]
  simp only [yearStart, daysBeforeYear, microsecondsPerDay] at hfrom hto
  simp only [scanLimit, minute] at hlt hwhole
  obtain ⟨k, hk⟩ : ∃ k : ℕ, t - t % 60000000 = m + k * 60000000 :=
    ⟨(t - t % 60000000 - m) / 60000000, by omega⟩
  have hreach : k < scanLimit := by
    simp only [scanLimit]
    omega
  refine scanFrom_of_match hreach (fun j hj => ?_)
    (by simp only [minute, hk]; push_cast; ring) hmatches
  simp only [scanLimit] at hreach
  refine ⟨t - t % minute - j * minute, ?_, ?_, matchesAt_of_converts hzone ?_ ?_⟩
  all_goals
    simp only [minute, timestampLimit, yearStart, daysBeforeYear, microsecondsPerDay]
    omega

/-! In UTC. -/

theorem converts_utc : ZoneInfo.utc.Converts := by
  intro t hfrom hto
  simp only [yearStart, daysBeforeYear, microsecondsPerDay] at hto
  simp only [ZoneInfo.utc, timestampLimit, microsecondsPerDay]
  omega

/-- What an expression looks at in a minute of UTC. -/
def minuteFields (n : ℕ) : LocalFields :=
  ⟨n % 60, n / 60 % 24, (dateOfDay (n / 1440)).2.2, (dateOfDay (n / 1440)).2.1, n / 1440 % 7⟩

theorem fields_utc (t : ℕ) : LocalTime.fields ⟨t, false⟩ = minuteFields (t / minute) := by
  simp only [LocalTime.fields, Int.toNat_natCast, minuteFields, minute, microsecondsPerDay,
    Nat.div_div_eq_div_mul]

theorem matchesAt_utc (hto : t < timestampLimit) :
    e.matchesAt .utc t = .ok (e.matchesFields (minuteFields (t / minute))) := by
  have hlocal : ZoneInfo.utc.localTime t = ⟨t, false⟩ := rfl
  rw [matchesAt, ZoneInfo.astimezone, hlocal, if_pos ⟨Int.natCast_nonneg _, Int.ofNat_lt.2 hto⟩,
    Except.map, fields_utc]

theorem occurs_utc (h : e.Occurs .utc t) : e.matchesFields (minuteFields (t / minute)) = true := by
  obtain ⟨-, hmatches⟩ := h
  by_cases hto : t < timestampLimit
  · rw [matchesAt_utc hto] at hmatches
    exact Except.ok.inj hmatches
  · have hlocal : ZoneInfo.utc.localTime t = ⟨t, false⟩ := rfl
    rw [matchesAt, ZoneInfo.astimezone, hlocal, if_neg fun h => hto (Int.ofNat_lt.1 h.2)] at hmatches
    simp [Except.map] at hmatches

theorem occurs_utc_of {n : ℕ} (hto : n * minute < timestampLimit)
    (h : e.matchesFields (minuteFields n) = true) : e.Occurs .utc (n * minute) := by
  refine ⟨Nat.mul_mod_left n minute, ?_⟩
  rw [matchesAt_utc hto, Nat.mul_div_cancel n (by decide), h]

/-- A date matches by its day or by its weekday, and then every such date does. -/
theorem matchesFields_cases {l : LocalFields} (h : e.matchesFields l = true) :
    (∀ l' : LocalFields, l'.minute = l.minute → l'.hour = l.hour → l'.month = l.month →
      l'.day = l.day → e.matchesFields l' = true) ∨
    ∀ l' : LocalFields, l'.minute = l.minute → l'.hour = l.hour → l'.month = l.month →
      l'.weekday = l.weekday → e.matchesFields l' = true := by
  simp only [matchesFields, Bool.and_eq_true, decide_eq_true_eq] at h ⊢
  obtain ⟨⟨⟨hminute, hhour⟩, hmonth⟩, hday⟩ := h
  by_cases hwild : e.dayWildcard = true
  · refine .inr fun l' hm hh hmo hw => ?_
    rw [hm, hh, hmo, hw]
    refine ⟨⟨⟨hminute, hhour⟩, hmonth⟩, ?_⟩
    simpa [hwild] using hday
  · by_cases hdays : (l.day : ℤ) ∈ e.days
    · refine .inl fun l' hm hh hmo hd => ?_
      rw [hm, hh, hmo, hd]
      refine ⟨⟨⟨hminute, hhour⟩, hmonth⟩, ?_⟩
      simp [hwild, hdays]
    · refine .inr fun l' hm hh hmo hw => ?_
      rw [hm, hh, hmo, hw]
      refine ⟨⟨⟨hminute, hhour⟩, hmonth⟩, ?_⟩
      simp only [hwild, hdays] at hday ⊢
      by_cases hweekdays : e.weekdayWildcard = true
      · simp [hweekdays] at hday
      · simpa [hweekdays] using .inr (by simpa [hweekdays] using hday)

/-- What matches at all matches within any eight years. -/
theorem matches_recur {x : ℕ} (h : e.matchesFields (minuteFields x) = true) (n : ℕ) :
    ∃ m, n ≤ m ∧ m < n + scanLimit ∧ e.matchesFields (minuteFields m) = true := by
  have hday : ∀ day, n / 1440 < day → day ≤ n / 1440 + 2927 →
      n ≤ day * 1440 + x % 1440 ∧ day * 1440 + x % 1440 < n + scanLimit := by
    intro day hlt hle
    simp only [scanLimit]
    omega
  have hfields : ∀ day, (day * 1440 + x % 1440) % 60 = x % 60 ∧
      (day * 1440 + x % 1440) / 60 % 24 = x / 60 % 24 ∧
      (day * 1440 + x % 1440) / 1440 = day := by
    intro day
    omega
  rcases matchesFields_cases h with hall | hall
  · obtain ⟨day, hlt, hle, hdate⟩ := date_recurs (x / 1440) (n / 1440)
    obtain ⟨hminute, hhour, hsame⟩ := hfields day
    obtain ⟨hlow, hhigh⟩ := hday day hlt hle
    refine ⟨_, hlow, hhigh, hall _ hminute hhour ?_ ?_⟩
    all_goals simp only [minuteFields, hsame, hdate]
  · obtain ⟨day, hlt, hle, hmonth, hweekday⟩ := weekday_recurs (x / 1440) (n / 1440)
    obtain ⟨hminute, hhour, hsame⟩ := hfields day
    obtain ⟨hlow, hhigh⟩ := hday day hlt hle
    refine ⟨_, hlow, hhigh, hall _ hminute hhour ?_ ?_⟩
    all_goals simp only [minuteFields, hsame, hmonth, hweekday]

theorem nextAfter_utc (hfrom : yearStart 20 ≤ t) (hto : t < yearStart 9901)
    (hmatch : e.Occurs .utc m) : ∃ found, e.nextAfter t .utc = .ok found := by
  obtain ⟨n, hlow, hhigh, hn⟩ := matches_recur (occurs_utc hmatch) (t / minute + 1)
  have hlimit := hto
  simp only [yearStart, daysBeforeYear, microsecondsPerDay] at hlimit
  have hlater : t < n * minute := (Nat.div_lt_iff_lt_mul (by decide)).1 hlow
  simp only [minute, scanLimit] at hhigh
  refine nextAfter_of_match converts_utc hfrom hto hlater ?_ (occurs_utc_of ?_ hn)
  all_goals
    clear hfrom hto
    simp only [minute, scanLimit, timestampLimit, microsecondsPerDay]
    omega

theorem previousOrAt_utc (hfrom : yearStart 20 ≤ t) (hto : t < yearStart 9901)
    (hmatch : e.Occurs .utc m) : ∃ found, e.previousOrAt t .utc = .ok found := by
  obtain ⟨n, hlow, hhigh, hn⟩ := matches_recur (occurs_utc hmatch) (t / minute + 1 - scanLimit)
  have hlimit := hto
  have hstart := hfrom
  simp only [yearStart, daysBeforeYear, microsecondsPerDay] at hlimit hstart
  have hwindow : n ≤ t / minute := by
    simp only [minute, scanLimit] at hhigh ⊢
    omega
  have hearlier : n * minute ≤ t := (Nat.le_div_iff_mul_le (by decide)).1 hwindow
  simp only [minute, scanLimit] at hlow hearlier
  refine previousOrAt_of_match converts_utc hfrom hto hearlier ?_ (occurs_utc_of ?_ hn)
  all_goals
    clear hfrom hto
    simp only [minute, scanLimit, timestampLimit, microsecondsPerDay]
    omega

end

/-- What the scan returns is the adjacent minute that matches, in any zone. In UTC it fails only
where no minute matches, and elsewhere only where none does within its bound. -/
theorem scan_adjacent (e : CronExpression) {t : ℕ} (hfrom : yearStart 20 ≤ t)
    (hto : t < yearStart 9901) :
    (∀ zone m, e.nextAfter t zone = .ok m → IsLeast {m : ℕ | t < m ∧ e.Occurs zone m} m) ∧
    (∀ zone m, e.previousOrAt t zone = .ok m → IsGreatest {m : ℕ | m ≤ t ∧ e.Occurs zone m} m) ∧
    (∀ err, e.nextAfter t .utc = .error err → ∀ m, ¬e.Occurs .utc m) ∧
    (∀ err, e.previousOrAt t .utc = .error err → ∀ m, ¬e.Occurs .utc m) ∧
    ∀ zone : ZoneInfo, zone.Converts → ∀ m, e.Occurs zone m →
      (t < m → m ≤ t - t % minute + scanLimit * minute → ∃ found, e.nextAfter t zone = .ok found) ∧
      (m ≤ t → t - t % minute < m + scanLimit * minute →
        ∃ found, e.previousOrAt t zone = .ok found) := by
  refine ⟨fun zone m h => nextAfter_least h, fun zone m h => previousOrAt_greatest h,
    fun err h m hmatch => ?_, fun err h m hmatch => ?_, fun zone hzone m hmatch =>
    ⟨fun hlt hle => nextAfter_of_match hzone hfrom hto hlt hle hmatch,
      fun hle hlt => previousOrAt_of_match hzone hfrom hto hle hlt hmatch⟩⟩
  · obtain ⟨found, hfound⟩ := nextAfter_utc hfrom hto hmatch
    simp [h] at hfound
  · obtain ⟨found, hfound⟩ := previousOrAt_utc hfrom hto hmatch
    simp [h] at hfound

/-- From 2096 on, the next leap day is that of 2104. -/
theorem scan_adjacent_leap_day :
    ∃ found, nextAfter ⟨[0], [0], [29], [2], [0, 1, 2, 3, 4, 5, 6], false, true⟩
        (yearStart 2097) .utc = .ok found ∧
      IsLeast {m : ℕ | yearStart 2097 < m ∧
        Occurs ⟨[0], [0], [29], [2], [0, 1, 2, 3, 4, 5, 6], false, true⟩ .utc m} found := by
  have hmatch : Occurs ⟨[0], [0], [29], [2], [0, 1, 2, 3, 4, 5, 6], false, true⟩ .utc
      (dayOf 2104 1 28 * 1440 * minute) := occurs_utc_of (by decide) (by decide)
  obtain ⟨hleast, -, hraises, -⟩ :=
    @scan_adjacent ⟨[0], [0], [29], [2], [0, 1, 2, 3, 4, 5, 6], false, true⟩ (yearStart 2097)
      (by decide) (by decide)
  cases h : nextAfter ⟨[0], [0], [29], [2], [0, 1, 2, 3, 4, 5, 6], false, true⟩
      (yearStart 2097) .utc with
  | error err => exact absurd hmatch (hraises err h _)
  | ok found => exact ⟨found, rfl, hleast _ _ h⟩

end CronExpression

end Polaris
