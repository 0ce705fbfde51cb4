import Mathlib.Tactic.FieldSimp
import Polaris.Scheduler.CronScan
import Polaris.Scheduler.Schedule

namespace Polaris
open PyJson

/-- How the times of an interval are counted: `int(elapsed // interval_seconds)` and
`anchor + timedelta(seconds=index * interval_seconds)`. -/
structure IntervalArithmetic where
  index : ℤ → ℚ → Except PyError ℤ
  instant : Timestamp → ℤ → ℚ → Except PyError Timestamp

namespace IntervalArithmetic

def doubles : IntervalArithmetic := ⟨intervalIndex, intervalAt⟩

/-- The number of seconds is taken as it is, and `timedelta` rounds to the nearest microsecond. -/
def exact : IntervalArithmetic where
  index elapsed intervalSeconds := .ok ⌊(elapsed / 1000000 : ℚ) / intervalSeconds⌋
  instant anchor index intervalSeconds :=
    checkedInstant (anchor + Binary64.roundEven (1000000 * (index * intervalSeconds)))

end IntervalArithmetic

namespace ScheduleSpec

section
variable (arithmetic : IntervalArithmetic) (zones : ZoneInfos)

/-- `compute_next_run` -/
def nextRun (schedule : ScheduleSpec) (after : Timestamp) : Except PyError (Option Timestamp) :=
  match schedule.kind with
  | .once onceAt => do
      let occurrence ← parseTimestamp zones onceAt schedule.timezone
      return if after < occurrence then some occurrence else none
  | .interval intervalSeconds startAt => do
      let anchor ← match startAt with
        | none => .ok after
        | some value => parseTimestamp zones value schedule.timezone
      if after < anchor then return some anchor
      else do
        let quotient ← arithmetic.index (after - anchor) intervalSeconds
        let occurrence ← arithmetic.instant anchor (quotient + 1) intervalSeconds
        return some occurrence
  | .cron cron => do
      let expression ← CronExpression.parse cron
      let zone ← getTimezone zones schedule.timezone
      let occurrence ← expression.nextAfter after zone
      return some occurrence

theorem nextRun_doubles (schedule : ScheduleSpec) (after : Timestamp) :
    nextRun .doubles zones schedule after = computeNextRun zones schedule after := by
  obtain ⟨kind, timezone⟩ := schedule
  cases kind with
  | once | cron => rfl
  | interval intervalSeconds startAt => cases startAt <;> rfl

def previewFrom (schedule : ScheduleSpec) : ℕ → Timestamp → Except PyError (List Timestamp)
  | 0, _ => .ok []
  | count + 1, cursor => do
      match ← nextRun arithmetic zones schedule cursor with
      | none => return []
      | some next => return next :: (← previewFrom schedule count next)

def previewNextTimes (schedule : ScheduleSpec) (after : Timestamp) (count : ℤ) :
    Except PyError (List Timestamp) :=
  if count < 0 ∨ 1000 < count then
    .error ⟨.other "SchedulerValidationError", "count must be between 0 and 1000"⟩
  else previewFrom arithmetic zones schedule count.toNat after

/-- `_advance_after_now` -/
def advanceAfter (job : Job) (now : Timestamp) : Except PyError (Option Timestamp) :=
  match job.schedule.kind with
  | .once _ => .ok none
  | _ => nextRun arithmetic zones job.schedule now

theorem advanceAfter_doubles (job : Job) (now : Timestamp) :
    advanceAfter .doubles zones job now = advanceAfterNow zones job now := by
  cases hkind : job.schedule.kind with
  | once runAt => simp only [advanceAfter, advanceAfterNow, hkind]
  | _ => simp only [advanceAfter, advanceAfterNow, hkind, nextRun_doubles]

end

section
variable {zones : ZoneInfos} {schedule : ScheduleSpec} {after : Timestamp}

/-- The anchor of an interval as it is counted from an instant. -/
def IsAnchor (zones : ZoneInfos) (schedule : ScheduleSpec) (startAt : Option TimeValue)
    (after anchor : Timestamp) : Prop :=
  match startAt with
  | none => anchor = after
  | some value => parseTimestamp zones value schedule.timezone = .ok anchor

/-- A later time of the interval is rounded back onto the instant. -/
def RoundsBack (zones : ZoneInfos) (schedule : ScheduleSpec) (after : Timestamp) : Prop :=
  ∃ intervalSeconds startAt anchor, schedule.kind = .interval intervalSeconds startAt ∧
    IsAnchor zones schedule startAt after anchor ∧ anchor ≤ after ∧
    ∃ k : ℕ, ((after : ℤ) - anchor : ℤ) < 1000000 * (k * intervalSeconds) ∧
      Binary64.roundEven (1000000 * (k * intervalSeconds)) = (after : ℤ) - anchor

/-- What follows an instant is later, the first of the times of an interval that are, and a claim at
that instant moves the job forward. -/
structure GoesForward (zones : ZoneInfos) (schedule : ScheduleSpec) (after : Timestamp) : Prop where
  later : ∀ next, nextRun .exact zones schedule after = .ok (some next) → after < next
  least : ∀ intervalSeconds value anchor next,
    schedule.kind = .interval intervalSeconds (some value) →
    parseTimestamp zones value schedule.timezone = .ok anchor →
    nextRun .exact zones schedule after = .ok (some next) →
    IsLeast {t : Timestamp | after < t ∧ ∃ k : ℕ,
      (t : ℤ) = anchor + Binary64.roundEven (1000000 * (k * intervalSeconds))} next
  claimed : ∀ (job : Job) (due next : Timestamp), job.schedule = schedule →
    job.nextRunAt = some due → due ≤ after →
    advanceAfter .exact zones job after = .ok (some next) → due < next

/-- Every preview from the instant lists later and later times, as long as there are dates for them. -/
def PreviewsForward (zones : ZoneInfos) (schedule : ScheduleSpec) (after : Timestamp) : Prop :=
  ∀ count times, previewNextTimes .exact zones schedule after count = .ok times →
    (∀ t ∈ times, t < timestampLimit) → (after :: times).Pairwise (· < ·)

/-! The times of an interval. -/

section
variable {intervalSeconds : ℚ} {startAt : Option TimeValue} {anchor next : Timestamp}

/-- The number of the first time of an interval that lies after an elapsed time. -/
theorem index_spec {elapsed : ℤ} (hinterval : 0 < intervalSeconds) (helapsed : 0 ≤ elapsed) :
    ∃ n : ℕ, ⌊(elapsed / 1000000 : ℚ) / intervalSeconds⌋ + 1 = (n : ℤ) ∧
      (elapsed : ℚ) < 1000000 * (n * intervalSeconds) ∧
      ∀ k : ℕ, k < n → 1000000 * (k * intervalSeconds) ≤ (elapsed : ℚ) := by
  have hquotient : 0 ≤ ⌊(elapsed / 1000000 : ℚ) / intervalSeconds⌋ := by
    have helapsed' : (0 : ℚ) ≤ elapsed := by exact_mod_cast helapsed
    exact Int.floor_nonneg.2 (by positivity)
  obtain ⟨n, hn⟩ := Int.eq_ofNat_of_zero_le hquotient
  have hlow := Int.floor_le ((elapsed / 1000000 : ℚ) / intervalSeconds)
  have hhigh := Int.lt_floor_add_one ((elapsed / 1000000 : ℚ) / intervalSeconds)
  rw [hn] at hlow hhigh ⊢
  rw [le_div_iff₀ hinterval] at hlow
  rw [div_lt_iff₀ hinterval] at hhigh
  push_cast at hlow hhigh
  refine ⟨n + 1, by push_cast; ring, ?_, fun k hk => ?_⟩
  · push_cast
    linarith
  · have hle : (k : ℚ) * intervalSeconds ≤ n * intervalSeconds :=
      mul_le_mul_of_nonneg_right (by exact_mod_cast Nat.lt_succ_iff.1 hk) hinterval.le
    linarith

theorem nextRun_interval (hkind : schedule.kind = .interval intervalSeconds startAt)
    (hanchor : IsAnchor zones schedule startAt after anchor) :
    nextRun .exact zones schedule after =
      if after < anchor then .ok (some anchor)
      else (checkedInstant (anchor + Binary64.roundEven (1000000 *
        ((⌊(((after : ℤ) - anchor : ℤ) / 1000000 : ℚ) / intervalSeconds⌋ + 1 : ℤ) *
          intervalSeconds)))).map some := by
  obtain ⟨kind, timezone⟩ := schedule
  obtain rfl : kind = .interval intervalSeconds startAt := hkind
  cases startAt with
  | none =>
      obtain rfl : anchor = after := hanchor
      simp only [nextRun, Bind.bind, Except.bind, Pure.pure, Except.pure, IntervalArithmetic.exact]
      split
      · rfl
      · cases checkedInstant _ <;> rfl
  | some value =>
      have hparsed : parseTimestamp zones value timezone = .ok anchor := hanchor
      simp only [nextRun, Bind.bind, Except.bind, Pure.pure, Except.pure, IntervalArithmetic.exact,
        hparsed]
      split
      · rfl
      · cases checkedInstant _ <;> rfl

/-- What follows an instant is the anchor, or the first time of the interval that lies after the
time elapsed, which may be rounded back onto the instant. -/
theorem nextRun_interval_ok (hinterval : 0 < intervalSeconds)
    (hkind : schedule.kind = .interval intervalSeconds startAt)
    (hanchor : IsAnchor zones schedule startAt after anchor)
    (h : nextRun .exact zones schedule after = .ok (some next)) :
    after < anchor ∧ next = anchor ∨ anchor ≤ after ∧ ∃ n : ℕ,
      (next : ℤ) = anchor + Binary64.roundEven (1000000 * (n * intervalSeconds)) ∧
      (((after : ℤ) - anchor : ℤ) : ℚ) < 1000000 * (n * intervalSeconds) ∧
      ∀ k : ℕ, k < n → 1000000 * (k * intervalSeconds) ≤ (((after : ℤ) - anchor : ℤ) : ℚ) := by
  rw [nextRun_interval hkind hanchor] at h
  split at h
  next hlate => exact .inl ⟨hlate, (Option.some.inj (Except.ok.inj h)).symm⟩
  next hlate =>
    have hle : anchor ≤ after := Nat.le_of_not_lt hlate
    obtain ⟨n, hn, hnext, hbefore⟩ :=
      index_spec hinterval (sub_nonneg.2 (Int.ofNat_le.2 hle))
    rw [hn, Int.cast_natCast] at h
    cases hchecked : checkedInstant
        (anchor + Binary64.roundEven (1000000 * (n * intervalSeconds))) with
    | error exc => simp [hchecked, Except.map] at h
    | ok t =>
        simp only [hchecked, Except.map, Except.ok.injEq, Option.some.injEq] at h
        obtain rfl := h
        exact .inr ⟨hle, n, (CronExpression.checkedInstant_ok.1 hchecked).1, hnext, hbefore⟩

/-- An instant onto which a time is rounded back is followed by itself. -/
theorem nextRun_of_roundsBack (hinterval : 0 < intervalSeconds)
    (hkind : schedule.kind = .interval intervalSeconds startAt)
    (hanchor : IsAnchor zones schedule startAt after anchor) (hafter : after < timestampLimit)
    (hle : anchor ≤ after) {k : ℕ}
    (hlater : (((after : ℤ) - anchor : ℤ) : ℚ) < 1000000 * (k * intervalSeconds))
    (hrounded : Binary64.roundEven (1000000 * (k * intervalSeconds)) = (after : ℤ) - anchor) :
    nextRun .exact zones schedule after = .ok (some after) := by
  obtain ⟨n, hn, hnext, hbefore⟩ :=
    index_spec hinterval (sub_nonneg.2 (Int.ofNat_le.2 hle))
  have hfirst : n ≤ k := by
    by_contra hless
    exact absurd (hbefore k (Nat.lt_of_not_le hless)) (not_le_of_gt hlater)
  have hmono : (1000000 * (n * intervalSeconds) : ℚ) ≤ 1000000 * (k * intervalSeconds) := by
    have hcast : (n : ℚ) ≤ k := by exact_mod_cast hfirst
    have := mul_le_mul_of_nonneg_right hcast hinterval.le
    linarith
  have hup := Binary64.le_roundEven hnext.le
  have hdown := Binary64.roundEven_mono hmono
  rw [hrounded] at hdown
  have hchecked : checkedInstant
      (anchor + Binary64.roundEven (1000000 * (n * intervalSeconds))) = .ok after :=
    CronExpression.checkedInstant_ok.2 ⟨by omega, hafter⟩
  rw [nextRun_interval hkind hanchor, if_neg hle.not_gt, hn, Int.cast_natCast, hchecked]
  rfl

theorem interval_pos (haccepted : schedule.postInit zones = .ok ())
    (hkind : schedule.kind = .interval intervalSeconds startAt) : 0 < intervalSeconds := by
  unfold postInit at haccepted
  rw [hkind] at haccepted
  obtain ⟨_, -, haccepted⟩ := bind_eq_ok.1 haccepted
  by_contra hnot
  simp only [if_pos (not_lt.1 hnot)] at haccepted
  simp at haccepted

theorem exists_anchor (hkind : schedule.kind = .interval intervalSeconds startAt)
    (h : nextRun .exact zones schedule after = .ok (some next)) :
    ∃ anchor, IsAnchor zones schedule startAt after anchor := by
  cases startAt with
  | none => exact ⟨after, rfl⟩
  | some value =>
      unfold nextRun at h
      rw [hkind] at h
      obtain ⟨anchor, hanchor, -⟩ := bind_eq_ok.1 h
      exact ⟨anchor, hanchor⟩

theorem later_of_not_roundsBack (haccepted : schedule.postInit zones = .ok ())
    (hback : ¬ RoundsBack zones schedule after)
    (h : nextRun .exact zones schedule after = .ok (some next)) : after < next := by
  cases hkind : schedule.kind with
  | once onceAt =>
      unfold nextRun at h
      rw [hkind] at h
      obtain ⟨occurrence, -, h⟩ := bind_eq_ok.1 h
      have hnext := pure_eq_ok.1 h
      split at hnext
      next hlater => exact Option.some.inj hnext ▸ hlater
      next => simp at hnext
  | interval intervalSeconds startAt =>
      obtain ⟨anchor, hanchor⟩ := exists_anchor hkind h
      rcases nextRun_interval_ok (interval_pos haccepted hkind) hkind hanchor h with
        ⟨hlate, rfl⟩ | ⟨hle, n, hn, hnext, -⟩
      · exact hlate
      · have hround := Binary64.le_roundEven hnext.le
        have hne : Binary64.roundEven (1000000 * (n * intervalSeconds)) ≠ (after : ℤ) - anchor :=
          fun hsame => hback ⟨_, _, anchor, hkind, hanchor, hle, n, hnext, hsame⟩
        refine Int.ofNat_lt.1 (show (after : ℤ) < next from ?_)
        omega
  | cron cron =>
      unfold nextRun at h
      rw [hkind] at h
      obtain ⟨expression, -, h⟩ := bind_eq_ok.1 h
      obtain ⟨zone, -, h⟩ := bind_eq_ok.1 h
      obtain ⟨occurrence, hoccurrence, h⟩ := bind_eq_ok.1 h
      obtain rfl := Option.some.inj (pure_eq_ok.1 h)
      exact (CronExpression.nextAfter_least hoccurrence).1.1

theorem least_of_not_roundsBack (haccepted : schedule.postInit zones = .ok ())
    (hback : ¬ RoundsBack zones schedule after)
    (hkind : schedule.kind = .interval intervalSeconds startAt)
    (hanchor : IsAnchor zones schedule startAt after anchor)
    (h : nextRun .exact zones schedule after = .ok (some next)) :
    IsLeast {t : Timestamp | after < t ∧ ∃ k : ℕ,
      (t : ℤ) = anchor + Binary64.roundEven (1000000 * (k * intervalSeconds))} next := by
  have hinterval := interval_pos haccepted hkind
  have hlater := later_of_not_roundsBack haccepted hback h
  rcases nextRun_interval_ok hinterval hkind hanchor h with ⟨-, rfl⟩ | ⟨hle, n, hn, -, hbefore⟩
  · refine ⟨⟨hlater, 0, by simp [Binary64.roundEven]⟩, ?_⟩
    rintro t ⟨-, k, ht⟩
    have hround : 0 ≤ Binary64.roundEven (1000000 * (k * intervalSeconds)) :=
      Binary64.le_roundEven (by push_cast; positivity)
    exact Int.ofNat_le.1 (show (next : ℤ) ≤ t by omega)
  · refine ⟨⟨hlater, n, hn⟩, ?_⟩
    rintro t ⟨hafter, k, ht⟩
    have hfirst : n ≤ k := by
      by_contra hless
      have hround := Binary64.roundEven_le (hbefore k (Nat.lt_of_not_le hless))
      have hcast : (after : ℤ) < t := Int.ofNat_lt.2 hafter
      omega
    have hmono : (1000000 * (n * intervalSeconds) : ℚ) ≤ 1000000 * (k * intervalSeconds) := by
      have hcast : (n : ℚ) ≤ k := by exact_mod_cast hfirst
      have := mul_le_mul_of_nonneg_right hcast hinterval.le
      linarith
    have hround := Binary64.roundEven_mono hmono
    exact Int.ofNat_le.1 (show (next : ℤ) ≤ t by omega)

end

/-- The schedule goes forward from an instant exactly where no time of its interval is rounded back
onto it. -/
theorem goesForward_iff (haccepted : schedule.postInit zones = .ok ())
    (hafter : after < timestampLimit) :
    GoesForward zones schedule after ↔ ¬ RoundsBack zones schedule after := by
  constructor
  · rintro hforward ⟨intervalSeconds, startAt, anchor, hkind, hanchor, hle, k, hlater, hrounded⟩
    have hself := nextRun_of_roundsBack (interval_pos haccepted hkind) hkind hanchor hafter hle hlater
      hrounded
    exact lt_irrefl _ (hforward.later after hself)
  · intro hback
    refine ⟨fun next => later_of_not_roundsBack haccepted hback,
      fun intervalSeconds value anchor next hkind hparsed =>
        least_of_not_roundsBack haccepted hback hkind hparsed, ?_⟩
    rintro job due next rfl - hdue hnext
    refine lt_of_le_of_lt hdue (later_of_not_roundsBack haccepted hback ?_)
    unfold advanceAfter at hnext
    split at hnext
    · simp at hnext
    · exact hnext

theorem previewFrom_pairwise {limit : ℕ} (haccepted : schedule.postInit zones = .ok ())
    (hback : ∀ after, after < limit → ¬ RoundsBack zones schedule after) {count : ℕ}
    {times : List Timestamp} (h : previewFrom .exact zones schedule count after = .ok times)
    (hlimit : ∀ t ∈ after :: times, t < limit) : (after :: times).Pairwise (· < ·) := by
  induction count generalizing after times with
  | zero =>
      obtain rfl := Except.ok.inj h
      exact List.pairwise_singleton ..
  | succ count ih =>
      unfold previewFrom at h
      obtain ⟨found, hfound, h⟩ := bind_eq_ok.1 h
      cases found with
      | none =>
          obtain rfl := pure_eq_ok.1 h
          exact List.pairwise_singleton ..
      | some next =>
          obtain ⟨rest, hrest, h⟩ := bind_eq_ok.1 h
          obtain rfl := pure_eq_ok.1 h
          have hlater := later_of_not_roundsBack haccepted (hback after (hlimit after (by simp))) hfound
          have htail := ih hrest fun t ht => hlimit t (List.mem_cons_of_mem _ ht)
          refine List.pairwise_cons.2 ⟨fun t ht => ?_, htail⟩
          rcases List.mem_cons.1 ht with rfl | ht
          · exact hlater
          · exact hlater.trans (List.rel_of_pairwise_cons htail ht)

theorem previewsForward_iff (haccepted : schedule.postInit zones = .ok ()) :
    (∀ after, after < timestampLimit → PreviewsForward zones schedule after) ↔
      ∀ after, after < timestampLimit → ¬ RoundsBack zones schedule after := by
  constructor
  · rintro hpreviews after hafter ⟨intervalSeconds, startAt, anchor, hkind, hanchor, hle, k, hlater,
      hrounded⟩
    have hself := nextRun_of_roundsBack (interval_pos haccepted hkind) hkind hanchor hafter hle hlater
      hrounded
    have hpreview : previewNextTimes .exact zones schedule after 1 = .ok [after] := by
      simp [previewNextTimes, previewFrom, hself, Bind.bind, Except.bind, Pure.pure, Except.pure]
    have hincreasing := hpreviews after hafter 1 [after] hpreview (by simpa using hafter)
    exact lt_irrefl after (List.rel_of_pairwise_cons hincreasing (by simp))
  · intro hback after hafter count times h hlimit
    unfold previewNextTimes at h
    split at h
    · simp at h
    · refine previewFrom_pairwise haccepted hback h fun t ht => ?_
      rcases List.mem_cons.1 ht with rfl | ht
      · exact hafter
      · exact hlimit t ht

/-- An interval of whole microseconds rounds nothing. -/
theorem not_roundsBack_of_whole {intervalSeconds : ℚ} {startAt : Option TimeValue} {whole : ℤ}
    (hkind : schedule.kind = .interval intervalSeconds startAt)
    (hwhole : 1000000 * intervalSeconds = whole) : ¬ RoundsBack zones schedule after := by
  rintro ⟨interval, start, anchor, hkind', -, -, k, hlater, hrounded⟩
  obtain ⟨rfl, rfl⟩ := ScheduleKind.interval.inj (hkind.symm.trans hkind')
  have hmultiple : 1000000 * (k * intervalSeconds) = ((k * whole : ℤ) : ℚ) := by
    push_cast
    rw [← hwhole]
    ring
  rw [hmultiple] at hlater hrounded
  rw [Binary64.roundEven_int] at hrounded
  rw [hrounded] at hlater
  exact lt_irrefl _ hlater

theorem nextRun_iff (haccepted : schedule.postInit zones = .ok ()) :
    (∀ after, after < timestampLimit →
      (GoesForward zones schedule after ↔ ¬ RoundsBack zones schedule after)) ∧
    ((∀ after, after < timestampLimit →
      GoesForward zones schedule after ∧ PreviewsForward zones schedule after) ↔
        ∀ after, after < timestampLimit → ¬ RoundsBack zones schedule after) := by
  have hforward := fun after (hafter : after < timestampLimit) =>
    @goesForward_iff zones schedule after haccepted hafter
  refine ⟨hforward, fun h after hafter => (hforward after hafter).1 (h after hafter).1, ?_⟩
  intro hback after hafter
  exact ⟨(hforward after hafter).2 (hback after hafter),
    (previewsForward_iff haccepted).2 hback after hafter⟩

end

/-! A third of a second, counted from the first instant. -/

namespace Third

def zones : ZoneInfos := fun _ => some .utc

def schedule : ScheduleSpec := ⟨.interval (1 / 3) (some (.aware 0)), "UTC"⟩

theorem accepted : schedule.postInit zones = .ok () := by
  have hpositive : ¬ (1 / 3 : ℚ) ≤ 0 := by norm_num
  simp only [schedule, postInit, if_neg hpositive]
  rfl

theorem roundsBack : RoundsBack zones schedule 333333 := by
  refine ⟨1 / 3, some (.aware 0), 0, rfl, rfl, Nat.zero_le _, 1, ?_, ?_⟩
  · norm_num
  · decide +kernel

end Third

theorem nextRun_iff_third :
    (∀ after, after < timestampLimit →
      (GoesForward Third.zones Third.schedule after ↔ ¬ RoundsBack Third.zones Third.schedule after)) ∧
    ((∀ after, after < timestampLimit →
      GoesForward Third.zones Third.schedule after ∧
        PreviewsForward Third.zones Third.schedule after) ↔
          ∀ after, after < timestampLimit → ¬ RoundsBack Third.zones Third.schedule after) :=
  nextRun_iff Third.accepted

theorem not_every_schedule_goes_forward : ¬ ∀ (zones : ZoneInfos) (schedule : ScheduleSpec)
    (after : Timestamp), schedule.postInit zones = .ok () → after < timestampLimit →
    GoesForward zones schedule after ∧ PreviewsForward zones schedule after := by
  intro h
  have hlimit : 333333 < timestampLimit := by decide +kernel
  exact (goesForward_iff Third.accepted hlimit).1 (h _ _ _ Third.accepted hlimit).1 Third.roundsBack

end ScheduleSpec

end Polaris
