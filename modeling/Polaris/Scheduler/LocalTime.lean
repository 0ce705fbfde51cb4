import Mathlib.Data.Int.ConditionallyCompleteOrder
import Mathlib.Order.WithBot
import Mathlib.Order.Bounds.Basic
import Mathlib.Order.Nat
import Polaris.Scheduler.CronScan

namespace Polaris
open PyJson

/-- The transitions of a time zone, in UTC, with `⊤` where there are no more of them. The first offset
holds before any transition, and each of the others from a transition on. -/
structure Transitions where
  time : ℕ → WithTop ℤ
  offset : ℕ → ℤ
  increasing : Monotone time
  unbounded : ∀ u : ℤ, ∃ n, (u : WithTop ℤ) < time n
  bounded : ∀ n, |offset n| < microsecondsPerDay

instance decidableBefore (u : ℤ) : (t : WithTop ℤ) → Decidable ((u : WithTop ℤ) < t)
  | none => .isTrue (WithTop.coe_lt_top u)
  | some v => decidable_of_iff (u < v) WithTop.coe_lt_coe.symm

namespace Transitions
variable (z : Transitions)

/-- The offset that the clock shows at a transition: the greater one for the first reading of a local
time, the smaller one for the second. -/
def shift (fold : Bool) (n : ℕ) : ℤ :=
  if fold then min (z.offset n) (z.offset (n + 1)) else max (z.offset n) (z.offset (n + 1))

/-- The local time is shown before the transition. -/
def IsBefore (fold : Bool) (l : ℤ) (n : ℕ) : Prop := ((l - z.shift fold n : ℤ) : WithTop ℤ) < z.time n

instance (fold : Bool) (l : ℤ) (n : ℕ) : Decidable (z.IsBefore fold l n) :=
  decidableBefore (l - z.shift fold n) (z.time n)

variable {z} in
theorem shift_bounded (fold : Bool) (n : ℕ) : |z.shift fold n| < microsecondsPerDay := by
  have hbefore := abs_lt.1 (z.bounded n)
  have hafter := abs_lt.1 (z.bounded (n + 1))
  cases fold with
  | false => exact abs_lt.2 ⟨lt_max_of_lt_left hbefore.1, max_lt hbefore.2 hafter.2⟩
  | true => exact abs_lt.2 ⟨lt_min hbefore.1 hafter.1, min_lt_of_left_lt hbefore.2⟩

theorem exists_isBefore (fold : Bool) (l : ℤ) : ∃ n, z.IsBefore fold l n := by
  obtain ⟨n, hn⟩ := z.unbounded (l + microsecondsPerDay)
  have hshift := abs_lt.1 (shift_bounded (z := z) fold n)
  exact ⟨n, lt_of_le_of_lt (WithTop.coe_le_coe.2 (by omega)) hn⟩

/-- The number of transitions up to an instant. -/
def index (u : ℤ) : ℕ := Nat.find (z.unbounded u)

/-- `_find_trans` -/
def localIndex (fold : Bool) (l : ℤ) : ℕ := Nat.find (z.exists_isBefore fold l)

/-- `fromutc`: the local time is shown for a second time. -/
def fold (u : ℤ) : Bool :=
  match z.index u with
  | 0 => false
  | n + 1 => ((u + z.offset (n + 1) - z.offset n : ℤ) : WithTop ℤ) < z.time n

def zone : ZoneInfo where
  localTime u := ⟨u + z.offset (z.index u), z.fold u⟩
  utcOffset l := z.offset (z.localIndex l.fold l.naive)

/-- The transitions come in the same order on the local clock. -/
def Ordered : Prop := ∀ fold l n, z.IsBefore fold l n → z.IsBefore fold l (n + 1)

/-- The local time is skipped or repeated at a transition. -/
def IsShifted (l : ℤ) (n : ℕ) : Prop := z.IsBefore false l n ∧ ¬ z.IsBefore true l n

/-- No more than one transition skips or repeats the local time. -/
def ShiftedOnce (l : ℤ) : Prop := ∀ m n, z.IsShifted l m → z.IsShifted l n → m = n

section
variable {z} {fold : Bool} {l u : ℤ} {m n : ℕ}

theorem index_spec : (u : WithTop ℤ) < z.time (z.index u) := Nat.find_spec (z.unbounded u)

theorem time_le_of_lt_index (h : n < z.index u) : z.time n ≤ u :=
  not_lt.1 (Nat.find_min (z.unbounded u) h)

theorem localIndex_spec : z.IsBefore fold l (z.localIndex fold l) :=
  Nat.find_spec (z.exists_isBefore fold l)

theorem not_isBefore_of_lt (h : n < z.localIndex fold l) : ¬ z.IsBefore fold l n :=
  Nat.find_min (z.exists_isBefore fold l) h

theorem Ordered.isBefore_mono (h : z.Ordered) (hmn : m ≤ n) (hm : z.IsBefore fold l m) :
    z.IsBefore fold l n := by
  induction n, hmn using Nat.le_induction with
  | base => exact hm
  | succ n _ ih => exact h fold l n ih

theorem isBefore_false_of_offset (h : ((l - z.offset n : ℤ) : WithTop ℤ) < z.time n) :
    z.IsBefore false l n :=
  lt_of_le_of_lt (WithTop.coe_le_coe.2 (sub_le_sub_left (le_max_left ..) l)) h

theorem not_isBefore_true_of_offset (h : z.time n ≤ ((l - z.offset (n + 1) : ℤ) : WithTop ℤ)) :
    ¬ z.IsBefore true l n :=
  not_lt.2 (h.trans (WithTop.coe_le_coe.2 (sub_le_sub_left (min_le_right ..) l)))

/-- Whether an instant shows its local time for a second time tells which offset is meant. -/
theorem localIndex_fold (hordered : z.Ordered) (honce : z.ShiftedOnce l)
    (hl : u + z.offset (z.index u) = l) : z.localIndex (z.fold u) l = z.index u := by
  have hat : l - z.offset (z.index u) = u := by omega
  have hlow : z.localIndex false l ≤ z.index u :=
    Nat.find_min' _ (isBefore_false_of_offset (by rw [hat]; exact index_spec))
  cases hindex : z.index u with
  | zero =>
      have hfold : z.fold u = false := by simp [Transitions.fold, hindex]
      rw [hindex] at hlow
      rw [hfold]
      exact Nat.le_zero.1 hlow
  | succ n =>
      rw [hindex] at hat hlow
      have hpassed : z.time n ≤ u := time_le_of_lt_index (by omega)
      have hsecond : ¬ z.IsBefore true l n := not_isBefore_true_of_offset (by rwa [hat])
      have hshown : u + z.offset (n + 1) - z.offset n = l - z.offset n := by omega
      cases hfold : z.fold u with
      | false =>
          have hfirst : z.time n ≤ ((l - z.offset n : ℤ) : WithTop ℤ) := by
            simpa [Transitions.fold, hindex, hshown] using hfold
          have hnot : ¬ z.IsBefore false l n := by
            refine not_lt.2 ?_
            rcases max_choice (z.offset n) (z.offset (n + 1)) with hmax | hmax
            · simpa [shift, hmax] using hfirst
            · simpa [shift, hmax, hat] using hpassed
          by_contra hne
          exact hnot (hordered.isBefore_mono (by omega) localIndex_spec)
      | true =>
          have hfirst : ((l - z.offset n : ℤ) : WithTop ℤ) < z.time n := by
            simpa [Transitions.fold, hindex, hshown] using hfold
          have hbefore := isBefore_false_of_offset hfirst
          have hlater : n < z.localIndex true l := by
            by_contra hle
            exact hsecond (hordered.isBefore_mono (Nat.le_of_not_lt hle) localIndex_spec)
          by_contra hne
          have hnext : z.IsShifted l (n + 1) :=
            ⟨hordered false l n hbefore, not_isBefore_of_lt (by omega)⟩
          exact absurd (honce n (n + 1) ⟨hbefore, hsecond⟩ hnext) (Nat.ne_of_lt (Nat.lt_succ_self n))

end

end Transitions

namespace ZoneInfo
variable {zone : ZoneInfo} {l : Timestamp}

/-- Both readings of a local time, and what the clock shows then, are dates. -/
def InRange (zone : ZoneInfo) (l : Timestamp) : Prop :=
  ∀ fold, ∃ u, zone.toUtc ⟨l, fold⟩ = .ok u ∧ zone.astimezone u = .ok (zone.localTime u)

/-- The instants at which the clock shows a local time that it reads as these. -/
def Resolves (zone : ZoneInfo) (l u : Timestamp) : Prop :=
  ∃ fold, zone.toUtc ⟨l, fold⟩ = .ok u ∧ zone.localTime u = ⟨l, fold⟩

theorem resolves_iff {u₀ u₁ u : Timestamp} (h₀ : zone.toUtc ⟨l, false⟩ = .ok u₀)
    (h₁ : zone.toUtc ⟨l, true⟩ = .ok u₁) : zone.Resolves l u ↔
      u = u₀ ∧ zone.localTime u₀ = ⟨l, false⟩ ∨ u = u₁ ∧ zone.localTime u₁ = ⟨l, true⟩ := by
  constructor
  · rintro ⟨fold, hutc, hlocal⟩
    cases fold with
    | false =>
        obtain rfl := Except.ok.inj (h₀.symm.trans hutc)
        exact .inl ⟨rfl, hlocal⟩
    | true =>
        obtain rfl := Except.ok.inj (h₁.symm.trans hutc)
        exact .inr ⟨rfl, hlocal⟩
  · rintro (⟨rfl, hlocal⟩ | ⟨rfl, hlocal⟩)
    · exact ⟨false, h₀, hlocal⟩
    · exact ⟨true, h₁, hlocal⟩

theorem validLocalInstants_spec (h : zone.InRange l) : ∃ found,
    validLocalInstants zone l = .ok found ∧ found.Pairwise (· < ·) ∧
      ∀ u, u ∈ found ↔ zone.Resolves l u := by
  obtain ⟨u₀, hutc₀, hlocal₀⟩ := h false
  obtain ⟨u₁, hutc₁, hlocal₁⟩ := h true
  obtain ⟨first, hfirst, hfirst'⟩ : ∃ first : List Timestamp, first.Nodup ∧
      first = if zone.localTime u₀ = ⟨l, false⟩ then [u₀] else [] := by
    refine ⟨_, ?_, rfl⟩
    split <;> simp
  obtain ⟨found, hnodup, hfound⟩ : ∃ found : List Timestamp, found.Nodup ∧
      found = if zone.localTime u₁ = ⟨l, true⟩ ∧ u₁ ∉ first then first ++ [u₁] else first := by
    refine ⟨_, ?_, rfl⟩
    split
    next hnew => exact List.nodup_append.2 ⟨hfirst, by simp, by simpa using fun a ha (he : a = u₁) => hnew.2 (he ▸ ha)⟩
    next => exact hfirst
  have hvalid : validLocalInstants zone l = .ok (found.insertionSort (· ≤ ·)) := by
    simp [validLocalInstants, hutc₀, hlocal₀, hutc₁, hlocal₁, Bind.bind, Except.bind, Pure.pure,
      Except.pure, hfound, hfirst']
  refine ⟨_, hvalid, ?_, fun u => ?_⟩
  · have hsorted := List.pairwise_insertionSort (· ≤ ·) found
    have hdistinct : (found.insertionSort (· ≤ ·)).Nodup :=
      (List.perm_insertionSort _ _).nodup_iff.2 hnodup
    exact (hsorted.and hdistinct).imp fun hle => lt_of_le_of_ne hle.1 hle.2
  · rw [List.mem_insertionSort, hfound, resolves_iff hutc₀ hutc₁]
    have hmem : u ∈ first ↔ u = u₀ ∧ zone.localTime u₀ = ⟨l, false⟩ := by
      rw [hfirst']
      split
      next hshown => simp [hshown]
      next hshown => simp [hshown]
    split
    next hnew => simp [hmem, hnew.1]
    next hnew =>
        rw [hmem]
        constructor
        · exact .inl
        · rintro (hu | ⟨rfl, hshown⟩)
          · exact hu
          · exact hmem.1 (not_not.1 fun hnot => hnew ⟨hshown, hnot⟩)

end ZoneInfo

/-- What `valid_local_instants` and `parse_timestamp` make of a local time. -/
structure ResolvesLocal (zones : ZoneInfos) (timezone : String) (zone : ZoneInfo) (l : Timestamp) :
    Prop where
  instants : ∃ found, validLocalInstants zone l = .ok found ∧ found.Pairwise (· < ·) ∧
    ∀ u, u ∈ found ↔ (zone.localTime u).naive = l
  raises : (∃ exc, parseTimestamp zones (.naive l) timezone = .error exc) ↔
    ∀ u, (zone.localTime u).naive ≠ l
  earliest : ∀ u, parseTimestamp zones (.naive l) timezone = .ok u →
    IsLeast {t | (zone.localTime t).naive = l} u
  back : ∀ u, parseTimestamp zones (.naive l) timezone = .ok u →
    ∃ fold, zone.astimezone u = .ok ⟨l, fold⟩

/-- A timestamp is read as the instants at which the clock shows it, if each of these is one of its
readings. -/
theorem resolvesLocal_of_resolves {zones : ZoneInfos} {timezone : String} {zone : ZoneInfo}
    {l : Timestamp} (hzone : zones timezone = some zone) (hrange : zone.InRange l)
    (hreads : ∀ u, (zone.localTime u).naive = l → zone.Resolves l u) :
    ResolvesLocal zones timezone zone l := by
  obtain ⟨found, hvalid, hsorted, hmem⟩ := ZoneInfo.validLocalInstants_spec hrange
  have hinstants : ∀ u, u ∈ found ↔ (zone.localTime u).naive = l := by
    intro u
    rw [hmem]
    refine ⟨?_, hreads u⟩
    rintro ⟨fold, -, hlocal⟩
    rw [hlocal]
  have hparse : parseTimestamp zones (.naive l) timezone = match found with
      | [] => .error ⟨.valueError, "timestamp " ++ naiveIsoformat l ++ " does not exist in " ++
          timezone⟩
      | first :: _ => .ok first := by
    simp only [parseTimestamp, getTimezone, hzone, Option.elim_some, Bind.bind, Except.bind, hvalid]
    cases found <;> rfl
  refine ⟨⟨found, hvalid, hsorted, hinstants⟩, ?_, ?_, ?_⟩
  all_goals rw [hparse]
  all_goals cases found with
    | nil => ?_
    | cons first rest => ?_
  · exact ⟨fun _ u hu => by simpa using (hinstants u).2 hu, fun _ => ⟨_, rfl⟩⟩
  · refine ⟨by simp, fun hnone => absurd ((hinstants first).1 (by simp)) (hnone first)⟩
  · simp
  · rintro u ⟨⟩
    refine ⟨(hinstants first).1 (by simp), fun t ht => ?_⟩
    rcases List.mem_cons.1 ((hinstants t).2 ht) with rfl | hrest
    · exact le_rfl
    · exact (List.rel_of_pairwise_cons hsorted hrest).le
  · simp
  · rintro u ⟨⟩
    obtain ⟨fold, hutc, hlocal⟩ := (hmem first).1 (by simp)
    obtain ⟨u, hutc', hshown⟩ := hrange fold
    obtain rfl := Except.ok.inj (hutc.symm.trans hutc')
    exact ⟨fold, hlocal ▸ hshown⟩

namespace Transitions

section
variable {z : Transitions} {zones : ZoneInfos} {timezone : String} {l : Timestamp}

theorem resolves_of_naive (hordered : z.Ordered) (honce : z.ShiftedOnce l) (hrange : z.zone.InRange l)
    {u : Timestamp} (h : (z.zone.localTime u).naive = l) : z.zone.Resolves l u := by
  have hindex := localIndex_fold hordered honce h
  obtain ⟨read, hutc, -⟩ := hrange (z.fold u)
  obtain ⟨hread, -⟩ := CronExpression.checkedInstant_ok.1 hutc
  have hnaive : (u : ℤ) + z.offset (z.index u) = l := h
  simp only [zone, hindex] at hread
  obtain rfl : read = u := Int.ofNat_inj.1 (by omega)
  exact ⟨z.fold read, hutc, congrArg (LocalTime.mk · (z.fold read)) h⟩

/-- A local time that is skipped or repeated once at most is read as it should be. -/
theorem resolvesLocal (hzone : zones timezone = some z.zone) (hordered : z.Ordered)
    (honce : z.ShiftedOnce l) (hrange : z.zone.InRange l) :
    ResolvesLocal zones timezone z.zone l :=
  resolvesLocal_of_resolves hzone hrange fun _ => resolves_of_naive hordered honce hrange

theorem index_eq {u : ℤ} {n : ℕ} (h : (u : WithTop ℤ) < z.time n) (h' : ∀ m, m < n → z.time m ≤ u) :
    z.index u = n :=
  (Nat.find_eq_iff _).2 ⟨h, fun m hm => not_lt.2 (h' m hm)⟩

theorem localIndex_eq {fold : Bool} {l : ℤ} {n : ℕ} (h : z.IsBefore fold l n)
    (h' : ∀ m, m < n → ¬ z.IsBefore fold l m) : z.localIndex fold l = n :=
  (Nat.find_eq_iff _).2 ⟨h, h'⟩

/-- Two days from the ends of the calendar everything is a date. -/
theorem inRange (hfirst : 2 * microsecondsPerDay ≤ l)
    (hlast : l + 2 * microsecondsPerDay ≤ timestampLimit) : z.zone.InRange l := by
  intro fold
  have hoffset := abs_lt.1 (z.bounded (z.localIndex fold l))
  have hfirst' : 2 * (microsecondsPerDay : ℤ) ≤ l := by exact_mod_cast hfirst
  have hlast' : (l : ℤ) + 2 * microsecondsPerDay ≤ timestampLimit := by exact_mod_cast hlast
  obtain ⟨u, hu⟩ := Int.eq_ofNat_of_zero_le
    (show 0 ≤ (l : ℤ) - z.offset (z.localIndex fold l) by omega)
  have hshown := abs_lt.1 (z.bounded (z.index u))
  refine ⟨u, CronExpression.checkedInstant_ok.2 ⟨hu.symm, ?_⟩, if_pos ?_⟩
  · exact Int.ofNat_lt.1 (show (u : ℤ) < timestampLimit by omega)
  · simp only [zone]
    constructor <;> omega

end

/-! Clocks that are set back an hour, once or twice, an hour after each other. -/

namespace SetBack

def hour : ℤ := 3600000000

def start : ℤ := 1000000000000000

theorem monotone_time (count : Fin 3) :
    Monotone fun n : ℕ => if n < count.val then ((start + n * hour : ℤ) : WithTop ℤ) else ⊤ := by
  refine monotone_nat_of_le_succ fun n => ?_
  split_ifs
  · exact WithTop.coe_le_coe.2 (by simp only [hour]; push_cast; omega)
  · exact le_top
  · omega
  · exact le_rfl

theorem exists_after (count : Fin 3) (u : ℤ) : ∃ n : ℕ, (u : WithTop ℤ) <
    if n < count.val then ((start + n * hour : ℤ) : WithTop ℤ) else ⊤ := ⟨count, by simp⟩

theorem abs_offset_lt (count : Fin 3) (n : ℕ) :
    |((count.val - n : ℕ) : ℤ) * hour| < microsecondsPerDay := by
  have hcount := count.isLt
  rw [abs_of_nonneg (by simp only [hour]; positivity)]
  simp only [hour, microsecondsPerDay]
  omega

def transitions (count : Fin 3) : Transitions where
  time n := if n < count.val then ((start + n * hour : ℤ) : WithTop ℤ) else ⊤
  offset n := (count.val - n : ℕ) * hour
  increasing := monotone_time count
  unbounded u := exists_after count u
  bounded n := abs_offset_lt count n

theorem ordered (count : Fin 3) : (transitions count).Ordered := by
  intro fold l n h
  by_cases hmore : n + 1 < count.val
  · obtain rfl : n = 0 := by omega
    obtain rfl : count = 2 := Fin.ext (show count.val = 2 by omega)
    have hfirst : l - (transitions 2).shift fold 0 < start :=
      WithTop.coe_lt_coe.1 (by simpa [IsBefore, transitions] using h)
    refine WithTop.coe_lt_coe.2 (?_ : l - (transitions 2).shift fold 1 < start + (1 : ℕ) * hour)
    have hshift : (transitions 2).shift fold 0 = (transitions 2).shift fold 1 + hour := by
      cases fold <;> decide
    push_cast
    omega
  · have hnone : (transitions count).time (n + 1) = ⊤ := if_neg hmore
    rw [IsBefore, hnone]
    exact WithTop.coe_lt_top _

/-- Half past the hour that is shown twice. -/
def twice : Timestamp := 1000001800000000

/-- Half past the hour that is shown three times. -/
def thrice : Timestamp := 1000005400000000

theorem twice_shiftedOnce : (transitions 1).ShiftedOnce twice := by
  have hfirst : ∀ n, (transitions 1).IsShifted twice n → n = 0 := by
    rintro n ⟨-, hnot⟩
    by_contra hne
    have hnone : (transitions 1).time n = ⊤ := if_neg (by simpa using hne)
    rw [IsBefore, hnone] at hnot
    exact hnot (WithTop.coe_lt_top _)
  intro m n hm hn
  rw [hfirst m hm, hfirst n hn]

theorem thrice_shown : (transitions 2).zone.localTime 1000001800000000 = ⟨thrice, true⟩ := by
  have hindex : (transitions 2).index (1000001800000000 : ℕ) = 1 := by
    refine index_eq (by decide +kernel) fun m hm => ?_
    obtain rfl : m = 0 := by omega
    decide +kernel
  simp only [zone, fold, hindex]
  decide +kernel

theorem thrice_readings : (transitions 2).localIndex false thrice = 0 ∧
    (transitions 2).localIndex true thrice = 2 := by
  constructor
  · exact localIndex_eq (by decide +kernel) fun m hm => by omega
  · refine localIndex_eq (by decide +kernel) fun m hm => ?_
    interval_cases m <;> decide +kernel

end SetBack

theorem resolvesLocal_twice : ResolvesLocal (fun _ => some (SetBack.transitions 1).zone) "UTC"
    (SetBack.transitions 1).zone SetBack.twice :=
  resolvesLocal rfl (SetBack.ordered 1) SetBack.twice_shiftedOnce
    (inRange (by decide +kernel) (by decide +kernel))

theorem not_every_local_time_resolved : ¬ ∀ (z : Transitions) (zones : ZoneInfos) (timezone : String)
    (l : Timestamp), zones timezone = some z.zone → z.Ordered → z.zone.InRange l →
    ResolvesLocal zones timezone z.zone l := by
  intro h
  have hrange : (SetBack.transitions 2).zone.InRange SetBack.thrice :=
    inRange (by decide +kernel) (by decide +kernel)
  obtain ⟨found, hvalid, -, hinstants⟩ := (h (SetBack.transitions 2)
    (fun _ => some (SetBack.transitions 2).zone) "UTC" SetBack.thrice rfl (SetBack.ordered 2)
      hrange).instants
  obtain ⟨found', hvalid', -, hresolves⟩ := ZoneInfo.validLocalInstants_spec hrange
  obtain rfl := Except.ok.inj (hvalid.symm.trans hvalid')
  have hshown := SetBack.thrice_shown
  obtain ⟨fold, hutc, -⟩ := (hresolves _).1 ((hinstants _).2 (congrArg LocalTime.naive hshown))
  obtain ⟨hread, -⟩ := CronExpression.checkedInstant_ok.1 hutc
  obtain ⟨hfirst, hsecond⟩ := SetBack.thrice_readings
  cases fold with
  | false =>
      simp only [zone, hfirst] at hread
      exact absurd hread (by decide +kernel)
  | true =>
      simp only [zone, hsecond] at hread
      exact absurd hread (by decide +kernel)

end Transitions

end Polaris
