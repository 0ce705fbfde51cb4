import Polaris.Journal.Steps
import Polaris.Journal.TimestampText

namespace Polaris
open FixedWidth Replace

theorem wallChars_append (t : Timestamp) (us vs : List Char) :
    wallChars t us ++ vs = wallChars t (us ++ vs) := by
  simp [wallChars, dateChars, clockChars]

theorem IsDate.readDate {n year month day : ℕ} (h : IsDate n year month day) (hn : n < 3652059)
    (rest : List Char) :
    readDate (dateChars (year, month + 1, day + 1) rest) =
      some ((year, month + 1, day + 1), rest) := by
  obtain ⟨hyear, hmonth, hday⟩ := h.bounds hn
  unfold Polaris.readDate dateChars
  rw [readDigits_digits hyear]
  simp only [Option.bind_eq_bind, Option.bind_some]
  rw [readDigits_digits hmonth]
  simp only [Option.bind_some]
  rw [readDigits_digits hday]
  rfl

namespace Datetime
variable {d : Datetime} {t : Timestamp}

def suffix (d : Datetime) : List Char := d.offset.elim [] offsetChars

theorem toList_isoformat (d : Datetime) (timespec : Timespec) :
    (d.isoformat timespec).toList =
      wallChars d.wall (fractionChars timespec d.wall ++ d.suffix) := by
  have hsuffix : (d.offset.elim "" offsetText).toList = d.suffix := by
    unfold suffix
    cases hoffset : d.offset with
    | none => rfl
    | some o => exact toList_offsetText (d.offset_lt o hoffset)
  rw [isoformat, String.toList_append, toList_wallText d.wall_lt, hsuffix, wallChars_append]

theorem endsClock_suffix (d : Datetime) : EndsClock d.suffix := by
  unfold suffix
  cases d.offset with
  | none => simp [EndsClock]
  | some o =>
      by_cases hneg : o < 0 <;> simp [offsetChars, EndsClock, hneg]

theorem readOffset_suffix (d : Datetime) : readOffset d.suffix = some d.offset := by
  unfold suffix
  cases hoffset : d.offset with
  | none => rfl
  | some o => exact readOffset_offsetChars (d.offset_lt o hoffset)

theorem fromisoformat_wall {text : String} {timespec : Timespec} {rest : List Char}
    (htext : text.toList = wallChars d.wall (fractionChars timespec d.wall ++ rest))
    (hends : EndsClock rest) (hoffset : readOffset rest = some d.offset) :
    fromisoformat text = some d := by
  obtain ⟨year, month, day, hdate⟩ := exists_isDate (d.wall / microsecondsPerDay)
  have hdays := day_lt d.wall_lt
  have hseconds := secondsOfDay_lt d.wall
  have hmonth : month < 12 := hdate.within
  have hday : day + 1 ≤ (monthLengths year).getD month 0 := by
    rw [List.getD_eq_getElem?_getD, List.getElem?_eq_getElem hdate.within]
    exact hdate.short hdate.within
  have hwall : dayOf year month day * microsecondsPerDay +
      (TimeFields.mk (secondsOfDay d.wall / 3600) (secondsOfDay d.wall / 60 % 60)
        (secondsOfDay d.wall % 60) (d.wall % 1000000)).microseconds = d.wall := by
    rw [← hdate.eq]
    unfold TimeFields.microseconds secondsOfDay microsecondsPerDay
    dsimp only
    omega
  unfold fromisoformat
  rw [htext, wallChars, hdate.dateOfDay, hdate.readDate hdays]
  simp only [Option.bind_eq_bind, Option.bind_some, readClock]
  rw [readTime_wall hends]
  simp only [Option.bind_some, hoffset, Nat.add_sub_cancel, Option.pure_def, hwall]
  rw [if_pos ⟨hdate.first, by omega, by omega, by omega, hday, by omega, by omega, by omega⟩,
    dif_pos ⟨d.wall_lt, d.offset_lt⟩]

/-- `fromisoformat` is the inverse of `isoformat`. -/
theorem fromisoformat_isoformat (d : Datetime) (timespec : Timespec) :
    fromisoformat (d.isoformat timespec) = some d :=
  fromisoformat_wall (d.toList_isoformat timespec) d.endsClock_suffix d.readOffset_suffix

end Datetime

/-! What `Z` and `+00:00` are replaced in. -/

theorem noneBegins_of_notMem {c : Char} {needle xs ys : List Char} (h : c ∉ xs) :
    NoneBegins id (c :: needle) xs ys := by
  intro us vs hxs hvs hprefix
  cases vs with
  | nil => exact hvs rfl
  | cons v vs =>
      rw [List.map_id, List.cons_append] at hprefix
      obtain ⟨rfl, -⟩ := List.cons_prefix_cons.1 hprefix
      exact h (by simp [hxs])

theorem notMem_wallChars {c : Char} (hdigit : c.isDigit = false) (hmark : c ∉ ['-', 'T', ':'])
    {t : Timestamp} {rest : List Char} (hrest : c ∉ rest) : c ∉ wallChars t rest := by
  have hdigits : ∀ width n, c ∉ digits width n := by
    intro width n hmem
    rw [isDigit_of_mem hmem] at hdigit
    simp at hdigit
  simp only [List.mem_cons, List.not_mem_nil, or_false, not_or] at hmark
  simp [wallChars, dateChars, clockChars, hdigits, hmark, hrest]

theorem notMem_fractionChars {c : Char} (hdigit : c.isDigit = false) (hdot : c ≠ '.')
    (timespec : Timespec) (t : Timestamp) : c ∉ fractionChars timespec t := by
  unfold fractionChars
  split
  · simp
  · intro hmem
    rcases List.mem_cons.1 hmem with h | h
    · exact hdot h
    · rw [isDigit_of_mem h] at hdigit
      simp at hdigit

theorem notMem_offsetChars {c : Char} (hdigit : c.isDigit = false)
    (hmark : c ∉ ['+', '-', ':', '.']) (offset : ℤ) : c ∉ offsetChars offset := by
  have hdigits : ∀ width n, c ∉ digits width n := by
    intro width n hmem
    rw [isDigit_of_mem hmem] at hdigit
    simp at hdigit
  simp only [List.mem_cons, List.not_mem_nil, or_false, not_or] at hmark
  unfold offsetChars
  dsimp only
  split_ifs <;> simp [hdigits, hmark]

theorem isoformat_eq (t : Timestamp) : isoformat t = wallText .microseconds t ++ "Z" := by
  simp [isoformat, wallText, String.append_assoc]

theorem toList_isoformat {t : Timestamp} (ht : t < timestampLimit) :
    (isoformat t).toList = wallChars t ('.' :: (digits 6 (t % 1000000) ++ ['Z'])) := by
  rw [isoformat_eq, String.toList_append, toList_wallText ht, wallChars_append]
  rfl

theorem natAbs_zero_lt : ∀ o ∈ some (0 : ℤ), o.natAbs < microsecondsPerDay := by
  simp [microsecondsPerDay]

theorem utcText_eq (t : Timestamp) (ht : t < timestampLimit) :
    utcText t = (Datetime.mk t (some 0) ht natAbs_zero_lt).isoformat .microseconds := rfl

theorem replace_utc {t : Timestamp} (ht : t < timestampLimit) :
    (utcText t).replace "+00:00" "Z" = isoformat t := by
  have hnot : '+' ∉ wallChars t (fractionChars .microseconds t) :=
    notMem_wallChars (by decide) (by decide) (notMem_fractionChars (by decide) (by decide) _ _)
  apply String.toList_injective
  rw [toList_replace (by decide), utcText, String.toList_append, toList_wallText ht,
    isoformat_eq, String.toList_append, toList_wallText ht]
  have hnone : NoneBegins id "+00:00".toList (wallChars t (fractionChars .microseconds t))
      "+00:00".toList := noneBegins_of_notMem hnot
  exact replaceAll_passes hnone

theorem replace_zulu {text : String} {xs : List Char} (htext : text.toList = xs ++ ['Z'])
    (hnot : 'Z' ∉ xs) : (text.replace "Z" "+00:00").toList = xs ++ "+00:00".toList := by
  rw [toList_replace (by decide), htext]
  exact replaceAll_passes (noneBegins_of_notMem hnot)

theorem replace_none {text : String} (hnot : 'Z' ∉ text.toList) :
    text.replace "Z" "+00:00" = text := by
  apply String.toList_injective
  rw [toList_replace (by decide)]
  have hnone : NoneBegins id "Z".toList text.toList [] := noneBegins_of_notMem hnot
  have hpasses : replaceAll id "Z".toList "+00:00".toList 0 (text.toList ++ []) = text.toList :=
    (replaceAll_passes hnone).trans (List.append_nil _)
  rwa [List.append_nil] at hpasses

/-! The order of the texts is the order of the instants. -/

structure OrderPreserving (encode : Timestamp → String) : Prop where
  lt_iff : ∀ {s t}, s < timestampLimit → t < timestampLimit → (encode s < encode t ↔ s < t)

namespace OrderPreserving
variable {encode : Timestamp → String} {s t : Timestamp}

theorem eq_iff (h : OrderPreserving encode) (hs : s < timestampLimit) (ht : t < timestampLimit) :
    encode s = encode t ↔ s = t := by
  constructor
  · intro heq
    have hst : ¬ s < t := fun hlt => (heq ▸ (h.lt_iff hs ht).2 hlt).ne rfl
    have hts : ¬ t < s := fun hlt => (heq ▸ (h.lt_iff ht hs).2 hlt).ne rfl
    exact le_antisymm (not_lt.1 hts) (not_lt.1 hst)
  · rintro rfl
    rfl

theorem le_iff (h : OrderPreserving encode) (hs : s < timestampLimit) (ht : t < timestampLimit) :
    encode s ≤ encode t ↔ s ≤ t := by
  rw [← not_lt, ← not_lt, h.lt_iff ht hs]

end OrderPreserving

theorem isoformat_ordered : OrderPreserving isoformat where
  lt_iff hs ht := by
    rw [String.lt_iff_toList_lt, toList_isoformat hs, toList_isoformat ht, fraction_lt hs ht]

theorem toList_utcText {t : Timestamp} (ht : t < timestampLimit) :
    (utcText t).toList = wallChars t ('.' :: (digits 6 (t % 1000000) ++ "+00:00".toList)) := by
  rw [utcText, String.toList_append, toList_wallText ht, wallChars_append]
  rfl

theorem utcText_ordered : OrderPreserving utcText where
  lt_iff hs ht := by
    rw [String.lt_iff_toList_lt, toList_utcText hs, toList_utcText ht, fraction_lt hs ht]

/-! The instants that are given. -/

/-- What is given says an instant of the years 1 to 9999: a datetime with any offset, a naive one that
is taken as UTC, or a text of such. -/
inductive Denotes : TimestampInput → Timestamp → Prop
  | datetime {d : Datetime} {t : Timestamp} :
      (d.wall : ℤ) - d.offset.getD 0 = t → t < timestampLimit → Denotes (.datetime d) t
  | text {d : Datetime} {t : Timestamp} (timespec : Timespec) :
      Denotes (.datetime d) t → Denotes (.text (d.isoformat timespec)) t
  | zulu {d : Datetime} {t : Timestamp} (timespec : Timespec) :
      Denotes (.datetime d) t → d.offset = some 0 →
      Denotes (.text (wallText timespec d.wall ++ "Z")) t

section
variable {d : Datetime} {x : TimestampInput} {t now : Timestamp}

theorem Datetime.toUtc_ok : d.toUtc = .ok t ↔ Denotes (.datetime d) t := by
  unfold Datetime.toUtc
  constructor
  · intro h
    dsimp only at h
    split at h
    · rename_i hrange
      obtain rfl := Except.ok.inj h
      have hnat := Int.toNat_of_nonneg hrange.1
      exact .datetime hnat.symm (Int.ofNat_lt.1 (hnat.symm ▸ hrange.2))
    · simp at h
  · rintro (⟨hinstant, ht⟩ | _)
    dsimp only
    rw [hinstant, if_pos ⟨Int.natCast_nonneg t, Int.ofNat_lt.2 ht⟩, Int.toNat_natCast]

theorem Denotes.lt (h : Denotes x t) : t < timestampLimit := by
  induction h with
  | datetime _ ht => exact ht
  | text _ _ ih => exact ih
  | zulu _ _ _ ih => exact ih

theorem notMem_isoformat (d : Datetime) (timespec : Timespec) :
    'Z' ∉ (d.isoformat timespec).toList := by
  rw [d.toList_isoformat]
  refine notMem_wallChars (by decide) (by decide) ?_
  rw [List.mem_append, not_or]
  refine ⟨notMem_fractionChars (by decide) (by decide) _ _, ?_⟩
  unfold Datetime.suffix
  cases d.offset with
  | none => simp
  | some o => exact notMem_offsetChars (by decide) (by decide) o

theorem fromisoformat_zulu (timespec : Timespec) (hoffset : d.offset = some 0) :
    fromisoformat ((wallText timespec d.wall ++ "Z").replace "Z" "+00:00") = some d := by
  have hnot : 'Z' ∉ wallChars d.wall (fractionChars timespec d.wall) :=
    notMem_wallChars (by decide) (by decide) (notMem_fractionChars (by decide) (by decide) _ _)
  have htext : (wallText timespec d.wall ++ "Z").toList =
      wallChars d.wall (fractionChars timespec d.wall) ++ ['Z'] := by
    rw [String.toList_append, toList_wallText d.wall_lt]
    rfl
  have hends : EndsClock "+00:00".toList := by simp [EndsClock]
  have hread : readOffset "+00:00".toList = some (some 0) :=
    readOffset_offsetChars (show (0 : ℤ).natAbs < microsecondsPerDay by decide)
  have hwall : ((wallText timespec d.wall ++ "Z").replace "Z" "+00:00").toList =
      wallChars d.wall (fractionChars timespec d.wall ++ "+00:00".toList) := by
    rw [replace_zulu htext hnot, wallChars_append]
  exact Datetime.fromisoformat_wall hwall hends (hread.trans (congrArg some hoffset.symm))

theorem normalizeTimestamp_denotes (h : Denotes x t) :
    normalizeTimestamp now x = .ok (isoformat t) := by
  cases h with
  | datetime hinstant ht =>
      rw [normalizeTimestamp, Datetime.toUtc_ok.2 (.datetime hinstant ht)]
      exact congrArg Except.ok (replace_utc ht)
  | text timespec h =>
      rw [normalizeTimestamp, replace_none (notMem_isoformat _ timespec),
        Datetime.fromisoformat_isoformat]
      dsimp only
      rw [Datetime.toUtc_ok.2 h]
      exact congrArg Except.ok (replace_utc h.lt)
  | zulu timespec h hoffset =>
      rw [normalizeTimestamp, fromisoformat_zulu timespec hoffset]
      dsimp only
      rw [Datetime.toUtc_ok.2 h]
      exact congrArg Except.ok (replace_utc h.lt)

/-- What is normalized is the text of an instant. -/
theorem normalizeTimestamp_ok (hnow : now < timestampLimit) {text : String}
    (h : normalizeTimestamp now x = .ok text) : ∃ t, t < timestampLimit ∧ text = isoformat t := by
  have hdatetime : ∀ d : Datetime,
      (do return (utcText (← d.toUtc)).replace "+00:00" "Z" : Except PyError String) = .ok text →
      ∃ t, t < timestampLimit ∧ text = isoformat t := by
    intro d h
    obtain ⟨t, ht, htext⟩ := bind_eq_ok.1 h
    have hlt := (Datetime.toUtc_ok.1 ht).lt
    rw [replace_utc hlt] at htext
    exact ⟨t, hlt, (Except.ok.inj htext).symm⟩
  cases x with
  | clock =>
      refine ⟨now, hnow, ?_⟩
      rw [← replace_utc hnow]
      exact (Except.ok.inj h).symm
  | text value =>
      rw [normalizeTimestamp] at h
      split at h
      · simp at h
      · exact hdatetime _ h
  | datetime d => exact hdatetime d h

theorem denotes_isoformat (ht : t < timestampLimit) : Denotes (.text (isoformat t)) t := by
  rw [isoformat_eq]
  exact .zulu (d := ⟨t, some 0, ht, by simp [microsecondsPerDay]⟩) .microseconds
    (.datetime (by simp) ht) rfl

theorem schedulerTimestamp_denotes (h : Denotes (.datetime d) t) (haware : d.offset.isSome = true) :
    schedulerTimestamp d = .ok (utcText t) := by
  have hnot : ¬ d.offset.isNone = true := by simpa using Option.isSome_iff_ne_none.1 haware
  rw [schedulerTimestamp, ensureAware, if_neg hnot, Datetime.toUtc_ok.2 h]
  rfl

theorem schedulerFromTimestamp_text (zone : Timestamp → Except PyError Timestamp)
    (ht : t < timestampLimit) : schedulerFromTimestamp zone (utcText t) = .ok t := by
  have haware : (some (0 : ℤ)).isNone = false := rfl
  rw [schedulerFromTimestamp, utcText_eq t ht, Datetime.fromisoformat_isoformat]
  dsimp only
  rw [if_neg (by simp), Datetime.toUtc_ok.2 (.datetime (by simp) ht)]

theorem channelTimestamp_denotes (h : Denotes (.datetime d) t) :
    channelTimestamp d = .ok (isoformat t) := by
  rw [channelTimestamp, Datetime.toUtc_ok.2 h]
  exact congrArg Except.ok (replace_utc h.lt)

end

/-! The comparisons that are made in SQL. -/

namespace StepRecord

/-- The lease of the row ends at an instant that has a text. -/
def InRange (r : StepRecord) : Prop := ∀ t ∈ r.leaseExpiresAt, t < timestampLimit

/-- `status IN (?, ?) AND lease_expires_at IS NOT NULL AND lease_expires_at <= ?` on texts -/
def expiredAtText (now : String) (r : StepRecord) : Bool :=
  (r.status = .leased || r.status = .executing) &&
    (r.leaseExpiresAt.map isoformat).any fun expiry => expiry ≤ now

/-- `ORDER BY lease_expires_at, id` on texts -/
def expiresBeforeText (a b : StepRecord) : Bool :=
  let s := isoformat (a.leaseExpiresAt.getD 0)
  let t := isoformat (b.leaseExpiresAt.getD 0)
  s < t || (s = t && !(b.id < a.id))

variable {a b r : StepRecord} {now : Timestamp}

theorem expiredAtText_eq (hr : r.InRange) (hnow : now < timestampLimit) :
    r.expiredAtText (isoformat now) = Journal.expiredAt now r := by
  unfold expiredAtText Journal.expiredAt
  cases hexpiry : r.leaseExpiresAt with
  | none => rfl
  | some t => simp [isoformat_ordered.le_iff (hr t hexpiry) hnow]

theorem InRange.getD (hr : r.InRange) : r.leaseExpiresAt.getD 0 < timestampLimit := by
  cases hexpiry : r.leaseExpiresAt with
  | none => decide
  | some t => exact hr t hexpiry

theorem expiresBeforeText_eq (ha : a.InRange) (hb : b.InRange) :
    a.expiresBeforeText b = a.expiresBefore b := by
  simp only [expiresBeforeText, expiresBefore, isoformat_ordered.lt_iff ha.getD hb.getD,
    isoformat_ordered.eq_iff ha.getD hb.getD]

end StepRecord

theorem timestamp_order :
    (∀ now x y s t, Denotes x s → Denotes y t → ∃ a b, normalizeTimestamp now x = .ok a ∧
      normalizeTimestamp now y = .ok b ∧ (a < b ↔ s < t) ∧ (a = b ↔ s = t)) ∧
    (∀ now now' x text, now < timestampLimit → normalizeTimestamp now x = .ok text →
      normalizeTimestamp now' (.text text) = .ok text) ∧
    (∀ d e s t, Denotes (.datetime d) s → Denotes (.datetime e) t → d.offset.isSome = true →
      e.offset.isSome = true → ∃ a b, schedulerTimestamp d = .ok a ∧ schedulerTimestamp e = .ok b ∧
        (a < b ↔ s < t) ∧ (a = b ↔ s = t) ∧ ∀ zone, schedulerFromTimestamp zone a = .ok s) ∧
    (∀ d, d.offset = none → schedulerTimestamp d =
      .error ⟨.valueError, "timestamp must include a timezone"⟩) ∧
    (∀ d e s t, Denotes (.datetime d) s → Denotes (.datetime e) t →
      ∃ a b, channelTimestamp d = .ok a ∧ channelTimestamp e = .ok b ∧ (a < b ↔ s < t) ∧
        (a = b ↔ s = t)) ∧
    (∀ s t, s < timestampLimit → t < timestampLimit →
      (isoformat s ≤ isoformat t ↔ s ≤ t) ∧ (utcText s ≤ utcText t ↔ s ≤ t)) ∧
    (∀ now (a b : StepRecord), now < timestampLimit → a.InRange → b.InRange →
      a.expiredAtText (isoformat now) = Journal.expiredAt now a ∧
        a.expiresBeforeText b = a.expiresBefore b) := by
  refine ⟨?_, ?_, ?_, ?_, ?_, ?_, ?_⟩
  · intro now x y s t hx hy
    exact ⟨_, _, normalizeTimestamp_denotes hx, normalizeTimestamp_denotes hy,
      isoformat_ordered.lt_iff hx.lt hy.lt, isoformat_ordered.eq_iff hx.lt hy.lt⟩
  · intro now now' x text hnow h
    obtain ⟨t, ht, rfl⟩ := normalizeTimestamp_ok hnow h
    exact normalizeTimestamp_denotes (denotes_isoformat ht)
  · intro d e s t hd he haware haware'
    exact ⟨_, _, schedulerTimestamp_denotes hd haware, schedulerTimestamp_denotes he haware',
      utcText_ordered.lt_iff hd.lt he.lt, utcText_ordered.eq_iff hd.lt he.lt,
      fun zone => schedulerFromTimestamp_text zone hd.lt⟩
  · intro d hnaive
    rw [schedulerTimestamp, ensureAware, if_pos (by rw [hnaive]; rfl)]
    rfl
  · intro d e s t hd he
    exact ⟨_, _, channelTimestamp_denotes hd, channelTimestamp_denotes he,
      isoformat_ordered.lt_iff hd.lt he.lt, isoformat_ordered.eq_iff hd.lt he.lt⟩
  · intro s t hs ht
    exact ⟨isoformat_ordered.le_iff hs ht, utcText_ordered.le_iff hs ht⟩
  · intro now a b hnow ha hb
    exact ⟨a.expiredAtText_eq ha hnow, a.expiresBeforeText_eq ha hb⟩

end Polaris
