import Mathlib.Algebra.Order.Ring.Int
import Mathlib.Tactic.IntervalCases
import ModuleBundler.Calendar

/-! The calendar carries every day. The date of a day number has that number again, and the
days of the years from 1 to 9999 have their dates in these years. -/
namespace ModuleBundler.Calendar

/-! ### The years of an era -/

/-- The year of a day of the era, both from zero. -/
def yearOfEra (day : ℤ) : ℤ := (day - day / 1460 + day / 36524 - day / 146096) / 365

/-- The first day of a year of the era. -/
def firstDay (year : ℤ) : ℤ := 365 * year + year / 4 - year / 100

theorem yearOfEra_succ {day : ℤ} (start : 0 ≤ day) (last : day < 146096) :
    yearOfEra day ≤ yearOfEra (day + 1) := by
  unfold yearOfEra
  omega

theorem yearOfEra_mono {day later : ℤ} (start : 0 ≤ day) (order : day ≤ later)
    (last : later < 146097) : yearOfEra day ≤ yearOfEra later := by
  induction later, order using Int.leInduction with
  | base => exact le_rfl
  | succ later order ih =>
    exact (ih (by omega)).trans (yearOfEra_succ (by omega) (by omega))

theorem yearOfEra_ends : ∀ year < (400 : ℕ), yearOfEra (firstDay year) = year ∧
    (0 < year → yearOfEra (firstDay year - 1) = year - 1) := by
  decide +kernel

/-- A day lies in its year; the last year of the era has 366 days. -/
theorem yearOfEra_spec {day : ℤ} (start : 0 ≤ day) (last : day < 146097) :
    0 ≤ yearOfEra day ∧ yearOfEra day < 400 ∧ firstDay (yearOfEra day) ≤ day ∧
      (day < firstDay (yearOfEra day + 1) ∨
        yearOfEra day = 399 ∧ day ≤ firstDay (yearOfEra day) + 365) := by
  have low : 0 ≤ yearOfEra day := by
    unfold yearOfEra
    omega
  have high : yearOfEra day < 400 := by
    unfold yearOfEra
    omega
  generalize own : yearOfEra day = year at *
  obtain ⟨year, rfl⟩ := Int.eq_ofNat_of_zero_le low
  refine ⟨low, high, ?_, ?_⟩
  · -- A day before belongs to a year before.
    by_contra before
    have some : 0 < year := by
      by_contra none
      rw [Nat.eq_zero_of_not_pos none] at before
      exact before start
    have earlier := yearOfEra_mono start (Int.le_sub_one_of_lt (not_le.mp before)) (by
      unfold firstDay
      omega)
    rw [own, (yearOfEra_ends year (by omega)).2 some] at earlier
    omega
  · by_cases more : year + 1 < 400
    · by_contra after
      have later : yearOfEra (firstDay ((year + 1 : ℕ) : ℤ)) ≤ yearOfEra day := yearOfEra_mono (by
        unfold firstDay
        omega) (not_lt.mp (not_or.mp after).1) last
      rw [own, (yearOfEra_ends (year + 1) more).1] at later
      omega
    · have final : year = 399 := by omega
      rw [final]
      exact .inr ⟨rfl, Int.lt_add_one_iff.mp last⟩

/-! ### Dates -/

/-- The date of a day of a year that begins in March, in the years of an era. -/
def ofParts (era year dayOfYear : ℤ) : Date :=
  let monthFromMarch := (5 * dayOfYear + 2) / 153
  let day := dayOfYear - (153 * monthFromMarch + 2) / 5 + 1
  let month := if monthFromMarch < 10 then monthFromMarch + 3 else monthFromMarch - 9
  ⟨if month ≤ 2 then year + era * 400 + 1 else year + era * 400, month.toNat, day.toNat⟩

/-- A day of the year, which has 366 days only if the next year is a leap year. -/
structure IsDayOfYear (year dayOfYear : ℤ) : Prop where
  low : 0 ≤ year
  high : year < 400
  first : 0 ≤ dayOfYear
  last : dayOfYear ≤ 365
  leap : dayOfYear = 365 → (year + 1) % 4 = 0 ∧ ((year + 1) % 100 ≠ 0 ∨ (year + 1) % 400 = 0)

theorem exists_parts (days : ℤ) : ∃ era year dayOfYear, IsDayOfYear year dayOfYear ∧
    era * 146097 + firstDay year + dayOfYear - 719468 = days ∧
    ofDayNumber days = ofParts era year dayOfYear := by
  obtain ⟨low, high, first, last⟩ := yearOfEra_spec
    (Int.emod_nonneg (days + 719468) (by decide : (146097 : ℤ) ≠ 0))
    (Int.emod_lt_of_pos _ (by decide))
  refine ⟨(days + 719468) / 146097, yearOfEra ((days + 719468) % 146097),
    (days + 719468) % 146097 - firstDay (yearOfEra ((days + 719468) % 146097)), ?_, by omega, rfl⟩
  generalize yearOfEra ((days + 719468) % 146097) = year at *
  generalize (days + 719468) % 146097 = day at *
  unfold firstDay at *
  exact ⟨low, high, by omega, by omega, by omega⟩

section Parts

variable {era year dayOfYear : ℤ}

theorem ofParts_early (first : 0 ≤ dayOfYear) (early : (5 * dayOfYear + 2) / 153 < 10) :
    ofParts era year dayOfYear =
      ⟨year + era * 400, ((5 * dayOfYear + 2) / 153 + 3).toNat,
        (dayOfYear - (153 * ((5 * dayOfYear + 2) / 153) + 2) / 5 + 1).toNat⟩ := by
  have behind : ¬ (5 * dayOfYear + 2) / 153 + 3 ≤ 2 := by omega
  simp only [ofParts, early, if_true, behind, if_false]

theorem ofParts_late (last : dayOfYear ≤ 365) (late : ¬ (5 * dayOfYear + 2) / 153 < 10) :
    ofParts era year dayOfYear =
      ⟨year + era * 400 + 1, ((5 * dayOfYear + 2) / 153 - 9).toNat,
        (dayOfYear - (153 * ((5 * dayOfYear + 2) / 153) + 2) / 5 + 1).toNat⟩ := by
  have before : (5 * dayOfYear + 2) / 153 - 9 ≤ 2 := by omega
  simp only [ofParts, late, if_false, before, if_true]

theorem dayNumber_ofParts (inside : IsDayOfYear year dayOfYear) :
    dayNumber (ofParts era year dayOfYear) = era * 146097 + firstDay year + dayOfYear - 719468 := by
  obtain ⟨low, high, first, last, -⟩ := inside
  by_cases early : (5 * dayOfYear + 2) / 153 < 10
  · rw [ofParts_early first early]
    unfold dayNumber firstDay
    dsimp only
    rw [if_neg (by omega), if_neg (by omega)]
    omega
  · rw [ofParts_late last early]
    unfold dayNumber firstDay
    dsimp only
    rw [if_pos (by omega), if_pos (by omega)]
    omega

end Parts

/-- The date of a day number has that number. -/
theorem dayNumber_ofDayNumber (days : ℤ) : dayNumber (ofDayNumber days) = days := by
  obtain ⟨era, year, dayOfYear, inside, whole, parts⟩ := exists_parts days
  rw [parts, dayNumber_ofParts inside, whole]

/-- The years from 1 to 9999 are the days from the first of January 1 to the last of December
9999. -/
theorem year_ofDayNumber_iff {days : ℤ} :
    1 ≤ (ofDayNumber days).year ∧ (ofDayNumber days).year ≤ 9999 ↔
      -719162 ≤ days ∧ days ≤ 2932896 := by
  obtain ⟨era, year, dayOfYear, ⟨low, high, start, rest, -⟩, whole, parts⟩ := exists_parts days
  unfold firstDay at whole
  rw [parts]
  by_cases early : (5 * dayOfYear + 2) / 153 < 10
  · rw [ofParts_early start early]
    dsimp only
    omega
  · rw [ofParts_late rest early]
    dsimp only
    omega

/-- From March on the months have 153 days in five, up to January. -/
theorem daysInMonth_early (year : ℤ) {k : ℕ} (early : k < 10) :
    daysInMonth year (k + 3) = (153 * (k + 1) + 2) / 5 - (153 * k + 2) / 5 := by
  interval_cases k <;> rfl

theorem isLeap_of_days {era year : ℤ}
    (leap : (year + 1) % 4 = 0 ∧ ((year + 1) % 100 ≠ 0 ∨ (year + 1) % 400 = 0)) :
    isLeap (year + era * 400 + 1) = true := by
  simp only [isLeap, Bool.and_eq_true, Bool.or_eq_true, decide_eq_true_eq]
  omega

/-- The date of a day number is a day of its month. -/
theorem valid_ofDayNumber (days : ℤ) :
    1 ≤ (ofDayNumber days).month ∧ (ofDayNumber days).month ≤ 12 ∧ 1 ≤ (ofDayNumber days).day ∧
      (ofDayNumber days).day ≤ daysInMonth (ofDayNumber days).year (ofDayNumber days).month := by
  obtain ⟨era, year, dayOfYear, ⟨low, high, first, last, leap⟩, -, parts⟩ := exists_parts days
  rw [parts]
  obtain ⟨k, count⟩ : ∃ k : ℕ, (5 * dayOfYear + 2) / 153 = k :=
    Int.eq_ofNat_of_zero_le (by omega)
  by_cases early : (5 * dayOfYear + 2) / 153 < 10
  · rw [ofParts_early first early, count]
    have month : ((k : ℤ) + 3).toNat = k + 3 := by omega
    have start : (153 * (k : ℤ) + 2) / 5 = ((153 * k + 2) / 5 : ℕ) := by
      push_cast
      rfl
    have lower : ((153 * k + 2) / 5 : ℕ) ≤ dayOfYear := by omega
    have upper : dayOfYear < ((153 * (k + 1) + 2) / 5 : ℕ) := by omega
    dsimp only
    rw [month, start, daysInMonth_early _ (by omega)]
    generalize (153 * k + 2) / 5 = this at *
    generalize (153 * (k + 1) + 2) / 5 = next at *
    omega
  rw [ofParts_late last early, count]
  dsimp only
  obtain rfl | rfl : k = 10 ∨ k = 11 := by omega
  · have length : daysInMonth (year + era * 400 + 1) 1 = 31 := rfl
    refine ⟨by decide, by decide, by omega, ?_⟩
    change _ ≤ daysInMonth (year + era * 400 + 1) 1
    omega
  · refine ⟨by decide, by decide, by omega, ?_⟩
    change _ ≤ if isLeap (year + era * 400 + 1) then 29 else 28
    by_cases final : dayOfYear = 365
    · rw [isLeap_of_days (leap final), if_pos rfl]
      omega
    · split <;> omega

/-! ### Times of day -/

theorem microseconds_ofMicroseconds (n : ℕ) : (TimeOfDay.ofMicroseconds n).microseconds = n := by
  unfold TimeOfDay.ofMicroseconds TimeOfDay.microseconds
  dsimp only
  omega

/-- Date and time tell the microseconds that they come from. -/
theorem ofMicroseconds_exact (n : ℤ) :
    dayNumber (ofMicroseconds n).1 * 86400000000 + (ofMicroseconds n).2.microseconds = n := by
  unfold ofMicroseconds
  dsimp only
  rw [dayNumber_ofDayNumber, microseconds_ofMicroseconds]
  omega

end ModuleBundler.Calendar
