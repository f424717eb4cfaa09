import SealedStore.Time.Calendar

set_option autoImplicit false

/-!
# Days and dates

The date of a number of days exists (`isValid_ofDays`) and has that number of days
(`toDays_ofDays`).  Within an era of 146097 days the years begin in March, so a year is longer by
its last day when the next one is a leap year.
-/

namespace SealedStore.Date

/-! ## The year within an era -/

section Era

variable {ofEra year : Int}

/-- The century of a day within an era is that of its year; the last day of all has no century of
its own. -/
theorem century_of_day (h0 : 0 ≤ ofEra) (h1 : ofEra < 146097)
    (hyear : year = (ofEra - ofEra / 1460 + ofEra / 36524 - ofEra / 146096) / 365) :
    year / 100 = if ofEra = 146096 then 3 else ofEra / 36524 := by
  have hcases : ofEra / 36524 = 0 ∨ ofEra / 36524 = 1 ∨ ofEra / 36524 = 2 ∨ ofEra / 36524 = 3 ∨
      ofEra = 146096 := by omega
  rcases hcases with h | h | h | h | h
  · rw [if_neg (by omega)]
    omega
  · rw [if_neg (by omega)]
    omega
  · rw [if_neg (by omega)]
    omega
  · rw [if_neg (by omega)]
    omega
  · rw [if_pos h]
    omega

/-- A day lies within its year, and on the 366th day only before a leap year. -/
theorem day_of_year (h0 : 0 ≤ ofEra) (h1 : ofEra < 146097)
    (hyear : year = (ofEra - ofEra / 1460 + ofEra / 36524 - ofEra / 146096) / 365) :
    0 ≤ ofEra - (365 * year + year / 4 - year / 100) ∧
      ofEra - (365 * year + year / 4 - year / 100) ≤ 365 ∧
      (ofEra - (365 * year + year / 4 - year / 100) = 365 → isLeap (year + 1) = true) := by
  have hcentury := century_of_day h0 h1 hyear
  have hleap : isLeap (year + 1) = true ↔
      (year + 1) % 4 = 0 ∧ ((year + 1) % 100 ≠ 0 ∨ (year + 1) % 400 = 0) := by
    simp [isLeap]
  rw [hleap]
  split at hcentury
  · omega
  · have hlast : ofEra / 146096 = 0 := by omega
    rw [hlast] at hyear
    -- Four years have at most 1461 days, so the leap years before the day are counted in time.
    have hcenturies : ofEra / 36524 * 25 ≤ ofEra / 1460 := by omega
    have hleaps : year / 4 ≤ ofEra / 1460 := by omega
    refine ⟨by omega, by omega, fun h365 => ?_⟩
    have hmore : year / 4 + 1 ≤ ofEra / 1460 := by omega
    have hfew : year / 4 ≤ 99 := by omega
    have hpast : 0 ≤ year / 100 := by omega
    have hlast : year % 4 = 3 := by
      have := Int.mul_ediv_add_emod year 4
      omega
    have hfourth : (year + 1) % 4 = 0 := by omega
    have hnoCentury : (year + 1) % 100 ≠ 0 := by omega
    exact ⟨hfourth, .inl hnoCentury⟩

end Era

/-! ## Dates -/

/-- A date by the days since the March in which its year begins. -/
theorem ofDays_eq (days : Int) : ∃ era year ofYear : Int,
    0 ≤ year ∧ year ≤ 399 ∧ 0 ≤ ofYear ∧ ofYear ≤ 365 ∧
      days + 719468 = era * 146097 + (365 * year + year / 4 - year / 100 + ofYear) ∧
      (ofYear = 365 → isLeap (era * 400 + year + 1) = true) ∧
      ofDays days =
        if (5 * ofYear + 2) / 153 < 10 then
          ⟨era * 400 + year, ((5 * ofYear + 2) / 153 + 3).toNat,
            (ofYear - (153 * ((5 * ofYear + 2) / 153) + 2) / 5 + 1).toNat⟩
        else
          ⟨era * 400 + year + 1, ((5 * ofYear + 2) / 153 - 9).toNat,
            (ofYear - (153 * ((5 * ofYear + 2) / 153) + 2) / 5 + 1).toNat⟩ := by
  generalize hofEra : (days + 719468) % 146097 = ofEra
  generalize hera : (days + 719468) / 146097 = era
  generalize hyear : (ofEra - ofEra / 1460 + ofEra / 36524 - ofEra / 146096) / 365 = year
  obtain ⟨h0, h365, hleap⟩ := day_of_year (by omega) (by omega) hyear.symm
  refine ⟨era, year, ofEra - (365 * year + year / 4 - year / 100), by omega, by omega, h0, h365,
    by omega, fun h => ?_, ?_⟩
  · have := hleap h
    simp only [isLeap, decide_eq_true_eq] at this ⊢
    omega
  · unfold ofDays
    simp only [hofEra, hera, hyear]

/-- The date of a number of days has that number of days. -/
theorem toDays_ofDays (days : Int) : (ofDays days).toDays = days := by
  obtain ⟨era, year, ofYear, h0, h399, hd0, hd365, hdays, -, hdate⟩ := ofDays_eq days
  rw [hdate]
  split
  · simp only [toDays]
    rw [if_neg (by omega), if_neg (by omega)]
    omega
  · simp only [toDays]
    rw [if_pos (by omega), if_pos (by omega)]
    omega

/-- The date of a number of days exists. -/
theorem isValid_ofDays (days : Int) : (ofDays days).isValid = true := by
  obtain ⟨era, year, ofYear, h0, h399, hd0, hd365, -, hleap, hdate⟩ := ofDays_eq days
  rw [hdate]
  generalize hm : (5 * ofYear + 2) / 153 = m
  by_cases hFebruary : m = 11
  · -- Only the last month of such a year depends on the year.
    subst hFebruary
    simp only [isValid, daysInMonth, Int.reduceLT, Int.reduceSub, ↓reduceIte, decide_eq_true_eq,
      Int.reduceToNat]
    split
    · omega
    · have hshort : ofYear ≠ 365 := fun h => absurd (hleap h) ‹_›
      omega
  · have hcases : m = 0 ∨ m = 1 ∨ m = 2 ∨ m = 3 ∨ m = 4 ∨ m = 5 ∨ m = 6 ∨ m = 7 ∨ m = 8 ∨
        m = 9 ∨ m = 10 := by omega
    rcases hcases with rfl | rfl | rfl | rfl | rfl | rfl | rfl | rfl | rfl | rfl | rfl <;>
      simp [isValid, daysInMonth] <;> omega

theorem daysInMonth_le (year : Int) (month : Nat) : daysInMonth year month ≤ 31 := by
  fun_cases daysInMonth year month <;> decide

end SealedStore.Date
