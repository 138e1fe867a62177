import CertAuthority.Time.Instant

/-!
# Days and dates

A year counts from March 1st, so that a leap day is the last of its year. An era is 400 such years,
146097 days: four centuries of 36524 days and the leap day of the last. A century is 25 groups of
1461 days, the last of which is a day short.

* `yearOfEra_bounds` : the year that a day of an era falls in;
* `monthOfYear_bounds` : the month that a day of a year falls in;
* `day_le_daysInMonth` : no month is longer than the calendar says, nor is February in a leap year;
* `civilFromDays_spec` : every day has a date of the calendar, from which it is found again.
-/

namespace CertAuthority

/-! ## Years -/

/-- Century, group of four years and day of the group, for all but the last day of an era. -/
theorem exists_day_of_era {doe : Int} (h0 : 0 ≤ doe) (h1 : doe < 146096) :
    ∃ c q r, doe = 36524 * c + 1461 * q + r ∧ (0 ≤ c ∧ c ≤ 3) ∧ (0 ≤ q ∧ q ≤ 24) ∧
      (0 ≤ r ∧ r ≤ 1460) ∧ 1461 * q + r < 36524 := by
  refine ⟨doe / 36524, doe % 36524 / 1461, doe % 36524 % 1461, ?_, ?_, ?_, ?_, ?_⟩ <;> omega

/-- The year of its group that day `r` falls in. `late` corrects for the leap days before it, and
can only be needed in the last year of the group. -/
theorem yearOfGroup_bounds {c q r late : Int} (hc : 0 ≤ c ∧ c ≤ 3) (hq : 0 ≤ q ∧ q ≤ 24)
    (hr : 0 ≤ r ∧ r ≤ 1460) (hl : late = (24 * c + q + r) / 1460) :
    (0 ≤ (r - late) / 365 ∧ (r - late) / 365 ≤ 3) ∧
      0 ≤ r - 365 * ((r - late) / 365) ∧ r - 365 * ((r - late) / 365) < 366 ∧
      (r - 365 * ((r - late) / 365) = 365 → (r - late) / 365 = 3 ∧ r = 1460) := by
  have hlate : late = 0 ∧ r ≤ 1459 ∨ late = 1 ∧ 1364 ≤ r := by omega
  clear hl hc hq
  obtain ⟨rfl, h⟩ | ⟨rfl, h⟩ := hlate <;> omega

/-- The correction of the calendar's formula comes to whole centuries and groups. -/
theorem yearOfEra_eq {c q r late : Int} (hc : 0 ≤ c ∧ c ≤ 3)
    (hr : 0 ≤ 1461 * q + r ∧ 1461 * q + r < 36524) (hl : late = (24 * c + q + r) / 1460) :
    (36524 * c + 1461 * q + r - (36524 * c + 1461 * q + r) / 1460 +
      (36524 * c + 1461 * q + r) / 36524 - (36524 * c + 1461 * q + r) / 146096) / 365 =
        100 * c + 4 * q + (r - late) / 365 := by
  have h1460 : (36524 * c + 1461 * q + r) / 1460 = 25 * c + q + late := by omega
  have hcentury : (36524 * c + 1461 * q + r) / 36524 = c := by clear h1460; omega
  have hera : (36524 * c + 1461 * q + r) / 146096 = 0 := by clear h1460 hcentury hl; omega
  rw [h1460, hcentury, hera]
  clear h1460 hcentury hera hl hr hc
  omega

/-- The year of an era that a day falls in, and the day of that year. It has a day 365 only if the
leap day is in it, which belongs to the next year of the calendar. -/
theorem yearOfEra_bounds {doe yoe : Int} (h0 : 0 ≤ doe) (h1 : doe < 146097)
    (hy : yoe = (doe - doe / 1460 + doe / 36524 - doe / 146096) / 365) :
    (0 ≤ yoe ∧ yoe < 400) ∧ 0 ≤ doe - (365 * yoe + yoe / 4 - yoe / 100) ∧
      doe - (365 * yoe + yoe / 4 - yoe / 100) < 366 ∧
      (doe - (365 * yoe + yoe / 4 - yoe / 100) = 365 →
        (yoe + 1) % 4 = 0 ∧ ((yoe + 1) % 100 ≠ 0 ∨ (yoe + 1) % 400 = 0)) := by
  by_cases hlast : doe = 146096
  · subst hlast
    omega
  · obtain ⟨c, q, r, rfl, hc, hq, hr, hqr⟩ := exists_day_of_era h0 (by omega)
    obtain ⟨hj, hday, hday', hleap⟩ := yearOfGroup_bounds hc hq hr rfl
    rw [yearOfEra_eq hc (by omega) rfl] at hy
    generalize (r - (24 * c + q + r) / 1460) / 365 = j at hj hday hday' hleap hy
    have h4 : yoe / 4 = 25 * c + q := by omega
    have h100 : yoe / 100 = c := by omega
    have hdoy : 36524 * c + 1461 * q + r - (365 * yoe + yoe / 4 - yoe / 100) = r - 365 * j := by
      rw [h4, h100]
      omega
    rw [hdoy]
    refine ⟨by omega, hday, hday', fun h => ?_⟩
    obtain ⟨rfl, rfl⟩ := hleap h
    subst hy
    clear h4 h100 hdoy h hday hday' hleap
    omega

/-! ## Dates -/

/-- Month, counted from March, and day of the month. -/
theorem monthOfYear_bounds {doy mp : Int} (h : 0 ≤ doy ∧ doy < 366)
    (hm : mp = (5 * doy + 2) / 153) :
    (0 ≤ mp ∧ mp ≤ 11) ∧ 0 ≤ doy - (153 * mp + 2) / 5 := by
  omega

theorem isLeapYear_eq_true_iff (year : Int) :
    isLeapYear year = true ↔ year % 4 = 0 ∧ (year % 100 ≠ 0 ∨ year % 400 = 0) := by
  simp [isLeapYear, Int.fmod_eq_emod_of_nonneg]

theorem daysInMonth_le (year month : Int) : daysInMonth year month ≤ 31 := by
  unfold daysInMonth
  split
  · split <;> omega
  · split <;> omega

/-- Months are as long as the calendar says. -/
theorem day_le_daysInMonth {doy mp month year : Int} (hd : 0 ≤ doy ∧ doy < 366)
    (hm : mp = (5 * doy + 2) / 153) (hmonth : month = if mp < 10 then mp + 3 else mp - 9)
    (hleap : doy = 365 → isLeapYear year = true) :
    doy - (153 * mp + 2) / 5 + 1 ≤ daysInMonth year month := by
  unfold daysInMonth
  by_cases hlast : doy = 365
  · have hmp : mp = 11 := by omega
    simp [hleap hlast, hlast, hmonth, hmp]
  · split
    · split <;> omega
    · split <;> omega

/-- The month of the calendar, whose years begin in January. -/
theorem daysFromCivil_of_parts {era yoe mp month : Int} (day : Int) (hy : 0 ≤ yoe ∧ yoe < 400)
    (hm : 0 ≤ mp ∧ mp ≤ 11) (hmonth : month = if mp < 10 then mp + 3 else mp - 9) :
    daysFromCivil (yoe + era * 400 + if month ≤ 2 then 1 else 0) month day =
      era * 146097 + (365 * yoe + yoe / 4 - yoe / 100) + (153 * mp + 2) / 5 + day - 719469 := by
  have hstart : (if month ≤ 2 then yoe + era * 400 + (if month ≤ 2 then 1 else 0) - 1
      else yoe + era * 400 + if month ≤ 2 then 1 else 0) = yoe + era * 400 := by
    split <;> omega
  have hera : (yoe + era * 400).fdiv 400 = era := by
    rw [Int.fdiv_eq_ediv_of_nonneg _ (by decide)]
    omega
  have hmarch : (if month > 2 then month - 3 else month + 9) = mp := by
    subst hmonth
    split <;> split <;> omega
  simp only [daysFromCivil, hstart, hera, hmarch,
    Int.fdiv_eq_ediv_of_nonneg _ (by decide : (0 : Int) ≤ 4),
    Int.fdiv_eq_ediv_of_nonneg _ (by decide : (0 : Int) ≤ 5),
    Int.fdiv_eq_ediv_of_nonneg _ (by decide : (0 : Int) ≤ 100)]
  rw [show yoe + era * 400 - era * 400 = yoe by omega]
  omega

/-- Every day has a date of the calendar, from which it is found again. -/
theorem civilFromDays_spec {days year month day : Int}
    (h : civilFromDays days = (year, month, day)) :
    (1 ≤ month ∧ month ≤ 12) ∧ (1 ≤ day ∧ day ≤ daysInMonth year month) ∧
      daysFromCivil year month day = days := by
  simp only [civilFromDays, Prod.mk.injEq,
    Int.fdiv_eq_ediv_of_nonneg _ (by decide : (0 : Int) ≤ 146097),
    Int.fdiv_eq_ediv_of_nonneg _ (by decide : (0 : Int) ≤ 1460),
    Int.fdiv_eq_ediv_of_nonneg _ (by decide : (0 : Int) ≤ 36524),
    Int.fdiv_eq_ediv_of_nonneg _ (by decide : (0 : Int) ≤ 146096),
    Int.fdiv_eq_ediv_of_nonneg _ (by decide : (0 : Int) ≤ 365),
    Int.fdiv_eq_ediv_of_nonneg _ (by decide : (0 : Int) ≤ 4),
    Int.fdiv_eq_ediv_of_nonneg _ (by decide : (0 : Int) ≤ 100),
    Int.fdiv_eq_ediv_of_nonneg _ (by decide : (0 : Int) ≤ 153),
    Int.fdiv_eq_ediv_of_nonneg _ (by decide : (0 : Int) ≤ 5)] at h
  obtain ⟨hyear, hmonth, hday⟩ := h
  have hera : 0 ≤ days + 719468 - (days + 719468) / 146097 * 146097 ∧
      days + 719468 - (days + 719468) / 146097 * 146097 < 146097 := by omega
  have hdays : days = (days + 719468) / 146097 * 146097 +
      (days + 719468 - (days + 719468) / 146097 * 146097) - 719468 := by omega
  -- from here on every quotient is a variable with its bounds
  generalize days + 719468 - (days + 719468) / 146097 * 146097 = doe at *
  generalize (days + 719468) / 146097 = era at *
  obtain ⟨hyoe, hdoy, hdoy', hleap⟩ := yearOfEra_bounds hera.1 hera.2 rfl
  generalize (doe - doe / 1460 + doe / 36524 - doe / 146096) / 365 = yoe at *
  generalize hd : doe - (365 * yoe + yoe / 4 - yoe / 100) = doy at *
  obtain ⟨hmp, hdom⟩ := monthOfYear_bounds ⟨hdoy, hdoy'⟩ rfl
  rw [hmonth] at hyear
  have hlength : doy = 365 → isLeapYear year = true := fun h => by
    have hfebruary : month ≤ 2 := by
      subst hmonth h
      decide
    obtain ⟨h4, h100⟩ := hleap h
    rw [isLeapYear_eq_true_iff, ← hyear, if_pos hfebruary]
    omega
  have hin := day_le_daysInMonth ⟨hdoy, hdoy'⟩ rfl hmonth.symm hlength
  generalize (5 * doy + 2) / 153 = mp at *
  refine ⟨?_, ⟨by omega, hday ▸ hin⟩, ?_⟩
  · subst hmonth
    split <;> omega
  · rw [← hyear, daysFromCivil_of_parts _ hyoe hmp hmonth.symm]
    omega

end CertAuthority
