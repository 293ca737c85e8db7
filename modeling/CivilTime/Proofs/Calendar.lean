import CivilTime.Instant
import Mathlib.Tactic

/-!
The years of the calendar are intervals of days that follow each other without a gap. Years are
first counted from March, where each begins right after the leap day of the one before it; the year
of January begins 306 days after the first of March.
-/

namespace CivilTime

namespace Calendar

/-- Days from the first of March of the year 0 to the first of March of another year. -/
def marchDay (year : Int) : Int :=
  365 * year + year / 4 - year / 100 + year / 400

theorem marchDay_succ (year : Int) :
    marchDay year + 365 ≤ marchDay (year + 1) ∧ marchDay (year + 1) ≤ marchDay year + 366 := by
  simp only [marchDay]
  omega

/-- The day of a date, counted from the first of March before it. -/
theorem daysFromCivil_eq (year month day : Int) :
    daysFromCivil year month day =
      marchDay (if month ≤ 2 then year - 1 else year) +
        (153 * (if 2 < month then month - 3 else month + 9) + 2) / 5 + day - 1 - 719468 := by
  simp only [daysFromCivil, marchDay]
  generalize (if month ≤ 2 then year - 1 else year) = counted
  generalize (153 * (if 2 < month then month - 3 else month + 9) + 2) / 5 = monthStart
  omega

theorem daysFromCivil_january (year : Int) :
    daysFromCivil year 1 1 = marchDay (year - 1) + 306 - 719468 := by
  rw [daysFromCivil_eq]
  norm_num

/-- New Year comes later in a later year. -/
theorem newYear_strictMono : StrictMono fun year => daysFromCivil year 1 1 := by
  refine strictMono_int_of_lt_succ fun year => ?_
  have hlength := (marchDay_succ (year - 1)).1
  rw [daysFromCivil_january, daysFromCivil_january, add_sub_cancel_right]
  rw [sub_add_cancel] at hlength
  omega

/-- A day of an era of 400 years in centuries, leap cycles, years and days. The last year of a
leap cycle has a day more, unless it closes a century that does not close the era. -/
theorem era_split {dayOfEra : Int} (hlow : 0 ≤ dayOfEra) (hhigh : dayOfEra ≤ 146096) :
    ∃ century cycle year day : Int, (0 ≤ century ∧ century ≤ 3) ∧ (0 ≤ cycle ∧ cycle ≤ 24) ∧
      (0 ≤ year ∧ year ≤ 3) ∧ (0 ≤ day ∧ day ≤ 365) ∧
      (day = 365 → year = 3 ∧ (cycle = 24 → century = 3)) ∧
      dayOfEra = 36524 * century + 1461 * cycle + 365 * year + day := by
  obtain ⟨century, ofCentury, hcentury, hofCentury, hlast, hera⟩ : ∃ century ofCentury : Int,
      (0 ≤ century ∧ century ≤ 3) ∧ (0 ≤ ofCentury ∧ ofCentury ≤ 36524) ∧
        (ofCentury = 36524 → century = 3) ∧ dayOfEra = 36524 * century + ofCentury := by
    refine ⟨min (dayOfEra / 36524) 3, dayOfEra - 36524 * min (dayOfEra / 36524) 3, ?_⟩
    omega
  obtain ⟨cycle, ofCycle, hcycle, hofCycle, hcenturyDays⟩ : ∃ cycle ofCycle : Int,
      (0 ≤ cycle ∧ cycle ≤ 24) ∧ (0 ≤ ofCycle ∧ ofCycle ≤ 1460) ∧
        ofCentury = 1461 * cycle + ofCycle :=
    ⟨ofCentury / 1461, ofCentury % 1461, by omega, by omega, by omega⟩
  obtain ⟨year, day, hyear, hday, hleap, hcycleDays⟩ : ∃ year day : Int,
      (0 ≤ year ∧ year ≤ 3) ∧ (0 ≤ day ∧ day ≤ 365) ∧ (day = 365 → year = 3) ∧
        ofCycle = 365 * year + day := by
    refine ⟨min (ofCycle / 365) 3, ofCycle - 365 * min (ofCycle / 365) 3, ?_⟩
    omega
  refine ⟨century, cycle, year, day, hcentury, hcycle, hyear, hday, ?_, by omega⟩
  intro hfull
  exact ⟨hleap hfull, by omega⟩

section Era

variable {century cycle year day : Int} (hcentury : 0 ≤ century ∧ century ≤ 3)
  (hcycle : 0 ≤ cycle ∧ cycle ≤ 24) (hyear : 0 ≤ year ∧ year ≤ 3) (hday : 0 ≤ day ∧ day ≤ 365)
  (hleap : day = 365 → year = 3 ∧ (cycle = 24 → century = 3))

include hcentury hcycle hyear hday hleap

theorem yearOfEra_split {dayOfEra : Int}
    (hsplit : dayOfEra = 36524 * century + 1461 * cycle + 365 * year + day) :
    (dayOfEra - dayOfEra / 1460 + dayOfEra / 36524 - dayOfEra / 146096) / 365 =
      100 * century + 4 * cycle + year := by
  by_cases hlast : dayOfEra = 146096
  · subst hlast
    omega
  -- Cycles of 1460 days run ahead of the leap cycles by less than one cycle.
  obtain ⟨ahead, hahead⟩ : ∃ ahead, dayOfEra / 1460 = 25 * century + cycle + ahead :=
    ⟨dayOfEra / 1460 - (25 * century + cycle), by ring⟩
  have hcases : (ahead = 0 ∧ 24 * century + cycle + 365 * year + day < 1460) ∨
      (ahead = 1 ∧ 1460 ≤ 24 * century + cycle + 365 * year + day) := by
    omega
  have hcenturies : dayOfEra / 36524 = century := by omega
  have heras : dayOfEra / 146096 = 0 := by omega
  rw [hahead, hcenturies, heras]
  omega

theorem marchDay_split :
    marchDay (100 * century + 4 * cycle + year) ≤
        36524 * century + 1461 * cycle + 365 * year + day ∧
      36524 * century + 1461 * cycle + 365 * year + day <
        marchDay (100 * century + 4 * cycle + year + 1) := by
  have hstart : marchDay (100 * century + 4 * cycle + year) =
      36524 * century + 1461 * cycle + 365 * year := by
    have hfours : (100 * century + 4 * cycle + year) / 4 = 25 * century + cycle := by omega
    have hhundreds : (100 * century + 4 * cycle + year) / 100 = century := by omega
    have heras : (100 * century + 4 * cycle + year) / 400 = 0 := by omega
    rw [marchDay, hfours, hhundreds, heras]
    ring
  have hnext := (marchDay_succ (100 * century + 4 * cycle + year)).1
  refine ⟨by omega, ?_⟩
  by_cases hfull : day = 365
  · obtain ⟨rfl, hclose⟩ := hleap hfull
    have hfours : (100 * century + 4 * cycle + 3 + 1) / 4 = 25 * century + cycle + 1 := by omega
    by_cases hcenturyEnd : cycle = 24
    · obtain rfl := hclose hcenturyEnd
      subst hcenturyEnd
      norm_num [marchDay]
      omega
    · have hhundreds : (100 * century + 4 * cycle + 3 + 1) / 100 = century := by omega
      have heras : (100 * century + 4 * cycle + 3 + 1) / 400 = 0 := by omega
      rw [marchDay, hfours, hhundreds, heras]
      omega
  · omega

end Era

theorem marchDay_add_eras (year era : Int) :
    marchDay (year + era * 400) = marchDay year + era * 146097 := by
  simp only [marchDay]
  omega

/-- The year that is computed from a day of an era is the one in which the day lies. -/
theorem yearOfEra_bounds {dayOfEra : Int} (hlow : 0 ≤ dayOfEra) (hhigh : dayOfEra ≤ 146096) :
    ∃ yearOfEra,
      (dayOfEra - dayOfEra / 1460 + dayOfEra / 36524 - dayOfEra / 146096) / 365 = yearOfEra ∧
        (0 ≤ yearOfEra ∧ yearOfEra ≤ 399) ∧
        marchDay yearOfEra ≤ dayOfEra ∧ dayOfEra < marchDay (yearOfEra + 1) := by
  obtain ⟨century, cycle, year, day, hcentury, hcycle, hyear, hday, hleap, hsplit⟩ :=
    era_split hlow hhigh
  have hbounds := marchDay_split hcentury hcycle hyear hday hleap
  rw [← hsplit] at hbounds
  exact ⟨_, yearOfEra_split hcentury hcycle hyear hday hleap hsplit, by omega, hbounds⟩

def ofMarch (counted dayOfYear : Int) : Date :=
  let shifted := (5 * dayOfYear + 2) / 153
  let month := if shifted < 10 then shifted + 3 else shifted - 9
  { year := if month ≤ 2 then counted + 1 else counted
    month := month
    day := dayOfYear - (153 * shifted + 2) / 5 + 1 }

/-- A day is first found in its year that begins in March, and its date is then counted from there.
-/
theorem civilFromDays_eq (days : Int) :
    ∃ counted, (marchDay counted ≤ days + 719468 ∧ days + 719468 < marchDay (counted + 1)) ∧
      civilFromDays days = ofMarch counted (days + 719468 - marchDay counted) := by
  obtain ⟨era, dayOfEra, hdays, hlow, hhigh⟩ : ∃ era dayOfEra : Int,
      days + 719468 = era * 146097 + dayOfEra ∧ 0 ≤ dayOfEra ∧ dayOfEra ≤ 146096 :=
    ⟨(days + 719468) / 146097, (days + 719468) % 146097, by omega, by omega, by omega⟩
  obtain ⟨yearOfEra, hcomputed, hrange, hbounds⟩ := yearOfEra_bounds hlow hhigh
  have hera : (days + 719468) / 146097 = era := by omega
  have hrest : days + 719468 - era * 146097 = dayOfEra := by omega
  have hmarch : 365 * yearOfEra + yearOfEra / 4 - yearOfEra / 100 = marchDay yearOfEra := by
    simp only [marchDay]
    omega
  have hnext := marchDay_add_eras (yearOfEra + 1) era
  refine ⟨yearOfEra + era * 400, ?_, ?_⟩
  · rw [add_right_comm, marchDay_add_eras, hnext]
    omega
  · have hofYear : days + 719468 - (marchDay yearOfEra + era * 146097) =
        dayOfEra - marchDay yearOfEra := by omega
    simp only [civilFromDays, ofMarch, hera, hrest, hcomputed, hmarch, marchDay_add_eras, hofYear]

/-- The year of a date, in terms of the year that begins in March. -/
theorem civilFromDays_year (days : Int) :
    ∃ counted, (marchDay counted ≤ days + 719468 ∧ days + 719468 < marchDay (counted + 1)) ∧
      (civilFromDays days).year =
        if days + 719468 - marchDay counted < 306 then counted else counted + 1 := by
  obtain ⟨counted, hbounds, hdate⟩ := civilFromDays_eq days
  have hlength := (marchDay_succ counted).2
  refine ⟨counted, hbounds, ?_⟩
  rw [hdate]
  generalize hday : days + 719468 - marchDay counted = dayOfYear
  have hdayOfYear : 0 ≤ dayOfYear ∧ dayOfYear ≤ 365 := by omega
  clear hbounds hdate hlength hday
  simp only [ofMarch]
  by_cases hspring : dayOfYear < 306
  · have hmonth : (5 * dayOfYear + 2) / 153 < 10 := by omega
    rw [if_pos hspring, if_pos hmonth, if_neg (by omega)]
  · have hmonth : ¬ (5 * dayOfYear + 2) / 153 < 10 := by omega
    rw [if_neg hspring, if_neg hmonth, if_pos (by omega)]

/-- The year of a date is the one whose days, from the first of January on, hold the date. -/
theorem civilFromDays_year_bounds (days : Int) :
    daysFromCivil (civilFromDays days).year 1 1 ≤ days ∧
      days < daysFromCivil ((civilFromDays days).year + 1) 1 1 := by
  obtain ⟨counted, hcounted, hyear⟩ := civilFromDays_year days
  have hbefore := (marchDay_succ (counted - 1)).1
  have hafter := (marchDay_succ counted).1
  rw [sub_add_cancel] at hbefore
  rw [hyear, daysFromCivil_january, daysFromCivil_january]
  split
  · rw [add_sub_cancel_right]
    omega
  · rw [add_sub_cancel_right, add_sub_cancel_right]
    omega

end Calendar

namespace Instant

theorem millisPerDay_eq : millisPerDay = 86400000 :=
  rfl

theorem startOfYear_succ (year : Int) :
    startOfYear year + 365 * millisPerDay ≤ startOfYear (year + 1) ∧
      startOfYear (year + 1) ≤ startOfYear year + 366 * millisPerDay := by
  have hbounds := Calendar.marchDay_succ (year - 1)
  simp only [startOfYear, Calendar.daysFromCivil_january, millisPerDay_eq, sub_add_cancel,
    add_sub_cancel_right] at *
  omega

theorem startOfYear_strictMono : StrictMono startOfYear := by
  intro first second h
  exact mul_lt_mul_of_pos_right (Calendar.newYear_strictMono h) (by decide)

theorem yearOf_eq_iff (millis year : Int) :
    yearOf millis = year ↔ startOfYear year ≤ millis ∧ millis < startOfYear (year + 1) := by
  have hown : startOfYear (yearOf millis) ≤ millis ∧ millis < startOfYear (yearOf millis + 1) := by
    have hbounds := Calendar.civilFromDays_year_bounds (millis / millisPerDay)
    simp only [startOfYear, yearOf, millisPerDay_eq] at *
    omega
  constructor
  · rintro rfl
    exact hown
  · intro hother
    have hfirst := startOfYear_strictMono.lt_iff_lt.mp (lt_of_le_of_lt hown.1 hother.2)
    have hsecond := startOfYear_strictMono.lt_iff_lt.mp (lt_of_le_of_lt hother.1 hown.2)
    omega

theorem le_yearOf_iff (millis year : Int) : year ≤ yearOf millis ↔ startOfYear year ≤ millis := by
  have hown := (yearOf_eq_iff millis (yearOf millis)).mp rfl
  constructor
  · intro h
    exact (startOfYear_strictMono.monotone h).trans hown.1
  · intro h
    have hlt := startOfYear_strictMono.lt_iff_lt.mp (lt_of_le_of_lt h hown.2)
    omega

end Instant

end CivilTime
