import CivilTime.Proofs.Calendar

/-!
Dates and the days they stand for. The dates of the calendar, in the order of years, months and
days, follow each other as the integers do: counting the days of a date keeps the order, and
computing the date of a day is its inverse. Months and years follow each other without a gap, so
that two dates are compared at the ends of the months and years between them.
-/

namespace CivilTime

namespace Calendar

theorem daysInMonth_ge {month : Int} (hlow : 1 ≤ month) (hhigh : month ≤ 12) (year : Int) :
    28 ≤ daysInMonth year month := by
  simp only [daysInMonth, daysInMonth?, monthLength?]
  interval_cases month <;> simp
  split_ifs <;> omega

theorem daysInMonth_le {month : Int} (hlow : 1 ≤ month) (hhigh : month ≤ 12) (year : Int) :
    daysInMonth year month ≤ 31 := by
  simp only [daysInMonth, daysInMonth?, monthLength?]
  interval_cases month <;> simp
  split_ifs <;> omega

def leapDays (year : Int) : Int :=
  if isLeap year = true then 1 else 0

theorem leapDays_of_common {year : Int} (h : isLeap year = false) : leapDays year = 0 := by
  simp [leapDays, h]

theorem marchDay_eq (year : Int) : marchDay year = marchDay (year - 1) + 365 + leapDays year := by
  simp only [marchDay, leapDays, isLeap, Bool.and_eq_true, Bool.or_eq_true, beq_iff_eq, bne_iff_ne]
  split_ifs <;> omega

theorem newYear_succ (year : Int) :
    daysFromCivil (year + 1) 1 1 = daysFromCivil year 1 1 + 365 + leapDays year := by
  have hlength := marchDay_eq year
  rw [daysFromCivil_january, daysFromCivil_january, add_sub_cancel_right]
  omega

theorem daysInMonth_eq {month : Int} (hlow : 1 ≤ month) (hhigh : month ≤ 12) (year : Int) :
    daysInMonth year month = daysInMonth 2001 month + if month = 2 then leapDays year else 0 := by
  have hcommon : isLeap 2001 = false := by decide
  simp only [daysInMonth, daysInMonth?, monthLength?, leapDays, hcommon]
  interval_cases month <;> simp
  split_ifs <;> rfl

theorem daysFromCivil_add (year month day more : Int) :
    daysFromCivil year month (day + more) = daysFromCivil year month day + more := by
  rw [daysFromCivil_eq, daysFromCivil_eq]
  omega

/-- The day after the last of a month is the first of the next one, after December in the next
year. -/
theorem firstOfNextMonth {month : Int} (hlow : 1 ≤ month) (hhigh : month ≤ 12) (year : Int) :
    daysFromCivil (if month = 12 then year + 1 else year) (month % 12 + 1) 1 =
      daysFromCivil year month (daysInMonth year month) + 1 := by
  have hlength := daysInMonth_eq hlow hhigh year
  have hyear := marchDay_eq year
  have hcommon : daysInMonth 2001 month =
      if month = 2 then 28
      else if month = 4 ∨ month = 6 ∨ month = 9 ∨ month = 11 then 30 else 31 := by
    interval_cases month <;> rfl
  simp only [daysFromCivil_eq, hlength, hcommon]
  interval_cases month <;> norm_num <;> omega

/-- All days of a month come before the first of a later month of the year. -/
theorem lastOfMonth_lt {first second : Int} (hlow : 1 ≤ first) (hlater : first + 1 ≤ second)
    (hhigh : second ≤ 12) (year : Int) :
    daysFromCivil year first (daysInMonth year first) < daysFromCivil year second 1 := by
  induction second, hlater using Int.leInduction with
  | base =>
    have hnext := firstOfNextMonth hlow (by omega) year
    rw [if_neg (by omega), show first % 12 + 1 = first + 1 by omega] at hnext
    omega
  | succ month hlater ih =>
    have hbefore := ih (by omega)
    have hnext := firstOfNextMonth (show 1 ≤ month by omega) (by omega) year
    rw [if_neg (by omega), show month % 12 + 1 = month + 1 by omega] at hnext
    have hlength := daysInMonth_ge (show 1 ≤ month by omega) (by omega) year
    have hlast := daysFromCivil_add year month 1 (daysInMonth year month - 1)
    rw [add_sub_cancel] at hlast
    omega

end Calendar

namespace Date

structure IsValid (date : Date) : Prop where
  month : 1 ≤ date.month ∧ date.month ≤ 12
  day : 1 ≤ date.day ∧ date.day ≤ Calendar.daysInMonth date.year date.month

def days (date : Date) : Int :=
  Calendar.daysFromCivil date.year date.month date.day

def Before (first second : Date) : Prop :=
  first.year < second.year ∨
    first.year = second.year ∧
      (first.month < second.month ∨ first.month = second.month ∧ first.day < second.day)

instance (date : Date) : Decidable date.IsValid :=
  decidable_of_iff ((1 ≤ date.month ∧ date.month ≤ 12) ∧
    1 ≤ date.day ∧ date.day ≤ Calendar.daysInMonth date.year date.month)
    ⟨fun h => ⟨h.1, h.2⟩, fun h => ⟨h.month, h.day⟩⟩

theorem before_or_eq_or_before (first second : Date) :
    first.Before second ∨ first = second ∨ second.Before first := by
  obtain ⟨year, month, day⟩ := first
  obtain ⟨otherYear, otherMonth, otherDay⟩ := second
  simp only [Before, Date.mk.injEq]
  omega

variable {date first second : Date}

theorem IsValid.month_bounds (h : date.IsValid) :
    Calendar.daysFromCivil date.year date.month 1 ≤ date.days ∧
      date.days ≤ Calendar.daysFromCivil date.year date.month
        (Calendar.daysInMonth date.year date.month) := by
  have hday := h.day
  rw [days, Calendar.daysFromCivil_eq, Calendar.daysFromCivil_eq, Calendar.daysFromCivil_eq]
  omega

theorem IsValid.year_bounds (h : date.IsValid) :
    Calendar.daysFromCivil date.year 1 1 ≤ date.days ∧
      date.days < Calendar.daysFromCivil (date.year + 1) 1 1 := by
  obtain ⟨hfirst, hlast⟩ := h.month_bounds
  obtain ⟨hlow, hhigh⟩ := h.month
  constructor
  · rcases hlow.eq_or_lt with hjanuary | hlater
    · rwa [← hjanuary] at hfirst
    · have hmonths := Calendar.lastOfMonth_lt le_rfl hlater hhigh date.year
      have hlength := Calendar.daysFromCivil_add date.year 1 1 30
      have hjanuary : Calendar.daysInMonth date.year 1 = 31 := rfl
      rw [hjanuary] at hmonths
      norm_num at hlength
      omega
  · have hnext := Calendar.firstOfNextMonth (show (1 : Int) ≤ 12 by omega) le_rfl date.year
    norm_num at hnext
    rcases hhigh.eq_or_lt with hdecember | hearlier
    · rw [hdecember] at hlast
      omega
    · have hmonths := Calendar.lastOfMonth_lt hlow hearlier le_rfl date.year
      have hlength := Calendar.daysFromCivil_add date.year 12 1 30
      have hdecember : Calendar.daysInMonth date.year 12 = 31 := rfl
      rw [hdecember] at hnext
      norm_num at hlength
      omega

/-- Counting days keeps the order of dates. -/
theorem IsValid.days_lt (hfirst : first.IsValid) (hsecond : second.IsValid)
    (h : first.Before second) : first.days < second.days := by
  rcases h with hyear | ⟨hyear, hmonth | ⟨hmonth, hday⟩⟩
  · have hyears := Calendar.newYear_strictMono.monotone hyear
    calc first.days
        < Calendar.daysFromCivil (first.year + 1) 1 1 := hfirst.year_bounds.2
      _ ≤ Calendar.daysFromCivil second.year 1 1 := hyears
      _ ≤ second.days := hsecond.year_bounds.1
  · calc first.days
        ≤ Calendar.daysFromCivil first.year first.month
            (Calendar.daysInMonth first.year first.month) := hfirst.month_bounds.2
      _ < Calendar.daysFromCivil first.year second.month 1 :=
          Calendar.lastOfMonth_lt hfirst.month.1 hmonth hsecond.month.2 _
      _ ≤ second.days := hyear ▸ hsecond.month_bounds.1
  · rw [days, days, ← hyear, ← hmonth, Calendar.daysFromCivil_eq, Calendar.daysFromCivil_eq]
    omega

theorem IsValid.days_lt_iff (hfirst : first.IsValid) (hsecond : second.IsValid) :
    first.days < second.days ↔ first.Before second := by
  constructor
  · intro hlt
    rcases before_or_eq_or_before first second with hbefore | rfl | hafter
    · exact hbefore
    · exact absurd hlt (lt_irrefl _)
    · exact absurd (hsecond.days_lt hfirst hafter) (not_lt.mpr hlt.le)
  · exact hfirst.days_lt hsecond

theorem IsValid.eq_of_days_eq (hfirst : first.IsValid) (hsecond : second.IsValid)
    (h : first.days = second.days) : first = second := by
  rcases before_or_eq_or_before first second with hbefore | heq | hafter
  · exact absurd h (hfirst.days_lt hsecond hbefore).ne
  · exact heq
  · exact absurd h (hsecond.days_lt hfirst hafter).ne'

end Date

namespace Calendar

/-- Counted from March, all months but the last one begin where the one before them ends. -/
theorem daysInMonth_shifted {shifted : Int} (hlow : 0 ≤ shifted) (hhigh : shifted ≤ 10)
    (year : Int) :
    daysInMonth year (if shifted < 10 then shifted + 3 else shifted - 9) =
      (153 * (shifted + 1) + 2) / 5 - (153 * shifted + 2) / 5 := by
  interval_cases shifted <;> rfl

section March

variable {counted dayOfYear : Int} (hlow : 0 ≤ dayOfYear)
  (hhigh : marchDay counted + dayOfYear < marchDay (counted + 1))

include hlow hhigh

theorem ofMarch_isValid : (ofMarch counted dayOfYear).IsValid := by
  have hlength := marchDay_eq (counted + 1)
  have hlongest := (marchDay_succ counted).2
  rw [add_sub_cancel_right] at hlength
  simp only [ofMarch]
  obtain ⟨shifted, hshifted⟩ : ∃ shifted, (5 * dayOfYear + 2) / 153 = shifted := ⟨_, rfl⟩
  rw [hshifted]
  refine ⟨?_, ?_, ?_⟩
  · dsimp only
    split_ifs <;> omega
  · dsimp only
    omega
  · dsimp only
    by_cases hfebruary : shifted = 11
    · subst hfebruary
      have hmonth := daysInMonth_eq (show (1 : Int) ≤ 2 by omega) (by omega) (counted + 1)
      have hcommon : daysInMonth 2001 2 = 28 := rfl
      rw [hcommon, if_pos rfl] at hmonth
      norm_num
      omega
    · have hmonth := daysInMonth_shifted (show 0 ≤ shifted by omega) (by omega)
      rw [hmonth]
      omega

theorem days_ofMarch :
    (ofMarch counted dayOfYear).days = marchDay counted + dayOfYear - 719468 := by
  have hlongest := (marchDay_succ counted).2
  simp only [Date.days, ofMarch, daysFromCivil_eq]
  obtain ⟨shifted, hshifted⟩ : ∃ shifted, (5 * dayOfYear + 2) / 153 = shifted := ⟨_, rfl⟩
  rw [hshifted]
  by_cases hspring : shifted < 10
  · rw [if_pos hspring, if_neg (by omega), if_neg (by omega), if_pos (by omega),
      add_sub_cancel_right]
    ring
  · rw [if_neg hspring, if_pos (by omega), if_pos (by omega), if_neg (by omega),
      add_sub_cancel_right, sub_add_cancel]
    ring

end March

theorem civilFromDays_isValid (days : Int) : (civilFromDays days).IsValid := by
  obtain ⟨counted, ⟨hlow, hhigh⟩, hdate⟩ := civilFromDays_eq days
  rw [hdate]
  exact ofMarch_isValid (by omega) (by omega)

theorem days_civilFromDays (days : Int) : (civilFromDays days).days = days := by
  obtain ⟨counted, ⟨hlow, hhigh⟩, hdate⟩ := civilFromDays_eq days
  rw [hdate, days_ofMarch (by omega) (by omega)]
  ring

theorem civilFromDays_days {date : Date} (h : date.IsValid) : civilFromDays date.days = date :=
  (civilFromDays_isValid date.days).eq_of_days_eq h (days_civilFromDays date.days)

/-- The days of a month are its dates. -/
theorem civilFromDays_of_month {year month days : Int} (hmonth : 1 ≤ month ∧ month ≤ 12)
    (hfirst : daysFromCivil year month 1 ≤ days)
    (hlast : days ≤ daysFromCivil year month (daysInMonth year month)) :
    civilFromDays days = ⟨year, month, 1 + (days - daysFromCivil year month 1)⟩ := by
  have hlength := daysFromCivil_add year month 1 (daysInMonth year month - 1)
  rw [add_sub_cancel] at hlength
  have hvalid : (⟨year, month, 1 + (days - daysFromCivil year month 1)⟩ : Date).IsValid := by
    refine ⟨hmonth, ?_⟩
    dsimp only
    omega
  apply (civilFromDays_isValid days).eq_of_days_eq hvalid
  rw [days_civilFromDays, Date.days, daysFromCivil_add]
  ring

/-- Days and dates are the same thing in the same order. The date of every day is one of the
calendar and stands for that day, every date of the calendar is the date of the day that it stands
for, an earlier day has an earlier date, and an instant falls in a year if it lies between New Year
and the next. -/
theorem dates_follow_days :
    (∀ days, (civilFromDays days).IsValid ∧ (civilFromDays days).days = days) ∧
      (∀ date : Date, date.IsValid → civilFromDays date.days = date) ∧
      (∀ first second, first < second ↔ (civilFromDays first).Before (civilFromDays second)) ∧
      ∀ millis year, Instant.yearOf millis = year ↔
        Instant.startOfYear year ≤ millis ∧ millis < Instant.startOfYear (year + 1) := by
  refine ⟨fun days => ⟨civilFromDays_isValid days, days_civilFromDays days⟩,
    fun date => civilFromDays_days, fun first second => ?_, Instant.yearOf_eq_iff⟩
  rw [← (civilFromDays_isValid first).days_lt_iff (civilFromDays_isValid second),
    days_civilFromDays, days_civilFromDays]

/-- The leap day of the year -400 is the last day of an era. -/
theorem dates_follow_days_at_leap_day :
    (⟨-400, 2, 29⟩ : Date).IsValid ∧
      civilFromDays (Date.days ⟨-400, 2, 29⟩) = ⟨-400, 2, 29⟩ := by
  have hvalid : (⟨-400, 2, 29⟩ : Date).IsValid := by decide
  exact ⟨hvalid, dates_follow_days.2.1 _ hvalid⟩

end Calendar

end CivilTime
