import CivilTime.Proofs.SearchProgress

/-!
The weekdays of dates. From each date to the next the weekday goes on by one, and so every week has
each weekday once. A point of the year with a weekday falls on the one date that has it among the
seven days which begin or end with the date that the point names.
-/

namespace CivilTime

namespace Date

def next (date : Date) : Date :=
  if date.day < Calendar.daysInMonth date.year date.month then { date with day := date.day + 1 }
  else if date.month < 12 then ⟨date.year, date.month + 1, 1⟩
  else ⟨date.year + 1, 1, 1⟩

def weekday (date : Date) : Int :=
  Calendar.weekday date.days

def midnight (date : Date) : Int :=
  date.days * Instant.millisPerDay

variable {date : Date}

theorem isValid_first {month : Int} (hlow : 1 ≤ month) (hhigh : month ≤ 12) (year : Int) :
    (⟨year, month, 1⟩ : Date).IsValid := by
  have hlength := Calendar.daysInMonth_ge hlow hhigh year
  refine ⟨⟨hlow, hhigh⟩, le_rfl, ?_⟩
  dsimp only
  omega

theorem IsValid.next (h : date.IsValid) : date.next.IsValid := by
  obtain ⟨⟨hlow, hhigh⟩, hfirst, hlast⟩ := h
  rw [Date.next]
  split_ifs with hinside hmonth
  · exact ⟨⟨hlow, hhigh⟩, hfirst.trans (Int.le_add_one le_rfl), Int.add_one_le_iff.mpr hinside⟩
  · exact isValid_first (by omega) (by omega) date.year
  · exact isValid_first le_rfl (by omega) (date.year + 1)

theorem IsValid.days_next (h : date.IsValid) : date.next.days = date.days + 1 := by
  obtain ⟨⟨hlow, hhigh⟩, hfirst, hlast⟩ := h
  have hmonths := Calendar.firstOfNextMonth hlow hhigh date.year
  rw [Date.next]
  split_ifs with hinside hmonth
  · exact Calendar.daysFromCivil_add date.year date.month date.day 1
  · rw [if_neg (by omega), show date.month % 12 + 1 = date.month + 1 by omega,
      show Calendar.daysInMonth date.year date.month = date.day by omega] at hmonths
    exact hmonths
  · rw [if_pos (by omega), show date.month % 12 + 1 = 1 by omega,
      show Calendar.daysInMonth date.year date.month = date.day by omega] at hmonths
    exact hmonths

theorem IsValid.weekday_next (h : date.IsValid) :
    date.next.weekday = if date.weekday = 7 then 1 else date.weekday + 1 := by
  simp only [weekday, h.days_next, Calendar.weekday]
  split_ifs <;> omega

end Date

namespace YearPoint

def baseDate (point : YearPoint) (year : Int) : Date :=
  let length := Calendar.daysInMonth year point.month
  ⟨year, point.month, if point.day = -1 then length else min point.day length⟩

/-- The date has the weekday of the point and is at most six days away from the one that the point
names, in the direction in which the weekday is looked for. -/
def Fits (point : YearPoint) (year : Int) (date : Date) : Prop :=
  date.weekday = point.weekday ∧
    if point.advance then
      (point.baseDate year).days ≤ date.days ∧ date.days ≤ (point.baseDate year).days + 6
    else (point.baseDate year).days - 6 ≤ date.days ∧ date.days ≤ (point.baseDate year).days

instance (point : YearPoint) (year : Int) (date : Date) : Decidable (point.Fits year date) :=
  inferInstanceAs (Decidable (_ ∧ _))

/-- The fields of a point but for its time, which may be any. -/
structure NamesDay (point : YearPoint) : Prop where
  month : 1 ≤ point.month ∧ point.month ≤ 12
  day : point.day = -1 ∨ (1 ≤ point.day ∧ point.day ≤ 31)
  weekday : 0 ≤ point.weekday ∧ point.weekday ≤ 7

def pickedDate (point : YearPoint) (year : Int) : Date :=
  Calendar.civilFromDays (point.pickedDay year)

variable {point : YearPoint}

theorem days_baseDate (hday : point.day = -1 ∨ 1 ≤ point.day) (year : Int) :
    (point.baseDate year).days = point.baseDays year := by
  simp only [Date.days, baseDate, baseDays]
  congr 1
  split_ifs <;> omega

theorem NamesDay.baseDate_isValid (h : point.NamesDay) (year : Int) :
    (point.baseDate year).IsValid := by
  have hlength := Calendar.daysInMonth_ge h.month.1 h.month.2 year
  have hday := h.day
  refine ⟨h.month, ?_⟩
  simp only [baseDate]
  split_ifs <;> omega

theorem fits_iff (hday : point.day = -1 ∨ 1 ≤ point.day) (hweekday : point.weekday ≠ 0)
    (year : Int) (date : Date) :
    point.Fits year date ↔ date.weekday = point.weekday ∧
      point.firstDay year ≤ date.days ∧ date.days ≤ point.lastDay year := by
  rw [Fits, days_baseDate hday, firstDay, lastDay]
  cases point.advance with
  | true => simp [hweekday]
  | false => simp [hweekday]

theorem days_pickedDate (point : YearPoint) (year : Int) :
    (point.pickedDate year).days = point.pickedDay year :=
  Calendar.days_civilFromDays (point.pickedDay year)

theorem pickedDate_isValid (point : YearPoint) (year : Int) : (point.pickedDate year).IsValid :=
  Calendar.civilFromDays_isValid (point.pickedDay year)

theorem localMillis_eq_midnight (point : YearPoint) (year : Int) :
    point.localMillis year = (point.pickedDate year).midnight + point.millisOfDay := by
  rw [Date.midnight, days_pickedDate]
  rfl

theorem NamesDay.weekday_pickedDay (h : point.NamesDay) (hweekday : point.weekday ≠ 0)
    (year : Int) : Calendar.weekday (point.pickedDay year) = point.weekday := by
  have hlow : 1 ≤ point.weekday := lt_of_le_of_ne h.weekday.1 (Ne.symm hweekday)
  exact weekday_shifted hlow h.weekday.2 (point.baseDays year)

/-- Among the dates of a week from or up to the base, the one with the weekday is picked. -/
theorem NamesDay.fits_iff_eq (h : point.NamesDay) (hweekday : point.weekday ≠ 0) (year : Int)
    {date : Date} (hdate : date.IsValid) :
    point.Fits year date ↔ date = point.pickedDate year := by
  rw [fits_iff (h.day.imp_right And.left) hweekday]
  constructor
  · rintro ⟨hsame, hfirst, hlast⟩
    have hpicked := pickedDay_eq h.weekday year hfirst hlast hsame
    rw [← days_pickedDate] at hpicked
    exact hdate.eq_of_days_eq (point.pickedDate_isValid year) hpicked.symm
  · rintro rfl
    rw [Date.weekday, days_pickedDate]
    exact ⟨h.weekday_pickedDay hweekday year, pickedDay_bounds h.weekday year⟩

theorem NamesDay.pickedDate_eq_baseDate (h : point.NamesDay) (hweekday : point.weekday = 0)
    (year : Int) : point.pickedDate year = point.baseDate year := by
  apply (point.pickedDate_isValid year).eq_of_days_eq (h.baseDate_isValid year)
  have hshift : point.weekdayShift (point.baseDays year) = 0 := if_pos hweekday
  rw [days_pickedDate, days_baseDate (h.day.imp_right And.left), pickedDay, hshift, add_zero]

/-- A weekday that is looked for backwards from the end of a month is found in it, and no later day
of the month has it. -/
theorem NamesDay.pickedDate_last (h : point.NamesDay) (hweekday : point.weekday ≠ 0)
    (hlast : point.day = -1) (hbackwards : point.advance = false) (year : Int) :
    (point.pickedDate year).year = year ∧ (point.pickedDate year).month = point.month ∧
      ∀ other : Date, other.IsValid → other.year = year → other.month = point.month →
        other.weekday = point.weekday → other.day ≤ (point.pickedDate year).day := by
  have hlength := Calendar.daysInMonth_ge h.month.1 h.month.2 year
  have hbase : point.baseDays year = Calendar.daysFromCivil year point.month
      (Calendar.daysInMonth year point.month) := by
    rw [← days_baseDate (Or.inl hlast), Date.days, baseDate, if_pos hlast]
  have hmonth := Calendar.daysFromCivil_add year point.month 1
    (Calendar.daysInMonth year point.month - 1)
  rw [add_sub_cancel] at hmonth
  have hpicked := pickedDay_bounds h.weekday year
  simp only [firstDay, lastDay, hweekday, hbackwards, false_or, Bool.false_eq_true, if_true,
    if_false, hbase] at hpicked
  have hdate : point.pickedDate year = ⟨year, point.month, _⟩ :=
    Calendar.civilFromDays_of_month h.month (by omega) hpicked.2
  refine ⟨by rw [hdate], by rw [hdate], fun other hother hyear hsameMonth hsame => ?_⟩
  by_contra hlater
  have hdays : (point.pickedDate year).days < other.days := by
    apply (point.pickedDate_isValid year).days_lt hother
    rw [Date.Before, hyear, hsameMonth, hdate]
    rw [hdate] at hlater
    exact Or.inr ⟨rfl, Or.inr ⟨rfl, not_le.mp hlater⟩⟩
  have hend := hother.month_bounds.2
  rw [hyear, hsameMonth] at hend
  rw [days_pickedDate] at hdays
  have hequal := Calendar.eq_of_weekday_eq
    (hsame.trans (h.weekday_pickedDay hweekday year).symm) (by omega) (by omega)
  omega

/-- Weekdays go on by one from each date to the next, and day 0 is a Thursday. So a point that names
a day in every year falls, at its time of day, on the one date of its weekday that is at most six
days away from the named one on the side of its direction, and without a weekday on the named date
itself. Looked for backwards from the end of the month, this is the last such weekday of the
month. -/
theorem localMillis_on_weekday (point : YearPoint) (h : point.NamesDay) (year : Int) :
    (point.baseDate year).IsValid ∧
      (∃ date : Date, date.IsValid ∧
        point.localMillis? year = some (date.midnight + point.millisOfDay) ∧
        (point.weekday = 0 → date = point.baseDate year) ∧
        (point.weekday ≠ 0 → ∀ other : Date, other.IsValid →
          (point.Fits year other ↔ other = date)) ∧
        (point.weekday ≠ 0 → point.day = -1 → point.advance = false →
          date.year = year ∧ date.month = point.month ∧
            ∀ other : Date, other.IsValid → other.year = year → other.month = point.month →
              other.weekday = point.weekday → other.day ≤ date.day)) ∧
      (∀ date : Date, date.IsValid → date.next.IsValid ∧
        date.next.weekday = if date.weekday = 7 then 1 else date.weekday + 1) ∧
      Date.weekday ⟨1970, 1, 1⟩ = 4 := by
  refine ⟨h.baseDate_isValid year, ⟨point.pickedDate year, point.pickedDate_isValid year, ?_,
    ?_, ?_, ?_⟩, ?_, rfl⟩
  · rw [localMillis?, guarded_of_range h.month.1 h.month.2, localMillis_eq_midnight]
  · exact fun hweekday => h.pickedDate_eq_baseDate hweekday year
  · exact fun hweekday other hother => h.fits_iff_eq hweekday year hother
  · exact fun hweekday hlast hbackwards => h.pickedDate_last hweekday hlast hbackwards year
  · exact fun date hdate => ⟨hdate.next, hdate.weekday_next⟩

/-- The last Sunday of February in the leap year 2000. -/
theorem localMillis_on_last_sunday :
    let point : YearPoint := { month := 2, day := -1, weekday := 7, millisOfDay := 3600000 }
    point.NamesDay ∧ point.Fits 2000 ⟨2000, 2, 27⟩ ∧
      point.localMillis? 2000 = some (Date.midnight ⟨2000, 2, 27⟩ + 3600000) := by
  have hnames : NamesDay { month := 2, day := -1, weekday := 7, millisOfDay := 3600000 } := by
    constructor <;> decide
  have hfits : Fits { month := 2, day := -1, weekday := 7, millisOfDay := 3600000 } 2000
      ⟨2000, 2, 27⟩ := by
    decide
  obtain ⟨-, ⟨date, -, hmillis, -, hunique, -⟩, -⟩ := localMillis_on_weekday _ hnames 2000
  obtain rfl := (hunique (by decide) ⟨2000, 2, 27⟩ (by decide)).mp hfits
  exact ⟨hnames, hfits, hmillis⟩

end YearPoint

end CivilTime
