import CivilTime.Proofs.Dates
import CivilTime.YearPoint

/-!
The occurrences of a point of the year. They are most of a year apart, and where the point stays in
its year, the searches for the next and the previous occurrence find the first one after an instant
and the last one before it.
-/

namespace CivilTime.YearPoint

/-- The point lies, on its own clock, in the year for which it is computed. -/
def StaysInYear (point : YearPoint) : Prop :=
  ∀ year, Instant.yearOf (point.localMillis year) = year

theorem StaysInYear.bounds {point : YearPoint} (h : point.StaysInYear) (year : Int) :
    Instant.startOfYear year ≤ point.localMillis year ∧
      point.localMillis year < Instant.startOfYear (year + 1) :=
  (Instant.yearOf_eq_iff _ year).mp (h year)

/-- The time of day does not change the date. -/
theorem localMillis_atTime (point : YearPoint) (millis year : Int) :
    ({ point with millisOfDay := millis } : YearPoint).localMillis year =
      millis + (point.localMillis year - point.millisOfDay) := by
  have hbase : ({ point with millisOfDay := millis } : YearPoint).baseDays year =
      point.baseDays year := rfl
  have hshift : ({ point with millisOfDay := millis } : YearPoint).weekdayShift =
      point.weekdayShift := rfl
  rw [localMillis, localMillis, hbase, hshift]
  ring

structure IsDate (point : YearPoint) : Prop where
  month : 1 ≤ point.month ∧ point.month ≤ 12
  day : 1 ≤ point.day ∧ point.day ≤ 28
  weekday : point.weekday = 0
  time : 0 ≤ point.millisOfDay ∧ point.millisOfDay < Instant.millisPerDay

theorem IsDate.localMillis_eq {point : YearPoint} (h : point.IsDate) (year : Int) :
    point.localMillis year =
      Calendar.daysFromCivil year point.month point.day * Instant.millisPerDay +
        point.millisOfDay := by
  have hlength := Calendar.daysInMonth_ge h.month.1 h.month.2 year
  have hday := h.day
  rw [localMillis, baseDays, weekdayShift, if_pos h.weekday, if_neg (by omega),
    min_eq_left (by omega), add_zero]

theorem IsDate.staysInYear {point : YearPoint} (h : point.IsDate) : point.StaysInYear := by
  intro year
  have hdays : Calendar.daysFromCivil year 1 1 ≤
        Calendar.daysFromCivil year point.month point.day ∧
      Calendar.daysFromCivil year point.month point.day <
        Calendar.daysFromCivil (year + 1) 1 1 := by
    have hlength := Calendar.marchDay_succ (year - 1)
    obtain ⟨hmonth, hday, -, -⟩ := h
    rw [sub_add_cancel] at hlength
    rw [Calendar.daysFromCivil_january, Calendar.daysFromCivil_january, Calendar.daysFromCivil_eq,
      add_sub_cancel_right]
    split_ifs <;> omega
  have htime := h.time
  rw [Instant.yearOf_eq_iff, h.localMillis_eq]
  simp only [Instant.startOfYear, Instant.millisPerDay_eq] at *
  omega

theorem daysInMonth_close (first second month : Int) :
    Calendar.daysInMonth first month ≤ Calendar.daysInMonth second month + 1 := by
  simp only [Calendar.daysInMonth, Calendar.daysInMonth?]
  cases Calendar.monthLength? month with
  | none => simp
  | some length =>
    simp only [Option.map_some, Option.getD_some]
    split_ifs <;> omega

/-- The base of the weekday moves on by a year, up to one day at the end of February. -/
theorem baseDays_succ (point : YearPoint) (year : Int) :
    point.baseDays year + 364 ≤ point.baseDays (year + 1) := by
  have hlength := daysInMonth_close year (year + 1) point.month
  have hyear := (Calendar.marchDay_succ (year - 1)).1
  have hnextYear := (Calendar.marchDay_succ year).1
  rw [sub_add_cancel] at hyear
  simp only [baseDays, Calendar.daysFromCivil_eq, add_sub_cancel_right]
  generalize (153 * (if 2 < point.month then point.month - 3 else point.month + 9) + 2) / 5 = start
  split_ifs <;> omega

theorem weekdayShift_close (point : YearPoint) (first second : Int) :
    point.weekdayShift first ≤ point.weekdayShift second + 6 := by
  have hfirst : 1 ≤ Calendar.weekday first ∧ Calendar.weekday first ≤ 7 := by
    simp only [Calendar.weekday]
    omega
  have hsecond : 1 ≤ Calendar.weekday second ∧ Calendar.weekday second ≤ 7 := by
    simp only [Calendar.weekday]
    omega
  simp only [weekdayShift]
  split_ifs <;> omega

/-- Two occurrences in a row are at least 358 days apart. -/
theorem localMillis_succ (point : YearPoint) (year : Int) :
    point.localMillis year + 358 * Instant.millisPerDay ≤ point.localMillis (year + 1) := by
  have hbase := point.baseDays_succ year
  have hshift := point.weekdayShift_close (point.baseDays year) (point.baseDays (year + 1))
  simp only [localMillis, Instant.millisPerDay_eq]
  omega

theorem localMillis_strictMono (point : YearPoint) : StrictMono point.localMillis := by
  refine strictMono_int_of_lt_succ fun year => ?_
  have hstep := point.localMillis_succ year
  simp only [Instant.millisPerDay_eq] at hstep
  omega

theorem instantIn_strictMono (point : YearPoint) (standardOffset save : Int) :
    StrictMono fun year => point.instantIn year standardOffset save := by
  intro first second h
  exact sub_lt_sub_right (point.localMillis_strictMono h) _

theorem localMillis_apart (point : YearPoint) {first second : Int} (h : first < second) :
    point.localMillis first + 358 * Instant.millisPerDay ≤ point.localMillis second :=
  (point.localMillis_succ first).trans (point.localMillis_strictMono.monotone h)

/-- If an occurrence lies after the start of a year, so does every later one, each read on the wall
clock of the saving that it is located with. The two savings are less than 358 days apart. -/
theorem start_le_of_later (point : YearPoint) {first second standardOffset save otherSave start : Int}
    (hclose : save - otherSave < 358 * Instant.millisPerDay)
    (hstart : start ≤ point.instantIn first standardOffset save + (standardOffset + save))
    (hlater : point.instantIn first standardOffset save <
      point.instantIn second standardOffset otherSave) :
    start ≤ point.instantIn second standardOffset otherSave + (standardOffset + otherSave) := by
  simp only [instantIn, offset, Clock.offset] at hstart hlater ⊢
  rcases lt_trichotomy first second with hlt | rfl | hgt
  · have hapart := point.localMillis_apart hlt
    split_ifs at * <;> omega
  · split_ifs at * <;> omega
  · have hapart := point.localMillis_apart hgt
    split_ifs at * <;> omega

/-- The fields of a point as they are read, where a negative day counts back within a month. -/
structure Readable (point : YearPoint) : Prop where
  month : 1 ≤ point.month ∧ point.month ≤ 12
  day : -31 ≤ point.day
  weekday : 0 ≤ point.weekday ∧ point.weekday ≤ 7
  time : 0 ≤ point.millisOfDay ∧ point.millisOfDay < Instant.millisPerDay

theorem hasMonth_of_range {point : YearPoint} (hlow : 1 ≤ point.month)
    (hhigh : point.month ≤ 12) : point.hasMonth = true := by
  have hindex : (point.month - 1).toNat < 12 := by omega
  rw [hasMonth, Calendar.monthLength?, if_neg (by omega), if_neg (by omega)]
  simpa using hindex

theorem guarded_of_range {point : YearPoint} (hlow : 1 ≤ point.month) (hhigh : point.month ≤ 12)
    {α : Type} (value : α) : point.guarded value = some value :=
  if_pos (hasMonth_of_range hlow hhigh)

/-- The base of the weekday lies in its year, or at most three days before it. -/
theorem Readable.baseDays_bounds {point : YearPoint} (h : point.Readable) (year : Int) :
    Calendar.daysFromCivil year 1 1 - 3 ≤ point.baseDays year ∧
      point.baseDays year < Calendar.daysFromCivil (year + 1) 1 1 := by
  obtain ⟨⟨hlow, hhigh⟩, hday, -, -⟩ := h
  have hshortest := Calendar.daysInMonth_ge hlow hhigh year
  have hlongest := Calendar.daysInMonth_le hlow hhigh year
  have hlength := Calendar.marchDay_succ (year - 1)
  rw [sub_add_cancel] at hlength
  simp only [baseDays, Calendar.daysFromCivil_eq, add_sub_cancel_right]
  split_ifs <;> omega

theorem Readable.localMillis_bounds {point : YearPoint} (h : point.Readable) (year : Int) :
    Instant.startOfYear year - 9 * Instant.millisPerDay ≤ point.localMillis year ∧
      point.localMillis year < Instant.startOfYear (year + 1) + 6 * Instant.millisPerDay := by
  have hbase := h.baseDays_bounds year
  have hweekday : 1 ≤ Calendar.weekday (point.baseDays year) ∧
      Calendar.weekday (point.baseDays year) ≤ 7 := by
    simp only [Calendar.weekday]
    omega
  have hshift : -6 ≤ point.weekdayShift (point.baseDays year) ∧
      point.weekdayShift (point.baseDays year) ≤ 6 := by
    have hfield := h.weekday
    simp only [weekdayShift]
    split_ifs <;> omega
  have htime := h.time
  simp only [localMillis, Instant.startOfYear, Instant.millisPerDay_eq] at *
  omega

/-- Points in years that are not next to each other are far apart. -/
theorem Readable.localMillis_apart {first second : YearPoint} (hfirst : first.Readable)
    (hsecond : second.Readable) {year later : Int} (hlater : year + 2 ≤ later) :
    first.localMillis year + 300 * Instant.millisPerDay ≤ second.localMillis later := by
  have hbefore := (hfirst.localMillis_bounds year).2
  have hafter := (hsecond.localMillis_bounds later).1
  have hlength := (Instant.startOfYear_succ (year + 1)).1
  have hmono := Instant.startOfYear_strictMono.monotone (show year + 1 + 1 ≤ later by omega)
  simp only [Instant.millisPerDay_eq] at *
  omega

/-- A point is located less than a bound away from its local time, if the clocks are. -/
theorem instantIn_close (point : YearPoint) (year : Int) {standardOffset save bound : Int}
    (hstandard : |standardOffset| < bound) (hwall : |standardOffset + save| < bound) :
    point.localMillis year - bound < point.instantIn year standardOffset save ∧
      point.instantIn year standardOffset save < point.localMillis year + bound := by
  rw [abs_lt] at hstandard hwall
  simp only [instantIn, offset, Clock.offset]
  split_ifs <;> omega

theorem instantIn_of_ne_wall {point : YearPoint} (h : point.clock ≠ .wall)
    (year standardOffset save other : Int) :
    point.instantIn year standardOffset save = point.instantIn year standardOffset other := by
  simp [instantIn, offset, Clock.offset, h]

theorem exists_next_eq (point : YearPoint) (instant standardOffset save : Int) :
    ∃ year, point.next instant standardOffset save =
      point.instantIn year standardOffset save := by
  simp only [next, instantIn]
  split
  · exact ⟨_, rfl⟩
  · exact ⟨_, rfl⟩

/-- The search moves forwards from every instant exactly if the point never falls before its
year. -/
theorem lt_next_iff (point : YearPoint) (standardOffset save : Int) :
    (∀ instant, instant < point.next instant standardOffset save) ↔
      ∀ year, Instant.startOfYear year ≤ point.localMillis year := by
  constructor
  · intro hforward year
    by_contra hbefore
    -- From the last millisecond of the year before, the point of the year is already over.
    have hhere : Instant.yearOf (Instant.startOfYear year - 1) = year - 1 := by
      have hlast := Instant.startOfYear_strictMono (show year - 1 < year by omega)
      rw [Instant.yearOf_eq_iff, sub_add_cancel]
      omega
    have hearlier := point.localMillis_strictMono (show year - 1 < year by omega)
    have hmoved := hforward (Instant.startOfYear year - 1 - point.offset standardOffset save)
    simp only [next, sub_add_cancel, hhere] at hmoved
    rw [if_pos (by omega)] at hmoved
    omega
  · intro hstarts instant
    have hhere := (Instant.yearOf_eq_iff (instant + point.offset standardOffset save) _).mp rfl
    have hnext := hstarts (Instant.yearOf (instant + point.offset standardOffset save) + 1)
    simp only [next]
    split <;> omega

namespace StaysInYear

variable {point : YearPoint} (h : point.StaysInYear) (instant standardOffset save : Int)

include h

theorem lt_next : instant < point.next instant standardOffset save :=
  (point.lt_next_iff standardOffset save).mpr (fun year => (h.bounds year).1) instant

theorem next_le {year : Int} (hlater : instant < point.instantIn year standardOffset save) :
    point.next instant standardOffset save ≤ point.instantIn year standardOffset save := by
  have hhere := (Instant.yearOf_eq_iff (instant + point.offset standardOffset save) _).mp rfl
  have hyear := (h.bounds year).2
  simp only [next, instantIn] at hlater ⊢
  generalize Instant.yearOf (instant + point.offset standardOffset save) = here at *
  have hnotBefore : here ≤ year := by
    have hlt := Instant.startOfYear_strictMono.lt_iff_lt.mp
      (show Instant.startOfYear here < Instant.startOfYear (year + 1) by omega)
    omega
  split
  · next hpassed =>
    have hafter : here < year :=
      point.localMillis_strictMono.lt_iff_lt.mp (by omega)
    have hmono := point.localMillis_strictMono.monotone (show here + 1 ≤ year by omega)
    omega
  · have hmono := point.localMillis_strictMono.monotone hnotBefore
    omega

/-- The next occurrence is never two years away. -/
theorem next_lt : point.next instant standardOffset save < instant + 732 * Instant.millisPerDay := by
  have hhere := (Instant.yearOf_eq_iff (instant + point.offset standardOffset save) _).mp rfl
  simp only [next]
  generalize Instant.yearOf (instant + point.offset standardOffset save) = here at *
  have hthis := (h.bounds here).2
  have hnext := (h.bounds (here + 1)).2
  have hlength := (Instant.startOfYear_succ here).2
  have hnextLength := (Instant.startOfYear_succ (here + 1)).2
  simp only [Instant.millisPerDay_eq] at *
  split <;> omega

end StaysInYear

theorem exists_previous_eq (point : YearPoint) (instant standardOffset save : Int) :
    ∃ year, point.previous instant standardOffset save =
      point.instantIn year standardOffset save := by
  simp only [previous, instantIn]
  split
  · exact ⟨_, rfl⟩
  · exact ⟨_, rfl⟩

/-- The search moves backwards from every instant exactly if the point never falls after its
year. -/
theorem previous_lt_iff (point : YearPoint) (standardOffset save : Int) :
    (∀ instant, point.previous instant standardOffset save < instant) ↔
      ∀ year, point.localMillis year < Instant.startOfYear (year + 1) := by
  constructor
  · intro hbackward year
    by_contra hafter
    have hhere : Instant.yearOf (Instant.startOfYear (year + 1)) = year + 1 := by
      have hnext := Instant.startOfYear_strictMono (show year + 1 < year + 1 + 1 by omega)
      rw [Instant.yearOf_eq_iff]
      omega
    have hlater := point.localMillis_strictMono (show year < year + 1 by omega)
    have hmoved := hbackward (Instant.startOfYear (year + 1) - point.offset standardOffset save)
    simp only [previous, sub_add_cancel, hhere] at hmoved
    rw [if_pos (by omega), add_sub_cancel_right] at hmoved
    omega
  · intro hends instant
    have hhere := (Instant.yearOf_eq_iff (instant + point.offset standardOffset save) _).mp rfl
    have hbefore := hends (Instant.yearOf (instant + point.offset standardOffset save) - 1)
    rw [sub_add_cancel] at hbefore
    simp only [previous]
    split <;> omega

namespace StaysInYear

variable {point : YearPoint} (h : point.StaysInYear) (instant standardOffset save : Int)

include h

theorem previous_lt : point.previous instant standardOffset save < instant :=
  (point.previous_lt_iff standardOffset save).mpr (fun year => (h.bounds year).2) instant

theorem le_previous {year : Int} (hearlier : point.instantIn year standardOffset save < instant) :
    point.instantIn year standardOffset save ≤ point.previous instant standardOffset save := by
  have hhere := (Instant.yearOf_eq_iff (instant + point.offset standardOffset save) _).mp rfl
  have hyear := (h.bounds year).1
  simp only [previous, instantIn] at hearlier ⊢
  generalize Instant.yearOf (instant + point.offset standardOffset save) = here at *
  have hnotAfter : year ≤ here := by
    have hlt := Instant.startOfYear_strictMono.lt_iff_lt.mp
      (show Instant.startOfYear year < Instant.startOfYear (here + 1) by omega)
    omega
  split
  · next hnotPassed =>
    have hbefore : year < here :=
      point.localMillis_strictMono.lt_iff_lt.mp (by omega)
    have hmono := point.localMillis_strictMono.monotone (show year ≤ here - 1 by omega)
    omega
  · have hmono := point.localMillis_strictMono.monotone hnotAfter
    omega

end StaysInYear

end CivilTime.YearPoint
