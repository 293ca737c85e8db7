import CivilTime.Proofs.DayForm

/-!
The midnight that ends a day. The time 24:00 is read as the start of the following day of a common
year, on the following weekday. So it lies one day after the start of the day itself for a number, a
weekday on or after a number and the last weekday of a month, leap years at the end of February
apart; the end of the year stays in its year, a millisecond earlier.

Two forms are not read that way. A weekday on or before a number turns into one on or after the next
number, which is a week late unless the number falls on the weekday; and the last weekday of
December is looked for in the January of its own year, which is a year early.
-/

namespace CivilTime

namespace Calendar

theorem inCommonYear_first (month : Int) : InCommonYear (month % 12 + 1) 1 := by
  have hlow : 1 ≤ month % 12 + 1 := by omega
  have hhigh : month % 12 + 1 ≤ 12 := by omega
  have hlength := daysInMonth_ge hlow hhigh 2001
  exact ⟨hlow, hhigh, le_rfl, by omega⟩

end Calendar

namespace Source.PointFields

variable {month day : Int}

theorem followingDay_inside (h : Calendar.InCommonYear month day) :
    Calendar.InCommonYear (followingDay month day).1 (followingDay month day).2 := by
  obtain ⟨hlow, hhigh, hfirst, -⟩ := h
  rw [followingDay]
  split_ifs with hinside
  · exact ⟨hlow, hhigh, by omega, Int.add_one_le_iff.mpr hinside⟩
  · exact Calendar.inCommonYear_first month

/-- Within a year the following day is one day later, or two if a leap day lies between. -/
theorem daysFromCivil_followingDay (h : Calendar.InCommonYear month day)
    (hyearEnd : ¬ (month = 12 ∧ day = 31)) (year : Int) :
    Calendar.daysFromCivil year (followingDay month day).1 (followingDay month day).2 =
      Calendar.daysFromCivil year month day + 1 +
        if month = 2 ∧ day = 28 then Calendar.leapDays year else 0 := by
  obtain ⟨hlow, hhigh, -, hlast⟩ := h
  have hfebruary : Calendar.daysInMonth 2001 2 = 28 := rfl
  have hdecember : Calendar.daysInMonth 2001 12 = 31 := rfl
  rw [followingDay]
  by_cases hinside : day < Calendar.daysInMonth 2001 month
  · have hnotFebruary : ¬ (month = 2 ∧ day = 28) := by
      rintro ⟨rfl, rfl⟩
      omega
    rw [if_pos hinside, if_neg hnotFebruary, add_zero]
    exact Calendar.daysFromCivil_add year month day 1
  · have hday : day = Calendar.daysInMonth 2001 month := by omega
    have hnotDecember : month ≠ 12 := by
      rintro rfl
      omega
    have hnext := Calendar.firstOfNextMonth hlow hhigh year
    rw [if_neg hnotDecember, Calendar.daysInMonth_eq hlow hhigh, ← hday,
      Calendar.daysFromCivil_add] at hnext
    rw [if_neg hinside]
    dsimp only
    rw [hnext]
    by_cases hmonth : month = 2
    · subst hmonth
      rw [if_pos rfl, if_pos ⟨rfl, hday.trans hfebruary⟩]
      omega
    · rw [if_neg hmonth, if_neg fun h => hmonth h.1]
      omega

end Source.PointFields

namespace YearPoint

open Source.PointFields (followingDay followingWeekday)

variable {begun ended : YearPoint}

/-- A day that every year has is where the weekday is counted from. -/
theorem baseDays_of_inside (point : YearPoint)
    (h : Calendar.InCommonYear point.month point.day) (year : Int) :
    point.baseDays year = Calendar.daysFromCivil year point.month point.day := by
  obtain ⟨hlow, hhigh, hfirst, hlast⟩ := h
  have hlength := Calendar.daysInMonth_eq hlow hhigh year
  have hleap : 0 ≤ Calendar.leapDays year := by
    rw [Calendar.leapDays]
    split_ifs <;> simp
  rw [baseDays, if_neg (by omega), min_eq_left]
  split_ifs at hlength <;> omega

theorem baseDays_of_last (point : YearPoint) (h : point.day = -1) (year : Int) :
    point.baseDays year =
      Calendar.daysFromCivil year point.month (Calendar.daysInMonth year point.month) := by
  rw [baseDays, h, if_pos (by decide)]
  congr 1
  omega

/-- A day later the following weekday is as far away, in the same direction. -/
theorem weekdayShift_following (begun ended : YearPoint) (hlow : 0 ≤ begun.weekday)
    (hhigh : begun.weekday ≤ 7)
    (hweekday : ended.weekday = followingWeekday begun.weekday)
    (hadvance : begun.weekday ≠ 0 → ended.advance = begun.advance) (base : Int) :
    ended.weekdayShift (base + 1) = begun.weekdayShift base := by
  rw [weekdayShift, weekdayShift, hweekday, followingWeekday]
  by_cases hnone : begun.weekday = 0
  · simp [hnone]
  · have hnext : begun.weekday % 7 + 1 ≠ 0 := by omega
    simp only [hnone, hnext, if_false, hadvance hnone, Calendar.weekday]
    split_ifs <;> omega

/-- Looked for forwards instead of backwards, it is a week later, unless the day is the one. -/
theorem weekdayShift_turned (begun ended : YearPoint) (hlow : 1 ≤ begun.weekday)
    (hhigh : begun.weekday ≤ 7)
    (hweekday : ended.weekday = followingWeekday begun.weekday) (hbegun : begun.advance = false)
    (hended : ended.advance = true) (base : Int) :
    ended.weekdayShift (base + 1) =
      begun.weekdayShift base + if Calendar.weekday base = begun.weekday then 0 else 7 := by
  have hnone : begun.weekday ≠ 0 := by omega
  have hnext : begun.weekday % 7 + 1 ≠ 0 := by omega
  rw [weekdayShift, weekdayShift, hweekday, followingWeekday]
  simp only [hnone, hnext, if_false, hbegun, hended, if_true, Bool.false_eq_true, Calendar.weekday]
  split_ifs <;> omega

/-- A base that is a day later, and a weekday that is `more` days further from it. -/
theorem localMillis_later {year later more : Int}
    (hbase : ended.baseDays later = begun.baseDays year + 1)
    (hshift : ended.weekdayShift (begun.baseDays year + 1) =
      begun.weekdayShift (begun.baseDays year) + more)
    (htime : ended.millisOfDay = begun.millisOfDay) :
    ended.localMillis later = begun.localMillis year + (1 + more) * Instant.millisPerDay := by
  rw [localMillis, localMillis, hbase, hshift, htime]
  ring

theorem localMillis?_of_month {point : YearPoint} (hlow : 1 ≤ point.month)
    (hhigh : point.month ≤ 12) (year : Int) :
    point.localMillis? year = some (point.localMillis year) :=
  guarded_of_range hlow hhigh _

theorem localMillis_of_some {point : YearPoint} {year millis : Int}
    (h : point.localMillis? year = some millis) : point.localMillis year = millis := by
  rw [localMillis?, guarded, Option.ite_none_right_eq_some] at h
  exact Option.some.inj h.2

end YearPoint

namespace Source

def DayField.start (field : DayField) (clock : Clock) (month : Int) : YearPoint :=
  ⟨clock, month, field.day, field.weekday, field.advance, 0⟩

@[simp]
theorem DayField.start_clock (field : DayField) (clock : Clock) (month : Int) :
    (field.start clock month).clock = clock := rfl

namespace PointFields

open Bytes (bind_eq_ok)

variable {month : Int} {field : DayField}

/-- The start of the day that follows a day which every year has: a day later, a leap day apart,
and with a weekday looked for forwards. -/
def following (month : Int) (field : DayField) (clock : Clock) : YearPoint :=
  ⟨clock, (followingDay month field.day).1, (followingDay month field.day).2,
    followingWeekday field.weekday, field.weekday != 0, 0⟩

@[simp]
theorem following_clock (month : Int) (field : DayField) (clock : Clock) :
    (following month field clock).clock = clock := rfl

def nextMonth (month : Int) (field : DayField) (clock : Clock) : YearPoint :=
  ⟨clock, month % 12 + 1, 1, followingWeekday field.weekday, false, 0⟩

@[simp]
theorem nextMonth_clock (month : Int) (field : DayField) (clock : Clock) :
    (nextMonth month field clock).clock = clock := rfl

/-- In a leap year the day after the 28th of February is not the first of March. -/
def BeforeLeapDay (month day year : Int) : Prop :=
  month = 2 ∧ day = 28 ∧ Calendar.isLeap year = true

theorem following_baseDays (h : Calendar.InCommonYear month field.day)
    (hyearEnd : ¬ (month = 12 ∧ field.day = 31)) (clock : Clock) {year : Int}
    (hleap : ¬ BeforeLeapDay month field.day year) :
    (following month field clock).baseDays year = (field.start clock month).baseDays year + 1 := by
  have hbegun := (field.start clock month).baseDays_of_inside h year
  have hended := (following month field clock).baseDays_of_inside (followingDay_inside h) year
  have hdays := daysFromCivil_followingDay h hyearEnd year
  have hextra : (if month = 2 ∧ field.day = 28 then Calendar.leapDays year else 0) = 0 := by
    split_ifs with hfebruary
    · apply Calendar.leapDays_of_common
      by_contra hyear
      exact hleap ⟨hfebruary.1, hfebruary.2, by simpa using hyear⟩
    · rfl
  rw [hextra, add_zero] at hdays
  rw [hbegun, hended]
  exact hdays

/-- Where the weekday is looked for forwards before and after, the end of the day is a day after
its start. -/
theorem following_localMillis (h : Calendar.InCommonYear month field.day)
    (hyearEnd : ¬ (month = 12 ∧ field.day = 31))
    (hweekday : 0 ≤ field.weekday ∧ field.weekday ≤ 7)
    (hforwards : field.weekday ≠ 0 → field.advance = true) (clock : Clock) {year : Int}
    (hleap : ¬ BeforeLeapDay month field.day year) :
    (following month field clock).localMillis year =
      (field.start clock month).localMillis year + Instant.millisPerDay := by
  have hbase := following_baseDays h hyearEnd clock hleap
  have hadvance : field.weekday ≠ 0 →
      (following month field clock).advance = (field.start clock month).advance := by
    intro hsome
    rw [following, DayField.start, hforwards hsome]
    simpa using hsome
  have hshift := YearPoint.weekdayShift_following (field.start clock month)
    (following month field clock) hweekday.1 hweekday.2 rfl hadvance
    ((field.start clock month).baseDays year)
  rw [YearPoint.localMillis_later hbase (hshift.trans (add_zero _).symm) rfl]
  ring

/-- Where it was looked for backwards, the end of the day is a week too late, unless the day falls
on the weekday. -/
theorem following_localMillis_turned (field : DayField)
    (h : Calendar.InCommonYear month field.day) (hyearEnd : ¬ (month = 12 ∧ field.day = 31))
    (hweekday : 1 ≤ field.weekday ∧ field.weekday ≤ 7) (hbackwards : field.advance = false)
    (clock : Clock) {year : Int}
    (hleap : ¬ BeforeLeapDay month field.day year) :
    (following month field clock).localMillis year =
      (field.start clock month).localMillis year +
        if Calendar.weekday (Calendar.daysFromCivil year month field.day) = field.weekday
          then Instant.millisPerDay else 8 * Instant.millisPerDay := by
  have hbase := following_baseDays h hyearEnd clock hleap
  have hday : (field.start clock month).baseDays year =
      Calendar.daysFromCivil year month field.day :=
    (field.start clock month).baseDays_of_inside h year
  have hadvance : (following month field clock).advance = true := by
    have hsome : field.weekday ≠ 0 := by omega
    simpa [following] using hsome
  have hshift := YearPoint.weekdayShift_turned (field.start clock month)
    (following month field clock) hweekday.1 hweekday.2 rfl hbackwards hadvance
    ((field.start clock month).baseDays year)
  have hlater := YearPoint.localMillis_later hbase hshift rfl
  rw [hlater, hday, DayField.start]
  dsimp only
  split_ifs <;> ring

/-- The end of the last weekday of a month: after December it is found a year later. -/
theorem last_localMillis (field : DayField) (hlow : 1 ≤ month) (hhigh : month ≤ 12)
    (hmark : field.day = -1)
    (hweekday : 0 ≤ field.weekday ∧ field.weekday ≤ 7) (hbackwards : field.advance = false)
    (clock : Clock) (year : Int) :
    (nextMonth month field clock).localMillis (if month = 12 then year + 1 else year) =
      (field.start clock month).localMillis year + Instant.millisPerDay := by
  have hlast := (field.start clock month).baseDays_of_last hmark year
  have hbase : (nextMonth month field clock).baseDays (if month = 12 then year + 1 else year) =
      (field.start clock month).baseDays year + 1 := by
    rw [hlast, (nextMonth month field clock).baseDays_of_inside (Calendar.inCommonYear_first month)]
    exact Calendar.firstOfNextMonth hlow hhigh year
  have hshift := YearPoint.weekdayShift_following (field.start clock month)
    (nextMonth month field clock) hweekday.1 hweekday.2 rfl (fun _ => hbackwards.symm)
    ((field.start clock month).baseDays year)
  rw [YearPoint.localMillis_later hbase (hshift.trans (add_zero _).symm) rfl]
  ring

/-- What may follow a time: nothing, or one letter, which names a clock. -/
def IsClockMark (mark : String) : Prop :=
  mark = "" ∨ ∃ letter, Text.isLetter letter = true ∧ mark = String.singleton letter

theorem splitClock_append {time mark : String} (htime : ∃ others, time.toList = others ++ ['0'])
    (hmark : IsClockMark mark) : splitClock (time ++ mark) = .ok (Field.clock mark, time) := by
  rcases hmark with rfl | ⟨letter, hletter, rfl⟩
  · obtain ⟨others, hothers⟩ := htime
    have hdigit : Text.isLetter '0' = false := by decide +kernel
    have hclock : Field.clock (String.ofList ['0']) = Field.clock "" := by decide +kernel
    have hreversed : time.toList.reverse = '0' :: others.reverse := by
      simp [hothers]
    rw [String.append_empty, splitClock, hreversed]
    dsimp only
    rw [hclock, hdigit]
    rfl
  · have hreversed : (time ++ String.singleton letter).toList.reverse =
        letter :: time.toList.reverse := by
      simp
    rw [splitClock, hreversed]
    dsimp only
    rw [if_pos hletter, List.reverse_reverse, String.ofList_toList]
    rfl

theorem withTime_start {mark : String} (hmark : IsClockMark mark) (month : Int) (field : DayField) :
    withTime month field ("0:00" ++ mark) = .ok (field.start (Field.clock mark) month) := by
  have hsplit : splitClock ("0:00" ++ mark) = .ok (Field.clock mark, "0:00") :=
    splitClock_append ⟨['0', ':', '0'], rfl⟩ hmark
  have hzero : Field.duration "0:00" = .ok 0 := by decide +kernel
  have hother : "0:00" ≠ "24:00" := by decide
  rw [withTime, hsplit]
  dsimp only [bind, Except.bind]
  rw [if_neg hother, hzero]
  rfl

theorem splitClock_end {mark : String} (hmark : IsClockMark mark) :
    splitClock ("24:00" ++ mark) = .ok (Field.clock mark, "24:00") :=
  splitClock_append ⟨['2', '4', ':', '0'], rfl⟩ hmark

theorem withTime_yearEnd {mark : String} (hmark : IsClockMark mark)
    (h : month = 12 ∧ field.day = 31) :
    withTime month field ("24:00" ++ mark) =
      .ok { field.start (Field.clock mark) month with millisOfDay := endOfYearMillis } := by
  rw [withTime, splitClock_end hmark]
  dsimp only [bind, Except.bind]
  rw [if_pos rfl, if_pos h]
  rfl

theorem withTime_end {mark : String} (hmark : IsClockMark mark)
    (h : ¬ (month = 12 ∧ field.day = 31)) :
    withTime month field ("24:00" ++ mark) =
      endOfDay month field >>= fun ended => .ok (ended.2.start (Field.clock mark) ended.1) := by
  rw [withTime, splitClock_end hmark]
  dsimp only [bind, Except.bind]
  rw [if_pos rfl, if_neg h]
  rfl

theorem read_timed {name text time : String} (hmonth : Field.month name = .ok month)
    (hfield : DayField.read text = .ok field) (rest : List String) :
    read (name :: text :: time :: rest) =
      withTime month field time >>= fun point => .ok (point, rest) := by
  rw [read, hmonth]
  dsimp only [bind, Except.bind]
  rw [hfield]
  rfl

/-- How long after its start a day ends: by a day, except on the last of the year. -/
def lengthOfDay (month day : Int) : Int :=
  if month = 12 ∧ day = 31 then Instant.millisPerDay - 1 else Instant.millisPerDay

/-- The point is in a month, on the clock of the mark, and ends the given day of the month. -/
structure EndsDay (month : Int) (field : DayField) (mark : String) (ended : YearPoint) : Prop where
  month_bounds : 1 ≤ ended.month ∧ ended.month ≤ 12
  clock : ended.clock = Field.clock mark
  millis : ∀ year, ¬ BeforeLeapDay month field.day year →
    ended.localMillis year =
      (field.start (Field.clock mark) month).localMillis year + lengthOfDay month field.day

variable {mark : String}

theorem withTime_end_following (hmark : IsClockMark mark)
    (h : Calendar.InCommonYear month field.day) (hyearEnd : ¬ (month = 12 ∧ field.day = 31)) :
    withTime month field ("24:00" ++ mark) = .ok (following month field (Field.clock mark)) := by
  rw [withTime_end hmark hyearEnd, endOfDay_inside h]
  rfl

theorem withTime_end_inside (hmark : IsClockMark mark) (h : Calendar.InCommonYear month field.day)
    (hweekday : 0 ≤ field.weekday ∧ field.weekday ≤ 7)
    (hforwards : field.weekday ≠ 0 → field.advance = true) :
    ∃ ended, withTime month field ("24:00" ++ mark) = .ok ended ∧
      EndsDay month field mark ended := by
  by_cases hyearEnd : month = 12 ∧ field.day = 31
  · refine ⟨_, withTime_yearEnd hmark hyearEnd, ⟨h.first_month, h.last_month⟩, by simp, ?_⟩
    intro year _
    rw [lengthOfDay, if_pos hyearEnd]
    have hstart : (field.start (Field.clock mark) month).millisOfDay = 0 := rfl
    rw [YearPoint.localMillis_atTime, hstart, endOfYearMillis]
    ring
  · have hnext := followingDay_inside h
    refine ⟨_, withTime_end_following hmark h hyearEnd, ⟨hnext.first_month, hnext.last_month⟩,
      following_clock month field _, ?_⟩
    intro year hleap
    rw [lengthOfDay, if_neg hyearEnd]
    exact following_localMillis h hyearEnd hweekday hforwards _ hleap

theorem withTime_end_last (hmark : IsClockMark mark) (h : field.day = DayField.lastDay) :
    withTime month field ("24:00" ++ mark) = .ok (nextMonth month field (Field.clock mark)) := by
  have hyearEnd : ¬ (month = 12 ∧ field.day = 31) := by
    rw [h]
    exact fun hboth => absurd hboth.2 (by decide)
  rw [withTime_end hmark hyearEnd, endOfDay_last h]
  rfl

theorem day_le_of_withTime_end (hmark : IsClockMark mark) (hlow : 1 ≤ month) (hhigh : month ≤ 12)
    {ended : YearPoint} (h : withTime month field ("24:00" ++ mark) = .ok ended) :
    field.day ≤ Calendar.daysInMonth 2001 month := by
  by_cases hyearEnd : month = 12 ∧ field.day = 31
  · rw [hyearEnd.1, hyearEnd.2]
    decide
  · rw [withTime_end hmark hyearEnd] at h
    obtain ⟨result, hend, -⟩ := bind_eq_ok.mp h
    have hlength := Calendar.daysInMonth_ge hlow hhigh 2001
    rcases inside_of_endOfDay hlow hhigh hend with hlast | hinside
    · rw [hlast, DayField.lastDay]
      omega
    · exact hinside.last_day

end PointFields

def DayForm.IsStraight : DayForm → Prop
  | number day => 1 ≤ day
  | last _ => True
  | onOrAfter _ day => 1 ≤ day
  | onOrBefore _ _ => False

namespace PointFields

open Bytes (bind_eq_ok)

variable {name text mark : String} {month : Int} {form : DayForm}

theorem read_start (hmonth : Field.month name = .ok month) {field : DayField}
    (hfield : DayField.read text = .ok field) (hmark : IsClockMark mark) (rest : List String) :
    read (name :: text :: ("0:00" ++ mark) :: rest) =
      .ok (field.start (Field.clock mark) month, rest) := by
  rw [read_timed hmonth hfield, withTime_start hmark]
  rfl

theorem read_end_iff (hmonth : Field.month name = .ok month) {field : DayField}
    (hfield : DayField.read text = .ok field) {rest left : List String} {ended : YearPoint} :
    read (name :: text :: ("24:00" ++ mark) :: rest) = .ok (ended, left) ↔
      withTime month field ("24:00" ++ mark) = .ok ended ∧ rest = left := by
  rw [read_timed hmonth hfield, bind_eq_ok]
  constructor
  · rintro ⟨timed, htimed, h⟩
    obtain ⟨rfl, rfl⟩ := Prod.mk.inj (Except.ok.inj h)
    exact ⟨htimed, rfl⟩
  · rintro ⟨htimed, rfl⟩
    exact ⟨ended, htimed, rfl⟩

theorem exists_end_of_straight (hspells : form.Spells text) (hform : form.IsStraight)
    (hlow : 1 ≤ month) (hhigh : month ≤ 12)
    (hdecember : ∀ weekday, form = .last weekday → month ≠ 12) (hmark : IsClockMark mark)
    (hlast : form.field.day ≤ Calendar.daysInMonth 2001 month) :
    ∃ ended, withTime month form.field ("24:00" ++ mark) = .ok ended ∧
      EndsDay month form.field mark ended := by
  have hweekday := DayField.read_weekday (DayField.read_of_spells hspells)
  cases form with
  | number day =>
    have hinside : Calendar.InCommonYear month (DayForm.number day).field.day :=
      ⟨hlow, hhigh, hform, hlast⟩
    apply withTime_end_inside hmark hinside hweekday
    intro hsome
    exact absurd rfl hsome
  | last weekday =>
    have hmonth := hdecember weekday rfl
    have hnext := Calendar.inCommonYear_first month
    refine ⟨_, withTime_end_last hmark rfl, ⟨hnext.first_month, hnext.last_month⟩,
      nextMonth_clock month _ _, ?_⟩
    intro year _
    have hmillis := last_localMillis (DayForm.last weekday).field hlow hhigh rfl hweekday rfl
      (Field.clock mark) year
    rw [if_neg hmonth] at hmillis
    rw [hmillis, lengthOfDay, if_neg fun hboth => hmonth hboth.1]
  | onOrAfter weekday day =>
    exact withTime_end_inside hmark ⟨hlow, hhigh, hform, hlast⟩ hweekday fun _ => rfl
  | onOrBefore weekday day => exact hform.elim

/-- The time 24:00 ends a day that is given by a number, a weekday on or after a number, or the last
weekday of a month other than December. It is read exactly if a common year has the day, and the
point then lies on the same clock as the one for 0:00 and, in every year, one day after it; on the
last day of the year it is a millisecond less, and the 28th of February of a leap year is left
out. -/
theorem read_end_follows_start (hmonth : Field.month name = .ok month) (hspells : form.Spells text)
    (hform : form.IsStraight) (hdecember : ∀ weekday, form = .last weekday → month ≠ 12)
    (hmark : IsClockMark mark) (rest : List String) :
    ((∃ ended left, read (name :: text :: ("24:00" ++ mark) :: rest) = .ok (ended, left)) ↔
        form.field.day ≤ Calendar.daysInMonth 2001 month) ∧
      ∀ ended left, read (name :: text :: ("24:00" ++ mark) :: rest) = .ok (ended, left) →
        ∃ begun, read (name :: text :: ("0:00" ++ mark) :: rest) = .ok (begun, left) ∧
          ended.clock = begun.clock ∧
          ∀ year, ¬ (month = 2 ∧ form.field.day = 28 ∧ Calendar.isLeap year = true) →
            ∃ start, begun.localMillis? year = some start ∧
              ended.localMillis? year = some (start +
                if month = 12 ∧ form.field.day = 31 then Instant.millisPerDay - 1
                else Instant.millisPerDay) := by
  obtain ⟨hlow, hhigh⟩ := Field.month_bounds hmonth
  have hread := DayField.read_of_spells hspells
  have hends := exists_end_of_straight hspells hform hlow hhigh hdecember hmark
  constructor
  · constructor
    · rintro ⟨ended, left, h⟩
      exact day_le_of_withTime_end hmark hlow hhigh ((read_end_iff hmonth hread).mp h).1
    · intro hlast
      obtain ⟨ended, hended, -⟩ := hends hlast
      exact ⟨ended, rest, (read_end_iff hmonth hread).mpr ⟨hended, rfl⟩⟩
  · intro ended left h
    obtain ⟨htimed, rfl⟩ := (read_end_iff hmonth hread).mp h
    obtain ⟨found, hfound, hend⟩ := hends (day_le_of_withTime_end hmark hlow hhigh htimed)
    obtain rfl := Except.ok.inj (htimed.symm.trans hfound)
    refine ⟨_, read_start hmonth hread hmark rest, by rw [hend.clock, DayField.start_clock], ?_⟩
    intro year hleap
    refine ⟨_, YearPoint.localMillis?_of_month hlow hhigh year, ?_⟩
    rw [YearPoint.localMillis?_of_month hend.month_bounds.1 hend.month_bounds.2,
      hend.millis year hleap]
    rfl

/-- A midnight at the end of April that is read as one in May. -/
theorem read_end_follows_start_in_april :
    Field.month "Apr" = .ok 4 ∧ (DayForm.onOrAfter 6 30).Spells "Sat>=30" ∧ IsClockMark "s" ∧
      ∃ ended begun, read ["Apr", "Sat>=30", "24:00s", "1:00"] = .ok (ended, ["1:00"]) ∧
        read ["Apr", "Sat>=30", "0:00s", "1:00"] = .ok (begun, ["1:00"]) ∧
        ended.clock = begun.clock ∧
        ∀ year, ∃ start, begun.localMillis? year = some start ∧
          ended.localMillis? year = some (start + 86400000) := by
  have hmonth : Field.month "Apr" = .ok 4 := by decide +kernel
  have htext : "Sat" ++ ">=" ++ "30" = "Sat>=30" := by decide
  have hspells : (DayForm.onOrAfter 6 30).Spells "Sat>=30" :=
    htext ▸ .onOrAfter (by decide +kernel) (by decide +kernel)
  have hmark : IsClockMark "s" := Or.inr ⟨'s', by decide +kernel, rfl⟩
  have hread : read ["Apr", "Sat>=30", "24:00s", "1:00"] =
      .ok (⟨.standard, 5, 1, 7, true, 0⟩, ["1:00"]) := by decide +kernel
  have hform : (DayForm.onOrAfter 6 30).IsStraight := show (1 : Int) ≤ 30 by decide
  obtain ⟨-, hends⟩ := read_end_follows_start hmonth hspells hform (by simp) hmark ["1:00"]
  obtain ⟨begun, hbegun, hclock, hyears⟩ := hends _ _ hread
  refine ⟨hmonth, hspells, hmark, _, begun, hread, hbegun, hclock, fun year => ?_⟩
  exact hyears year (by simp)

/-- A day later only in the years in which the number falls on the weekday, and else eight. -/
theorem read_end_of_onOrBefore (hmonth : Field.month name = .ok month) (hmark : IsClockMark mark)
    {weekday day : Int} (hspells : (DayForm.onOrBefore weekday day).Spells text) (hfirst : 1 ≤ day)
    (hlast : day ≤ Calendar.daysInMonth 2001 month) (hyearEnd : ¬ (month = 12 ∧ day = 31))
    (hfebruary : ¬ (month = 2 ∧ day = 28)) (rest : List String) :
    ∃ begun ended,
      read (name :: text :: ("0:00" ++ mark) :: rest) = .ok (begun, rest) ∧
      read (name :: text :: ("24:00" ++ mark) :: rest) = .ok (ended, rest) ∧
      ∀ year, ∃ start, begun.localMillis? year = some start ∧
        ended.localMillis? year = some (start +
          if Calendar.weekday (Calendar.daysFromCivil year month day) = weekday
            then Instant.millisPerDay else 8 * Instant.millisPerDay) := by
  obtain ⟨hlow, hhigh⟩ := Field.month_bounds hmonth
  have hread := DayField.read_of_spells hspells
  have hweekday : 1 ≤ weekday ∧ weekday ≤ 7 := by
    cases hspells with
    | onOrBefore named value => exact Field.weekday_bounds named
  have hinside : Calendar.InCommonYear month (DayForm.onOrBefore weekday day).field.day :=
    ⟨hlow, hhigh, hfirst, hlast⟩
  have hend := withTime_end_following hmark hinside hyearEnd
  obtain ⟨hnextLow, hnextHigh, -, -⟩ := followingDay_inside hinside
  refine ⟨_, _, read_start hmonth hread hmark rest, (read_end_iff hmonth hread).mpr ⟨hend, rfl⟩, ?_⟩
  intro year
  refine ⟨_, YearPoint.localMillis?_of_month hlow hhigh year, ?_⟩
  rw [YearPoint.localMillis?_of_month hnextLow hnextHigh]
  exact congrArg some (following_localMillis_turned _ hinside hyearEnd hweekday rfl _
    fun hleap => hfebruary ⟨hleap.1, hleap.2.1⟩)

/-- In January of the year after, a day after the last weekday of December. -/
theorem read_end_of_december (hmonth : Field.month name = .ok 12) (hmark : IsClockMark mark)
    {weekday : Int} (hspells : (DayForm.last weekday).Spells text) (rest : List String) :
    ∃ begun ended,
      read (name :: text :: ("0:00" ++ mark) :: rest) = .ok (begun, rest) ∧
      read (name :: text :: ("24:00" ++ mark) :: rest) = .ok (ended, rest) ∧
      ∀ year, ∃ start, begun.localMillis? year = some start ∧
        ended.localMillis? (year + 1) = some (start + Instant.millisPerDay) := by
  have hread := DayField.read_of_spells hspells
  have hweekday := DayField.read_weekday hread
  have hrange : (1 : Int) ≤ 12 := by decide
  have hend : withTime 12 (DayForm.last weekday).field ("24:00" ++ mark) = _ :=
    withTime_end_last hmark rfl
  refine ⟨_, _, read_start hmonth hread hmark rest, (read_end_iff hmonth hread).mpr ⟨hend, rfl⟩, ?_⟩
  intro year
  refine ⟨_, YearPoint.localMillis?_of_month hrange le_rfl year, ?_⟩
  rw [YearPoint.localMillis?_of_month le_rfl hrange]
  exact congrArg some (last_localMillis _ hrange le_rfl rfl hweekday rfl _ year)

/-- The time 24:00 after a weekday on or before a number is one day after 0:00 in the years in which
the number falls on the weekday, and eight days after it in all others. After the last weekday of
December it is a day after the 0:00 of the year before, and so in no year a day after 0:00. -/
theorem read_end_follows_start_iff (text : String) (hmonth : Field.month name = .ok month)
    (hmark : IsClockMark mark) (rest : List String) :
    (∀ weekday day, (DayForm.onOrBefore weekday day).Spells text → 1 ≤ day →
      day ≤ Calendar.daysInMonth 2001 month → ¬ (month = 12 ∧ day = 31) →
      ¬ (month = 2 ∧ day = 28) →
        ∃ begun ended,
          read (name :: text :: ("0:00" ++ mark) :: rest) = .ok (begun, rest) ∧
          read (name :: text :: ("24:00" ++ mark) :: rest) = .ok (ended, rest) ∧
          ∀ year, ∃ start, begun.localMillis? year = some start ∧
            (ended.localMillis? year = some (start + Instant.millisPerDay) ↔
              Calendar.weekday (Calendar.daysFromCivil year month day) = weekday) ∧
            (Calendar.weekday (Calendar.daysFromCivil year month day) ≠ weekday →
              ended.localMillis? year = some (start + 8 * Instant.millisPerDay))) ∧
      (month = 12 → ∀ weekday, (DayForm.last weekday).Spells text →
        ∃ begun ended,
          read (name :: text :: ("0:00" ++ mark) :: rest) = .ok (begun, rest) ∧
          read (name :: text :: ("24:00" ++ mark) :: rest) = .ok (ended, rest) ∧
          ∀ year, ∃ start, begun.localMillis? year = some start ∧
            ended.localMillis? (year + 1) = some (start + Instant.millisPerDay) ∧
            ended.localMillis? year ≠ some (start + Instant.millisPerDay)) := by
  constructor
  · intro weekday day hspells hfirst hlast hyearEnd hfebruary
    obtain ⟨begun, ended, hbegun, hended, hyears⟩ :=
      read_end_of_onOrBefore hmonth hmark hspells hfirst hlast hyearEnd hfebruary rest
    refine ⟨begun, ended, hbegun, hended, fun year => ?_⟩
    obtain ⟨start, hstart, hend⟩ := hyears year
    refine ⟨start, hstart, ?_⟩
    rw [hend]
    split_ifs with hfalls
    · simp [hfalls]
    · simp [hfalls, Instant.millisPerDay_eq]
  · rintro rfl weekday hspells
    obtain ⟨begun, ended, hbegun, hended, hyears⟩ :=
      read_end_of_december hmonth hmark hspells rest
    refine ⟨begun, ended, hbegun, hended, fun year => ?_⟩
    obtain ⟨start, hstart, hend⟩ := hyears year
    refine ⟨start, hstart, hend, fun hsame => ?_⟩
    have hmoved := ended.localMillis_strictMono (lt_add_one year)
    rw [YearPoint.localMillis_of_some hsame, YearPoint.localMillis_of_some hend] at hmoved
    exact lt_irrefl _ hmoved

/-- The eighth of March is a Saturday in 2025 and a Friday in 2024. -/
theorem read_end_follows_start_in_march :
    Field.month "Mar" = .ok 3 ∧ (DayForm.onOrBefore 6 8).Spells "Sat<=8" ∧ IsClockMark "" ∧
      ∃ begun ended, read ["Mar", "Sat<=8", "0:00"] = .ok (begun, []) ∧
        read ["Mar", "Sat<=8", "24:00"] = .ok (ended, []) ∧
        (∃ start, begun.localMillis? 2025 = some start ∧
          ended.localMillis? 2025 = some (start + Instant.millisPerDay)) ∧
        ∃ start, begun.localMillis? 2024 = some start ∧
          ended.localMillis? 2024 ≠ some (start + Instant.millisPerDay) := by
  have hmonth : Field.month "Mar" = .ok 3 := by decide +kernel
  have htext : "Sat" ++ "<=" ++ "8" = "Sat<=8" := by decide
  have hspells : (DayForm.onOrBefore 6 8).Spells "Sat<=8" :=
    htext ▸ .onOrBefore (by decide +kernel) (by decide +kernel)
  have hmark : IsClockMark "" := Or.inl rfl
  obtain ⟨hbefore, -⟩ := read_end_follows_start_iff "Sat<=8" hmonth hmark []
  obtain ⟨begun, ended, hbegun, hended, hyears⟩ :=
    hbefore 6 8 hspells (by decide) (by decide) (by decide) (by decide)
  obtain ⟨start, hstart, hsame, -⟩ := hyears 2025
  obtain ⟨other, hother, hdiffers, -⟩ := hyears 2024
  refine ⟨hmonth, hspells, hmark, begun, ended, hbegun, hended, ⟨start, hstart, ?_⟩, other, hother,
    ?_⟩
  · exact hsame.mpr (by decide)
  · intro hnext
    exact absurd (hdiffers.mp hnext) (by decide)

/-- In 2024 the Saturday on or before the eighth of March is the second, and its end is read as the
tenth; the last Sunday of December is the 29th, and its end is read as the New Year before it. -/
theorem read_end_misses :
    (∃ begun ended, read ["Mar", "Sat<=8", "0:00"] = .ok (begun, []) ∧
      read ["Mar", "Sat<=8", "24:00"] = .ok (ended, []) ∧
      begun.localMillis? 2024 = some 1709337600000 ∧
      ended.localMillis? 2024 = some 1710028800000 ∧
      (1710028800000 : Int) ≠ 1709337600000 + Instant.millisPerDay) ∧
    ∃ begun ended, read ["Dec", "lastSun", "0:00"] = .ok (begun, []) ∧
      read ["Dec", "lastSun", "24:00"] = .ok (ended, []) ∧
      begun.localMillis? 2024 = some 1735430400000 ∧
      ended.localMillis? 2024 = some 1704067200000 ∧
      (1704067200000 : Int) ≠ 1735430400000 + Instant.millisPerDay := by
  constructor
  · exact ⟨⟨.wall, 3, 8, 6, false, 0⟩, ⟨.wall, 3, 9, 7, true, 0⟩, by decide +kernel,
      by decide +kernel, by decide, by decide, by decide⟩
  · exact ⟨⟨.wall, 12, -1, 7, false, 0⟩, ⟨.wall, 1, 1, 1, false, 0⟩, by decide +kernel,
      by decide +kernel, by decide, by decide, by decide⟩

end PointFields

end Source

end CivilTime
