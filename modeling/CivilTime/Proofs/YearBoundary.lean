import CivilTime.Proofs.YearPoint

/-!
Points of the year near New Year. A point leaves the year that it is computed for only if its
weekday carries it across New Year, forwards from the last days of December or backwards from the
first days of January. All other points stay in their year, and the searches on both sides of an
instant find the nearest of their occurrences.
-/

namespace CivilTime

namespace Calendar

/-- Days of the same weekday that are less than a week apart are the same day. -/
theorem eq_of_weekday_eq {first second : Int} (h : weekday first = weekday second)
    (hafter : first - second < 7) (hbefore : second - first < 7) : first = second := by
  simp only [weekday] at h
  omega

/-- New Year falls on every weekday in some common year. -/
theorem exists_commonYear_on {day : Int} (hlow : 1 ≤ day) (hhigh : day ≤ 7) :
    ∃ year, isLeap year = false ∧ weekday (daysFromCivil year 1 1) = day := by
  interval_cases day
  · exact ⟨2001, by decide⟩
  · exact ⟨2002, by decide⟩
  · exact ⟨2003, by decide⟩
  · exact ⟨2009, by decide⟩
  · exact ⟨2010, by decide⟩
  · exact ⟨2005, by decide⟩
  · exact ⟨2006, by decide⟩

theorem exists_newYear_on {day : Int} (hlow : 1 ≤ day) (hhigh : day ≤ 7) :
    ∃ year, weekday (daysFromCivil year 1 1) = day := by
  obtain ⟨year, -, hyear⟩ := exists_commonYear_on hlow hhigh
  exact ⟨year, hyear⟩

/-- So does the day before it. -/
theorem exists_newYearsEve_on {day : Int} (hlow : 1 ≤ day) (hhigh : day ≤ 7) :
    ∃ year, weekday (daysFromCivil year 1 1 - 1) = day := by
  obtain ⟨year, hyear⟩ := exists_newYear_on (show 1 ≤ day % 7 + 1 by omega) (by omega)
  refine ⟨year, ?_⟩
  simp only [weekday] at hyear ⊢
  omega

end Calendar

namespace YearPoint

/-- The fields of a point are within their ranges; the day -1 is the last of the month. -/
structure InRange (point : YearPoint) : Prop where
  month : 1 ≤ point.month ∧ point.month ≤ 12
  day : point.day = -1 ∨ (1 ≤ point.day ∧ point.day ≤ 31)
  weekday : 0 ≤ point.weekday ∧ point.weekday ≤ 7
  time : 0 ≤ point.millisOfDay ∧ point.millisOfDay < Instant.millisPerDay

/-- A weekday on or after one of the last six days of the year. -/
def RunsPastYear (point : YearPoint) : Prop :=
  point.month = 12 ∧ point.weekday ≠ 0 ∧ point.advance = true ∧
    (point.day = -1 ∨ 26 ≤ point.day)

def RunsBeforeYear (point : YearPoint) : Prop :=
  point.month = 1 ∧ point.weekday ≠ 0 ∧ point.advance = false ∧
    (1 ≤ point.day ∧ point.day ≤ 6)

variable {point : YearPoint}

theorem weekday_shifted (hlow : 1 ≤ point.weekday) (hhigh : point.weekday ≤ 7) (base : Int) :
    Calendar.weekday (base + point.weekdayShift base) = point.weekday := by
  simp only [weekdayShift, Calendar.weekday]
  split_ifs <;> omega

theorem weekdayShift_of_advance (hlow : 0 ≤ point.weekday) (hhigh : point.weekday ≤ 7)
    (hadvance : point.advance = true) (base : Int) :
    0 ≤ point.weekdayShift base ∧ point.weekdayShift base ≤ 6 := by
  simp only [weekdayShift, Calendar.weekday, hadvance, if_true]
  split_ifs <;> omega

theorem weekdayShift_of_not_advance (hlow : 0 ≤ point.weekday) (hhigh : point.weekday ≤ 7)
    (hadvance : point.advance = false) (base : Int) :
    -6 ≤ point.weekdayShift base ∧ point.weekdayShift base ≤ 0 := by
  simp only [weekdayShift, Calendar.weekday, hadvance, Bool.false_eq_true, if_false]
  split_ifs <;> omega

/-- The time of day does not take a point to another year. -/
theorem yearOf_localMillis_iff (h : point.InRange) (year : Int) :
    Instant.yearOf (point.localMillis year) = year ↔
      Calendar.daysFromCivil year 1 1 ≤
          point.baseDays year + point.weekdayShift (point.baseDays year) ∧
        point.baseDays year + point.weekdayShift (point.baseDays year) <
          Calendar.daysFromCivil (year + 1) 1 1 := by
  have htime := h.time
  rw [Instant.yearOf_eq_iff, localMillis]
  simp only [Instant.startOfYear, Instant.millisPerDay_eq] at *
  omega

/-- The base lies in its year, and as many days from its ends as the month and the day say. -/
theorem InRange.baseDays_inside (h : point.InRange) (year : Int) :
    (Calendar.daysFromCivil year 1 1 ≤ point.baseDays year ∧
        point.baseDays year < Calendar.daysFromCivil (year + 1) 1 1) ∧
      (point.month ≠ 1 ∨ point.day = -1 ∨ 7 ≤ point.day →
        Calendar.daysFromCivil year 1 1 + 6 ≤ point.baseDays year) ∧
      (point.month ≠ 12 ∨ (point.day ≠ -1 ∧ point.day ≤ 25) →
        point.baseDays year + 6 < Calendar.daysFromCivil (year + 1) 1 1) := by
  obtain ⟨⟨hlow, hhigh⟩, hday, -, -⟩ := h
  have hshortest := Calendar.daysInMonth_ge hlow hhigh year
  have hlongest := Calendar.daysInMonth_le hlow hhigh year
  have hlength := Calendar.marchDay_succ (year - 1)
  rw [sub_add_cancel] at hlength
  simp only [baseDays, Calendar.daysFromCivil_eq, add_sub_cancel_right]
  split_ifs <;> omega

/-- The last six days of the year. -/
theorem InRange.baseDays_december (h : point.InRange) (hmonth : point.month = 12)
    (hday : point.day = -1 ∨ 26 ≤ point.day) (year : Int) :
    Calendar.daysFromCivil (year + 1) 1 1 - 6 ≤ point.baseDays year ∧
      point.baseDays year < Calendar.daysFromCivil (year + 1) 1 1 := by
  have hrange := h.day
  have hlength : Calendar.daysInMonth year 12 = 31 := rfl
  rw [baseDays, hmonth, hlength, Calendar.daysFromCivil_january, Calendar.daysFromCivil_eq,
    add_sub_cancel_right]
  norm_num
  split_ifs <;> omega

/-- The first six days of the year. -/
theorem baseDays_january (hmonth : point.month = 1) (hlow : 1 ≤ point.day)
    (hhigh : point.day ≤ 6) (year : Int) :
    Calendar.daysFromCivil year 1 1 ≤ point.baseDays year ∧
      point.baseDays year < Calendar.daysFromCivil year 1 1 + 6 := by
  have hlength : Calendar.daysInMonth year 1 = 31 := rfl
  rw [baseDays, hmonth, hlength, Calendar.daysFromCivil_january, Calendar.daysFromCivil_eq]
  norm_num
  split_ifs <;> omega

theorem InRange.staysInYear (h : point.InRange) (hpast : ¬ point.RunsPastYear)
    (hbefore : ¬ point.RunsBeforeYear) : point.StaysInYear := by
  intro year
  obtain ⟨hbase, hstart, hend⟩ := h.baseDays_inside year
  obtain ⟨hlow, hhigh⟩ := h.weekday
  rw [yearOf_localMillis_iff h]
  by_cases hweekday : point.weekday = 0
  · have hshift : point.weekdayShift (point.baseDays year) = 0 := if_pos hweekday
    omega
  · cases hadvance : point.advance with
    | true =>
      have hshift := weekdayShift_of_advance hlow hhigh hadvance (point.baseDays year)
      have hroom : point.month ≠ 12 ∨ (point.day ≠ -1 ∧ point.day ≤ 25) := by
        by_contra hnone
        apply hpast
        refine ⟨by omega, hweekday, hadvance, by omega⟩
      have hbound := hend hroom
      omega
    | false =>
      have hshift := weekdayShift_of_not_advance hlow hhigh hadvance (point.baseDays year)
      have hroom : point.month ≠ 1 ∨ point.day = -1 ∨ 7 ≤ point.day := by
        have hday := h.day
        by_contra hnone
        apply hbefore
        refine ⟨by omega, hweekday, hadvance, by omega⟩
      have hbound := hstart hroom
      omega

/-- In a year after which New Year falls on the weekday, the point is New Year itself. -/
theorem InRange.not_staysInYear_of_runsPastYear (h : point.InRange) (hpast : point.RunsPastYear) :
    ¬ point.StaysInYear := by
  intro hstays
  obtain ⟨hmonth, hweekday, hadvance, hday⟩ := hpast
  obtain ⟨hlow, hhigh⟩ := h.weekday
  obtain ⟨next, hnext⟩ := Calendar.exists_newYear_on (show 1 ≤ point.weekday by omega) hhigh
  have hinside := (yearOf_localMillis_iff h (next - 1)).mp (hstays (next - 1))
  have hbase := h.baseDays_december hmonth hday (next - 1)
  have hshift := weekdayShift_of_advance hlow hhigh hadvance (point.baseDays (next - 1))
  have hsame := weekday_shifted (by omega) hhigh (point.baseDays (next - 1))
  rw [sub_add_cancel] at hbase hinside
  have hnewYear := Calendar.eq_of_weekday_eq (hsame.trans hnext.symm) (by omega) (by omega)
  omega

/-- In a year before which New Year's Eve falls on the weekday, the point is New Year's Eve. -/
theorem InRange.not_staysInYear_of_runsBeforeYear (h : point.InRange)
    (hbefore : point.RunsBeforeYear) : ¬ point.StaysInYear := by
  intro hstays
  obtain ⟨hmonth, hweekday, hadvance, hfirst, hsixth⟩ := hbefore
  obtain ⟨hlow, hhigh⟩ := h.weekday
  obtain ⟨year, hyear⟩ := Calendar.exists_newYearsEve_on (show 1 ≤ point.weekday by omega) hhigh
  have hinside := (yearOf_localMillis_iff h year).mp (hstays year)
  have hbase := baseDays_january hmonth hfirst hsixth year
  have hshift := weekdayShift_of_not_advance hlow hhigh hadvance (point.baseDays year)
  have hsame := weekday_shifted (by omega) hhigh (point.baseDays year)
  have heve := Calendar.eq_of_weekday_eq (hsame.trans hyear.symm) (by omega) (by omega)
  omega

theorem InRange.staysInYear_iff (h : point.InRange) :
    point.StaysInYear ↔ ¬ point.RunsPastYear ∧ ¬ point.RunsBeforeYear := by
  constructor
  · intro hstays
    constructor
    · intro hpast
      exact h.not_staysInYear_of_runsPastYear hpast hstays
    · intro hbefore
      exact h.not_staysInYear_of_runsBeforeYear hbefore hstays
  · rintro ⟨hpast, hbefore⟩
    exact h.staysInYear hpast hbefore

theorem InRange.guarded (h : point.InRange) {α : Type} (value : α) :
    point.guarded value = some value :=
  guarded_of_range h.month.1 h.month.2 value

def Occurs (point : YearPoint) (standardOffset save instant : Int) : Prop :=
  ∃ year, point.instantIn? year standardOffset save = some instant

theorem InRange.occurs_iff (h : point.InRange) (standardOffset save instant : Int) :
    point.Occurs standardOffset save instant ↔
      ∃ year, point.instantIn year standardOffset save = instant := by
  simp only [Occurs, instantIn?, h.guarded, Option.some.injEq]

theorem StaysInYear.next_isLeast (hstays : point.StaysInYear) (instant standardOffset save : Int) :
    IsLeast {occurrence | (∃ year, point.instantIn year standardOffset save = occurrence) ∧
      instant < occurrence} (point.next instant standardOffset save) := by
  obtain ⟨year, hyear⟩ := point.exists_next_eq instant standardOffset save
  refine ⟨⟨⟨year, hyear.symm⟩, hstays.lt_next instant standardOffset save⟩, ?_⟩
  rintro occurrence ⟨⟨other, rfl⟩, hlater⟩
  exact hstays.next_le instant standardOffset save hlater

theorem StaysInYear.previous_isGreatest (hstays : point.StaysInYear)
    (instant standardOffset save : Int) :
    IsGreatest {occurrence | (∃ year, point.instantIn year standardOffset save = occurrence) ∧
      occurrence < instant} (point.previous instant standardOffset save) := by
  obtain ⟨year, hyear⟩ := point.exists_previous_eq instant standardOffset save
  refine ⟨⟨⟨year, hyear.symm⟩, hstays.previous_lt instant standardOffset save⟩, ?_⟩
  rintro occurrence ⟨⟨other, rfl⟩, hearlier⟩
  exact hstays.le_previous instant standardOffset save hearlier

/-- A point whose fields are in range lies in its year, whichever that is, exactly if no weekday
carries it across New Year. Then the two searches answer the first occurrence after an instant and
the last one before it. -/
theorem nearest_occurrences (point : YearPoint) (h : point.InRange) :
    ((∀ year, (point.localMillis? year).map Instant.yearOf = some year) ↔
        ¬ point.RunsPastYear ∧ ¬ point.RunsBeforeYear) ∧
      (¬ point.RunsPastYear ∧ ¬ point.RunsBeforeYear →
        ∀ instant standardOffset save,
          (∃ found, point.next? instant standardOffset save = some found ∧
            IsLeast {occurrence | point.Occurs standardOffset save occurrence ∧
              instant < occurrence} found) ∧
          ∃ found, point.previous? instant standardOffset save = some found ∧
            IsGreatest {occurrence | point.Occurs standardOffset save occurrence ∧
              occurrence < instant} found) := by
  constructor
  · rw [← h.staysInYear_iff, StaysInYear]
    simp only [localMillis?, h.guarded, Option.map_some, Option.some.injEq]
  · rintro ⟨hpast, hbefore⟩ instant standardOffset save
    have hstays := h.staysInYear hpast hbefore
    simp only [h.occurs_iff]
    constructor
    · exact ⟨_, h.guarded _, hstays.next_isLeast instant standardOffset save⟩
    · exact ⟨_, h.guarded _, hstays.previous_isGreatest instant standardOffset save⟩

/-- The Sunday on or after the 25th of December, which may be New Year's Eve. -/
theorem nearest_occurrences_christmas :
    let point : YearPoint := { month := 12, day := 25, weekday := 7, advance := true }
    point.InRange ∧ (¬ point.RunsPastYear ∧ ¬ point.RunsBeforeYear) ∧
      (∀ year, (point.localMillis? year).map Instant.yearOf = some year) ∧
      (∃ found, point.next? 1672444800000 0 0 = some found ∧
        IsLeast {occurrence | point.Occurs 0 0 occurrence ∧ 1672444800000 < occurrence} found) ∧
      ∃ found, point.previous? 1672444800000 0 0 = some found ∧
        IsGreatest {occurrence | point.Occurs 0 0 occurrence ∧ occurrence < 1672444800000}
          found := by
  have hrange : InRange { month := 12, day := 25, weekday := 7, advance := true } := by
    constructor <;> decide
  have hinside : ¬ RunsPastYear { month := 12, day := 25, weekday := 7, advance := true } ∧
      ¬ RunsBeforeYear { month := 12, day := 25, weekday := 7, advance := true } := by
    constructor
    · simp [RunsPastYear]
    · simp [RunsBeforeYear]
  obtain ⟨hyears, hsearch⟩ := nearest_occurrences _ hrange
  exact ⟨hrange, hinside, hyears.mpr hinside, hsearch hinside 1672444800000 0 0⟩

end YearPoint

end CivilTime
