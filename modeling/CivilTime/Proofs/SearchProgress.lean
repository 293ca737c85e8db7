import CivilTime.Proofs.Bytes
import CivilTime.Proofs.YearBoundary
import CivilTime.Source.PointFields

/-!
Searches that move. The search for the next occurrence of a point goes forwards from every instant
exactly if the point never falls before the year that it is computed for, and the search for the
previous one backwards exactly if it never falls after that year. For a point that has been read
from its fields one common year decides both: the weekday picks one of at most seven days, and each
of them in some year.
-/

namespace CivilTime

namespace YearPoint

/-- The fields of a point as they are read. The day may be any number. -/
structure WellFormed (point : YearPoint) : Prop where
  month : 1 ≤ point.month ∧ point.month ≤ 12
  weekday : 0 ≤ point.weekday ∧ point.weekday ≤ 7
  time : 0 ≤ point.millisOfDay ∧ point.millisOfDay < Instant.millisPerDay

/-- The first of the days among which the weekday picks one. -/
def firstDay (point : YearPoint) (year : Int) : Int :=
  if point.weekday = 0 ∨ point.advance = true then point.baseDays year
  else point.baseDays year - 6

def lastDay (point : YearPoint) (year : Int) : Int :=
  if point.weekday = 0 ∨ point.advance = false then point.baseDays year
  else point.baseDays year + 6

def pickedDay (point : YearPoint) (year : Int) : Int :=
  point.baseDays year + point.weekdayShift (point.baseDays year)

variable {point : YearPoint}

theorem pickedDay_bounds (hrange : 0 ≤ point.weekday ∧ point.weekday ≤ 7) (year : Int) :
    point.firstDay year ≤ point.pickedDay year ∧ point.pickedDay year ≤ point.lastDay year := by
  obtain ⟨hlow, hhigh⟩ := hrange
  simp only [firstDay, lastDay, pickedDay]
  by_cases hweekday : point.weekday = 0
  · have hshift : point.weekdayShift (point.baseDays year) = 0 := if_pos hweekday
    simp [hweekday, hshift]
  · cases hadvance : point.advance with
    | true =>
      have hshift := weekdayShift_of_advance hlow hhigh hadvance (point.baseDays year)
      simp only [hweekday, or_true, Bool.true_eq_false, or_self, if_true, if_false]
      omega
    | false =>
      have hshift := weekdayShift_of_not_advance hlow hhigh hadvance (point.baseDays year)
      simp only [hweekday, or_true, Bool.false_eq_true, or_self, if_true, if_false]
      omega

/-- Of the days in question, the one on the weekday is picked. -/
theorem pickedDay_eq (hrange : 0 ≤ point.weekday ∧ point.weekday ≤ 7) (year : Int) {day : Int}
    (hfirst : point.firstDay year ≤ day) (hlast : day ≤ point.lastDay year)
    (hweekday : Calendar.weekday day = point.weekday) : point.pickedDay year = day := by
  have hpicked := pickedDay_bounds hrange year
  have hlow : 1 ≤ point.weekday := by
    rw [← hweekday, Calendar.weekday]
    omega
  have hsame := weekday_shifted hlow hrange.2 (point.baseDays year)
  have hweek : point.lastDay year ≤ point.firstDay year + 6 := by
    simp only [firstDay, lastDay]
    split_ifs <;> simp_all
  exact Calendar.eq_of_weekday_eq (hsame.trans hweekday.symm) (by omega) (by omega)

theorem WellFormed.le_localMillis_iff (h : point.WellFormed) (year days : Int) :
    days * Instant.millisPerDay ≤ point.localMillis year ↔ days ≤ point.pickedDay year := by
  have htime := h.time
  rw [localMillis, pickedDay]
  simp only [Instant.millisPerDay_eq] at *
  omega

/-- The base lies as many days after New Year as in a common year, or one more in a leap year. -/
theorem WellFormed.baseDays_eq (h : point.WellFormed) (year : Int) :
    ∃ more, (0 ≤ more ∧ more ≤ Calendar.leapDays year) ∧
      point.baseDays year - Calendar.daysFromCivil year 1 1 =
        point.baseDays 2001 - Calendar.daysFromCivil 2001 1 1 + more := by
  obtain ⟨hlow, hhigh⟩ := h.month
  have hlength := Calendar.daysInMonth_eq hlow hhigh year
  have hyear := Calendar.marchDay_eq year
  have hcommon := Calendar.marchDay_eq 2001
  have hleap : 0 ≤ Calendar.leapDays year := by
    simp only [Calendar.leapDays]
    split_ifs <;> simp
  rw [Calendar.leapDays_of_common (by decide)] at hcommon
  refine ⟨_, ?_, (add_sub_cancel _ _).symm⟩
  simp only [baseDays, Calendar.daysFromCivil_eq]
  split_ifs at * <;> omega

theorem WellFormed.days_eq (h : point.WellFormed) (year : Int) :
    ∃ more, (0 ≤ more ∧ more ≤ Calendar.leapDays year) ∧
      point.firstDay year - Calendar.daysFromCivil year 1 1 =
          point.firstDay 2001 - Calendar.daysFromCivil 2001 1 1 + more ∧
        point.lastDay year - Calendar.daysFromCivil year 1 1 =
          point.lastDay 2001 - Calendar.daysFromCivil 2001 1 1 + more := by
  obtain ⟨more, hmore, hbase⟩ := h.baseDays_eq year
  refine ⟨more, hmore, ?_⟩
  simp only [firstDay, lastDay]
  split_ifs <;> omega

/-- Only a weekday gives a choice of days. -/
theorem WellFormed.weekday_pos (h : point.WellFormed) (year : Int)
    (hdays : point.firstDay year < point.lastDay year) : 1 ≤ point.weekday := by
  have hlow := h.weekday.1
  by_contra hnone
  have hzero : point.weekday = 0 := by omega
  simp [firstDay, lastDay, hzero] at hdays

/-- A point never falls before its year exactly if no day that the weekday may pick in a common year
does. -/
theorem WellFormed.startOfYear_le_iff (h : point.WellFormed) :
    (∀ year, Instant.startOfYear year ≤ point.localMillis year) ↔
      Calendar.daysFromCivil 2001 1 1 ≤ point.firstDay 2001 := by
  simp only [Instant.startOfYear, h.le_localMillis_iff]
  constructor
  · intro hstarts
    by_contra hbefore
    -- In this year New Year's Eve has the weekday, so it is picked if it is among the days.
    obtain ⟨year, hcommon, hnewYear⟩ := Calendar.exists_commonYear_on
      (show 1 ≤ point.weekday % 7 + 1 by omega) (by omega)
    obtain ⟨more, hmore, hfirst, hlast⟩ := h.days_eq year
    rw [Calendar.leapDays_of_common hcommon] at hmore
    have hstart := hstarts year
    have hpicked := pickedDay_bounds h.weekday year
    have hlow := h.weekday_pos year (by omega)
    have hhigh := h.weekday.2
    have heve : Calendar.weekday (Calendar.daysFromCivil year 1 1 - 1) = point.weekday := by
      simp only [Calendar.weekday] at hnewYear ⊢
      omega
    have hday := pickedDay_eq h.weekday year (by omega) (by omega) heve
    omega
  · intro hfirst year
    obtain ⟨more, hmore, hmoved, -⟩ := h.days_eq year
    have hpicked := pickedDay_bounds h.weekday year
    omega

/-- A point never falls after its year exactly if no day that the weekday may pick in a common year
does. -/
theorem WellFormed.lt_startOfYear_iff (h : point.WellFormed) :
    (∀ year, point.localMillis year < Instant.startOfYear (year + 1)) ↔
      point.lastDay 2001 < Calendar.daysFromCivil 2002 1 1 := by
  have hcommonYear := Calendar.newYear_succ 2001
  rw [Calendar.leapDays_of_common (by decide)] at hcommonYear
  norm_num at hcommonYear
  simp only [Instant.startOfYear, ← not_le, h.le_localMillis_iff]
  constructor
  · intro hends hafter
    obtain ⟨year, hcommon, hnewYear⟩ := Calendar.exists_commonYear_on
      (show 1 ≤ (point.weekday + 5) % 7 + 1 by omega) (by omega)
    obtain ⟨more, hmore, hfirst, hlast⟩ := h.days_eq year
    have hlength := Calendar.newYear_succ year
    rw [Calendar.leapDays_of_common hcommon] at hmore hlength
    have hend := hends year
    have hpicked := pickedDay_bounds h.weekday year
    have hlow := h.weekday_pos year (by omega)
    have hhigh := h.weekday.2
    have hnext : Calendar.weekday (Calendar.daysFromCivil (year + 1) 1 1) = point.weekday := by
      simp only [Calendar.weekday] at hnewYear ⊢
      omega
    have hday := pickedDay_eq h.weekday year (by omega) (by omega) hnext
    omega
  · intro hlast year
    obtain ⟨more, hmore, -, hmoved⟩ := h.days_eq year
    have hlength := Calendar.newYear_succ year
    have hpicked := pickedDay_bounds h.weekday year
    omega

/-- From every instant the search for the next occurrence answers a later one. -/
def MovesForwards (point : YearPoint) (standardOffset save : Int) : Prop :=
  ∀ instant, ∃ found, point.next? instant standardOffset save = some found ∧ instant < found

def MovesBackwards (point : YearPoint) (standardOffset save : Int) : Prop :=
  ∀ instant, ∃ found, point.previous? instant standardOffset save = some found ∧ found < instant

theorem WellFormed.movesForwards_iff (h : point.WellFormed) (standardOffset save : Int) :
    point.MovesForwards standardOffset save ↔
      Calendar.daysFromCivil 2001 1 1 ≤ point.firstDay 2001 := by
  have hsearch : point.MovesForwards standardOffset save ↔
      ∀ instant, instant < point.next instant standardOffset save := by
    simp [MovesForwards, next?, guarded_of_range h.month.1 h.month.2]
  exact hsearch.trans ((point.lt_next_iff standardOffset save).trans h.startOfYear_le_iff)

theorem WellFormed.movesBackwards_iff (h : point.WellFormed) (standardOffset save : Int) :
    point.MovesBackwards standardOffset save ↔
      point.lastDay 2001 < Calendar.daysFromCivil 2002 1 1 := by
  have hsearch : point.MovesBackwards standardOffset save ↔
      ∀ instant, point.previous instant standardOffset save < instant := by
    simp [MovesBackwards, previous?, guarded_of_range h.month.1 h.month.2]
  exact hsearch.trans ((point.previous_lt_iff standardOffset save).trans h.lt_startOfYear_iff)

end YearPoint

theorem Keyword.position?_bounds {keywords : List Keyword} {text : String} {n : Int}
    (h : position? keywords text = some n) : 1 ≤ n ∧ n ≤ keywords.length := by
  obtain ⟨place, hplace, rfl⟩ := Option.map_eq_some_iff.mp h
  obtain ⟨index, hindex, hcast⟩ := Option.bind_eq_some_iff.mp hplace
  obtain rfl := Option.some.inj hcast
  obtain ⟨hlt, -⟩ := List.findIdx?_eq_some_iff_getElem.mp hindex
  omega

namespace Source

open Bytes (bind_eq_ok)

theorem Field.month_bounds {text : String} {month : Int} (h : Field.month text = .ok month) :
    1 ≤ month ∧ month ≤ 12 := by
  unfold Field.month at h
  cases hposition : Keyword.position? Keyword.months text with
  | none => simp [hposition] at h
  | some n =>
    simp only [hposition, Except.ok.injEq] at h
    exact h ▸ Keyword.position?_bounds hposition

theorem Field.weekday_bounds {text : String} {weekday : Int}
    (h : Field.weekday text = .ok weekday) : 1 ≤ weekday ∧ weekday ≤ 7 := by
  unfold Field.weekday at h
  cases hposition : Keyword.position? Keyword.weekdays text with
  | none => simp [hposition] at h
  | some n =>
    simp only [hposition, Except.ok.injEq] at h
    exact h ▸ Keyword.position?_bounds hposition

theorem DayField.relative?_weekday {sign text : String} {advance : Bool} {field : DayField}
    (h : relative? sign advance text = some (.ok field)) :
    0 ≤ field.weekday ∧ field.weekday ≤ 7 := by
  rw [relative?] at h
  split at h
  · contradiction
  · contradiction
  · obtain ⟨day, -, h⟩ := bind_eq_ok.mp (Option.some.inj h)
    obtain ⟨weekday, hweekday, h⟩ := bind_eq_ok.mp h
    obtain rfl := Except.ok.inj h
    have hbounds := Field.weekday_bounds hweekday
    exact ⟨zero_le_one.trans hbounds.1, hbounds.2⟩

theorem DayField.read_weekday {text : String} {field : DayField} (h : read text = .ok field) :
    0 ≤ field.weekday ∧ field.weekday ≤ 7 := by
  rw [read] at h
  split_ifs at h
  · obtain ⟨day, -, h⟩ := bind_eq_ok.mp h
    obtain rfl := Except.ok.inj h
    simp
  · obtain ⟨weekday, hweekday, h⟩ := bind_eq_ok.mp h
    obtain rfl := Except.ok.inj h
    have hbounds := Field.weekday_bounds hweekday
    exact ⟨zero_le_one.trans hbounds.1, hbounds.2⟩
  · cases hafter : relative? ">=" true text with
    | some result =>
      rw [hafter] at h
      obtain rfl : result = .ok field := h
      exact relative?_weekday hafter
    | none =>
      rw [hafter] at h
      cases hbefore : relative? "<=" false text with
      | some result =>
        rw [hbefore] at h
        obtain rfl : result = .ok field := h
        exact relative?_weekday hbefore
      | none => simp [hbefore] at h

namespace PointFields

theorem dayAfter_month {month day later next : Int} (hlow : 1 ≤ month) (hhigh : month ≤ 12)
    (h : dayAfter month day = .ok (later, next)) : 1 ≤ later ∧ later ≤ 12 := by
  rw [dayAfter] at h
  extract_lets length at h
  split_ifs at h
  · obtain ⟨rfl, -⟩ := Prod.mk.inj (Except.ok.inj h)
    exact ⟨hlow, hhigh⟩
  · obtain ⟨rfl, -⟩ := Prod.mk.inj (Except.ok.inj h)
    omega

/-- The midnight that ends a day is again at a month and a weekday, if there was one. -/
theorem endOfDay_bounds {month later : Int} {field moved : DayField} (hlow : 1 ≤ month)
    (hhigh : month ≤ 12) (h : endOfDay month field = .ok (later, moved)) :
    (1 ≤ later ∧ later ≤ 12) ∧ 0 ≤ moved.weekday ∧ moved.weekday ≤ 7 := by
  have hnext : 0 ≤ (if field.weekday = 0 then 0 else field.weekday % 7 + 1) ∧
      (if field.weekday = 0 then 0 else field.weekday % 7 + 1) ≤ 7 := by
    split_ifs <;> omega
  rw [endOfDay] at h
  generalize (if field.weekday = 0 then 0 else field.weekday % 7 + 1) = weekday at h hnext
  split_ifs at h
  · obtain ⟨rfl, rfl⟩ := Prod.mk.inj (Except.ok.inj h)
    exact ⟨by omega, hnext⟩
  · obtain ⟨⟨month', day⟩, hafter, h⟩ := bind_eq_ok.mp h
    obtain ⟨rfl, rfl⟩ := Prod.mk.inj (Except.ok.inj h)
    exact ⟨dayAfter_month hlow hhigh hafter, hnext⟩

theorem midnight_inDay : (0 : Int) ≤ 0 ∧ 0 < Instant.millisPerDay := by
  decide

theorem withTime_wellFormed {month : Int} {field : DayField} {text : String} {point : YearPoint}
    (hmonth : 1 ≤ month ∧ month ≤ 12) (hweekday : 0 ≤ field.weekday ∧ field.weekday ≤ 7)
    (h : withTime month field text = .ok point) : point.WellFormed := by
  have hyearEnd : 0 ≤ endOfYearMillis ∧ endOfYearMillis < Instant.millisPerDay := by decide
  rw [withTime] at h
  obtain ⟨⟨clock, time⟩, -, h⟩ := bind_eq_ok.mp h
  dsimp only at h
  split_ifs at h
  · obtain rfl := Except.ok.inj h
    exact ⟨hmonth, hweekday, hyearEnd⟩
  · obtain ⟨⟨later, moved⟩, hend, h⟩ := bind_eq_ok.mp h
    obtain rfl := Except.ok.inj h
    obtain ⟨hlater, hmoved⟩ := endOfDay_bounds hmonth.1 hmonth.2 hend
    exact ⟨hlater, hmoved, midnight_inDay⟩
  · obtain ⟨millis, -, h⟩ := bind_eq_ok.mp h
    split_ifs at h with houtside
    obtain rfl := Except.ok.inj h
    have hinDay : 0 ≤ millis ∧ millis < Instant.millisPerDay := by omega
    exact ⟨hmonth, hweekday, hinDay⟩

theorem read_wellFormed {fields rest : List String} {point : YearPoint}
    (h : read fields = .ok (point, rest)) : point.WellFormed := by
  rw [read.eq_def] at h
  split at h
  · obtain ⟨rfl, -⟩ := Prod.mk.inj (Except.ok.inj h)
    constructor <;> decide
  · obtain ⟨month, hmonth, h⟩ := bind_eq_ok.mp h
    obtain ⟨rfl, -⟩ := Prod.mk.inj (Except.ok.inj h)
    exact ⟨Field.month_bounds hmonth, by simp, midnight_inDay⟩
  · obtain ⟨month, hmonth, h⟩ := bind_eq_ok.mp h
    obtain ⟨field, hfield, h⟩ := bind_eq_ok.mp h
    obtain ⟨rfl, -⟩ := Prod.mk.inj (Except.ok.inj h)
    exact ⟨Field.month_bounds hmonth, DayField.read_weekday hfield, midnight_inDay⟩
  · obtain ⟨month, hmonth, h⟩ := bind_eq_ok.mp h
    obtain ⟨field, hfield, h⟩ := bind_eq_ok.mp h
    obtain ⟨timed, htimed, h⟩ := bind_eq_ok.mp h
    obtain ⟨rfl, -⟩ := Prod.mk.inj (Except.ok.inj h)
    exact withTime_wellFormed (Field.month_bounds hmonth) (DayField.read_weekday hfield) htimed

/-- A point that is read from fields is searched for without standing still or turning back,
forwards exactly if none of the days among which its weekday picks lies before the year, and
backwards exactly if none lies after it. The days of the common year 2001 decide, for all years and
all clocks. -/
theorem read_moves_iff {fields rest : List String} {point : YearPoint}
    (h : read fields = .ok (point, rest)) (standardOffset save : Int) :
    (point.MovesForwards standardOffset save ↔
        Calendar.daysFromCivil 2001 1 1 ≤ point.firstDay 2001) ∧
      (point.MovesBackwards standardOffset save ↔
        point.lastDay 2001 < Calendar.daysFromCivil 2002 1 1) := by
  have hwellFormed := read_wellFormed h
  constructor
  · exact hwellFormed.movesForwards_iff standardOffset save
  · exact hwellFormed.movesBackwards_iff standardOffset save

/-- The Sunday on or after the 25th of December, which may be New Year's Eve. -/
theorem read_moves_christmas :
    read ["Dec", "Sun>=25", "23:59u", "1:00"] =
        .ok (⟨.universal, 12, 25, 7, true, 86340000⟩, ["1:00"]) ∧
      (⟨.universal, 12, 25, 7, true, 86340000⟩ : YearPoint).MovesForwards 3600000 0 ∧
      (⟨.universal, 12, 25, 7, true, 86340000⟩ : YearPoint).MovesBackwards 3600000 0 := by
  have hread : read ["Dec", "Sun>=25", "23:59u", "1:00"] =
      .ok (⟨.universal, 12, 25, 7, true, 86340000⟩, ["1:00"]) := by decide +kernel
  obtain ⟨hforwards, hbackwards⟩ := read_moves_iff hread 3600000 0
  exact ⟨hread, hforwards.mpr (by decide), hbackwards.mpr (by decide)⟩

/-- The midnight that ends the last Sunday of December is read as a Monday on or before New Year,
which at the end of 2024 is over already. A Sunday on or after New Year's Eve is searched for
backwards, early in 2025, and found two days later. -/
theorem search_turns_back :
    (∃ point, read ["Dec", "lastSun", "24:00"] = .ok (point, []) ∧
      point.next? 1735603200000 0 0 = some 1735516800000 ∧ ¬ point.MovesForwards 0 0) ∧
    ∃ point, read ["Dec", "Sun>=31"] = .ok (point, []) ∧
      point.previous? 1735862400000 0 0 = some 1736035200000 ∧ ¬ point.MovesBackwards 0 0 := by
  constructor
  · have hfound : ({ day := 1, weekday := 1 } : YearPoint).next? 1735603200000 0 0 =
        some 1735516800000 := by decide
    refine ⟨{ day := 1, weekday := 1 }, by decide +kernel, hfound, fun hmoves => ?_⟩
    obtain ⟨found, hsame, hlater⟩ := hmoves 1735603200000
    obtain rfl := Option.some.inj (hfound.symm.trans hsame)
    exact absurd hlater (by decide)
  · have hfound : ({ month := 12, day := 31, weekday := 7, advance := true } : YearPoint).previous?
        1735862400000 0 0 = some 1736035200000 := by decide
    refine ⟨{ month := 12, day := 31, weekday := 7, advance := true }, by decide +kernel, hfound,
      fun hmoves => ?_⟩
    obtain ⟨found, hsame, hearlier⟩ := hmoves 1735862400000
    obtain rfl := Option.some.inj (hfound.symm.trans hsame)
    exact absurd hearlier (by decide)

end PointFields

end Source

end CivilTime
