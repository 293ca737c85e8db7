import CivilTime.Proofs.Tail
import CivilTime.YearPoint

/-!
A family of tails with two seasons: standard time from the first day of one month on, and saving
time from the first day of another. They stay in the year, and where the months differ they
alternate without ties.
-/

namespace CivilTime

namespace YearPoint

def firstOf (month : Int) : YearPoint :=
  { month, millisOfDay := 7200000 }

theorem firstOf_isDate {month : Int} (hlow : 1 ≤ month) (hhigh : month ≤ 12) :
    (firstOf month).IsDate :=
  ⟨⟨hlow, hhigh⟩, ⟨le_rfl, by simp [firstOf]⟩, rfl, by simp [firstOf], by
    simp [firstOf, Instant.millisPerDay_eq]⟩

theorem firstOf_localMillis {month : Int} (hlow : 3 ≤ month) (hhigh : month ≤ 12) (year : Int) :
    (firstOf month).localMillis year =
      (Calendar.marchDay year + (153 * (month - 3) + 2) / 5 - 719468) * 86400000 + 7200000 := by
  have hmonth : (firstOf month).month = month := rfl
  have hday : (firstOf month).day = 1 := rfl
  have htime : (firstOf month).millisOfDay = 7200000 := rfl
  rw [(firstOf_isDate (by omega) hhigh).localMillis_eq, hmonth, hday, htime,
    Calendar.daysFromCivil_eq, if_neg (by omega), if_pos (by omega)]
  simp only [Instant.millisPerDay_eq]
  ring

/-- Saving time begins between two beginnings of standard time, if its month is the earlier one. -/
theorem firstOf_between {standardMonth savingMonth : Int} (hsaving : 3 ≤ savingMonth)
    (hbefore : savingMonth < standardMonth) (hstandard : standardMonth ≤ 12) (year : Int) :
    (firstOf savingMonth).localMillis year + 86400000 ≤
        (firstOf standardMonth).localMillis year ∧
      (firstOf standardMonth).localMillis year + 86400000 ≤
        (firstOf savingMonth).localMillis (year + 1) := by
  have hlength := Calendar.marchDay_succ year
  rw [firstOf_localMillis hsaving (by omega), firstOf_localMillis hsaving (by omega),
    firstOf_localMillis (by omega) hstandard]
  omega

end YearPoint

/-- Standard time begins in one month and saving time in another, each from a year of its own. -/
def Directive.seasons (standardMonth standardFrom savingMonth savingFrom : Int) : List Directive :=
  [.recurringSaving ⟨.firstOf standardMonth, "STD", 0⟩ standardFrom 9999,
    .recurringSaving ⟨.firstOf savingMonth, "DST", 3600000⟩ savingFrom 9999]

namespace Tail

open YearPoint

def ofSeasons (standardOffset standardMonth savingMonth : Int) : Tail :=
  ⟨standardOffset, ⟨firstOf standardMonth, "STD", 0⟩, ⟨firstOf savingMonth, "DST", 3600000⟩⟩

theorem ofSeasons_occurrence (standardOffset standardMonth savingMonth year : Int) :
    (ofSeasons standardOffset standardMonth savingMonth).occurrence .starting year =
        (firstOf standardMonth).localMillis year - (standardOffset + 3600000) ∧
      (ofSeasons standardOffset standardMonth savingMonth).occurrence .ending year =
        (firstOf savingMonth).localMillis year - (standardOffset + 0) :=
  ⟨rfl, rfl⟩

theorem ofSeasons_stays (standardOffset : Int) {standardMonth savingMonth : Int}
    (hstandard : 1 ≤ standardMonth ∧ standardMonth ≤ 12)
    (hsaving : 1 ≤ savingMonth ∧ savingMonth ≤ 12) :
    (ofSeasons standardOffset standardMonth savingMonth).StaysInYear := by
  intro side
  cases side with
  | starting => exact (firstOf_isDate hstandard.1 hstandard.2).staysInYear
  | ending => exact (firstOf_isDate hsaving.1 hsaving.2).staysInYear

theorem ofSeasons_alternates (standardOffset : Int) {standardMonth savingMonth : Int}
    (hsaving : 3 ≤ savingMonth) (hbefore : savingMonth < standardMonth)
    (hstandard : standardMonth ≤ 12) :
    (ofSeasons standardOffset standardMonth savingMonth).Alternates := by
  refine Tail.alternates_of_between 1 fun year => ?_
  have hthis := firstOf_between hsaving hbefore hstandard year
  have hnext := firstOf_between hsaving hbefore hstandard (year + 1)
  rw [(ofSeasons_occurrence _ _ _ year).1, (ofSeasons_occurrence _ _ _ (year + 1)).1,
    (ofSeasons_occurrence _ _ _ (year + 1)).2]
  omega

theorem ofSeasons_untied (standardOffset : Int) {standardMonth savingMonth : Int}
    (hsaving : 3 ≤ savingMonth) (hbefore : savingMonth < standardMonth)
    (hstandard : standardMonth ≤ 12) :
    (ofSeasons standardOffset standardMonth savingMonth).Untied := by
  intro year again htie
  have hbetween := firstOf_between hsaving hbefore hstandard year
  have hequal : (firstOf standardMonth).localMillis year =
      (firstOf savingMonth).localMillis again := by
    rw [(ofSeasons_occurrence _ _ _ year).1] at htie
    exact sub_left_injective htie
  have hmono := (firstOf savingMonth).localMillis_strictMono.monotone
  rcases le_or_gt again year with hle | hgt
  · have := hmono hle
    omega
  · have := hmono (show year + 1 ≤ again from hgt)
    omega

/-- Seasons that begin on the same day alternate too: an hour of standard time lies between the end
of saving time and its next beginning. -/
theorem ofSeasons_alternates_same (standardOffset month : Int) :
    (ofSeasons standardOffset month month).Alternates := by
  refine Tail.alternates_of_between 0 fun year => ?_
  have hnext := (firstOf month).localMillis_succ year
  rw [add_zero, (ofSeasons_occurrence _ _ _ year).1, (ofSeasons_occurrence _ _ _ year).2,
    (ofSeasons_occurrence _ _ _ (year + 1)).1]
  simp only [Instant.millisPerDay_eq] at hnext
  omega

theorem ofSeasons_occurrence_ne_earliest (side : Side) (year : Int) :
    (ofSeasons 0 10 3).occurrence side year ≠ Instant.earliest := by
  have hstandard := firstOf_localMillis (show (3 : Int) ≤ 10 by decide) (by decide) year
  have hsaving := firstOf_localMillis (show (3 : Int) ≤ 3 by decide) (by decide) year
  cases side with
  | starting =>
    rw [(ofSeasons_occurrence 0 10 3 year).1, Instant.earliest]
    omega
  | ending =>
    rw [(ofSeasons_occurrence 0 10 3 year).2, Instant.earliest]
    omega

end Tail

end CivilTime
