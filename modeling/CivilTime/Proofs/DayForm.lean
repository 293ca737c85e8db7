import CivilTime.Proofs.SearchProgress
import CivilTime.Proofs.Text

/-!
The forms of a day. A day field is read exactly if it is spelled in one of four forms: a number, the
last weekday of the month, or a weekday on or after, or on or before, a number. The number may be
any integer, and nothing checks it against the days of a month; so a point that is read has all its
fields in range exactly if the number has been written in range.
-/

namespace CivilTime

/-- A day of a common year, and so of every year. -/
structure Calendar.InCommonYear (month day : Int) : Prop where
  first_month : 1 ≤ month
  last_month : month ≤ 12
  first_day : 1 ≤ day
  last_day : day ≤ daysInMonth 2001 month

namespace Source

inductive DayForm where
  | number (day : Int)
  | last (weekday : Int)
  | onOrAfter (weekday day : Int)
  | onOrBefore (weekday day : Int)

namespace DayForm

def field : DayForm → DayField
  | number day => { day }
  | last weekday => { day := DayField.lastDay, weekday }
  | onOrAfter weekday day => { day, weekday, advance := true }
  | onOrBefore weekday day => { day, weekday }

/-- The texts for a form. Weekdays may be cut short and `last` may be in capitals; only a number
that stands alone is held to be of digits, so the others may have a sign. -/
inductive Spells : DayForm → String → Prop where
  | number {text : String} {day : Int} (filled : text ≠ "")
      (digits : ∀ c ∈ text.toList, Text.isDigitLike c = true)
      (value : Field.integer text = .ok day) : Spells (.number day) text
  | last {word name : String} {weekday : Int} (lower : Text.lower word = "last")
      (named : Field.weekday name = .ok weekday) : Spells (.last weekday) (word ++ name)
  | onOrAfter {name number : String} {weekday day : Int} (named : Field.weekday name = .ok weekday)
      (value : Field.integer number = .ok day) :
      Spells (.onOrAfter weekday day) (name ++ ">=" ++ number)
  | onOrBefore {name number : String} {weekday day : Int} (named : Field.weekday name = .ok weekday)
      (value : Field.integer number = .ok day) :
      Spells (.onOrBefore weekday day) (name ++ "<=" ++ number)

end DayForm

theorem Field.number_eq_ok {fault : Fault} {read : Except Text.Overlong (Option Int)} {n : Int}
    (h : number fault read = .ok n) : read = .ok (some n) := by
  rcases read with overlong | _ | value
  · cases h
  · cases h
  · cases h
    rfl

theorem Field.integer?_of_integer {text : String} {n : Int} (h : integer text = .ok n) :
    Text.integer? text = some n :=
  Text.readInteger_eq_ok (number_eq_ok h)

theorem Field.exists_form_of_weekday {name : String} {weekday : Int}
    (h : Field.weekday name = .ok weekday) :
    ∃ keyword ∈ Keyword.weekdays, Text.lower name ∈ keyword.forms := by
  rw [Field.weekday, Keyword.position?] at h
  cases hfound : Keyword.weekdays.findIdx? fun keyword => keyword.accepts (Text.lower name) with
  | none => simp [hfound] at h
  | some index =>
    obtain ⟨hlt, haccepts, -⟩ := List.findIdx?_eq_some_iff_getElem.mp hfound
    exact ⟨_, List.getElem_mem hlt, List.contains_iff_mem.mp haccepts⟩

structure Field.Plain (name : String) : Prop where
  filled : name ≠ ""
  greater : '>' ∉ name.toList
  less : '<' ∉ name.toList
  head : ¬ "l".toList <+: (Text.lower name).toList

theorem Field.weekday_plain {name : String} {weekday : Int} (h : Field.weekday name = .ok weekday) :
    Field.Plain name := by
  obtain ⟨keyword, hkeyword, hform⟩ := exists_form_of_weekday h
  have hforms : ∀ keyword ∈ Keyword.weekdays, ∀ form ∈ keyword.forms,
      form ≠ "" ∧ '>' ∉ form.toList ∧ '<' ∉ form.toList ∧ ¬ "l".toList.isPrefixOf form.toList := by
    decide +kernel
  obtain ⟨hfilled, hgreater, hless, hhead⟩ := hforms keyword hkeyword _ hform
  refine ⟨?_, ?_, ?_, ?_⟩
  · rintro rfl
    exact hfilled rfl
  · intro hmem
    exact hgreater (Text.mem_lower (fun _ _ => rfl) hmem)
  · intro hmem
    exact hless (Text.mem_lower (fun _ _ => rfl) hmem)
  · intro hbegins
    exact hhead (List.isPrefixOf_iff_prefix.mpr hbegins)

theorem Field.not_mem_of_integer {text : String} {n : Int} (h : integer text = .ok n) {c : Char}
    (hblank : Text.isIntegerBlank c = false) (hdigit : Text.isDecimal c = false)
    (hsign : c ≠ '-' ∧ c ≠ '+' ∧ c ≠ '_') : c ∉ text.toList := by
  intro hmem
  have hcases := Text.mem_of_integer? (integer?_of_integer h) hmem
  simp [hblank, hdigit, hsign] at hcases

namespace DayField

open Bytes (bind_eq_ok)

theorem relative?_eq_none {sign text : String} {p : Char} {pattern : List Char}
    (hsign : sign.toList = p :: pattern) (hnone : p ∉ text.toList) (advance : Bool) :
    relative? sign advance text = none := by
  rw [relative?, hsign, Text.splitAtFirst?_eq_none hnone]

theorem relative?_append {sign name number : String} {p : Char} {pattern : List Char}
    (hsign : sign.toList = p :: pattern) (hfilled : name ≠ "") (hnone : p ∉ name.toList)
    (advance : Bool) {weekday day : Int} (hweekday : Field.weekday name = .ok weekday)
    (hday : Field.integer number = .ok day) :
    relative? sign advance (name ++ sign ++ number) = some (.ok { day, weekday, advance }) := by
  rw [relative?, String.toList_append, String.toList_append, hsign,
    Text.splitAtFirst?_append hnone]
  cases hcs : name.toList with
  | nil => exact absurd (String.toList_eq_nil_iff.mp hcs) hfilled
  | cons c cs =>
    have hname : String.ofList (c :: cs) = name := by rw [← hcs, String.ofList_toList]
    simp only [hname, String.ofList_toList, hday, hweekday]
    rfl

theorem relative?_eq_ok {sign text : String} {advance : Bool} {field : DayField}
    (h : relative? sign advance text = some (.ok field)) :
    ∃ name number, text = name ++ sign ++ number ∧ Field.weekday name = .ok field.weekday ∧
      Field.integer number = .ok field.day ∧ field.advance = advance := by
  rw [relative?] at h
  split at h
  · cases h
  · cases h
  · next name number _ hsplit =>
    obtain ⟨day, hday, h⟩ := bind_eq_ok.mp (Option.some.inj h)
    obtain ⟨weekday, hweekday, h⟩ := bind_eq_ok.mp h
    obtain rfl := Except.ok.inj h
    refine ⟨String.ofList name, String.ofList number, ?_, hweekday, hday, rfl⟩
    apply String.toList_inj.mp
    simp [Text.splitAtFirst?_eq_some hsplit]

theorem lastWord_ascii : ∀ d ∈ "last".toList, d.toNat < 128 ∧ d ≠ 'i' := by
  simp

/-- A text that begins with the name of a weekday does not begin with `last`. -/
theorem not_last_of_plain {name : String} (h : Field.Plain name) (more : String) :
    ¬ "last".toList <+: (Text.lower (name ++ more)).toList := by
  intro hlast
  have hletter : ∀ d ∈ "l".toList, d.toNat < 128 ∧ d ≠ 'i' := by simp
  have hbegins : "l".toList <+: (Text.lower (name ++ more)).toList :=
    (List.prefix_append "l".toList "ast".toList).trans hlast
  obtain ⟨start, rest, htext, hlower⟩ := (Text.isPrefix_lower_iff hletter).mp hbegins
  have hshort : start.toList.length ≤ name.toList.length := by
    rw [Text.length_eq_of_lower hletter hlower]
    have hpos := List.length_pos_of_ne_nil fun hnil => h.filled (String.toList_eq_nil_iff.mp hnil)
    exact hpos
  have hstart : start.toList <+: (name ++ more).toList := by
    rw [htext, String.toList_append]
    exact List.prefix_append _ _
  have hname : name.toList <+: (name ++ more).toList := by
    rw [String.toList_append]
    exact List.prefix_append _ _
  obtain ⟨others, hothers⟩ := List.prefix_of_prefix_length_le hstart hname hshort
  apply h.head
  refine (Text.isPrefix_lower_iff hletter).mpr ⟨start, String.ofList others, ?_, hlower⟩
  apply String.toList_inj.mp
  simp [← hothers]

theorem not_digits_of_mem {text : String} {c : Char} (hc : c ∈ text.toList)
    (hdigit : Text.isDigitLike c = false) :
    ¬ (!text.toList.isEmpty && text.toList.all Text.isDigitLike) = true := by
  intro hall
  rw [Bool.and_eq_true, List.all_eq_true] at hall
  have hlike := hall.2 c hc
  rw [hdigit] at hlike
  cases hlike

/-- No digit has a small letter that begins the word `last`. -/
theorem not_digits_of_last {word name : String} (h : Text.lower word = "last") :
    ¬ (!(word ++ name).toList.isEmpty && (word ++ name).toList.all Text.isDigitLike) = true := by
  have hascii : ∀ n < 128, (Char.ofNat n).toLower = 'l' →
      Text.isDigitLike (Char.ofNat n) = false := by
    decide +kernel
  have hwhole : "last".toList <+: Text.lowerOnto [] [] word.toList := by
    rw [← Text.toList_lower, h]
  obtain ⟨start, rest, hword, -, hsmall⟩ := Text.exists_ordinary_start lastWord_ascii hwhole
  cases start with
  | nil => cases hsmall
  | cons c start =>
    obtain ⟨hsmaller, hlower⟩ := Text.toLower_of_smallLetter (List.cons.inj hsmall).1
      (by decide) (by decide) (by decide)
    apply not_digits_of_mem (c := c)
    · simp [hword]
    · have hdigit := hascii c.toNat hsmaller
      rw [Char.ofNat_toNat] at hdigit
      exact hdigit hlower

/-- A comparison is read as what its sign says, whatever the reader tries before. -/
theorem read_of_relative? {name more : String} (h : Field.Plain name) {c : Char}
    (hc : c ∈ (name ++ more).toList) (hdigit : Text.isDigitLike c = false) :
    read (name ++ more) =
      (relative? ">=" true (name ++ more)).getD
        ((relative? "<=" false (name ++ more)).getD (.error (.malformedDay (name ++ more)))) := by
  have hlast : ¬ "last".toList.isPrefixOf (Text.lower (name ++ more)).toList = true := by
    rw [List.isPrefixOf_iff_prefix]
    exact not_last_of_plain h more
  rw [read, if_neg (not_digits_of_mem hc hdigit), if_neg hlast]
  cases relative? ">=" true (name ++ more) with
  | some result => rfl
  | none =>
    cases relative? "<=" false (name ++ more) with
    | some result => rfl
    | none => rfl

theorem read_of_spells {form : DayForm} {text : String} (h : form.Spells text) :
    read text = .ok form.field := by
  cases h with
  | number filled digits value =>
    have hdigits : (!text.toList.isEmpty && text.toList.all Text.isDigitLike) = true := by
      simpa [filled] using digits
    rw [read, if_pos hdigits, value]
    rfl
  | @last word name weekday lower named =>
    have hlast : "last".toList.isPrefixOf (Text.lower (word ++ name)).toList = true := by
      rw [List.isPrefixOf_iff_prefix, Text.isPrefix_lower_iff lastWord_ascii]
      exact ⟨word, name, rfl, lower⟩
    have hlength : word.toList.length = 4 := Text.length_eq_of_lower lastWord_ascii lower
    have hname : String.ofList ((word ++ name).toList.drop 4) = name := by
      rw [String.toList_append, ← hlength, List.drop_left, String.ofList_toList]
    rw [read, if_neg (not_digits_of_last lower), if_pos hlast, hname, named]
    rfl
  | @onOrAfter name number weekday day named value =>
    have hplain := Field.weekday_plain named
    have hfound : relative? ">=" true (name ++ ">=" ++ number) =
        some (.ok { day, weekday, advance := true }) :=
      relative?_append rfl hplain.filled hplain.greater true named value
    rw [String.append_assoc] at hfound ⊢
    rw [read_of_relative? (c := '>') hplain (by simp) rfl, hfound]
    rfl
  | @onOrBefore name number weekday day named value =>
    have hplain := Field.weekday_plain named
    have hfound : relative? "<=" false (name ++ "<=" ++ number) =
        some (.ok { day, weekday, advance := false }) :=
      relative?_append rfl hplain.filled hplain.less false named value
    have hnumber : '>' ∉ number.toList := Field.not_mem_of_integer value rfl rfl (by decide)
    have hnone : relative? ">=" true (name ++ "<=" ++ number) = none := by
      apply relative?_eq_none (p := '>') rfl
      simp [hplain.greater, hnumber]
    rw [String.append_assoc] at hfound hnone ⊢
    rw [read_of_relative? (c := '<') hplain (by simp) rfl, hnone, hfound]
    rfl

theorem exists_form_of_read {text : String} {field : DayField} (h : read text = .ok field) :
    ∃ form : DayForm, form.Spells text ∧ form.field = field := by
  rw [read] at h
  split_ifs at h with hdigits hlast
  · obtain ⟨day, hday, h⟩ := bind_eq_ok.mp h
    obtain rfl := Except.ok.inj h
    have hall : text ≠ "" ∧ ∀ c ∈ text.toList, Text.isDigitLike c = true := by
      simpa using hdigits
    exact ⟨.number day, .number hall.1 hall.2 hday, rfl⟩
  · obtain ⟨weekday, hweekday, h⟩ := bind_eq_ok.mp h
    obtain rfl := Except.ok.inj h
    rw [List.isPrefixOf_iff_prefix, Text.isPrefix_lower_iff lastWord_ascii] at hlast
    obtain ⟨word, name, rfl, hlower⟩ := hlast
    have hlength : word.toList.length = 4 := Text.length_eq_of_lower lastWord_ascii hlower
    rw [String.toList_append, ← hlength, List.drop_left, String.ofList_toList] at hweekday
    exact ⟨.last weekday, .last hlower hweekday, rfl⟩
  · cases hafter : relative? ">=" true text with
    | some result =>
      rw [hafter] at h
      obtain rfl : result = .ok field := h
      obtain ⟨name, number, rfl, hweekday, hday, hadvance⟩ := relative?_eq_ok hafter
      refine ⟨.onOrAfter field.weekday field.day, .onOrAfter hweekday hday, ?_⟩
      rw [DayForm.field, ← hadvance]
    | none =>
      rw [hafter] at h
      cases hbefore : relative? "<=" false text with
      | some result =>
        rw [hbefore] at h
        obtain rfl : result = .ok field := h
        obtain ⟨name, number, rfl, hweekday, hday, hadvance⟩ := relative?_eq_ok hbefore
        refine ⟨.onOrBefore field.weekday field.day, .onOrBefore hweekday hday, ?_⟩
        rw [DayForm.field, ← hadvance]
      | none => simp [hbefore] at h

/-- Only one reading of a text counts. -/
theorem forall_spells_iff {text : String} {field : DayField} (h : read text = .ok field)
    (P : DayField → Prop) : (∀ form : DayForm, form.Spells text → P form.field) ↔ P field := by
  constructor
  · intro hall
    obtain ⟨form, hspells, rfl⟩ := exists_form_of_read h
    exact hall form hspells
  · intro hfield form hspells
    obtain rfl := Except.ok.inj (h.symm.trans (read_of_spells hspells))
    exact hfield

/-- The number of a day in some month, or the mark of the last one. -/
def IsDay (day : Int) : Prop := day = -1 ∨ (1 ≤ day ∧ day ≤ 31)

structure Rooted (weekday : Int) (advance : Bool) (day : Int) : Prop where
  advance : advance = true → weekday ≠ 0
  last : day = -1 → weekday ≠ 0

theorem isDay_first : IsDay 1 := Or.inr (by decide)

theorem read_rooted {text : String} {field : DayField} (h : read text = .ok field) :
    Rooted field.weekday field.advance field.day := by
  obtain ⟨form, hspells, rfl⟩ := exists_form_of_read h
  cases hspells with
  | @number text day filled digits value =>
    have hsign : '-' ∉ text.toList := fun hmem => absurd (digits '-' hmem) (by decide)
    have hnonneg := Text.integer?_nonneg (Field.integer?_of_integer value) hsign
    constructor
    · intro hadvance
      cases hadvance
    · intro hlast
      have hnegative : day = -1 := hlast
      omega
  | last lower named =>
    have hweekday := (Field.weekday_bounds named).1
    constructor
    · intro hadvance
      cases hadvance
    · intro _
      exact (zero_lt_one.trans_le hweekday).ne'
  | onOrAfter named value =>
    have hweekday := (zero_lt_one.trans_le (Field.weekday_bounds named).1).ne'
    exact ⟨fun _ => hweekday, fun _ => hweekday⟩
  | onOrBefore named value =>
    have hweekday := (zero_lt_one.trans_le (Field.weekday_bounds named).1).ne'
    exact ⟨fun _ => hweekday, fun _ => hweekday⟩

end DayField

theorem Field.clock_cases (mark : String) :
    Field.clock mark = .wall ∨ Field.clock mark = .standard ∨ Field.clock mark = .universal := by
  rw [Field.clock]
  split_ifs <;> simp

namespace PointFields

open Bytes (bind_eq_ok)
open DayField (IsDay Rooted isDay_first)

def followingDay (month day : Int) : Int × Int :=
  if day < Calendar.daysInMonth 2001 month then (month, day + 1) else (month % 12 + 1, 1)

def followingWeekday (weekday : Int) : Int :=
  if weekday = 0 then 0 else weekday % 7 + 1

theorem followingWeekday_ne_zero {weekday : Int} (h : weekday ≠ 0) :
    followingWeekday weekday ≠ 0 := by
  rw [followingWeekday, if_neg h]
  omega

variable {month : Int} {field : DayField}

theorem endOfDay_last (h : field.day = DayField.lastDay) :
    endOfDay month field =
      .ok (month % 12 + 1, { day := 1, weekday := followingWeekday field.weekday }) := by
  rw [endOfDay, if_pos h]
  rfl

theorem endOfDay_inside (h : Calendar.InCommonYear month field.day) :
    endOfDay month field =
      .ok ((followingDay month field.day).1,
        { day := (followingDay month field.day).2
          weekday := followingWeekday field.weekday
          advance := field.weekday != 0 }) := by
  have hlength := Calendar.daysInMonth_le h.first_month h.last_month 2001
  obtain ⟨hlow, hhigh, hfirst, hlast⟩ := h
  have hmark : field.day ≠ DayField.lastDay := by
    rw [DayField.lastDay]
    omega
  have hafter : dayAfter month field.day = .ok (followingDay month field.day) := by
    rw [dayAfter, followingDay, if_neg (by omega), if_neg (by omega)]
    split_ifs <;> rfl
  rw [endOfDay, if_neg hmark, hafter]
  rfl

theorem inside_of_endOfDay (hlow : 1 ≤ month) (hhigh : month ≤ 12) {result : Int × DayField}
    (h : endOfDay month field = .ok result) :
    field.day = DayField.lastDay ∨ Calendar.InCommonYear month field.day := by
  by_cases hmark : field.day = DayField.lastDay
  · exact Or.inl hmark
  · rw [endOfDay, if_neg hmark] at h
    obtain ⟨next, hafter, -⟩ := bind_eq_ok.mp h
    rw [dayAfter] at hafter
    dsimp only at hafter
    split_ifs at hafter with hlarge houtside hbefore
    · exact Or.inr ⟨hlow, hhigh, by omega, by omega⟩
    · exact Or.inr ⟨hlow, hhigh, by omega, by omega⟩

/-- The midnight that ends a day is at the number of a day again, and at a weekday if there was
one. -/
theorem endOfDay_ranges (hlow : 1 ≤ month) (hhigh : month ≤ 12) {later : Int} {moved : DayField}
    (h : endOfDay month field = .ok (later, moved)) :
    IsDay field.day ∧ (1 ≤ moved.day ∧ moved.day ≤ 31) ∧
      (moved.advance = true → moved.weekday ≠ 0) := by
  have hlength := Calendar.daysInMonth_le hlow hhigh 2001
  rcases inside_of_endOfDay hlow hhigh h with hmark | hinside
  · rw [endOfDay_last hmark] at h
    obtain ⟨rfl, rfl⟩ := Prod.mk.inj (Except.ok.inj h)
    exact ⟨Or.inl hmark, by simp, by simp⟩
  · rw [endOfDay_inside hinside] at h
    obtain ⟨rfl, rfl⟩ := Prod.mk.inj (Except.ok.inj h)
    obtain ⟨-, -, hfirst, hlast⟩ := hinside
    refine ⟨Or.inr ⟨hfirst, hlast.trans hlength⟩, ?_, ?_⟩
    · dsimp only
      rw [followingDay]
      split_ifs
      · dsimp only
        omega
      · simp
    · intro hadvance
      exact followingWeekday_ne_zero (by simpa using hadvance)

theorem withTime_ranges (hlow : 1 ≤ month) (hhigh : month ≤ 12)
    (hrooted : Rooted field.weekday field.advance field.day) {text : String} {point : YearPoint}
    (h : withTime month field text = .ok point) :
    (∃ mark, point.clock = Field.clock mark) ∧
      Rooted point.weekday point.advance point.day ∧ (IsDay point.day ↔ IsDay field.day) := by
  rw [withTime] at h
  obtain ⟨⟨clock, time⟩, hsplit, h⟩ := bind_eq_ok.mp h
  have hclock : ∃ mark, clock = Field.clock mark := by
    rw [splitClock] at hsplit
    split at hsplit
    · cases hsplit
    · next last others _ =>
      exact ⟨String.ofList [last], (Prod.mk.inj (Except.ok.inj hsplit)).1.symm⟩
  dsimp only at h
  split_ifs at h
  · obtain rfl := Except.ok.inj h
    exact ⟨hclock, hrooted, Iff.rfl⟩
  · obtain ⟨⟨later, moved⟩, hend, h⟩ := bind_eq_ok.mp h
    obtain rfl := Except.ok.inj h
    obtain ⟨hday, hmoved, hadvance⟩ := endOfDay_ranges hlow hhigh hend
    refine ⟨hclock, ⟨hadvance, ?_⟩, iff_of_true (Or.inr hmoved) hday⟩
    intro hlast
    dsimp only at hlast
    omega
  · obtain ⟨millis, -, h⟩ := bind_eq_ok.mp h
    split_ifs at h with houtside
    obtain rfl := Except.ok.inj h
    exact ⟨hclock, hrooted, Iff.rfl⟩

/-- What is known of a point that has been read, and when its day is in range too: the month, the
weekday and the time are, the clock is one of the three, without a weekday nothing is advanced or
counted from the end of the month, and the first three fields are used up, or as many as there are.
The day is that of some month, or the mark of the last one, exactly if the day field says so. -/
theorem read_inRange_iff {fields left : List String} {point : YearPoint}
    (h : read fields = .ok (point, left)) :
    point.WellFormed ∧
      (point.clock = .wall ∨ point.clock = .standard ∨ point.clock = .universal) ∧
      (point.advance = true → point.weekday ≠ 0) ∧ (point.day = -1 → point.weekday ≠ 0) ∧
      left = fields.drop 3 ∧
      (point.InRange ↔ ∀ text ∈ fields[1]?, ∀ form : DayForm, form.Spells text →
        IsDay form.field.day) := by
  have hwellFormed := read_wellFormed h
  have hrange : point.InRange ↔ IsDay point.day := by
    constructor
    · intro hrange
      exact hrange.day
    · intro hday
      exact ⟨hwellFormed.month, hday, hwellFormed.weekday, hwellFormed.time⟩
  rw [hrange]
  refine ⟨hwellFormed, ?_⟩
  rw [read.eq_def] at h
  split at h
  · obtain ⟨rfl, rfl⟩ := Prod.mk.inj (Except.ok.inj h)
    exact ⟨Or.inl rfl, by simp [YearPoint.startOfYear], by simp [YearPoint.startOfYear], rfl,
      iff_of_true isDay_first (by simp)⟩
  · obtain ⟨month, -, h⟩ := bind_eq_ok.mp h
    obtain ⟨rfl, rfl⟩ := Prod.mk.inj (Except.ok.inj h)
    exact ⟨Or.inl rfl, by simp, by simp, rfl, iff_of_true isDay_first (by simp)⟩
  · obtain ⟨month, -, h⟩ := bind_eq_ok.mp h
    obtain ⟨field, hfield, h⟩ := bind_eq_ok.mp h
    obtain ⟨rfl, rfl⟩ := Prod.mk.inj (Except.ok.inj h)
    obtain ⟨hadvance, hlast⟩ := DayField.read_rooted hfield
    refine ⟨Or.inl rfl, hadvance, hlast, rfl, ?_⟩
    simp [DayField.forall_spells_iff hfield fun field => IsDay field.day]
  · obtain ⟨month, hmonth, h⟩ := bind_eq_ok.mp h
    obtain ⟨field, hfield, h⟩ := bind_eq_ok.mp h
    obtain ⟨timed, htimed, h⟩ := bind_eq_ok.mp h
    obtain ⟨rfl, rfl⟩ := Prod.mk.inj (Except.ok.inj h)
    obtain ⟨hlow, hhigh⟩ := Field.month_bounds hmonth
    obtain ⟨⟨mark, hclock⟩, ⟨hadvance, hlast⟩, hday⟩ :=
      withTime_ranges hlow hhigh (DayField.read_rooted hfield) htimed
    refine ⟨hclock ▸ Field.clock_cases mark, hadvance, hlast, rfl, ?_⟩
    simp [DayField.forall_spells_iff hfield fun field => IsDay field.day, hday]

/-- A weekday on or before the eighth, at a midnight that is moved to the ninth. -/
theorem read_inRange_in_march :
    let point : YearPoint := ⟨.standard, 3, 9, 7, true, 0⟩
    read ["Mar", "Sat<=8", "24:00s", "1:00", "D"] = .ok (point, ["1:00", "D"]) ∧
      (∀ form : DayForm, form.Spells "Sat<=8" → IsDay form.field.day) ∧ point.InRange := by
  intro point
  have hread : read ["Mar", "Sat<=8", "24:00s", "1:00", "D"] = .ok (point, ["1:00", "D"]) := by
    decide +kernel
  have hfield : DayField.read "Sat<=8" = .ok { day := 8, weekday := 6 } := by decide +kernel
  have hday := (DayField.forall_spells_iff hfield fun field => IsDay field.day).mpr
    (Or.inr (by decide))
  obtain ⟨-, -, -, -, -, hrange⟩ := read_inRange_iff hread
  exact ⟨hread, hday, hrange.mpr (by simpa using hday)⟩

/-- No month has these days, but they are read. -/
theorem read_leaves_range :
    (∃ point, read ["Jan", "99"] = .ok (point, []) ∧ point.day = 99 ∧ ¬ point.InRange) ∧
      ∃ point, read ["Jan", "Sun>=-5", "2:00"] = .ok (point, []) ∧ point.day = -5 ∧
        ¬ point.InRange := by
  constructor
  · refine ⟨{ day := 99 }, by decide +kernel, rfl, fun hrange => ?_⟩
    exact absurd hrange.day (by decide)
  · refine ⟨⟨.wall, 1, -5, 7, true, 7200000⟩, by decide +kernel, rfl, fun hrange => ?_⟩
    exact absurd hrange.day (by decide)

end PointFields

end Source

end CivilTime
