import CivilTime.Proofs.Entries

/-!
The faults of a line and their reports. A faulty line ends the reading of its file and is reported
by its number, with one exception: midnight at the end of a day whose number does not fit into 32
bits ends the reading without a report. `Diagnosed` follows the readers of the fields and says
exactly when that happens; no other fault goes without a report.
-/

namespace CivilTime.Source

def Fault.OfText : Fault → Prop
  | .dayTooLarge | .emptyTime | .unnamedZone | .ruleNameMismatch _ _ => False
  | .malformedInteger _ | .overlong _ | .malformedDuration _ | .unknownMonth _ | .unknownWeekday _
  | .malformedDay _ | .unsupportedTime _ | .dayOutsideMonth | .incompleteRule | .incompleteZone
  | .incompleteLink | .reversedYears _ _ _ | .missingSave _ => True

theorem Fault.OfText.isReported {fault : Fault} (h : fault.OfText) : fault.isReported = true := by
  cases fault <;> first | rfl | exact h.elim

/-- What is read is refused for an oversized day exactly under a condition, and otherwise only for
a fault of a text. -/
structure Diagnosed {α : Type} (result : Except Fault α) (Oversized : Prop) : Prop where
  refused : Oversized → result = .error .dayTooLarge
  others : ∀ fault, result = .error fault → fault.OfText ∨ (fault = .dayTooLarge ∧ Oversized)

namespace Diagnosed

variable {α β : Type} {Oversized : Prop}

theorem ok (a : α) : Diagnosed (.ok a) False := by
  constructor
  · exact False.elim
  · intro fault h
    cases h

theorem error {fault : Fault} (h : fault.OfText) : Diagnosed (α := α) (.error fault) False := by
  constructor
  · exact False.elim
  · intro found hfound
    cases hfound
    exact Or.inl h

theorem congr {result : Except Fault α} {Same : Prop} (h : Diagnosed result Oversized)
    (hsame : Same ↔ Oversized) : Diagnosed result Same := by
  rwa [propext hsame]

theorem never {result : Except Fault α} (h : Diagnosed result False) (hnever : ¬Oversized) :
    Diagnosed result Oversized :=
  h.congr (iff_false_intro hnever)

/-- The first step may be refused, or the second on what the first has read. -/
theorem bind {first : Except Fault α} {next : α → Except Fault β} {Later : α → Prop}
    (h : Diagnosed first Oversized)
    (hnext : ∀ a, first = .ok a → Diagnosed (next a) (Later a)) :
    Diagnosed (first >>= next) (Oversized ∨ ∃ a, first = .ok a ∧ Later a) := by
  cases hfirst : first with
  | error fault =>
    subst hfirst
    constructor
    · rintro (hover | ⟨a, ha, -⟩)
      · exact congrArg (· >>= next) (h.refused hover)
      · cases ha
    · intro found hfound
      cases hfound
      exact (h.others fault rfl).imp_right fun hover => ⟨hover.1, Or.inl hover.2⟩
  | ok a =>
    subst hfirst
    have hthen := hnext a rfl
    constructor
    · rintro (hover | ⟨b, hb, hover⟩)
      · cases h.refused hover
      · cases hb
        exact hthen.refused hover
    · intro found hfound
      exact (hthen.others found hfound).imp_right fun hover => ⟨hover.1, Or.inr ⟨a, rfl, hover.2⟩⟩

/-- The first step is not refused for an oversized day. -/
theorem after {first : Except Fault α} {next : α → Except Fault β} {Later : α → Prop}
    (h : Diagnosed first False) (hnext : ∀ a, first = .ok a → Diagnosed (next a) (Later a)) :
    Diagnosed (first >>= next) (∃ a, first = .ok a ∧ Later a) :=
  (h.bind hnext).congr (by simp)

/-- The second step is not refused for an oversized day. -/
theorem before {first : Except Fault α} {next : α → Except Fault β}
    (h : Diagnosed first Oversized) (hnext : ∀ a, Diagnosed (next a) False) :
    Diagnosed (first >>= next) Oversized :=
  (h.bind fun a _ => hnext a).congr (by simp)

theorem map {result : Except Fault α} (h : Diagnosed result Oversized) (f : α → β) :
    Diagnosed (result.map f) Oversized := by
  cases result with
  | ok a =>
    constructor
    · intro hover
      cases h.refused hover
    · intro fault hfault
      cases hfault
  | error fault =>
    constructor
    · intro hover
      cases h.refused hover
      rfl
    · intro found hfound
      cases hfound
      exact h.others fault rfl

/-- What is computed from the result is not refused. -/
theorem pure {result : Except Fault α} (h : Diagnosed result Oversized) (f : α → β) :
    Diagnosed (do return f (← result)) Oversized :=
  h.before fun a => ok (f a)

end Diagnosed

namespace Field

theorem number_diagnosed (fault : Fault) (h : fault.OfText)
    (read : Except Text.Overlong (Option Int)) : Diagnosed (number fault read) False := by
  rcases read with overlong | _ | n
  · exact .error trivial
  · exact .error h
  · exact .ok n

theorem integer_diagnosed (text : String) : Diagnosed (integer text) False :=
  number_diagnosed (.malformedInteger text) trivial _

theorem year_diagnosed (text : String) (same : Int) : Diagnosed (year text same) False := by
  unfold year
  extract_lets word
  split_ifs
  · exact .ok _
  · exact .ok _
  · exact .ok _
  · exact integer_diagnosed text

theorem month_diagnosed (text : String) : Diagnosed (month text) False := by
  unfold month
  cases Keyword.position? Keyword.months text with
  | some n => exact .ok n
  | none => exact .error trivial

theorem weekday_diagnosed (text : String) : Diagnosed (weekday text) False := by
  unfold weekday
  cases Keyword.position? Keyword.weekdays text with
  | some n => exact .ok n
  | none => exact .error trivial

theorem duration_diagnosed (text : String) : Diagnosed (duration text) False :=
  number_diagnosed (.malformedDuration text) trivial _

end Field

namespace DayField

theorem relative?_diagnosed {sign text : String} {advance : Bool}
    {result : Except Fault DayField} (h : relative? sign advance text = some result) :
    Diagnosed result False := by
  unfold relative? at h
  split at h
  · cases h
  · cases h
  · cases h
    exact (Field.integer_diagnosed _).before fun day => (Field.weekday_diagnosed _).pure _

theorem read_diagnosed (text : String) : Diagnosed (read text) False := by
  unfold read
  extract_lets cs
  split_ifs
  · exact (Field.integer_diagnosed text).pure _
  · exact (Field.weekday_diagnosed _).pure _
  · cases hafter : relative? ">=" true text with
    | some result => exact relative?_diagnosed hafter
    | none =>
      cases hbefore : relative? "<=" false text with
      | some result => exact relative?_diagnosed hbefore
      | none => exact .error trivial

end DayField

namespace PointFields

def IsOversized (day : Int) : Prop := day < -2147483648 ∨ 2147483648 ≤ day

theorem dayAfter_diagnosed (month day : Int) :
    Diagnosed (dayAfter month day) (IsOversized day) := by
  unfold dayAfter IsOversized
  by_cases hover : day < -2147483648 ∨ 2147483648 ≤ day
  · rw [if_pos hover]
    constructor
    · intro _
      rfl
    · intro fault hfault
      cases hfault
      exact Or.inr ⟨rfl, hover⟩
  · rw [if_neg hover]
    simp only [hover]
    split_ifs
    · exact .error trivial
    · exact .ok _
    · exact .ok _

theorem endOfDay_diagnosed (month : Int) (field : DayField) :
    Diagnosed (endOfDay month field) (IsOversized field.day) := by
  unfold endOfDay
  extract_lets weekday
  by_cases hlast : field.day = DayField.lastDay
  · rw [if_pos hlast]
    apply (Diagnosed.ok _).congr
    rw [hlast, IsOversized]
    decide
  · rw [if_neg hlast]
    exact (dayAfter_diagnosed month field.day).pure _

theorem splitClock_diagnosed {text : String} (h : text ≠ "") :
    Diagnosed (splitClock text) False := by
  unfold splitClock
  split
  · next hnil =>
    have hempty : text.toList = [] := List.reverse_eq_nil_iff.mp hnil
    exact absurd (String.toList_eq_nil_iff.mp hempty) h
  · exact .ok _

theorem withTime_diagnosed (month : Int) (field : DayField) {text : String} (h : text ≠ "") :
    Diagnosed (withTime month field text)
      ((∃ clock, splitClock text = .ok (clock, "24:00")) ∧ IsOversized field.day) := by
  have hsplit : Diagnosed (withTime month field text)
      (∃ result, splitClock text = .ok result ∧ result.2 = "24:00" ∧ IsOversized field.day) := by
    unfold withTime
    apply (splitClock_diagnosed h).after
    rintro ⟨clock, time⟩ -
    by_cases hmidnight : time = "24:00"
    · simp only [hmidnight, if_true, true_and]
      by_cases hend : month = 12 ∧ field.day = 31
      · rw [if_pos hend]
        apply (Diagnosed.ok _).congr
        rw [hend.2, IsOversized]
        decide
      · rw [if_neg hend]
        exact (endOfDay_diagnosed month field).pure _
    · simp only [hmidnight, if_false, false_and]
      apply (Field.duration_diagnosed time).before
      intro millis
      split_ifs
      · exact .error trivial
      · exact .ok _
  apply hsplit.congr
  constructor
  · rintro ⟨⟨clock, hclock⟩, hover⟩
    exact ⟨(clock, "24:00"), hclock, rfl, hover⟩
  · rintro ⟨⟨clock, time⟩, hclock, rfl, hover⟩
    exact ⟨⟨clock, hclock⟩, hover⟩

/-- The fields of a point put it to midnight at the end of an oversized day. -/
def OversizedDay : List String → Prop
  | month :: day :: time :: _ =>
    ∃ n, Field.month month = .ok n ∧ ∃ field, DayField.read day = .ok field ∧
      (∃ clock, splitClock time = .ok (clock, "24:00")) ∧ IsOversized field.day
  | [] | [_] | [_, _] => False

theorem OversizedDay.length {fields : List String} (h : OversizedDay fields) :
    3 ≤ fields.length := by
  match fields with
  | [] | [_] | [_, _] => exact h.elim
  | _ :: _ :: _ :: rest => simp

theorem read_diagnosed {fields : List String} (h : ∀ field ∈ fields, field ≠ "") :
    Diagnosed (read fields) (OversizedDay fields) := by
  unfold read
  split
  · exact .ok _
  · exact (Field.month_diagnosed _).pure _
  · exact (Field.month_diagnosed _).before fun month => (DayField.read_diagnosed _).pure _
  · next month day time rest =>
    have htime : time ≠ "" := h time (by simp)
    apply (Field.month_diagnosed month).after
    intro n _
    apply (DayField.read_diagnosed day).after
    intro field _
    exact (withTime_diagnosed n field htime).pure _

end PointFields

def Rule.OversizedDay : List String → Prop
  | _ :: fromYear :: toYear :: _ :: rest =>
    ∃ first, Field.year fromYear 0 = .ok first ∧ ∃ last, Field.year toYear first = .ok last ∧
      first ≤ last ∧ PointFields.OversizedDay rest
  | [] | [_] | [_, _] | [_, _, _] => False

theorem Rule.read_diagnosed {fields : List String} (h : ∀ field ∈ fields, field ≠ "") :
    Diagnosed (read fields) (OversizedDay fields) := by
  unfold read
  split
  · next name fromYear toYear type rest =>
    have hrest : ∀ field ∈ rest, field ≠ "" := by
      intro field hfield
      exact h field (by simp [hfield])
    by_cases hfew : rest.length < 2
    · have hnever : ¬OversizedDay (name :: fromYear :: toYear :: type :: rest) := by
        rintro ⟨_, _, _, _, _, hover⟩
        have hlength := hover.length
        omega
      simp only [hfew, if_true]
      exact .never (.error trivial) hnever
    · simp only [hfew, if_false]
      apply (Field.year_diagnosed fromYear 0).after
      intro first _
      apply (Field.year_diagnosed toYear first).after
      intro last _
      by_cases hyears : last < first
      · simp only [hyears, if_true]
        exact .never (.error trivial) fun hover => by omega
      · simp only [hyears, if_false]
        have hinOrder : first ≤ last := by omega
        simp only [hinOrder, true_and]
        apply (PointFields.read_diagnosed hrest).before
        rintro ⟨point, left⟩
        dsimp only
        split
        · exact (Field.duration_diagnosed _).pure _
        · exact .error trivial
  · next hshort =>
    have hnever : ¬OversizedDay fields := by
      match fields with
      | [] | [_] | [_, _] | [_, _, _] => exact id
      | name :: fromYear :: toYear :: type :: rest =>
        exact absurd rfl (hshort name fromYear toYear type rest)
    exact .never (.error trivial) hnever

def Stretch.OversizedDay : List String → Prop
  | offset :: _ :: _ :: year :: rest =>
    ∃ millis, Field.duration offset = .ok millis ∧ ∃ n, Field.integer year = .ok n ∧
      PointFields.OversizedDay rest
  | [] | [_] | [_, _] | [_, _, _] => False

theorem Stretch.read_diagnosed {fields : List String} (h : ∀ field ∈ fields, field ≠ "") :
    Diagnosed (read fields) (OversizedDay fields) := by
  match fields with
  | [] | [_] | [_, _] => exact .error trivial
  | [offset, savings, format] => exact (Field.duration_diagnosed offset).pure _
  | offset :: savings :: format :: year :: rest =>
    have hrest : ∀ field ∈ rest, field ≠ "" := by
      intro field hfield
      exact h field (by simp [hfield])
    apply (Field.duration_diagnosed offset).after
    intro millis _
    apply (Field.integer_diagnosed year).after
    intro n _
    exact (PointFields.read_diagnosed hrest).pure _

theorem Stretch.OversizedDay.length {fields : List String} (h : OversizedDay fields) :
    4 ≤ fields.length := by
  match fields with
  | [] | [_] | [_, _] | [_, _, _] => exact h.elim
  | _ :: _ :: _ :: _ :: rest => simp

theorem Zone.read_diagnosed (name : String) {fields : List String}
    (h : ∀ field ∈ fields, field ≠ "") :
    Diagnosed (read (name :: fields)) (Stretch.OversizedDay fields) :=
  (Stretch.read_diagnosed h).pure _

namespace Record

def OversizedDay (keyword : String) (fields : List String) : Prop :=
  if Keyword.rule.accepts (Text.lower keyword) then Rule.OversizedDay fields
  else Keyword.zone.accepts (Text.lower keyword) = true ∧ Stretch.OversizedDay fields.tail

theorem read_diagnosed (keyword : String) {fields : List String}
    (h : ∀ field ∈ fields, field ≠ "") :
    Diagnosed (read keyword fields) (OversizedDay keyword fields) := by
  unfold read OversizedDay
  dsimp only
  split_ifs with hrule hzone hfew hlink
  · exact (Rule.read_diagnosed h).map _
  · simp only [hzone, true_and]
    have hnever : ¬Stretch.OversizedDay fields.tail := by
      intro hover
      have hlength := hover.length
      rw [List.length_tail] at hlength
      omega
    exact .never (.error trivial) hnever
  · simp only [hzone, true_and]
    cases fields with
    | nil => exact absurd (Nat.zero_lt_succ 3) hfew
    | cons name fields =>
      have hfields : ∀ field ∈ fields, field ≠ "" := by
        intro field hfield
        exact h field (List.mem_cons_of_mem name hfield)
      exact (Zone.read_diagnosed name hfields).map _
  · simp only [hzone, Bool.false_eq_true, false_and]
    split
    · exact .ok _
    · exact .error trivial
  · simp only [hzone, Bool.false_eq_true, false_and]
    exact .ok _

end Record

namespace Line

def words : Line → List String
  | .blank | .wordless => []
  | .continuation fields => fields
  | .record keyword fields => keyword :: fields

theorem ne_empty_of_mem_words {text word : String} (h : word ∈ (read text).words) : word ≠ "" := by
  have hmem : word ∈ Text.words (content text.toList) := by
    rw [read_eq] at h
    cases hsilent : isSilent text with
    | true => simp [hsilent, words] at h
    | false =>
      cases hwords : Text.words (content text.toList) with
      | nil => simp [hsilent, hwords, words] at h
      | cons keyword fields =>
        cases hindent : isIndented (content text.toList) <;>
          simpa [hsilent, hwords, hindent, words] using h
  exact Text.ne_empty_of_mem_words hmem

/-- A line with an oversized day. A continuation line is looked at only if a zone is open. -/
def OversizedDay (isOpen : Bool) (text : String) : Prop :=
  match read text with
  | .blank | .wordless => False
  | .continuation fields => isOpen = true ∧ Stretch.OversizedDay fields
  | .record keyword fields => Record.OversizedDay keyword fields

theorem continuation_diagnosed {text : String} {fields : List String}
    (h : read text = .continuation fields) :
    Diagnosed ((Stretch.read fields).map Prod.fst) (Stretch.OversizedDay fields) := by
  apply (Stretch.read_diagnosed _).map
  intro field hfield
  have hmem : field ∈ (read text).words := by rwa [h]
  exact ne_empty_of_mem_words hmem

theorem record_diagnosed {text keyword : String} {fields : List String}
    (h : read text = .record keyword fields) :
    Diagnosed (Record.read keyword fields) (Record.OversizedDay keyword fields) := by
  apply Record.read_diagnosed
  intro field hfield
  have hmem : field ∈ (read text).words := by
    rw [h]
    exact List.mem_cons_of_mem keyword hfield
  exact ne_empty_of_mem_words hmem

/-- A line with an oversized day is refused for it. -/
theorem fault?_of_oversizedDay {isOpen : Bool} {text : String} (h : OversizedDay isOpen text) :
    (entry text).fault? isOpen = some .dayTooLarge := by
  unfold OversizedDay at h
  unfold entry
  cases hread : read text with
  | blank => simp [hread] at h
  | wordless => simp [hread] at h
  | continuation fields =>
    rw [hread] at h
    simp only [(continuation_diagnosed hread).refused h.2, Entry.fault?, h.1, if_true]
  | record keyword fields =>
    rw [hread] at h
    simp only [(record_diagnosed hread).refused h, Entry.fault?]

/-- A line without an oversized day is refused only for a fault of a text. -/
theorem cases_of_fault? {isOpen : Bool} {text : String} {fault : Fault}
    (h : (entry text).fault? isOpen = some fault) :
    fault.OfText ∨ (fault = .dayTooLarge ∧ OversizedDay isOpen text) := by
  unfold OversizedDay
  unfold entry at h
  cases hread : read text with
  | blank => simp [hread, Entry.fault?] at h
  | wordless => simp [hread, Entry.fault?] at h
  | continuation fields =>
    have hdiagnosed := continuation_diagnosed hread
    cases hstretch : (Stretch.read fields).map Prod.fst with
    | ok stretch => simp [hread, hstretch, Entry.fault?] at h
    | error found =>
      simp only [hread, hstretch, Entry.fault?, Option.ite_none_right_eq_some,
        Option.some.injEq] at h
      obtain ⟨hopen, rfl⟩ := h
      exact (hdiagnosed.others found hstretch).imp_right fun hover => ⟨hover.1, hopen, hover.2⟩
  | record keyword fields =>
    have hdiagnosed := record_diagnosed hread
    cases hrecord : Record.read keyword fields with
    | ok record => simp [hread, hrecord, Entry.fault?] at h
    | error found =>
      simp only [hread, hrecord, Entry.fault?, Option.some.injEq] at h
      subst h
      exact hdiagnosed.others found hrecord

end Line

namespace Reading

def errors (reading : Reading) : List Message :=
  reading.messages.filter fun message => message.level = .error

theorem Step.errors_eq {backward : Bool} {text : String} {reading next : Reading}
    (h : Step backward text reading next) (hnext : next.fault = none) :
    next.errors = reading.errors := by
  cases h with
  | nothing hentry => rfl
  | stray stretch hentry hopen => simp [errors, Message.debug]
  | continued zone stretch hentry hopen => rfl
  | broken zone fault hentry hopen => cases hnext
  | record record hentry => cases record <;> simp [errors, Database.addRecord, Message.warning]
  | faulty fault hentry => cases hnext

/-- A faulty line is reported by its number, if its fault is one that is reported. -/
theorem Step.errors_of_fault {backward : Bool} {text : String} {reading next : Reading}
    {fault : Fault} (h : Step backward text reading next) (hfault : reading.fault = none)
    (hnext : next.fault = some fault) :
    next.errors = reading.errors ++
      if fault.isReported then [report text (reading.lineCount + 1)] else [] := by
  cases h with
  | nothing hentry => cases hfault.symm.trans hnext
  | stray stretch hentry hopen => cases hfault.symm.trans hnext
  | continued zone stretch hentry hopen => cases hfault.symm.trans hnext
  | broken zone fault hentry hopen =>
    cases hnext
    cases fault.isReported <;> simp [errors, report, Message.error]
  | record record hentry => cases hfault.symm.trans hnext
  | faulty fault hentry =>
    cases hnext
    cases fault.isReported <;> simp [errors, report, Message.error]

/-- Lines that are read to their end are counted and report no error. -/
theorem Run.errors_eq {backward : Bool} {reading final : Reading} {read : List String}
    (h : Run backward reading read final) (hfinal : final.fault = none) :
    final.errors = reading.errors ∧ final.lineCount = reading.lineCount + read.length := by
  induction h with
  | done reading => exact ⟨rfl, rfl⟩
  | stop hstep hnext => exact absurd hfinal hnext
  | line hstep hnext hrest ih =>
    obtain ⟨herrors, hcount⟩ := ih hfinal
    rw [herrors, hcount, hstep.errors_eq hnext, hstep.lineCount_eq, List.length_cons]
    exact ⟨rfl, by omega⟩

end Reading

namespace Database

variable (database : Database) (backward : Bool)

theorem errors_reading {lines : List String} (h : (database.reading backward lines).fault = none) :
    (database.reading backward lines).errors = [] ∧
      (database.reading backward lines).lineCount = lines.length := by
  obtain ⟨read, rest, hlines, hrun, hrest⟩ :=
    Reading.exists_run backward { database } lines rfl
  have hread : read = lines := by
    rw [hlines, hrest h, List.append_nil]
  subst hread
  obtain ⟨herrors, hcount⟩ := hrun.errors_eq h
  exact ⟨herrors, hcount.trans (Nat.zero_add _)⟩

structure FailsAt (before : List String) (text : String) (fault : Fault) : Prop where
  sound : (database.readLines backward before).fault = none
  faulty : (database.readLines backward (before ++ [text])).fault = some fault

/-- The lines are read to their end without an error message, or up to the first faulty line, which
is then reported, by its number and by no other error message. -/
inductive Accounted (lines : List String) : Prop where
  | complete (hfault : (database.readLines backward lines).fault = none)
    (herrors : (database.readLines backward lines).errors = [])
  | reported (before : List String) (text : String) (after : List String) (fault : Fault)
    (hlines : lines = before ++ text :: after)
    (hfails : database.FailsAt backward before text fault)
    (hfault : (database.readLines backward lines).fault = some fault)
    (hreported : fault.isReported = true)
    (herrors : (database.readLines backward lines).errors =
      [Reading.report text (before.length + 1)])

/-- A line that is reached has an oversized day. -/
def MeetsOversizedDay (lines : List String) : Prop :=
  ∃ before text after, lines = before ++ text :: after ∧
    (database.readLines backward before).fault = none ∧
    Line.OversizedDay (database.reading backward before).openZone.isSome text

/-- What is left of a file by the first faulty line. -/
theorem readLines_of_fault {before : List String} {text : String} {fault : Fault}
    (hbefore : (database.readLines backward before).fault = none)
    (hentry : (Line.entry text).fault? (database.reading backward before).openZone.isSome =
      some fault) (after : List String) :
    (database.readLines backward (before ++ text :: after)).fault = some fault ∧
      (database.readLines backward (before ++ text :: after)).errors =
        if fault.isReported then [Reading.report text (before.length + 1)] else [] := by
  have hstep := Reading.readLine_step backward (database.reading backward before) text hbefore
  have hfault := (hstep.fault_eq hbefore).trans hentry
  obtain ⟨herrors, hcount⟩ := database.errors_reading backward hbefore
  rw [readLines_eq, reading_of_fault database backward (by simp [hfault]) after]
  refine ⟨hfault, ?_⟩
  calc ((database.reading backward before).readLine backward text).errors
      = (database.reading backward before).errors ++ if fault.isReported then
          [Reading.report text ((database.reading backward before).lineCount + 1)] else [] :=
        hstep.errors_of_fault hbefore hfault
    _ = if fault.isReported then [Reading.report text (before.length + 1)] else [] := by
        rw [herrors, hcount, List.nil_append]

theorem exists_faulty_line {lines : List String} {fault : Fault}
    (h : (database.readLines backward lines).fault = some fault) :
    ∃ before text after, lines = before ++ text :: after ∧
      (database.readLines backward before).fault = none ∧
      (Line.entry text).fault? (database.reading backward before).openZone.isSome = some fault := by
  obtain ⟨before, text, after, hlines, hbefore, hread⟩ :=
    Reading.exists_faulty backward { database } lines rfl (by
      intro hnone
      cases h.symm.trans hnone)
  have hstep := Reading.readLine_step backward (database.reading backward before) text hbefore
  refine ⟨before, text, after, hlines, hbefore, ?_⟩
  calc (Line.entry text).fault? (database.reading backward before).openZone.isSome
      = ((database.reading backward before).readLine backward text).fault :=
        (hstep.fault_eq hbefore).symm
    _ = (database.reading backward lines).fault := congrArg Reading.fault hread.symm
    _ = some fault := h

theorem readLines_of_oversizedDay {lines : List String}
    (h : database.MeetsOversizedDay backward lines) :
    (database.readLines backward lines).fault = some .dayTooLarge ∧
      (database.readLines backward lines).errors = [] := by
  obtain ⟨before, text, after, rfl, hbefore, hover⟩ := h
  exact readLines_of_fault database backward hbefore (Line.fault?_of_oversizedDay hover) after

theorem accounted_of_not_oversizedDay {lines : List String}
    (h : ¬database.MeetsOversizedDay backward lines) : database.Accounted backward lines := by
  cases hfault : (database.readLines backward lines).fault with
  | none => exact .complete hfault (database.errors_reading backward hfault).1
  | some fault =>
    obtain ⟨before, text, after, rfl, hbefore, hentry⟩ :=
      database.exists_faulty_line backward hfault
    have hreported : fault.isReported = true := by
      obtain htext | ⟨-, hover⟩ := Line.cases_of_fault? hentry
      · exact htext.isReported
      · exact absurd ⟨before, text, after, rfl, hbefore, hover⟩ h
    obtain ⟨-, herrors⟩ := readLines_of_fault database backward hbefore hentry after
    rw [hreported, if_pos rfl] at herrors
    have hfails : database.FailsAt backward before text fault :=
      ⟨hbefore, (readLines_of_fault database backward hbefore hentry []).1⟩
    exact .reported before text after fault rfl hfails hfault hreported herrors

/-- Reading ends well or with a report of the first faulty line, except at a line with an oversized
day, which ends it without a report. -/
theorem readLines_accounted_iff (lines : List String) :
    (database.Accounted backward lines ↔ ¬database.MeetsOversizedDay backward lines) ∧
      (((database.readLines backward lines).fault = some .dayTooLarge ∧
          (database.readLines backward lines).errors = []) ↔
        database.MeetsOversizedDay backward lines) := by
  constructor
  · constructor
    · rintro haccounted hmeets
      obtain ⟨hover, -⟩ := database.readLines_of_oversizedDay backward hmeets
      cases haccounted with
      | complete hfault herrors => cases hfault.symm.trans hover
      | reported before text after fault hlines hfails hfault hreported herrors =>
        cases hfault.symm.trans hover
        cases hreported
    · exact database.accounted_of_not_oversizedDay backward
  · constructor
    · rintro ⟨hfault, -⟩
      obtain ⟨before, text, after, hlines, hbefore, hentry⟩ :=
        database.exists_faulty_line backward hfault
      obtain htext | ⟨-, hover⟩ := Line.cases_of_fault? hentry
      · exact htext.elim
      · exact ⟨before, text, after, hlines, hbefore, hover⟩
    · exact database.readLines_of_oversizedDay backward

def oversizedRule : String := "Rule R 1990 only - Jan 4294967296 24:00 0 -"

theorem oversized_rule_unreported :
    (readLines {} false [oversizedRule]).fault = some .dayTooLarge ∧
      (readLines {} false [oversizedRule]).errors = [] ∧
      ¬Accounted {} false [oversizedRule] := by
  have hfault : (readLines {} false [oversizedRule]).fault = some .dayTooLarge := by decide +kernel
  have herrors : (readLines {} false [oversizedRule]).errors = [] := by decide +kernel
  refine ⟨hfault, herrors, ?_⟩
  intro haccounted
  cases haccounted with
  | complete hnone => cases hnone.symm.trans hfault
  | reported before text after fault hlines hfails hfound hreported =>
    cases hfound.symm.trans hfault
    cases hreported

end Database

end CivilTime.Source
