import CivilTime.Proofs.Text
import CivilTime.Source.Field

/-!
The texts of durations. `Denotes` is their grammar `[-]h[:m[:s[.f]]]` with the amount of each text
and the numbers of digits that are read for it. The scanner follows it field by field: whatever it
takes is a text of the grammar, and no longer beginning of the text is. So the strict reader accepts
exactly the texts of the grammar without too many digits, and the lenient one reads the longest
beginning that is a text of the grammar.
-/

namespace CivilTime.Duration

open Text

structure IsRow (cs : List Char) : Prop where
  filled : cs ≠ []
  digits : ∀ c ∈ cs, isDecimal c = true

def fractionOf (digits : List Char) : Nat :=
  digitsValue digits * 1000 / 10 ^ digits.length

/-- The texts of durations without a sign, with their milliseconds and with the numbers of digits of
their hours, minutes and seconds. -/
inductive Amount : List Char → Nat → List Nat → Prop where
  | hours {h : List Char} (hh : IsRow h) : Amount h (digitsValue h * 3600000) [h.length]
  | minutes {h m : List Char} (hh : IsRow h) (hm : IsRow m) :
    Amount (h ++ ':' :: m) (digitsValue h * 3600000 + digitsValue m * 60000)
      [h.length, m.length]
  | seconds {h m s : List Char} (hh : IsRow h) (hm : IsRow m) (hs : IsRow s) :
    Amount (h ++ ':' :: (m ++ ':' :: s))
      (digitsValue h * 3600000 + digitsValue m * 60000 + digitsValue s * 1000)
      [h.length, m.length, s.length]
  | fraction {h m s f : List Char} (hh : IsRow h) (hm : IsRow m) (hs : IsRow s) (hf : IsRow f) :
    Amount (h ++ ':' :: (m ++ ':' :: (s ++ '.' :: f)))
      (digitsValue h * 3600000 + digitsValue m * 60000 + digitsValue s * 1000 + fractionOf f)
      [h.length, m.length, s.length]

/-- The texts of durations with their milliseconds and their numbers of digits. A sign counts for
the whole. -/
inductive Denotes : List Char → Int → List Nat → Prop where
  | plain {cs : List Char} {n : Nat} {lengths : List Nat} (h : Amount cs n lengths) :
    Denotes cs n lengths
  | negative {cs : List Char} {n : Nat} {lengths : List Nat} (h : Amount cs n lengths) :
    Denotes ('-' :: cs) (-n) lengths

def IsDuration (text : String) : Prop :=
  ∃ n lengths, Denotes text.toList n lengths

/-- What becomes of a value that is read from numbers with the given numbers of digits: the first
number with too many of them is refused. -/
def settle (value : Int) (lengths : List Nat) : Except Overlong Int :=
  ((lengths.find? fun digits => digitLimit < digits).map fun digits => .error ⟨digits⟩).getD
    (.ok value)

theorem settle_cons (value : Int) (digits : Nat) (lengths : List Nat) :
    settle value (digits :: lengths) =
      if digitLimit < digits then .error ⟨digits⟩ else settle value lengths := by
  rw [settle, List.find?_cons]
  by_cases hover : digitLimit < digits
  · simp [hover]
  · simp [hover, settle]

theorem settle_eq_ok_iff {value n : Int} {lengths : List Nat} :
    settle value lengths = .ok n ↔ value = n ∧ ∀ digits ∈ lengths, digits ≤ digitLimit := by
  rw [settle]
  cases hfind : lengths.find? fun digits => digitLimit < digits with
  | none =>
    have hall : ∀ digits ∈ lengths, digits ≤ digitLimit := by
      simpa using List.find?_eq_none.mp hfind
    simpa using fun _ => hall
  | some digits =>
    have hover : digitLimit < digits := by simpa using List.find?_some hfind
    have hmem := List.mem_of_find?_eq_some hfind
    simpa using fun _ => ⟨digits, hmem, hover⟩

theorem settle_eq_error_iff {value : Int} {overlong : Overlong} {lengths : List Nat} :
    settle value lengths = .error overlong ↔
      (lengths.find? fun digits => digitLimit < digits) = some overlong.digits := by
  rw [settle]
  cases lengths.find? fun digits => digitLimit < digits with
  | none => simp
  | some digits =>
    constructor
    · intro h
      cases h
      rfl
    · intro h
      obtain rfl := Option.some.inj h
      rfl

theorem map_some_eq_ok_iff {read : Except Overlong Int} {n : Int} :
    read.map some = .ok (some n) ↔ read = .ok n := by
  cases read <;> simp [Except.map]

theorem map_some_eq_error_iff {read : Except Overlong Int} {overlong : Overlong} :
    read.map some = .error overlong ↔ read = .error overlong := by
  cases read <;> simp [Except.map]

theorem map_some_ne_none {read : Except Overlong Int} : read.map some ≠ .ok none := by
  cases read <;> simp [Except.map]

/-- Texts made of rows, each after its mark; rows may be missing at the end. -/
inductive Fields : List Char → List Char → List (List Char) → Prop where
  | nil (marks : List Char) : Fields marks [] []
  | cons {mark : Char} {marks row text : List Char} {rows : List (List Char)} (hrow : IsRow row)
    (hrest : Fields marks text rows) : Fields (mark :: marks) (mark :: (row ++ text)) (row :: rows)

def scanFields : List Char → List Char → List (List Char) × List Char
  | [], cs => ([], cs)
  | mark :: marks, cs =>
    match field? mark cs with
    | none => ([], cs)
    | some (row, rest) => (row :: (scanFields marks rest).1, (scanFields marks rest).2)

theorem scanFields_cons_of_none {mark : Char} {cs : List Char} (h : field? mark cs = none)
    (marks : List Char) : scanFields (mark :: marks) cs = ([], cs) := by
  simp only [scanFields, h]

theorem scanFields_cons_of_some {mark : Char} {cs row rest : List Char}
    (h : field? mark cs = some (row, rest)) (marks : List Char) :
    scanFields (mark :: marks) cs =
      (row :: (scanFields marks rest).1, (scanFields marks rest).2) := by
  simp only [scanFields, h]

theorem field?_eq_some {mark : Char} {cs row rest : List Char}
    (h : field? mark cs = some (row, rest)) : cs = mark :: (row ++ rest) ∧ IsRow row := by
  cases cs with
  | nil => simp [field?] at h
  | cons c cs =>
    rw [field?] at h
    split at h
    · next hmark =>
      split at h
      · contradiction
      · next hfilled =>
        obtain ⟨rfl, rfl⟩ := Prod.mk.inj (Option.some.inj h)
        refine ⟨by rw [hmark, List.takeWhile_append_dropWhile], hfilled, ?_⟩
        exact fun c hc => List.mem_takeWhile_imp hc
    · contradiction

/-- A row is read to the end of the digits. -/
theorem field?_append {row : List Char} (h : IsRow row) (mark : Char) (more : List Char) :
    field? mark (mark :: (row ++ more)) =
      some (row ++ more.takeWhile isDecimal, more.dropWhile isDecimal) := by
  have htaken : (row ++ more).takeWhile isDecimal = row ++ more.takeWhile isDecimal :=
    List.takeWhile_append_of_pos h.digits
  have hdropped : (row ++ more).dropWhile isDecimal = more.dropWhile isDecimal :=
    List.dropWhile_append_of_pos h.digits
  have hfilled : row ++ more.takeWhile isDecimal ≠ [] := by simp [h.filled]
  rw [field?, if_pos rfl, htaken, hdropped]
  split
  · contradiction
  · rfl

/-- Everything that the scanner takes is made of rows after their marks. -/
theorem scanFields_sound (marks cs : List Char) :
    ∃ text, cs = text ++ (scanFields marks cs).2 ∧ Fields marks text (scanFields marks cs).1 := by
  induction marks generalizing cs with
  | nil => exact ⟨[], rfl, .nil []⟩
  | cons mark marks ih =>
    cases hfield : field? mark cs with
    | none =>
      rw [scanFields_cons_of_none hfield]
      exact ⟨[], rfl, .nil _⟩
    | some found =>
      obtain ⟨row, rest⟩ := found
      obtain ⟨rfl, hrow⟩ := field?_eq_some hfield
      obtain ⟨text, hrest, hfields⟩ := ih rest
      rw [scanFields_cons_of_some hfield]
      refine ⟨mark :: (row ++ text), ?_, .cons hrow hfields⟩
      rw [List.cons_append, List.append_assoc, ← hrest]

theorem length_scanFields_le (marks cs : List Char) :
    (scanFields marks cs).2.length ≤ cs.length := by
  obtain ⟨text, hcs, -⟩ := scanFields_sound marks cs
  have hlength := congrArg List.length hcs
  rw [List.length_append] at hlength
  omega

theorem takeWhile_of_stop {cs : List Char} (h : ∀ c ∈ cs.head?, isDecimal c = false) :
    cs.takeWhile isDecimal = [] ∧ cs.dropWhile isDecimal = cs := by
  cases cs with
  | nil => exact ⟨rfl, rfl⟩
  | cons c cs =>
    have hstop : isDecimal c = false := h c rfl
    simp [hstop]

namespace Fields

variable {marks text : List Char} {rows : List (List Char)}

theorem rows_eq_nil_iff (h : Fields marks text rows) : rows = [] ↔ text = [] := by
  cases h with
  | nil => simp
  | cons hrow hrest => simp

theorem head_not_decimal (h : Fields marks text rows)
    (hmarks : ∀ mark ∈ marks, isDecimal mark = false) :
    ∀ c ∈ text.head?, isDecimal c = false := by
  cases h with
  | nil => simp
  | cons hrow hrest => simpa using hmarks _ List.mem_cons_self

theorem scanFields_eq (h : Fields marks text rows)
    (hmarks : ∀ mark ∈ marks, isDecimal mark = false) : scanFields marks text = (rows, []) := by
  induction h with
  | nil marks => cases marks <;> rfl
  | @cons mark marks row text rows hrow hrest ih =>
    have hlater : ∀ mark ∈ marks, isDecimal mark = false :=
      fun mark hmark => hmarks mark (List.mem_cons_of_mem _ hmark)
    obtain ⟨htaken, hdropped⟩ := takeWhile_of_stop (hrest.head_not_decimal hlater)
    have hfield := field?_append hrow mark text
    rw [htaken, hdropped, List.append_nil] at hfield
    rw [scanFields_cons_of_some hfield, ih hlater]

/-- The scanner gets at least as far as any text of this form with which its input begins. A row
that ends within the digits of the input can only be the last one. -/
theorem length_scanFields_append_le (h : Fields marks text rows)
    (hmarks : ∀ mark ∈ marks, isDecimal mark = false) (more : List Char) :
    (scanFields marks (text ++ more)).2.length ≤ more.length := by
  induction h with
  | nil marks => exact length_scanFields_le marks more
  | @cons mark marks row text rows hrow hrest ih =>
    have hlater : ∀ mark ∈ marks, isDecimal mark = false :=
      fun mark hmark => hmarks mark (List.mem_cons_of_mem _ hmark)
    have hfield := field?_append hrow mark (text ++ more)
    rw [List.cons_append, List.append_assoc, scanFields_cons_of_some hfield]
    cases text with
    | nil =>
      have hshort := length_scanFields_le marks (more.dropWhile isDecimal)
      exact hshort.trans (List.dropWhile_sublist isDecimal).length_le
    | cons c text =>
      have hstop : ∀ d ∈ (c :: text ++ more).head?, isDecimal d = false :=
        hrest.head_not_decimal hlater
      rw [(takeWhile_of_stop hstop).2]
      exact ih hlater

end Fields

/-- The marks of the fields. A colon before the hours is taken as read. -/
def marks : List Char := [':', ':', ':', '.']

theorem marks_not_decimal : ∀ mark ∈ marks, isDecimal mark = false := by
  have hcolon : isDecimal ':' = false := by decide
  have hpoint : isDecimal '.' = false := by decide
  simp [marks, hcolon, hpoint]

def ofRows (negative : Bool) (rows : List (List Char)) : Duration :=
  { negative
    hours := rows[0]?.getD []
    minutes := rows[1]?
    seconds := rows[2]?
    fraction := rows[3]? }

def amountOf (rows : List (List Char)) : Nat :=
  digitsValue (rows[0]?.getD []) * 3600000 + (rows[1]?.map digitsValue).getD 0 * 60000 +
    (rows[2]?.map digitsValue).getD 0 * 1000 + (rows[3]?.map fractionOf).getD 0

/-- The first three digits of a fraction are its milliseconds, rounded down. -/
theorem fractionMillis_eq (digits : List Char) : fractionMillis digits = fractionOf digits := by
  have hzero : digitsValue ['0'] = 0 := by decide
  have hzeros : digitsValue ['0', '0'] = 0 := by decide
  rcases digits with _ | ⟨a, _ | ⟨b, _ | ⟨c, rest⟩⟩⟩
  · exact hzeros
  · calc
      fractionMillis [a] = digitsValue [a] * 10 ^ 2 + digitsValue ['0', '0'] :=
        digitsValue_append [a] ['0', '0']
      _ = digitsValue [a] * 1000 / 10 ^ 1 := by omega
  · calc
      fractionMillis [a, b] = digitsValue [a, b] * 10 ^ 1 + digitsValue ['0'] :=
        digitsValue_append [a, b] ['0']
      _ = digitsValue [a, b] * 1000 / 10 ^ 2 := by omega
  · have hsmall := digitsValue_lt rest
    have hpower : 10 ^ (a :: b :: c :: rest).length = 10 ^ rest.length * 1000 := by
      rw [List.length_cons, List.length_cons, List.length_cons]
      ring
    have hvalue : digitsValue (a :: b :: c :: rest) =
        10 ^ rest.length * digitsValue [a, b, c] + digitsValue rest := by
      rw [Nat.mul_comm]
      exact digitsValue_append [a, b, c] rest
    rw [fractionOf, hpower, hvalue, Nat.mul_div_mul_right _ _ (by decide),
      Nat.mul_add_div (by positivity), Nat.div_eq_of_lt hsmall, Nat.add_zero]
    rfl

/-- A field is read first; what is read after it is settled by the remaining numbers of digits. -/
theorem part_bind_settle (field : Option (List Char)) (value : Nat → Int)
    {next : Nat → Except Overlong Int} {lengths : List Nat}
    (h : ∀ n, next n = settle (value n) lengths) :
    (part field >>= next) =
      settle (value ((field.map digitsValue).getD 0))
        (field.toList.map List.length ++ lengths) := by
  cases field with
  | none => exact h 0
  | some digits =>
    have hread : (part (some digits) >>= next) =
        if digitLimit < digits.length then .error ⟨digits.length⟩
        else next (digitsValue digits) := by
      rw [part, readDigits, checkDigits]
      split <;> rfl
    rw [hread, h]
    exact (settle_cons _ _ _).symm

theorem millis_eq (duration : Duration) :
    duration.millis =
      settle (duration.total (digitsValue duration.hours)
          ((duration.minutes.map digitsValue).getD 0) ((duration.seconds.map digitsValue).getD 0))
        (duration.hours.length :: (duration.minutes.toList.map List.length ++
          (duration.seconds.toList.map List.length ++ []))) :=
  part_bind_settle (some duration.hours) (fun hours => duration.total hours _ _) fun hours =>
    part_bind_settle duration.minutes (fun minutes => duration.total hours minutes _)
      fun minutes =>
        part_bind_settle duration.seconds (duration.total hours minutes) fun _ => rfl

theorem millis_ofRows (negative : Bool) {rows : List (List Char)} (h : rows ≠ []) :
    (ofRows negative rows).millis =
      settle (if negative then -(amountOf rows : Int) else amountOf rows)
        ((rows.take 3).map List.length) := by
  have hlengths : (rows.take 3).map List.length =
      (rows[0]?.getD []).length :: (rows[1]?.toList.map List.length ++
        (rows[2]?.toList.map List.length ++ [])) := by
    rcases rows with _ | ⟨h, _ | ⟨m, _ | ⟨s, rest⟩⟩⟩
    · contradiction
    · rfl
    · rfl
    · rfl
  have hfraction : fractionMillis = fractionOf := funext fractionMillis_eq
  have hhour : Instant.millisPerHour = 3600000 := rfl
  have hminute : Instant.millisPerMinute = 60000 := rfl
  have hsecond : Instant.millisPerSecond = 1000 := rfl
  rw [millis_eq, hlengths]
  simp only [ofRows, total, amountOf, hfraction, hhour, hminute, hsecond]
  push_cast
  rfl

/-- The texts of durations without a sign are those of their fields. -/
theorem amount_iff_fields {text : List Char} {n : Nat} {lengths : List Nat} :
    Amount text n lengths ↔ ∃ rows, Fields marks (':' :: text) rows ∧ n = amountOf rows ∧
      lengths = (rows.take 3).map List.length := by
  constructor
  · intro h
    cases h with
    | hours hh =>
      refine ⟨[text], ?_, by simp [amountOf], by simp⟩
      simpa [marks] using Fields.cons hh (.nil [':', ':', '.'])
    | @minutes h m hh hm =>
      refine ⟨[h, m], ?_, by simp [amountOf], by simp⟩
      simpa [marks] using Fields.cons hh (.cons hm (.nil [':', '.']))
    | @seconds h m s hh hm hs =>
      refine ⟨[h, m, s], ?_, by simp [amountOf], by simp⟩
      simpa [marks] using Fields.cons hh (.cons hm (.cons hs (.nil ['.'])))
    | @fraction h m s f hh hm hs hf =>
      refine ⟨[h, m, s, f], ?_, by simp [amountOf], by simp⟩
      simpa [marks] using Fields.cons hh (.cons hm (.cons hs (.cons hf (.nil []))))
  · rintro ⟨rows, h, rfl, rfl⟩
    cases h with
    | cons hh h =>
    cases h with
    | nil => simpa [amountOf] using Amount.hours hh
    | cons hm h =>
    cases h with
    | nil => simpa [amountOf] using Amount.minutes hh hm
    | cons hs h =>
    cases h with
    | nil => simpa [amountOf] using Amount.seconds hh hm hs
    | cons hf h =>
    cases h with
    | nil => simpa [amountOf] using Amount.fraction hh hm hs hf

def scanUnsigned? (negative : Bool) (cs : List Char) : Option (Duration × List Char) :=
  let found := scanFields marks (':' :: cs)
  if found.1 = [] then none else some (ofRows negative found.1, found.2)

theorem scan?_eq (cs : List Char) :
    scan? cs = scanUnsigned? (cs.head? == some '-')
      (if cs.head? == some '-' then cs.tail else cs) := by
  unfold scan?
  generalize (cs.head? == some '-') = negative
  dsimp only
  generalize (if negative then cs.tail else cs) = cs
  unfold scanUnsigned?
  cases hhours : cs.takeWhile isDecimal with
  | nil => simp [marks, scanFields, field?, hhours]
  | cons d ds =>
    have hfirst : field? ':' (':' :: cs) = some (d :: ds, cs.dropWhile isDecimal) := by
      simp [field?, hhours]
    generalize cs.dropWhile isDecimal = rest at hfirst ⊢
    cases hminutes : field? ':' rest with
    | none => simp [marks, scanFields, hfirst, hminutes, ofRows]
    | some found =>
      obtain ⟨m, rest⟩ := found
      cases hseconds : field? ':' rest with
      | none => simp [marks, scanFields, hfirst, hminutes, hseconds, ofRows]
      | some found =>
        obtain ⟨s, rest⟩ := found
        cases hfraction : field? '.' rest with
        | none => simp [marks, scanFields, hfirst, hminutes, hseconds, hfraction, ofRows]
        | some found => simp [marks, scanFields, hfirst, hminutes, hseconds, hfraction, ofRows]

theorem scan?_negative (cs : List Char) : scan? ('-' :: cs) = scanUnsigned? true cs :=
  scan?_eq ('-' :: cs)

theorem scan?_plain {cs : List Char} (h : cs.head? ≠ some '-') :
    scan? cs = scanUnsigned? false cs := by
  have hplain : (cs.head? == some '-') = false := by simpa using h
  rw [scan?_eq, hplain]
  rfl

theorem scanUnsigned?_sound {negative : Bool} {cs rest : List Char} {found : Duration}
    (h : scanUnsigned? negative cs = some (found, rest)) :
    ∃ text n lengths, cs = text ++ rest ∧ Amount text n lengths ∧
      found.millis = settle (if negative then -(n : Int) else n) lengths := by
  obtain ⟨text, htext, hfields⟩ := scanFields_sound marks (':' :: cs)
  simp only [scanUnsigned?] at h
  split at h
  · contradiction
  · next hrows =>
    obtain ⟨rfl, rfl⟩ := Prod.mk.inj (Option.some.inj h)
    cases text with
    | nil => exact absurd (hfields.rows_eq_nil_iff.mpr rfl) hrows
    | cons c text =>
      obtain ⟨rfl, hcs⟩ := List.cons.inj htext
      exact ⟨text, _, _, hcs, amount_iff_fields.mpr ⟨_, hfields, rfl, rfl⟩,
        millis_ofRows negative hrows⟩

namespace Amount

variable {text : List Char} {n : Nat} {lengths : List Nat} (h : Amount text n lengths)

include h

theorem scanUnsigned?_eq (negative : Bool) :
    ∃ found, scanUnsigned? negative text = some (found, []) ∧
      found.millis = settle (if negative then -(n : Int) else n) lengths := by
  obtain ⟨rows, hfields, rfl, rfl⟩ := amount_iff_fields.mp h
  have hrows : rows ≠ [] := fun hnil => List.cons_ne_nil _ _ (hfields.rows_eq_nil_iff.mp hnil)
  refine ⟨ofRows negative rows, ?_, millis_ofRows negative hrows⟩
  simp only [scanUnsigned?, hfields.scanFields_eq marks_not_decimal, if_neg hrows]

/-- Whatever follows, the scanner takes no less than the text. -/
theorem scanUnsigned?_append (negative : Bool) (more : List Char) :
    ∃ found rest, scanUnsigned? negative (text ++ more) = some (found, rest) ∧
      rest.length ≤ more.length := by
  obtain ⟨rows, hfields, -⟩ := amount_iff_fields.mp h
  have hshort := hfields.length_scanFields_append_le marks_not_decimal more
  rw [List.cons_append] at hshort
  refine ⟨_, _, if_neg fun hnone => ?_, hshort⟩
  obtain ⟨taken, htaken, hsound⟩ := scanFields_sound marks (':' :: (text ++ more))
  rw [hsound.rows_eq_nil_iff.mp hnone, List.nil_append] at htaken
  rw [← htaken, List.length_cons, List.length_append] at hshort
  omega

theorem head?_ne_hyphen (more : List Char) : (text ++ more).head? ≠ some '-' := by
  obtain ⟨rows, hfields, -⟩ := amount_iff_fields.mp h
  cases hfields with
  | @cons _ _ row later _ hrow _ =>
    obtain ⟨d, ds, rfl⟩ := List.exists_cons_of_ne_nil hrow.filled
    have hdigit := hrow.digits d List.mem_cons_self
    rw [List.cons_append, List.cons_append, List.head?_cons]
    intro hhyphen
    obtain rfl := Option.some.inj hhyphen
    exact absurd hdigit (by decide)

end Amount

/-- Everything that the scanner takes is the text of a duration. -/
theorem scan?_sound {cs rest : List Char} {found : Duration} (h : scan? cs = some (found, rest)) :
    ∃ text n lengths, cs = text ++ rest ∧ Denotes text n lengths ∧
      found.millis = settle n lengths := by
  by_cases hsign : cs.head? = some '-'
  · obtain ⟨cs, rfl⟩ := List.head?_eq_some_iff.mp hsign
    rw [scan?_negative] at h
    obtain ⟨text, n, lengths, rfl, hamount, hmillis⟩ := scanUnsigned?_sound h
    exact ⟨'-' :: text, _, lengths, rfl, .negative hamount, hmillis⟩
  · rw [scan?_plain hsign] at h
    obtain ⟨text, n, lengths, rfl, hamount, hmillis⟩ := scanUnsigned?_sound h
    exact ⟨text, _, lengths, rfl, .plain hamount, hmillis⟩

namespace Denotes

variable {text : List Char} {n : Int} {lengths : List Nat} (h : Denotes text n lengths)

include h

theorem scan?_eq : ∃ found, scan? text = some (found, []) ∧ found.millis = settle n lengths := by
  cases h with
  | plain h =>
    have hplain := scan?_plain (h.head?_ne_hyphen [])
    rw [List.append_nil] at hplain
    rw [hplain]
    exact h.scanUnsigned?_eq false
  | negative h =>
    rw [scan?_negative]
    exact h.scanUnsigned?_eq true

theorem scan?_append (more : List Char) :
    ∃ found rest, scan? (text ++ more) = some (found, rest) ∧ rest.length ≤ more.length := by
  cases h with
  | plain h =>
    rw [scan?_plain (h.head?_ne_hyphen more)]
    exact h.scanUnsigned?_append false more
  | negative h =>
    rw [List.cons_append, scan?_negative]
    exact h.scanUnsigned?_append true more

end Denotes

/-- The strict reader on the text of a duration. -/
theorem readWhole_of_denotes {text : String} {n : Int} {lengths : List Nat}
    (h : Denotes text.toList n lengths) : readWhole text = (settle n lengths).map some := by
  obtain ⟨found, hscan, hmillis⟩ := h.scan?_eq
  rw [readWhole, hscan, ← hmillis]

theorem readWhole_of_not_isDuration {text : String} (h : ¬IsDuration text) :
    readWhole text = .ok none := by
  rw [readWhole]
  split
  · next found hscan =>
    obtain ⟨taken, n, lengths, htaken, hdenotes, -⟩ := scan?_sound hscan
    rw [List.append_nil] at htaken
    exact absurd ⟨n, lengths, htaken ▸ hdenotes⟩ h
  · rfl

theorem readWhole_cases (text : String) :
    (∃ n lengths, Denotes text.toList n lengths ∧ readWhole text = (settle n lengths).map some) ∨
      readWhole text = .ok none := by
  by_cases hduration : IsDuration text
  · obtain ⟨n, lengths, hdenotes⟩ := hduration
    exact .inl ⟨n, lengths, hdenotes, readWhole_of_denotes hdenotes⟩
  · exact .inr (readWhole_of_not_isDuration hduration)

theorem readWhole_eq_some_iff {text : String} {n : Int} :
    readWhole text = .ok (some n) ↔
      ∃ lengths, Denotes text.toList n lengths ∧ ∀ digits ∈ lengths, digits ≤ digitLimit := by
  constructor
  · intro h
    rcases readWhole_cases text with ⟨value, lengths, hdenotes, hread⟩ | hread
    · rw [hread, map_some_eq_ok_iff, settle_eq_ok_iff] at h
      obtain ⟨rfl, hshort⟩ := h
      exact ⟨lengths, hdenotes, hshort⟩
    · rw [hread] at h
      cases h
  · rintro ⟨lengths, hdenotes, hshort⟩
    rw [readWhole_of_denotes hdenotes, map_some_eq_ok_iff, settle_eq_ok_iff]
    exact ⟨rfl, hshort⟩

theorem readWhole_eq_error_iff {text : String} {overlong : Overlong} :
    readWhole text = .error overlong ↔
      ∃ n lengths, Denotes text.toList n lengths ∧
        (lengths.find? fun digits => digitLimit < digits) = some overlong.digits := by
  constructor
  · intro h
    rcases readWhole_cases text with ⟨value, lengths, hdenotes, hread⟩ | hread
    · rw [hread, map_some_eq_error_iff, settle_eq_error_iff] at h
      exact ⟨value, lengths, hdenotes, h⟩
    · rw [hread] at h
      cases h
  · rintro ⟨n, lengths, hdenotes, hover⟩
    rw [readWhole_of_denotes hdenotes, map_some_eq_error_iff, settle_eq_error_iff]
    exact hover

theorem readWhole_eq_none_iff {text : String} : readWhole text = .ok none ↔ ¬IsDuration text := by
  refine ⟨?_, readWhole_of_not_isDuration⟩
  rintro h ⟨n, lengths, hdenotes⟩
  rw [readWhole_of_denotes hdenotes] at h
  exact map_some_ne_none h

structure IsLongest (start text : String) : Prop where
  begins : start.toList <+: text.toList
  accepted : IsDuration start
  longest : ∀ other : String, other.toList <+: text.toList → IsDuration other →
    other.toList.length ≤ start.toList.length

theorem IsLongest.unique {start other text : String} (h : IsLongest start text)
    (hother : IsLongest other text) : start = other := by
  have hlength : start.toList.length = other.toList.length :=
    le_antisymm (hother.longest start h.begins h.accepted)
      (h.longest other hother.begins hother.accepted)
  apply String.toList_inj.mp
  exact (List.prefix_of_prefix_length_le h.begins hother.begins hlength.le).eq_of_length hlength

/-- If a text begins with a duration, the scanner takes no less of it. -/
theorem scan?_of_begins {start text : String} (hbegins : start.toList <+: text.toList)
    (haccepted : IsDuration start) :
    ∃ found rest, scan? text.toList = some (found, rest) ∧
      start.toList.length + rest.length ≤ text.toList.length := by
  obtain ⟨more, hmore⟩ := hbegins
  obtain ⟨n, lengths, hdenotes⟩ := haccepted
  obtain ⟨found, rest, hscan, hshort⟩ := hdenotes.scan?_append more
  rw [hmore] at hscan
  refine ⟨found, rest, hscan, ?_⟩
  rw [← hmore, List.length_append]
  omega

/-- The scanner takes the longest beginning that is a duration. -/
theorem isLongest_of_scan? {text : String} {found : Duration} {rest : List Char}
    (h : scan? text.toList = some (found, rest)) :
    ∃ start, IsLongest start text ∧ readWhole start = found.millis.map some := by
  obtain ⟨taken, n, lengths, htaken, hdenotes, hmillis⟩ := scan?_sound h
  have hstart : Denotes (String.ofList taken).toList n lengths := by
    rw [String.toList_ofList]
    exact hdenotes
  refine ⟨String.ofList taken, ⟨?_, ⟨n, lengths, hstart⟩, ?_⟩, ?_⟩
  · rw [String.toList_ofList, htaken]
    exact List.prefix_append taken rest
  · intro other hbegins haccepted
    obtain ⟨again, left, hscan, hshort⟩ := scan?_of_begins hbegins haccepted
    obtain ⟨-, rfl⟩ := Prod.mk.inj (Option.some.inj (h.symm.trans hscan))
    rw [htaken, List.length_append] at hshort
    rw [String.toList_ofList]
    omega
  · rw [readWhole_of_denotes hstart, hmillis]

/-- The text `[-]h:mm:ss.fff` of a number of milliseconds. -/
def render (millis : Int) : String :=
  let n := millis.natAbs
  (if millis < 0 then "-" else "") ++ paddedNat 1 (n / 3600000) ++ ":" ++
    paddedNat 2 (n / 60000 % 60) ++ ":" ++ paddedNat 2 (n / 1000 % 60) ++ "." ++
    paddedNat 3 (n % 1000)

theorem isRow_paddedNat (width n : Nat) : IsRow (paddedNat width n).toList :=
  ⟨paddedNat_ne_nil width n, fun c hc => isDecimal_of_isDigit (isDigit_paddedNat width n c hc)⟩

theorem fractionOf_paddedNat {n : Nat} (h : n < 1000) :
    fractionOf (paddedNat 3 n).toList = n := by
  rw [fractionOf, digitsValue_paddedNat, length_paddedNat (by decide) h]
  omega

/-- Zero, in any number of digits. -/
theorem denotes_zeros {n : Nat} (h : 0 < n) : Denotes (List.replicate n '0') 0 [n] := by
  have hdigits : ∀ c ∈ List.replicate n '0', c.isDigit = true := by
    intro c hc
    rw [List.eq_of_mem_replicate hc]
    rfl
  have hfilled : List.replicate n '0' ≠ [] := by
    rw [Ne, List.replicate_eq_nil_iff]
    omega
  have hzero : digitsValue (List.replicate n '0') = 0 := by
    rw [digitsValue_of_isDigit hdigits, Nat.ofDigitChars_replicate_zero, Nat.mul_zero]
  have hhours := Denotes.plain
    (Amount.hours ⟨hfilled, fun c hc => isDecimal_of_isDigit (hdigits c hc)⟩)
  rwa [hzero, List.length_replicate] at hhours

/-- What has been written is the text of a duration again. -/
theorem denotes_render (millis : Int) :
    Denotes (render millis).toList millis
      [(paddedNat 1 (millis.natAbs / 3600000)).toList.length, 2, 2] := by
  have hamount := Amount.fraction (isRow_paddedNat 1 (millis.natAbs / 3600000))
    (isRow_paddedNat 2 (millis.natAbs / 60000 % 60)) (isRow_paddedNat 2 (millis.natAbs / 1000 % 60))
    (isRow_paddedNat 3 (millis.natAbs % 1000))
  rw [digitsValue_paddedNat, digitsValue_paddedNat, digitsValue_paddedNat,
    fractionOf_paddedNat (Nat.mod_lt _ (by decide)),
    length_paddedNat (n := millis.natAbs / 60000 % 60) (by decide) (by omega),
    length_paddedNat (n := millis.natAbs / 1000 % 60) (by decide) (by omega)] at hamount
  have htotal : millis.natAbs / 3600000 * 3600000 + millis.natAbs / 60000 % 60 * 60000 +
      millis.natAbs / 1000 % 60 * 1000 + millis.natAbs % 1000 = millis.natAbs := by omega
  rw [htotal] at hamount
  by_cases hnegative : millis < 0
  · have hdenotes := Denotes.negative hamount
    rw [show -(millis.natAbs : Int) = millis by omega] at hdenotes
    simpa [render, hnegative] using hdenotes
  · have hdenotes := Denotes.plain hamount
    rw [show (millis.natAbs : Int) = millis by omega] at hdenotes
    simpa [render, hnegative] using hdenotes

/-- What has been written can be read as long as the hours do not have too many digits. -/
theorem readWhole_render_iff (millis : Int) :
    readWhole (render millis) = .ok (some millis) ↔ millis.natAbs < 3600000 * 10 ^ digitLimit := by
  have hlimit : 2 ≤ digitLimit := by decide
  have hhours : millis.natAbs < 3600000 * 10 ^ digitLimit ↔
      (paddedNat 1 (millis.natAbs / 3600000)).toList.length ≤ digitLimit := by
    rw [length_paddedNat_le_iff (by decide), Nat.div_lt_iff_lt_mul (by decide), Nat.mul_comm]
  rw [hhours, readWhole_of_denotes (denotes_render millis), map_some_eq_ok_iff, settle_eq_ok_iff]
  simp [hlimit]

end CivilTime.Duration

namespace CivilTime.Source.Field

open Duration

theorem duration_eq_of_scan? {text : String} {found : Duration} {rest : List Char}
    (h : scan? text.toList = some (found, rest)) :
    duration text = number (.malformedDuration text) (found.millis.map some) := by
  have hmark : text ≠ "-" := by
    rintro rfl
    have hnone : scan? "-".toList = none := rfl
    rw [hnone] at h
    contradiction
  simp only [duration, readLeading, if_neg hmark, h]

/-- The lenient reader on a text is the strict one on the longest beginning. -/
theorem duration_eq_of_isLongest {start text : String} (h : IsLongest start text) :
    duration text = number (.malformedDuration text) (readWhole start) := by
  obtain ⟨found, rest, hscan, -⟩ := scan?_of_begins h.begins h.accepted
  obtain ⟨other, hlongest, hwhole⟩ := isLongest_of_scan? hscan
  rw [h.unique hlongest, hwhole]
  exact duration_eq_of_scan? hscan

theorem duration_of_readWhole {text : String} {n : Int} (h : readWhole text = .ok (some n)) :
    duration text = .ok n := by
  obtain ⟨lengths, hdenotes, hshort⟩ := readWhole_eq_some_iff.mp h
  obtain ⟨found, hscan, hmillis⟩ := hdenotes.scan?_eq
  rw [duration_eq_of_scan? hscan, hmillis, settle_eq_ok_iff.mpr ⟨rfl, hshort⟩]
  rfl

/-- Durations are read by one grammar in two ways. The strict reader accepts exactly its texts
without too many digits, with their milliseconds, and refuses the first number that has too many.
The lenient reader takes a lone hyphen for zero, reads the longest beginning that is in the grammar,
and refuses a text without one. Both agree where the strict one accepts, and both read back what has
been written, up to hours with too many digits. -/
theorem duration_grammar (text : String) :
    (∀ n, readWhole text = .ok (some n) ↔
      ∃ lengths, Denotes text.toList n lengths ∧ ∀ digits ∈ lengths, digits ≤ Text.digitLimit) ∧
    (∀ overlong, readWhole text = .error overlong ↔
      ∃ n lengths, Denotes text.toList n lengths ∧
        (lengths.find? fun digits => Text.digitLimit < digits) = some overlong.digits) ∧
    (readWhole text = .ok none ↔ ¬IsDuration text) ∧
    duration "-" = .ok 0 ∧
    (∀ start : String, start.toList <+: text.toList → IsDuration start →
      ∃ longest, IsLongest longest text) ∧
    (∀ longest, IsLongest longest text →
      (∀ n, readWhole longest = .ok (some n) → duration text = .ok n) ∧
      ∀ overlong, readWhole longest = .error overlong →
        duration text = .error (.overlong overlong)) ∧
    (text ≠ "-" → (∀ start : String, start.toList <+: text.toList → ¬IsDuration start) →
      duration text = .error (.malformedDuration text)) ∧
    (∀ n, readWhole text = .ok (some n) → duration text = .ok n) ∧
    ∀ millis : Int,
      (readWhole (render millis) = .ok (some millis) ∧ duration (render millis) = .ok millis ↔
        millis.natAbs < 3600000 * 10 ^ Text.digitLimit) := by
  refine ⟨fun n => readWhole_eq_some_iff, fun overlong => readWhole_eq_error_iff,
    readWhole_eq_none_iff, rfl, ?_, ?_, ?_, fun n => duration_of_readWhole, fun millis => ?_⟩
  · intro start hbegins haccepted
    obtain ⟨found, rest, hscan, -⟩ := scan?_of_begins hbegins haccepted
    obtain ⟨longest, hlongest, -⟩ := isLongest_of_scan? hscan
    exact ⟨longest, hlongest⟩
  · intro longest hlongest
    rw [duration_eq_of_isLongest hlongest]
    constructor
    · intro n hread
      rw [hread]
      rfl
    · intro overlong hrefused
      rw [hrefused]
      rfl
  · intro hmark hnone
    cases hscan : scan? text.toList with
    | none =>
      simp only [duration, readLeading, if_neg hmark, hscan]
      rfl
    | some found =>
      obtain ⟨longest, hlongest, -⟩ := isLongest_of_scan? hscan
      exact absurd hlongest.accepted (hnone longest hlongest.begins)
  · rw [← readWhole_render_iff]
    exact and_iff_left_of_imp duration_of_readWhole

/-- A negative time with more digits in its fraction than count, and with a letter after it. -/
theorem duration_grammar_suffixed :
    ∃ longest, IsLongest longest "-2:00:01.9999w" ∧ readWhole longest = .ok (some (-7201999)) ∧
      duration "-2:00:01.9999w" = .ok (-7201999) := by
  have hdigit : Text.isDecimal '2' = true := by decide
  have hstart : IsDuration "-2" :=
    ⟨_, _, .negative (.hours (h := ['2']) ⟨by simp, by simp [hdigit]⟩)⟩
  have hvalue : duration "-2:00:01.9999w" = .ok (-7201999) := by decide
  obtain ⟨-, -, -, -, hexists, hreads, -⟩ := duration_grammar "-2:00:01.9999w"
  obtain ⟨longest, hlongest⟩ := hexists "-2" ⟨":00:01.9999w".toList, rfl⟩ hstart
  obtain ⟨hread, hrefused⟩ := hreads longest hlongest
  obtain ⟨-, -, hnone, -⟩ := duration_grammar longest
  cases hwhole : readWhole longest with
  | error overlong =>
    rw [hrefused overlong hwhole] at hvalue
    cases hvalue
  | ok found =>
    cases found with
    | none => exact absurd hlongest.accepted (hnone.mp hwhole)
    | some n =>
      obtain rfl : n = -7201999 := Except.ok.inj ((hread n hwhole).symm.trans hvalue)
      exact ⟨longest, hlongest, hwhole, hvalue⟩

/-- Zero in one digit more than are read is refused for its length. -/
theorem overlong_zero :
    Denotes (List.replicate 4301 '0') 0 [4301] ∧
      readWhole (String.ofList (List.replicate 4301 '0')) = .error ⟨4301⟩ ∧
      duration (String.ofList (List.replicate 4301 '0')) = .error (.overlong ⟨4301⟩) := by
  have hdenotes : Denotes (List.replicate 4301 '0') 0 [4301] := denotes_zeros (by decide)
  have hstart : Denotes (String.ofList (List.replicate 4301 '0')).toList 0 [4301] := by
    rwa [String.toList_ofList]
  have hsettle : settle 0 [4301] = .error ⟨4301⟩ := by decide
  refine ⟨hdenotes, ?_, ?_⟩
  · rw [readWhole_of_denotes hstart, hsettle]
    rfl
  · obtain ⟨found, hscan, hmillis⟩ := hstart.scan?_eq
    rw [duration_eq_of_scan? hscan, hmillis, hsettle]
    rfl

end CivilTime.Source.Field
