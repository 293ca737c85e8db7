import CivilTime.Text.LowerCase
import CivilTime.Text.Numbers
import CivilTime.Text.Pieces
import Mathlib.Data.List.TakeWhile
import Mathlib.Tactic

/-!
What the readers of fields rely on about texts: the first place of a pattern divides a text, rows of
digits have the values that they are written for, an integer literal holds nothing but its sign,
digits, underscores and white space, and the lower case of a text is made from its characters one by
one.
-/

namespace CivilTime.Text

theorem after?_eq_some_iff {pattern cs rest : List Char} :
    after? pattern cs = some rest ↔ cs = pattern ++ rest := by
  fun_induction after? pattern cs with
  | case1 cs => simp
  | case2 p pattern => simp
  | case3 pattern c cs ih => simp [ih]
  | case4 p pattern c cs hne => simp [Ne.symm hne]

theorem splitAtFirstOnto_eq_some {pattern before cs found after : List Char}
    (h : splitAtFirstOnto pattern before cs = some (found, after)) :
    before.reverse ++ cs = found ++ pattern ++ after := by
  induction cs generalizing before with
  | nil =>
    obtain ⟨rest, hrest, hfound⟩ := Option.map_eq_some_iff.mp h
    obtain ⟨rfl, rfl⟩ := Prod.mk.inj hfound
    rw [after?_eq_some_iff] at hrest
    rw [List.append_assoc, ← hrest]
  | cons c cs ih =>
    rw [splitAtFirstOnto] at h
    cases hafter : after? pattern (c :: cs) with
    | some rest =>
      simp only [hafter, Option.some.injEq, Prod.mk.injEq] at h
      obtain ⟨rfl, rfl⟩ := h
      rw [List.append_assoc, ← after?_eq_some_iff.mp hafter]
    | none =>
      simp only [hafter] at h
      rw [← ih h, List.reverse_cons, List.append_assoc]
      rfl

theorem splitAtFirst?_eq_some {pattern cs before after : List Char}
    (h : splitAtFirst? pattern cs = some (before, after)) : cs = before ++ pattern ++ after :=
  splitAtFirstOnto_eq_some h

/-- A pattern is not found before its first character is. -/
theorem splitAtFirstOnto_of_not_mem {p : Char} {pattern skipped : List Char} (h : p ∉ skipped)
    (before cs : List Char) :
    splitAtFirstOnto (p :: pattern) before (skipped ++ cs) =
      splitAtFirstOnto (p :: pattern) (skipped.reverse ++ before) cs := by
  induction skipped generalizing before with
  | nil => rfl
  | cons c skipped ih =>
    have hne : p ≠ c := fun hsame => h (hsame ▸ List.mem_cons_self)
    have hrest : p ∉ skipped := fun hmem => h (List.mem_cons_of_mem c hmem)
    have hnone : after? (p :: pattern) (c :: (skipped ++ cs)) = none := if_neg hne
    rw [List.cons_append, splitAtFirstOnto, hnone]
    dsimp only
    rw [ih hrest, List.reverse_cons, List.append_assoc, List.singleton_append]

theorem splitAtFirst?_append {p : Char} {pattern before : List Char} (h : p ∉ before)
    (after : List Char) :
    splitAtFirst? (p :: pattern) (before ++ (p :: pattern) ++ after) = some (before, after) := by
  have hfound : after? (p :: pattern) (p :: (pattern ++ after)) = some after :=
    after?_eq_some_iff.mpr rfl
  rw [splitAtFirst?, List.append_assoc, splitAtFirstOnto_of_not_mem h, List.cons_append,
    splitAtFirstOnto, hfound]
  simp

theorem splitAtFirst?_eq_none {p : Char} {cs : List Char} (h : p ∉ cs) (pattern : List Char) :
    splitAtFirst? (p :: pattern) cs = none := by
  have hskip : splitAtFirstOnto (p :: pattern) [] (cs ++ []) =
      splitAtFirstOnto (p :: pattern) (cs.reverse ++ []) [] :=
    splitAtFirstOnto_of_not_mem h [] []
  rw [List.append_nil] at hskip
  rw [splitAtFirst?, hskip]
  rfl

theorem digitValue?_lt {c : Char} {d : Nat} (h : digitValue? c = some d) : d < 10 := by
  obtain ⟨start, hfind, rfl⟩ := Option.map_eq_some_iff.mp h
  have hrange := List.find?_some hfind
  simp only [Bool.and_eq_true, decide_eq_true_eq] at hrange
  omega

/-- Digits read after the value of what stands before them. -/
theorem foldl_digits (n : Nat) (cs : List Char) :
    cs.foldl (fun n c => n * 10 + (digitValue? c).getD 0) n =
      n * 10 ^ cs.length + digitsValue cs := by
  induction cs generalizing n with
  | nil => simp [digitsValue]
  | cons c cs ih =>
    have hvalue : digitsValue (c :: cs) =
        (0 * 10 + (digitValue? c).getD 0) * 10 ^ cs.length + digitsValue cs := ih _
    rw [List.foldl_cons, ih, hvalue, List.length_cons]
    ring

theorem digitsValue_append (first second : List Char) :
    digitsValue (first ++ second) =
      digitsValue first * 10 ^ second.length + digitsValue second := by
  rw [digitsValue, List.foldl_append, foldl_digits]
  rfl

theorem digitsValue_lt (cs : List Char) : digitsValue cs < 10 ^ cs.length := by
  induction cs using List.reverseRecOn with
  | nil => simp [digitsValue]
  | append_singleton cs c ih =>
    have hdigit : digitsValue [c] < 10 := by
      cases hvalue : digitValue? c with
      | none => simp [digitsValue, hvalue]
      | some d => simpa [digitsValue, hvalue] using digitValue?_lt hvalue
    rw [digitsValue_append, List.length_append, List.length_singleton, pow_one, pow_succ]
    omega

theorem digitValue?_of_isDigit {c : Char} (h : c.isDigit = true) :
    digitValue? c = some (c.toNat - 48) := by
  have hrange : 48 ≤ c.toNat ∧ c.toNat ≤ 57 := Char.isDigit_iff_toNat.mp h
  have hfind : (zeros.find? fun start => start ≤ c.toNat && c.toNat < start + 10) = some 48 := by
    rw [zeros, List.find?_cons_of_pos]
    simp only [Bool.and_eq_true, decide_eq_true_eq]
    omega
  rw [digitValue?, hfind, Option.map_some]

theorem isDecimal_of_isDigit {c : Char} (h : c.isDigit = true) : isDecimal c = true := by
  simp [isDecimal, digitValue?_of_isDigit h]

theorem digitsValue_of_isDigit {cs : List Char} (h : ∀ c ∈ cs, c.isDigit = true) :
    digitsValue cs = Nat.ofDigitChars 10 cs 0 := by
  rw [digitsValue, Nat.ofDigitChars_eq_foldl]
  apply List.foldl_ext
  intro n c hc
  rw [digitValue?_of_isDigit (h c hc), Option.getD_some, Nat.mul_comm]
  rfl

section Padded

variable (width n : Nat)

theorem toList_paddedNat :
    (paddedNat width n).toList =
      List.replicate (width - (Nat.toDigits 10 n).length) '0' ++ Nat.toDigits 10 n := by
  rw [paddedNat, String.toList_ofList]

theorem isDigit_paddedNat : ∀ c ∈ (paddedNat width n).toList, c.isDigit = true := by
  intro c hc
  rw [toList_paddedNat] at hc
  rcases List.mem_append.mp hc with hzero | hdigit
  · rw [List.eq_of_mem_replicate hzero]
    rfl
  · exact Nat.isDigit_of_mem_toDigits (by decide) (by decide) hdigit

theorem paddedNat_ne_nil : (paddedNat width n).toList ≠ [] := by
  simp [toList_paddedNat, Nat.toDigits_ne_nil]

/-- Filling with zeros does not change the value. -/
theorem digitsValue_paddedNat : digitsValue (paddedNat width n).toList = n := by
  rw [digitsValue_of_isDigit (isDigit_paddedNat width n), toList_paddedNat,
    Nat.ofDigitChars_append, Nat.ofDigitChars_replicate_zero, Nat.mul_zero,
    Nat.ofDigitChars_ten_toDigits]

end Padded

theorem length_paddedNat {width n : Nat} (hwidth : 0 < width) (h : n < 10 ^ width) :
    (paddedNat width n).toList.length = width := by
  have hlength := (Nat.length_toDigits_le_iff (by decide) hwidth).mpr h
  rw [toList_paddedNat, List.length_append, List.length_replicate]
  omega

theorem length_paddedNat_le_iff {n limit : Nat} (hlimit : 0 < limit) :
    (paddedNat 1 n).toList.length ≤ limit ↔ n < 10 ^ limit := by
  rw [← Nat.length_toDigits_le_iff (by decide) hlimit, toList_paddedNat, List.length_append,
    List.length_replicate]
  omega

theorem mem_of_groupedValue? {n value : Nat} {joined : Bool} {cs : List Char}
    (h : groupedValue? n joined cs = some value) :
    ∀ c ∈ cs, c = '_' ∨ isDecimal c = true := by
  induction cs generalizing n joined with
  | nil => simp
  | cons d cs ih =>
    rw [groupedValue?] at h
    intro c hc
    rcases List.mem_cons.mp hc with rfl | hrest
    · by_cases hunderscore : c = '_'
      · exact Or.inl hunderscore
      · rw [if_neg hunderscore] at h
        cases hdigit : digitValue? c with
        | none => simp [hdigit] at h
        | some value => exact Or.inr (by simp [isDecimal, hdigit])
    · split_ifs at h
      · exact ih h c hrest
      · cases hdigit : digitValue? d with
        | none => simp [hdigit] at h
        | some value =>
          simp only [hdigit] at h
          exact ih h c hrest

/-- The literal without the white space around it. -/
theorem mem_trimmed {isBlank : Char → Bool} {cs : List Char} {c : Char} (hc : c ∈ cs)
    (hblank : isBlank c = false) :
    c ∈ ((cs.dropWhile isBlank).reverse.dropWhile isBlank).reverse := by
  have hkept : ∀ cs : List Char, c ∈ cs → c ∈ cs.dropWhile isBlank := by
    intro cs hc
    rw [← List.takeWhile_append_dropWhile (p := isBlank) (l := cs)] at hc
    rcases List.mem_append.mp hc with htaken | hdropped
    · have hall := List.mem_takeWhile_imp htaken
      simp [hblank] at hall
    · exact hdropped
  rw [List.mem_reverse]
  apply hkept
  rw [List.mem_reverse]
  exact hkept cs hc

/-- A literal is its sign, if it has one, and what follows it. -/
theorem mem_splitSign {text : String} {c : Char} (hc : c ∈ text.toList)
    (hblank : isIntegerBlank c = false) : c = '-' ∨ c = '+' ∨ c ∈ (splitSign text).2 := by
  have hinner := mem_trimmed hc hblank
  rw [splitSign]
  split
  · next cs heq =>
    rw [heq] at hinner
    rcases List.mem_cons.mp hinner with rfl | hmem
    · exact Or.inl rfl
    · exact Or.inr (Or.inr hmem)
  · next cs heq =>
    rw [heq] at hinner
    rcases List.mem_cons.mp hinner with rfl | hmem
    · exact Or.inr (Or.inl rfl)
    · exact Or.inr (Or.inr hmem)
  · exact Or.inr (Or.inr hinner)

theorem mem_of_integer? {text : String} {n : Int} (h : integer? text = some n) {c : Char}
    (hc : c ∈ text.toList) :
    isIntegerBlank c = true ∨ c = '-' ∨ c = '+' ∨ c = '_' ∨ isDecimal c = true := by
  cases hblank : isIntegerBlank c with
  | true => exact Or.inl rfl
  | false =>
    obtain ⟨value, hvalue, -⟩ := Option.map_eq_some_iff.mp h
    rcases mem_splitSign hc hblank with hminus | hplus | hmem
    · exact Or.inr (Or.inl hminus)
    · exact Or.inr (Or.inr (Or.inl hplus))
    · exact Or.inr (Or.inr (Or.inr (mem_of_groupedValue? hvalue c hmem)))

/-- Only a literal with a minus sign is negative. -/
theorem integer?_nonneg {text : String} {n : Int} (h : integer? text = some n)
    (hsign : '-' ∉ text.toList) : 0 ≤ n := by
  have hplain : (splitSign text).1 = false := by
    rw [splitSign]
    split
    · next cs heq =>
      refine absurd ?_ hsign
      have hmem : '-' ∈ ((text.toList.dropWhile isIntegerBlank).reverse.dropWhile
          isIntegerBlank).reverse := heq ▸ List.mem_cons_self
      have houter := (List.dropWhile_sublist _).subset (List.mem_reverse.mp hmem)
      exact (List.dropWhile_sublist _).subset (List.mem_reverse.mp houter)
    · rfl
    · rfl
  rw [integer?, hplain] at h
  obtain ⟨value, -, rfl⟩ := Option.map_eq_some_iff.mp h
  exact Int.natCast_nonneg value

theorem readInteger_eq_ok {text : String} {n : Option Int} (h : readInteger text = .ok n) :
    integer? text = n := by
  rw [readInteger] at h
  cases hcheck : checkDigits ((groupedDigits? 0 false (splitSign text).2).getD 0) with
  | error overlong => simp [hcheck, bind, Except.bind] at h
  | ok checked =>
    rw [hcheck] at h
    exact Except.ok.inj h

theorem lowerOnto_eq (done before cs : List Char) :
    lowerOnto done before cs = done.reverse ++ lowerOnto [] before cs := by
  induction cs generalizing done before with
  | nil => simp [lowerOnto]
  | cons c cs ih =>
    rw [lowerOnto, ih, lowerOnto, ih (_ ++ [])]
    simp

theorem lowerOnto_cons (before : List Char) (c : Char) (cs : List Char) :
    lowerOnto [] before (c :: cs) = lowerAt before c cs ++ lowerOnto [] (c :: before) cs := by
  rw [lowerOnto, lowerOnto_eq]
  simp

theorem toList_lower (text : String) : (lower text).toList = lowerOnto [] [] text.toList := by
  rw [lower, String.toList_ofList]

/-- A character that is its own lower case is found in the lower case of a text. -/
theorem mem_lower {c : Char} (hsame : ∀ before after, lowerAt before c after = [c]) {text : String}
    (hc : c ∈ text.toList) : c ∈ (lower text).toList := by
  have honto : ∀ (cs before : List Char), c ∈ cs → c ∈ lowerOnto [] before cs := by
    intro cs
    induction cs with
    | nil => simp
    | cons d cs ih =>
      intro before hc
      rw [lowerOnto_cons, List.mem_append]
      rcases List.mem_cons.mp hc with rfl | hrest
      · exact Or.inl (by simp [hsame])
      · exact Or.inr (ih (d :: before) hrest)
  rw [toList_lower]
  exact honto text.toList [] hc

/-- The small letter of the character does not hang on the text around it. -/
def Ordinary (c : Char) : Prop := c.toNat ≠ 0x130 ∧ c.toNat ≠ 0x3a3

theorem lowerAt_of_ordinary {c : Char} (h : Ordinary c) (before after : List Char) :
    lowerAt before c after = [smallLetter c] := by
  rw [lowerAt, if_neg h.1, if_neg h.2]

theorem lowerOnto_append {start : List Char} (h : ∀ c ∈ start, Ordinary c)
    (before rest : List Char) :
    lowerOnto [] before (start ++ rest) =
      start.map smallLetter ++ lowerOnto [] (start.reverse ++ before) rest := by
  induction start generalizing before with
  | nil => rfl
  | cons c start ih =>
    have hstart := fun d hd => h d (List.mem_cons_of_mem c hd)
    rw [List.cons_append, lowerOnto_cons, lowerAt_of_ordinary (h c List.mem_cons_self), ih hstart]
    simp

/-- Two characters alone lower otherwise: to an `i` with a dot, and to one of the small sigmas. -/
theorem lowerAt_eq_cons {before after rest : List Char} {c d : Char}
    (h : lowerAt before c after = d :: rest) (hascii : d.toNat < 128) (hdot : d ≠ 'i') :
    Ordinary c ∧ smallLetter c = d ∧ rest = [] := by
  rw [lowerAt] at h
  split_ifs at h with hi hsigma hfinal
  · exact absurd (List.cons.inj h).1.symm hdot
  · obtain ⟨rfl, -⟩ := List.cons.inj h
    exact absurd hascii (by decide)
  · obtain ⟨rfl, -⟩ := List.cons.inj h
    exact absurd hascii (by decide)
  · obtain ⟨hsmall, hrest⟩ := List.cons.inj h
    exact ⟨⟨hi, hsigma⟩, hsmall, hrest.symm⟩

theorem lowerAt_ne_nil (before : List Char) (c : Char) (after : List Char) :
    lowerAt before c after ≠ [] := by
  rw [lowerAt]
  split_ifs <;> simp

theorem exists_ordinary_start {word : List Char} (hword : ∀ d ∈ word, d.toNat < 128 ∧ d ≠ 'i')
    {before cs : List Char} (h : word <+: lowerOnto [] before cs) :
    ∃ start rest, cs = start ++ rest ∧ (∀ c ∈ start, Ordinary c) ∧
      start.map smallLetter = word := by
  induction word generalizing before cs with
  | nil => exact ⟨[], cs, rfl, by simp, rfl⟩
  | cons d word ih =>
    cases cs with
    | nil =>
      have hempty := List.prefix_nil.mp h
      cases hempty
    | cons c cs =>
      rw [lowerOnto_cons] at h
      cases hlower : lowerAt before c cs with
      | nil => exact absurd hlower (lowerAt_ne_nil before c cs)
      | cons e more =>
        rw [hlower, List.cons_append, List.cons_prefix_cons] at h
        obtain ⟨rfl, hmore⟩ := h
        obtain ⟨hascii, hdot⟩ := hword d List.mem_cons_self
        obtain ⟨hordinary, hsmall, rfl⟩ := lowerAt_eq_cons hlower hascii hdot
        obtain ⟨start, rest, rfl, hstart, hmap⟩ :=
          ih (fun e he => hword e (List.mem_cons_of_mem d he)) hmore
        refine ⟨c :: start, rest, rfl, ?_, by rw [List.map_cons, hsmall, hmap]⟩
        intro e he
        rcases List.mem_cons.mp he with rfl | hrest
        · exact hordinary
        · exact hstart e hrest

theorem lowerOnto_eq_nil_iff {before cs : List Char} : lowerOnto [] before cs = [] ↔ cs = [] := by
  cases cs with
  | nil => simp [lowerOnto]
  | cons c cs => simp [lowerOnto_cons, lowerAt_ne_nil]

/-- A text begins with a word, in lower case, exactly if it begins with a text that has the word as
its lower case. -/
theorem isPrefix_lower_iff {word text : String}
    (hword : ∀ d ∈ word.toList, d.toNat < 128 ∧ d ≠ 'i') :
    word.toList <+: (lower text).toList ↔
      ∃ start rest, text = start ++ rest ∧ lower start = word := by
  constructor
  · intro h
    rw [toList_lower] at h
    obtain ⟨start, rest, htext, hordinary, hsmall⟩ := exists_ordinary_start hword h
    refine ⟨String.ofList start, String.ofList rest, ?_, ?_⟩
    · rw [← String.ofList_append, ← htext, String.ofList_toList]
    · apply String.toList_inj.mp
      have hlower := lowerOnto_append hordinary [] []
      rw [List.append_nil, lowerOnto_eq_nil_iff.mpr rfl, List.append_nil] at hlower
      rw [toList_lower, String.toList_ofList, hlower, hsmall]
  · rintro ⟨start, rest, rfl, hlower⟩
    have hwhole : word.toList <+: lowerOnto [] [] start.toList := by
      rw [← toList_lower, hlower]
    obtain ⟨begun, others, hstart, hordinary, hsmall⟩ := exists_ordinary_start hword hwhole
    rw [toList_lower, String.toList_append, hstart, List.append_assoc, lowerOnto_append hordinary,
      hsmall]
    exact List.prefix_append _ _

theorem length_eq_of_lower {word start : String}
    (hword : ∀ d ∈ word.toList, d.toNat < 128 ∧ d ≠ 'i') (h : lower start = word) :
    start.toList.length = word.toList.length := by
  have hwhole : lowerOnto [] [] start.toList = word.toList := by
    rw [← toList_lower, h]
  have hbegins : word.toList <+: lowerOnto [] [] start.toList := by rw [hwhole]
  obtain ⟨begun, others, hstart, hordinary, hsmall⟩ := exists_ordinary_start hword hbegins
  rw [hstart, lowerOnto_append hordinary, hsmall] at hwhole
  have hnone := List.append_cancel_left (hwhole.trans (List.append_nil _).symm)
  rw [hstart, lowerOnto_eq_nil_iff.mp hnone, List.append_nil, ← hsmall, List.length_map]

/-- Beyond ASCII only the Kelvin sign has an ASCII character as its small letter. -/
theorem toLower_of_smallLetter {c d : Char} (h : smallLetter c = d) (hpos : 0 < d.toNat)
    (hascii : d.toNat < 128) (hk : d.toNat ≠ 107) : c.toNat < 128 ∧ c.toLower = d := by
  have hruns : ∀ run ∈ capitals, run.last < 128 ∨ 128 ≤ (run.first : Int) + run.shift ∨
      (run.first = run.last ∧ (run.first : Int) + run.shift = 107) := by
    decide +kernel
  by_cases hsmall : c.toNat < 128
  · rw [smallLetter, if_pos hsmall] at h
    exact ⟨hsmall, h⟩
  · rw [smallLetter, if_neg hsmall] at h
    cases hrun : capitals.find? fun run => run.has c with
    | none =>
      simp only [hrun] at h
      exact absurd (h ▸ hascii) hsmall
    | some run =>
      simp only [hrun] at h
      have hhas := List.find?_some hrun
      have hcase := hruns run (List.mem_of_find?_eq_some hrun)
      simp only [CapitalRun.has, Bool.and_eq_true, decide_eq_true_eq] at hhas
      have hvalue : d.toNat = (c.toNat + run.shift).toNat ∨ d.toNat = 0 := by
        by_cases hvalid : (c.toNat + run.shift).toNat.isValidChar
        · rw [← h, Char.ofNat, dif_pos hvalid]
          exact Or.inl rfl
        · rw [← h, Char.ofNat, dif_neg hvalid]
          exact Or.inr rfl
      omega

end CivilTime.Text
