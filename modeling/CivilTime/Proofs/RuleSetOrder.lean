import CivilTime.Proofs.RuleOrder
import CivilTime.Proofs.Stretches

/-!
The order in which the rules of a set are listed. A set with a negative saving also takes its anchor
from the rule listed first. Apart from that, and from ties and from the name of the state before all
rules, the order makes no difference to the offsets of a zone.
-/

namespace CivilTime

theorem YearPoint.exists_instantIn_days {point : YearPoint} (h : point.clock = .wall)
    (year standardOffset save : Int) :
    ∃ days, point.instantIn year standardOffset save =
      days * Instant.millisPerDay + point.millisOfDay - (standardOffset + save) := by
  rw [instantIn, localMillis, offset, Clock.offset, if_pos h]
  exact ⟨_, rfl⟩

namespace YearlyRule

def TimesDiffer (first second : YearlyRule) : Prop :=
  first.recurrence.point.clock = .wall ∧ second.recurrence.point.clock = .wall ∧
    (first.recurrence.point.millisOfDay - second.recurrence.point.millisOfDay) %
      Instant.millisPerDay ≠ 0

instance (first second : YearlyRule) : Decidable (first.TimesDiffer second) :=
  inferInstanceAs (Decidable (_ ∧ _ ∧ _))

variable {first second : YearlyRule} (h : first.TimesDiffer second)

include h

theorem TimesDiffer.untied (standardOffset : Int) (P : Int → Prop) :
    first.Untied standardOffset P second := by
  obtain ⟨hfirst, hsecond, hdiffer⟩ := h
  intro instant save _ hlater htie
  obtain ⟨year, hyear⟩ := exists_next_eq hlater
  obtain ⟨again, hagain⟩ := exists_next_eq (htie ▸ hlater)
  obtain ⟨days, hdays⟩ := YearPoint.exists_instantIn_days hfirst year standardOffset save
  obtain ⟨others, hothers⟩ := YearPoint.exists_instantIn_days hsecond again standardOffset save
  rw [hyear, hagain, hdays, hothers] at htie
  apply hdiffer
  simp only [Instant.millisPerDay_eq] at htie ⊢
  omega

/-- The same times of the day would have to be shown by the clocks after both rules. -/
theorem TimesDiffer.apart (standardOffset : Int) (P : Int → Prop)
    (hafter : (first.recurrence.point.millisOfDay + first.recurrence.save -
      (second.recurrence.point.millisOfDay + second.recurrence.save)) %
        Instant.millisPerDay ≠ 0) :
    first.Apart standardOffset P second := by
  refine ⟨h.untied standardOffset P, ?_⟩
  obtain ⟨hfirst, hsecond, -⟩ := h
  intro _ _ instant htie
  obtain ⟨year, hyear⟩ := first.recurrence.point.exists_next_eq instant standardOffset
    second.recurrence.save
  obtain ⟨again, hagain⟩ := second.recurrence.point.exists_next_eq instant standardOffset
    first.recurrence.save
  obtain ⟨days, hdays⟩ := YearPoint.exists_instantIn_days hfirst year standardOffset
    second.recurrence.save
  obtain ⟨others, hothers⟩ := YearPoint.exists_instantIn_days hsecond again standardOffset
    first.recurrence.save
  rw [hyear, hagain, hdays, hothers] at htie
  apply hafter
  simp only [Instant.millisPerDay_eq] at htie ⊢
  omega

end YearlyRule

namespace Source

namespace RuleSet

theorem lowestSave_perm {set other : RuleSet} (h : set.rules.Perm other.rules) :
    other.lowestSave = set.lowestSave := by
  apply h.symm.foldl_eq'
  intro first _ second _ lowest
  exact min_right_comm lowest first.save second.save

/-- A saving, counted from the lowest, that may be in effect while the rules of the set are
followed. -/
def InEffect (set : RuleSet) (save : Int) : Prop :=
  save = 0 ∨ ∃ rule ∈ set.resolvedRules, rule.save - set.lowestSave = save

end RuleSet

def Stretch.yearly (stretch : Stretch) (set : RuleSet) (rules : List Rule) : List YearlyRule :=
  (rules.filter fun rule => rule.fromYear ≤ rule.toYear).map fun rule =>
    rule.yearly set.lowestSave (set.resolvedFormat stretch.format)
      (stretch.standardOffset + set.lowestSave)

theorem Stretch.yearly_append (stretch : Stretch) (set : RuleSet) (first second : List Rule) :
    stretch.yearly set (first ++ second) =
      stretch.yearly set first ++ stretch.yearly set second := by
  simp [yearly]

/-- The first rule without saving, counted from the lowest, gives its name to the state before all
rules. -/
def Stretch.unsavedName? (stretch : Stretch) (set : RuleSet) : Option String :=
  ((stretch.yearly set set.rules).find? fun rule => rule.recurrence.save = 0).map fun rule =>
    rule.recurrence.name

/-- Nothing that the order of rules decides makes a difference in the stretch: no two of them occur
at the same instant, both orders have the same anchor, if any, and name the state without saving in
the same way. -/
structure Stretch.IgnoresOrder (stretch : Stretch) (set other : RuleSet) : Prop where
  apart : (stretch.yearly set set.rules).Pairwise
    (YearlyRule.Apart (stretch.standardOffset + set.lowestSave) set.InEffect)
  anchor : set.lowestSave < 0 → other.first.anchor = set.first.anchor
  unsaved : stretch.unsavedName? other = stretch.unsavedName? set

namespace RuleSet

theorem yearly_perm {set other : RuleSet} (h : set.rules.Perm other.rules) (stretch : Stretch) :
    stretch.yearly other = stretch.yearly set := by
  funext rules
  simp only [Stretch.yearly, resolvedFormat, lowestSave_perm h]

/-- The anchor has a saving, counted from the lowest. -/
theorem find?_resolvedRules (set : RuleSet) (stretch : Stretch) :
    ((stretch.yearly set set.resolvedRules).find? fun rule => rule.recurrence.save = 0) =
      (stretch.yearly set set.rules).find? fun rule => rule.recurrence.save = 0 := by
  have hanchors : (stretch.yearly set set.anchors).find? (fun rule => rule.recurrence.save = 0) =
      none := by
    rw [anchors]
    split
    · next hnegative =>
      rw [List.find?_eq_none]
      intro rule hrule
      obtain ⟨source, hsource, rfl⟩ := List.mem_map.mp hrule
      obtain rfl := List.mem_singleton.mp (List.mem_of_mem_filter hsource)
      simp [Rule.yearly, Rule.anchor]
      omega
    · rfl
  rw [resolvedRules_eq, Stretch.yearly_append, List.find?_append, hanchors, Option.none_or]

end RuleSet

namespace Zone

variable {name label : String} {rules others : String → Option RuleSet}

theorem resolveSavings_congr {stretch : Stretch}
    (h : ∀ savings ∈ stretch.ruleName?, others savings = rules savings) :
    resolveSavings name others stretch = resolveSavings name rules stretch := by
  rw [resolveSavings, resolveSavings]
  cases hsavings : stretch.savings with
  | none => rfl
  | some savings =>
    rcases hread : Duration.readWhole savings with overlong | _ | save
    · simp only [hread]
    · have hname := Stretch.ruleName?_eq_some_iff.mpr ⟨hsavings, hread⟩
      simp only [hread, h savings hname]
    · simp only [hread]

section Set

variable (name) {stretch : Stretch} {set other : RuleSet}
  (hname : stretch.ruleName? = some label) (hset : rules label = some set)

include hname hset

theorem era_of_yearly :
    era name rules stretch =
      { standardOffset := stretch.standardOffset + set.lowestSave
        rules := stretch.yearly set set.resolvedRules
        cutover := stretch.cutover? } :=
  era_of_set hname hset

/-- The state before all rules is named by the first one without saving. -/
theorem defaultTransition_of_set (start : Int) :
    (era name rules stretch).defaultTransition start =
      (stretch.unsavedName? set).map fun name =>
        ⟨start, name, stretch.standardOffset + set.lowestSave,
          stretch.standardOffset + set.lowestSave⟩ := by
  rw [era_of_yearly name hname hset, Era.defaultTransition, Stretch.unsavedName?]
  dsimp only
  rw [set.find?_resolvedRules, Option.map_map]
  cases hfind : (stretch.yearly set set.rules).find? fun rule => rule.recurrence.save = 0 with
  | none => rfl
  | some rule =>
    have hsave : rule.recurrence.save = 0 := by simpa using List.find?_some hfind
    simp [Era.stateOf, hsave]

theorem inEffect_of_era {save : Int} (h : (era name rules stretch).InEffect save) :
    set.InEffect save := by
  rw [era_of_yearly name hname hset] at h
  rcases h with rfl | ⟨_, hnone, -⟩ | ⟨rule, hrule, rfl⟩
  · exact Or.inl rfl
  · contradiction
  · obtain ⟨source, hsource, rfl⟩ := List.mem_map.mp hrule
    exact Or.inr ⟨source, List.mem_of_mem_filter hsource, rfl⟩

theorem era_reordered_of_set (hother : others label = some other)
    (hperm : set.rules.Perm other.rules) (h : stretch.IgnoresOrder set other) :
    (era name rules stretch).Reordered (era name others stretch) := by
  have hlowest := RuleSet.lowestSave_perm hperm
  have hanchors : other.anchors = set.anchors := by
    rw [RuleSet.anchors, RuleSet.anchors, hlowest]
    split
    · next hnegative => rw [h.anchor hnegative]
    · rfl
  have hapart := h.apart.imp fun {_ _} hpair =>
    hpair.mono fun save => inEffect_of_era name hname hset
  have hera := era_of_yearly name hname hset
  constructor
  · rw [hera, era_of_yearly name hname hother, hlowest]
  · rw [hera, era_of_yearly name hname hother]
  · rw [hera, era_of_yearly name hname hother]
  · refine ⟨stretch.yearly set set.anchors, stretch.yearly set set.rules,
      stretch.yearly set other.rules, ?_, ?_, ?_, ?_⟩
    · rw [hera, RuleSet.resolvedRules_eq, Stretch.yearly_append]
    · rw [era_of_yearly name hname hother, RuleSet.yearly_perm hperm,
        RuleSet.resolvedRules_eq, Stretch.yearly_append, hanchors]
    · exact (hperm.filter _).map _
    · rw [hera] at hapart ⊢
      exact hapart
  · intro start
    rw [defaultTransition_of_set name hname hset,
      defaultTransition_of_set name hname hother, h.unsaved, hlowest]

end Set

section Zone

variable {set other : RuleSet} (hset : rules label = some set) (hother : others label = some other)
  (hsame : ∀ savings ≠ label, others savings = rules savings)

include hset hother hsame

theorem resolveSavings_missing_eq (name : String) (stretch : Stretch) :
    (resolveSavings name others stretch).missing = (resolveSavings name rules stretch).missing := by
  by_cases hlabel : stretch.ruleName? = some label
  · rw [resolveSavings_of_set hlabel hset, resolveSavings_of_set hlabel hother]
  · rw [resolveSavings_congr]
    intro savings hname
    apply hsame
    rintro rfl
    exact hlabel hname

theorem resolveStretches_missing_eq (name : String) (stretches : List Stretch) :
    (resolveStretches name others stretches).missing =
      (resolveStretches name rules stretches).missing := by
  induction stretches with
  | nil => rfl
  | cons stretch rest ih =>
    have hstretch := resolveSavings_missing_eq hset hother hsame name stretch
    rw [resolveStretches, resolveStretches]
    cases hrules : (resolveSavings name rules stretch).missing with
    | some missing => simp only [hstretch, hrules]
    | none =>
      cases stretch.untilYear with
      | none => simp only [hstretch, hrules]
      | some year => simpa only [hstretch, hrules, Resolution.before] using ih

theorem era_reordered (name : String) (hperm : set.rules.Perm other.rules) {stretch : Stretch}
    (h : stretch.fixedSave? = none → stretch.savings = some label →
      stretch.IgnoresOrder set other) :
    (era name rules stretch).Reordered (era name others stretch) := by
  by_cases hlabel : stretch.ruleName? = some label
  · have hsavings := (Stretch.ruleName?_eq_some_iff.mp hlabel).1
    exact era_reordered_of_set name hlabel hset hother hperm
      (h (Stretch.fixedSave?_of_ruleName? hlabel) hsavings)
  · have hequal : era name others stretch = era name rules stretch := by
      rw [era, era, resolveSavings_congr]
      intro savings hname
      apply hsame
      rintro rfl
      exact hlabel hname
    rw [hequal]
    exact .refl _

theorem eras_reordered (name : String) (hperm : set.rules.Perm other.rules)
    {stretches : List Stretch}
    (h : ∀ stretch ∈ stretches, stretch.fixedSave? = none → stretch.savings = some label →
      stretch.IgnoresOrder set other) :
    List.Forall₂ Era.Reordered (eras name rules stretches) (eras name others stretches) := by
  induction stretches with
  | nil => exact .cons (.refl _) .nil
  | cons stretch rest ih =>
    have hstretch := era_reordered hset hother hsame name hperm (h stretch (by simp))
    rw [eras, eras]
    split
    · exact .cons hstretch .nil
    · exact .cons hstretch (ih fun other hother => h other (by simp [hother]))

end Zone

/-- The order of the rules in a set makes no difference to the offsets of a zone, as long as it
decides nothing in the stretches that follow them. -/
theorem offsets_ignore_rule_order (zone : Zone) (id : String)
    {rules others : String → Option RuleSet} {label : String} {set other : RuleSet}
    (hset : rules label = some set) (hother : others label = some other)
    (hsame : ∀ savings ≠ label, others savings = rules savings)
    (hperm : set.rules.Perm other.rules)
    (h : ∀ stretch ∈ zone.stretches, stretch.fixedSave? = none → stretch.savings = some label →
      stretch.IgnoresOrder set other) :
    (zone.resolve others).missing = (zone.resolve rules).missing ∧
      ((zone.resolve rules).missing = none →
        ((Draft.ofDirectives (zone.resolve others).directives).build? id).map
            (fun built => built.1.offsetAt) =
          ((Draft.ofDirectives (zone.resolve rules).directives).build? id).map
            fun built => built.1.offsetAt) := by
  have hmissing : (zone.resolve others).missing = (zone.resolve rules).missing :=
    resolveStretches_missing_eq hset hother hsame zone.name zone.stretches
  refine ⟨hmissing, ?_⟩
  intro hnone
  rw [ofDirectives_resolve zone hnone, ofDirectives_resolve zone (hmissing.trans hnone)]
  exact Draft.build?_reordered (eras_reordered hset hother hsame zone.name hperm h) id

def wallRule (fromYear toYear month millisOfDay save : Int) (letter : String) : Rule where
  name := "R"
  fromYear := fromYear
  toYear := toYear
  type := none
  point := { month, millisOfDay }
  save := save
  letter := some letter

def onlyRules (set : RuleSet) (name : String) : Option RuleSet :=
  if name = "R" then some set else none

def openStretch (format : String) : Stretch where
  standardOffset := 0
  savings := some "R"
  format := format
  untilYear := none
  untilPoint := .startOfYear

def winterOrder : RuleSet where
  first := wallRule 1971 9999 10 7200000 (-3600000) "W"
  others := [wallRule 1972 9999 4 10800000 0 "S", wallRule 1980 1981 7 14400000 3600000 "D"]

def turnedOrder : RuleSet where
  first := wallRule 1971 9999 10 7200000 (-3600000) "W"
  others := [wallRule 1980 1981 7 14400000 3600000 "D", wallRule 1972 9999 4 10800000 0 "S"]

def openZone : Zone where
  name := "Z"
  first := openStretch "X%sT"

theorem openStretch_ignoresOrder : (openStretch "X%sT").IgnoresOrder winterOrder turnedOrder where
  apart := by
    have htimes : ((openStretch "X%sT").yearly winterOrder winterOrder.rules).Pairwise
        fun first second => first.TimesDiffer second ∧
          (first.recurrence.point.millisOfDay + first.recurrence.save -
            (second.recurrence.point.millisOfDay + second.recurrence.save)) %
              Instant.millisPerDay ≠ 0 := by
      decide
    exact htimes.imp fun {_ _} h => h.1.apart _ _ h.2
  anchor := fun _ => rfl
  unsaved := by decide

theorem offsets_ignore_rule_order_in_winter :
    winterOrder.rules.Perm turnedOrder.rules ∧
      (openStretch "X%sT").IgnoresOrder winterOrder turnedOrder ∧
      (openZone.resolve (onlyRules winterOrder)).missing = none ∧
      ∃ offsets,
        ((Draft.ofDirectives (openZone.resolve (onlyRules winterOrder)).directives).build? "Z").map
            (fun built => built.1.offsetAt) = some offsets ∧
          ((Draft.ofDirectives (openZone.resolve (onlyRules turnedOrder)).directives).build? "Z").map
            (fun built => built.1.offsetAt) = some offsets := by
  have hperm : winterOrder.rules.Perm turnedOrder.rules := by decide
  have hmissing : (openZone.resolve (onlyRules winterOrder)).missing = none := by decide
  have hbuilt : ((Draft.ofDirectives
      (openZone.resolve (onlyRules winterOrder)).directives).build? "Z").isSome = true := by
    decide +kernel
  obtain ⟨built, hsome⟩ := Option.isSome_iff_exists.mp hbuilt
  have hwinter : onlyRules winterOrder "R" = some winterOrder := rfl
  have hturned : onlyRules turnedOrder "R" = some turnedOrder := rfl
  have helse : ∀ savings ≠ "R", onlyRules turnedOrder savings = onlyRules winterOrder savings := by
    intro savings hother
    rw [onlyRules, onlyRules, if_neg hother, if_neg hother]
  obtain ⟨-, hsame⟩ := offsets_ignore_rule_order openZone "Z" hwinter hturned helse hperm
    (by simpa [stretches, openZone] using fun _ _ => openStretch_ignoresOrder)
  refine ⟨hperm, openStretch_ignoresOrder, hmissing, built.1.offsetAt, ?_, ?_⟩
  · rw [hsome]
    rfl
  · rw [hsame hmissing, hsome]
    rfl

def offsetUnder? (zone : Zone) (set : RuleSet) (instant : Int) : Option Int :=
  ((Draft.ofDirectives (zone.resolve (onlyRules set)).directives).build? zone.name).map
    fun built => built.1.offsetAt instant

/-- Two orders of the same rules, no two of which ever occur at the same instant, lead to different
offsets at some instant. -/
def DependsOnOrder (zone : Zone) (set other : RuleSet) (instant : Int) : Prop :=
  set.rules.Perm other.rules ∧
    (∀ stretch ∈ zone.stretches, stretch.savings = some "R" →
      (stretch.yearly set set.rules).Pairwise
        (YearlyRule.Untied (stretch.standardOffset + set.lowestSave) set.InEffect)) ∧
    ∃ first second, zone.offsetUnder? set instant = some first ∧
      zone.offsetUnder? other instant = some second ∧ first ≠ second

theorem untied_of_times {zone : Zone} {set : RuleSet}
    (h : ∀ stretch ∈ zone.stretches,
      (stretch.yearly set set.rules).Pairwise YearlyRule.TimesDiffer) :
    ∀ stretch ∈ zone.stretches, stretch.savings = some "R" →
      (stretch.yearly set set.rules).Pairwise
        (YearlyRule.Untied (stretch.standardOffset + set.lowestSave) set.InEffect) :=
  fun stretch hstretch _ => (h stretch hstretch).imp fun {_ _} hdiffer => hdiffer.untied _ _

/-- The rule listed first begins last, so the anchor goes on after the others have begun. -/
def lateAnchor : RuleSet where
  first := wallRule 1803 9999 10 7200000 (-3600000) "W"
  others := [wallRule 1801 9999 4 10800000 0 "S", wallRule 1801 1802 7 14400000 (-3600000) "V"]

def earlyAnchor : RuleSet where
  first := wallRule 1801 9999 4 10800000 0 "S"
  others := [wallRule 1803 9999 10 7200000 (-3600000) "W",
    wallRule 1801 1802 7 14400000 (-3600000) "V"]

/-- The state before all rules has the name that the first rule gives it again. -/
def sameName : RuleSet where
  first := wallRule 1900 1900 1 1200000 0 "A"
  others := [wallRule 1910 1910 1 0 0 "B", wallRule 1900 1900 1 3600000 3600000 "C"]

def otherName : RuleSet where
  first := wallRule 1910 1910 1 0 0 "B"
  others := [wallRule 1900 1900 1 1200000 0 "A", wallRule 1900 1900 1 3600000 3600000 "C"]

def nameZone : Zone where
  name := "Z"
  first :=
    { standardOffset := 3600000
      savings := none
      format := "XXT"
      untilYear := some 1900
      untilPoint := { clock := .universal } }
  others := [openStretch "X%sT"]

/-- Under the saving of the other, each of the two rules comes up at three o'clock. -/
def savingFirst : RuleSet where
  first := wallRule 1801 9999 4 10800000 3600000 "S"
  others := [wallRule 1801 9999 4 14400000 0 "E"]

def savingLast : RuleSet where
  first := wallRule 1801 9999 4 14400000 0 "E"
  others := [wallRule 1801 9999 4 10800000 3600000 "S"]

/-- The order decides in three ways: by the rule that the anchor is taken from, by the name of the
state before all rules, which a later transition may take back or not, and by the turn of the two
rules of a tail that come up at the same instant. -/
theorem rule_order_matters :
    openZone.DependsOnOrder lateAnchor earlyAnchor (-5300000000000) ∧
      nameZone.DependsOnOrder sameName otherName (-2208987000000) ∧
      openZone.DependsOnOrder savingFirst savingLast 1000000000000 := by
  refine ⟨⟨by decide, ?_, 0, -3600000, by decide +kernel, by decide +kernel, by decide⟩,
    ⟨by decide, ?_, 3600000, 0, by decide +kernel, by decide +kernel, by decide⟩,
    ⟨by decide, ?_, 0, 3600000, by decide +kernel, by decide +kernel, by decide⟩⟩
  · exact untied_of_times (by decide)
  · exact untied_of_times (by decide)
  · exact untied_of_times (by decide)

end Zone

end Source

end CivilTime
