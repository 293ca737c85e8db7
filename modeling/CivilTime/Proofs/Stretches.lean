import CivilTime.Proofs.Layout
import CivilTime.Source.Zone

/-!
The eras that a zone lays out. The directives of a stretch configure one era, and the end of the
stretch closes it; a zone whose stretches all end leaves an empty era behind the last of them.
-/

namespace CivilTime

def Directive.isCutover : Directive → Bool
  | .cutover _ _ => true
  | .standardOffset _ | .fixedSaving _ _ | .recurringSaving _ _ _ => false

/-- What a directive says about the era that it falls into. -/
def Era.configure (era : Era) : Directive → Era
  | .standardOffset millis => { era with standardOffset := millis }
  | .fixedSaving name save => { era with fixed := some ⟨name, save⟩ }
  | .recurringSaving recurrence fromYear toYear =>
    if toYear < fromYear then era
    else { era with rules := era.rules ++ [⟨recurrence, fromYear, toYear⟩] }
  | .cutover _ _ => era

/-- Only the end of a stretch closes its era. -/
theorem Era.foldl_configure_cutover (directives : List Directive) (era : Era) :
    (directives.foldl Era.configure era).cutover = era.cutover := by
  induction directives generalizing era with
  | nil => rfl
  | cons directive rest ih =>
    rw [List.foldl_cons, ih]
    cases directive with
    | recurringSaving recurrence fromYear toYear =>
      rw [Era.configure]
      split <;> rfl
    | _ => rfl

namespace Draft

theorem apply_configure (earlier : List Era) (last : Era) {directive : Directive}
    (h : directive.isCutover = false) :
    (⟨earlier ++ [last]⟩ : Draft).apply directive = ⟨earlier ++ [last.configure directive]⟩ := by
  cases directive with
  | standardOffset millis => simp [apply, Era.configure]
  | fixedSaving name save => simp [apply, Era.configure]
  | recurringSaving recurrence fromYear toYear =>
    rw [apply, Era.configure]
    split
    · rfl
    · simp
  | cutover year point => simp [Directive.isCutover] at h

theorem foldl_configure (earlier : List Era) (last : Era) {directives : List Directive}
    (h : ∀ directive ∈ directives, directive.isCutover = false) :
    directives.foldl apply ⟨earlier ++ [last]⟩ =
      ⟨earlier ++ [directives.foldl Era.configure last]⟩ := by
  induction directives generalizing last with
  | nil => rfl
  | cons directive rest ih =>
    rw [List.foldl_cons, apply_configure earlier last (h directive (by simp)), List.foldl_cons]
    exact ih _ fun other hother => h other (by simp [hother])

theorem apply_cutover (earlier : List Era) (last : Era) (year : Int) (point : YearPoint) :
    (⟨earlier ++ [last]⟩ : Draft).apply (.cutover year point) =
      ⟨(earlier ++ [{ last with cutover := some ⟨year, point⟩ }]) ++ [({} : Era)]⟩ := by
  simp [apply]

end Draft

namespace Source

namespace Rule

/-- The rule of an era that a rule becomes, where `lowest` is taken off its saving. -/
def yearly (rule : Rule) (lowest : Int) (format : String) (standardOffset : Int) : YearlyRule :=
  { recurrence :=
      { point := rule.point
        name := Abbreviation.render format (rule.save - lowest) rule.letter standardOffset
        save := rule.save - lowest }
    fromYear := rule.fromYear
    toYear := rule.toYear }

/-- Rules whose years are in order are added to an era one by one. -/
theorem foldl_configure (rules : List Rule) (era : Era) (lowest : Int) (format : String)
    (standardOffset : Int) :
    (rules.map fun rule => rule.directive lowest format standardOffset).foldl Era.configure era =
      { era with
        rules := era.rules ++ (rules.filter fun rule => rule.fromYear ≤ rule.toYear).map
          fun rule => rule.yearly lowest format standardOffset } := by
  induction rules generalizing era with
  | nil => simp
  | cons rule rest ih =>
    rw [List.map_cons, List.foldl_cons, ih]
    by_cases hyears : rule.toYear < rule.fromYear
    · simp [directive, Era.configure, hyears]
    · simp [directive, Era.configure, hyears, not_lt.mp hyears, yearly]

end Rule

namespace RuleSet

theorem lowestSave_le (set : RuleSet) :
    set.lowestSave ≤ 0 ∧ ∀ rule ∈ set.rules, set.lowestSave ≤ rule.save := by
  have hfold : ∀ (rules : List Rule) (start : Int),
      rules.foldl (fun lowest rule => min lowest rule.save) start ≤ start ∧
        ∀ rule ∈ rules,
          rules.foldl (fun lowest rule => min lowest rule.save) start ≤ rule.save := by
    intro rules
    induction rules with
    | nil => simp
    | cons rule rest ih =>
      intro start
      obtain ⟨hstart, hrest⟩ := ih (min start rule.save)
      rw [List.foldl_cons]
      refine ⟨hstart.trans (min_le_left _ _), fun other hother => ?_⟩
      rcases List.mem_cons.mp hother with rfl | hmem
      · exact hstart.trans (min_le_right _ _)
      · exact hrest other hmem
  exact hfold set.rules 0

theorem lowestSave_cases (set : RuleSet) :
    set.lowestSave = 0 ∨ ∃ rule ∈ set.rules, rule.save = set.lowestSave := by
  have hfold : ∀ (rules : List Rule) (start : Int),
      rules.foldl (fun lowest rule => min lowest rule.save) start = start ∨
        ∃ rule ∈ rules, rule.save =
          rules.foldl (fun lowest rule => min lowest rule.save) start := by
    intro rules
    induction rules with
    | nil => simp
    | cons rule rest ih =>
      intro start
      rw [List.foldl_cons]
      rcases ih (min start rule.save) with hsame | ⟨other, hmem, hother⟩
      · rcases min_choice start rule.save with hleft | hright
        · exact Or.inl (hsame.trans hleft)
        · exact Or.inr ⟨rule, by simp, (hsame.trans hright).symm⟩
      · exact Or.inr ⟨other, by simp [hmem], hother⟩
  exact hfold set.rules 0

/-- The rules that a set resolves to: with an anchor before them if a saving is negative. -/
def resolvedRules (set : RuleSet) : List Rule :=
  if set.lowestSave < 0 then set.first.anchor :: set.rules else set.rules

def anchors (set : RuleSet) : List Rule :=
  if set.lowestSave < 0 then [set.first.anchor] else []

theorem resolvedRules_eq (set : RuleSet) : set.resolvedRules = set.anchors ++ set.rules := by
  rw [resolvedRules, anchors]
  split <;> rfl

def resolvedFormat (set : RuleSet) (format : String) : String :=
  if set.lowestSave < 0 then Abbreviation.swapHalves format else format

theorem directives_eq (set : RuleSet) (standardOffset : Int) (format : String) :
    set.directives standardOffset format =
      .standardOffset (standardOffset + set.lowestSave) ::
        set.resolvedRules.map fun rule =>
          rule.directive set.lowestSave (set.resolvedFormat format)
            (standardOffset + set.lowestSave) := by
  rw [directives, resolvedRules, resolvedFormat]
  by_cases hnegative : set.lowestSave < 0
  · simp [hnegative]
  · have hzero : set.lowestSave = 0 := le_antisymm set.lowestSave_le.1 (not_lt.mp hnegative)
    simp [hzero]

theorem isCutover_of_mem_directives {set : RuleSet} {standardOffset : Int} {format : String}
    {directive : Directive} (h : directive ∈ set.directives standardOffset format) :
    directive.isCutover = false := by
  rw [directives_eq] at h
  rcases List.mem_cons.mp h with rfl | hrule
  · rfl
  · obtain ⟨rule, -, rfl⟩ := List.mem_map.mp hrule
    rfl

theorem rules_subset_resolvedRules (set : RuleSet) : set.rules ⊆ set.resolvedRules := by
  rw [resolvedRules_eq]
  exact List.subset_append_right set.anchors set.rules

theorem mem_resolvedRules {set : RuleSet} {rule : Rule} (h : rule ∈ set.resolvedRules) :
    rule ∈ set.rules ∨ rule = set.first.anchor := by
  rw [resolvedRules] at h
  split at h
  · exact (List.mem_cons.mp h).symm
  · exact Or.inl h

/-- Some rule becomes one without saving, once the savings count from the lowest. -/
theorem exists_lowest {set : RuleSet} (h : ∃ rule ∈ set.rules, rule.save ≤ 0) :
    ∃ rule ∈ set.rules, rule.save = set.lowestSave := by
  rcases set.lowestSave_cases with hzero | hlowest
  · obtain ⟨rule, hrule, hsave⟩ := h
    exact ⟨rule, hrule, le_antisymm (by omega) (set.lowestSave_le.2 rule hrule)⟩
  · exact hlowest

end RuleSet

def Stretch.cutover? (stretch : Stretch) : Option Cutover :=
  stretch.untilYear.map fun year => ⟨year, stretch.untilPoint⟩

/-- The saving of a stretch that is not under rules. -/
def Stretch.fixedSave? (stretch : Stretch) : Option Int :=
  match stretch.savings with
  | none => some 0
  | some savings => (Duration.readWhole savings).toOption.join

/-- The name of the rules that a stretch is under: savings that are not a duration. -/
def Stretch.ruleName? (stretch : Stretch) : Option String :=
  stretch.savings.filter fun savings => Duration.readWhole savings = .ok none

/-- The stretch is under a fixed saving, or under rules that are there, have their years in order
and hold without saving at some time. -/
def Stretch.HasStandard (rules : String → Option RuleSet) (stretch : Stretch) : Prop :=
  (∃ save, stretch.fixedSave? = some save) ∨
    ∃ name set, stretch.ruleName? = some name ∧ rules name = some set ∧
      (∀ rule ∈ set.rules, rule.fromYear ≤ rule.toYear) ∧ ∃ rule ∈ set.rules, rule.save ≤ 0

structure Stretch.HasMonths (rules : String → Option RuleSet) (stretch : Stretch) : Prop where
  ending : stretch.untilYear.isSome = true → stretch.untilPoint.hasMonth = true
  rules : ∀ name ∈ stretch.ruleName?, ∀ set ∈ rules name, ∀ rule ∈ set.rules,
    rule.point.hasMonth = true

theorem Stretch.ruleName?_eq_some_iff {stretch : Stretch} {name : String} :
    stretch.ruleName? = some name ↔
      stretch.savings = some name ∧ Duration.readWhole name = .ok none := by
  rw [ruleName?, Option.filter_eq_some_iff, decide_eq_true_eq]

theorem Stretch.fixedSave?_of_ruleName? {stretch : Stretch} {name : String}
    (h : stretch.ruleName? = some name) : stretch.fixedSave? = none := by
  obtain ⟨hsavings, hread⟩ := ruleName?_eq_some_iff.mp h
  simp only [fixedSave?, hsavings, hread]
  rfl

namespace Zone

variable (name : String) (rules : String → Option RuleSet)

def era (stretch : Stretch) : Era :=
  { (resolveSavings name rules stretch).directives.foldl Era.configure {} with
    cutover := stretch.cutover? }

/-- The eras of stretches in order, up to one without an end. -/
def eras : List Stretch → List Era
  | [] => [{}]
  | stretch :: rest =>
    match stretch.untilYear with
    | none => [era name rules stretch]
    | some _ => era name rules stretch :: eras rest

variable {name rules}

theorem resolveSavings_of_fixedSave? {stretch : Stretch} {save : Int}
    (h : stretch.fixedSave? = some save) :
    resolveSavings name rules stretch = { directives := stretch.fixedDirectives save } := by
  cases hsavings : stretch.savings with
  | none =>
    simp only [Stretch.fixedSave?, hsavings, Option.some.injEq] at h
    simp only [resolveSavings, hsavings, h]
  | some savings =>
    simp only [Stretch.fixedSave?, hsavings] at h
    have hread : Duration.readWhole savings = .ok (some save) := by
      rcases hread : Duration.readWhole savings with overlong | found
      · simp [hread, Except.toOption] at h
      · simpa [hread, Except.toOption] using h
    simp only [resolveSavings, hsavings, hread]

/-- Everything that the savings of a stretch can resolve to. -/
theorem resolveSavings_cases (stretch : Stretch)
    (h : (resolveSavings name rules stretch).missing = none) :
    (∃ save, stretch.fixedSave? = some save) ∨
      ∃ set savings, stretch.ruleName? = some savings ∧ rules savings = some set ∧
        resolveSavings name rules stretch =
          { directives := set.directives stretch.standardOffset stretch.format
            messages := set.messages } := by
  cases hsavings : stretch.savings with
  | none => exact Or.inl ⟨0, by simp only [Stretch.fixedSave?, hsavings]⟩
  | some savings =>
    rcases hread : Duration.readWhole savings with overlong | _ | save
    · simp [resolveSavings, hsavings, hread] at h
    · cases hset : rules savings with
      | some set =>
        refine Or.inr ⟨set, savings, Stretch.ruleName?_eq_some_iff.mpr ⟨hsavings, hread⟩, hset, ?_⟩
        simp [resolveSavings, hsavings, hread, hset]
      | none => simp [resolveSavings, hsavings, hread, hset] at h
    · exact Or.inl ⟨save, by simp [Stretch.fixedSave?, hsavings, hread, Except.toOption]⟩

/-- A stretch whose rules are there begins with its standard offset and holds no cutover. -/
theorem resolveSavings_directives {stretch : Stretch}
    (h : (resolveSavings name rules stretch).missing = none) :
    (∃ millis rest, (resolveSavings name rules stretch).directives =
        .standardOffset millis :: rest) ∧
      ∀ directive ∈ (resolveSavings name rules stretch).directives,
        directive.isCutover = false := by
  rcases resolveSavings_cases stretch h with ⟨save, hsave⟩ | ⟨set, savings, -, -, hset⟩
  · rw [resolveSavings_of_fixedSave? hsave]
    exact ⟨⟨_, _, rfl⟩, by simp [Stretch.fixedDirectives, Directive.isCutover]⟩
  · rw [hset]
    exact ⟨⟨_, _, RuleSet.directives_eq set stretch.standardOffset stretch.format⟩,
      fun directive hmem => RuleSet.isCutover_of_mem_directives hmem⟩

theorem era_of_fixedSave? {stretch : Stretch} {save : Int} (h : stretch.fixedSave? = some save) :
    era name rules stretch =
      { standardOffset := stretch.standardOffset
        fixed := some ⟨Abbreviation.fixed stretch.format stretch.standardOffset save, save⟩
        cutover := stretch.cutover? } := by
  rw [era, resolveSavings_of_fixedSave? h]
  rfl

theorem resolveSavings_of_set {stretch : Stretch} {savings : String} {set : RuleSet}
    (hname : stretch.ruleName? = some savings) (hset : rules savings = some set) :
    resolveSavings name rules stretch =
      { directives := set.directives stretch.standardOffset stretch.format
        messages := set.messages } := by
  obtain ⟨hsavings, hread⟩ := Stretch.ruleName?_eq_some_iff.mp hname
  simp [resolveSavings, hsavings, hread, hset]

theorem missing_of_hasStandard {stretch : Stretch} (h : stretch.HasStandard rules) :
    (resolveSavings name rules stretch).missing = none := by
  rcases h with ⟨save, hfixed⟩ | ⟨savings, set, hname, hset, -⟩
  · rw [resolveSavings_of_fixedSave? hfixed]
  · rw [resolveSavings_of_set hname hset]

/-- Points of the year with months lead to directives with months. -/
theorem directives_hasMonth {stretch : Stretch} (h : stretch.HasMonths rules)
    (hmissing : (resolveSavings name rules stretch).missing = none) :
    ∀ directive ∈ (resolveSavings name rules stretch).directives,
      ∀ point ∈ directive.point?, point.hasMonth = true := by
  rcases resolveSavings_cases stretch hmissing with
    ⟨save, hfixed⟩ | ⟨set, savings, hname, hset, hresolved⟩
  · rw [resolveSavings_of_fixedSave? hfixed]
    simp [Stretch.fixedDirectives, Directive.point?]
  · rw [hresolved, RuleSet.directives_eq]
    intro directive hdirective point hpoint
    rcases List.mem_cons.mp hdirective with rfl | hmem
    · simp [Directive.point?] at hpoint
    · obtain ⟨rule, hrule, rfl⟩ := List.mem_map.mp hmem
      obtain rfl := Option.some.inj hpoint
      have hmonths := h.rules savings hname set hset
      rcases RuleSet.mem_resolvedRules hrule with hown | rfl
      · exact hmonths rule hown
      · exact hmonths set.first (by simp [RuleSet.rules])

/-- The era of a stretch under rules: their savings count from the lowest of them. -/
theorem era_of_set {stretch : Stretch} {savings : String} {set : RuleSet}
    (hname : stretch.ruleName? = some savings) (hset : rules savings = some set) :
    era name rules stretch =
      { standardOffset := stretch.standardOffset + set.lowestSave
        rules := (set.resolvedRules.filter fun rule => rule.fromYear ≤ rule.toYear).map
          fun rule => rule.yearly set.lowestSave (set.resolvedFormat stretch.format)
            (stretch.standardOffset + set.lowestSave)
        cutover := stretch.cutover? } := by
  rw [era, resolveSavings_of_set hname hset]
  simp only [RuleSet.directives_eq, List.foldl_cons, Rule.foldl_configure]
  rfl

/-- The era of a stretch under a fixed saving, or under rules one of which holds without saving, has
a state to open with. -/
theorem era_opens (name : String) {stretch : Stretch} (h : stretch.HasStandard rules) :
    (era name rules stretch).fixed.isSome = true ∨
      ∃ rule ∈ (era name rules stretch).rules, rule.recurrence.save = 0 := by
  rcases h with ⟨save, hfixed⟩ | ⟨savings, set, hname, hset, hyears, hstandard⟩
  · rw [era_of_fixedSave? hfixed]
    exact Or.inl rfl
  · obtain ⟨rule, hrule, hlowest⟩ := RuleSet.exists_lowest hstandard
    have hresolved := set.rules_subset_resolvedRules hrule
    rw [era_of_set hname hset]
    refine Or.inr ⟨_, List.mem_map_of_mem (List.mem_filter.mpr ⟨hresolved, ?_⟩), ?_⟩
    · simpa using hyears rule hrule
    · simp [Rule.yearly, hlowest]

def directivesAfter (name : String) (rules : String → Option RuleSet) (stretch : Stretch)
    (rest : List Stretch) : List Directive :=
  match stretch.untilYear with
  | none => []
  | some year =>
    .cutover year stretch.untilPoint :: (resolveStretches name rules rest).directives

/-- A stretch resolves completely only if its rules are there and, where it has an end, what comes
after it does so too. -/
theorem resolveStretches_cons (stretch : Stretch) (rest : List Stretch)
    (h : (resolveStretches name rules (stretch :: rest)).missing = none) :
    (resolveSavings name rules stretch).missing = none ∧
      (resolveStretches name rules (stretch :: rest)).directives =
        (resolveSavings name rules stretch).directives ++
          directivesAfter name rules stretch rest ∧
      (stretch.untilYear.isSome = true → (resolveStretches name rules rest).missing = none) := by
  rw [resolveStretches] at h ⊢
  rw [directivesAfter]
  cases hmissing : (resolveSavings name rules stretch).missing with
  | some missing => simp [hmissing] at h
  | none =>
    cases huntil : stretch.untilYear with
    | none => simp
    | some year =>
      simp only [hmissing, huntil, Resolution.before] at h
      simpa [Resolution.before] using h

def reached : List Stretch → List Stretch
  | [] => []
  | stretch :: rest =>
    match stretch.untilYear with
    | none => [stretch]
    | some _ => stretch :: reached rest

theorem reached_subset (stretches : List Stretch) : reached stretches ⊆ stretches := by
  induction stretches with
  | nil => exact List.Subset.refl []
  | cons stretch rest ih =>
    rw [reached]
    split
    · simp
    · exact List.cons_subset_cons stretch ih

/-- If the rules of each stretch that is reached are there, so are those of all together. -/
theorem resolveStretches_missing {stretches : List Stretch}
    (h : ∀ stretch ∈ reached stretches, (resolveSavings name rules stretch).missing = none) :
    (resolveStretches name rules stretches).missing = none := by
  induction stretches with
  | nil => rfl
  | cons stretch rest ih =>
    rw [reached] at h
    rw [resolveStretches]
    cases huntil : stretch.untilYear with
    | none =>
      rw [huntil] at h
      simp [h stretch (by simp)]
    | some year =>
      rw [huntil] at h
      rw [h stretch (by simp)]
      exact ih fun other hother => h other (by simp [hother])

/-- If each stretch that is reached resolves, with months wherever it names a point of the year, so
do all of them together. -/
theorem resolveStretches_complete {stretches : List Stretch}
    (hsavings : ∀ stretch ∈ reached stretches, (resolveSavings name rules stretch).missing = none ∧
      ∀ directive ∈ (resolveSavings name rules stretch).directives,
        ∀ point ∈ directive.point?, point.hasMonth = true)
    (hends : ∀ stretch ∈ reached stretches, stretch.untilYear.isSome = true →
      stretch.untilPoint.hasMonth = true) :
    (resolveStretches name rules stretches).missing = none ∧
      ∀ directive ∈ (resolveStretches name rules stretches).directives,
        ∀ point ∈ directive.point?, point.hasMonth = true := by
  have hmissing := resolveStretches_missing fun stretch hstretch => (hsavings stretch hstretch).1
  refine ⟨hmissing, ?_⟩
  induction stretches with
  | nil => simp [resolveStretches]
  | cons stretch rest ih =>
    obtain ⟨-, hdirectives, hrest⟩ := resolveStretches_cons stretch rest hmissing
    rw [reached] at hsavings hends
    rw [hdirectives, directivesAfter]
    cases huntil : stretch.untilYear with
    | none =>
      rw [huntil] at hsavings
      simpa using (hsavings stretch (by simp)).2
    | some year =>
      rw [huntil] at hsavings hends hrest
      have hmonths := ih (fun other hother => hsavings other (by simp [hother]))
        (fun other hother => hends other (by simp [hother])) (hrest rfl)
      intro directive hdirective point hpoint
      rcases List.mem_append.mp hdirective with hown | hlater
      · exact (hsavings stretch (by simp)).2 directive hown point hpoint
      rcases List.mem_cons.mp hlater with rfl | hlater
      · obtain rfl := Option.some.inj hpoint
        exact hends stretch (by simp) (by simp [huntil])
      · exact hmonths directive hlater point hpoint

theorem eras_concat {closed : List Stretch} {last : Stretch}
    (hclosed : ∀ stretch ∈ closed, stretch.untilYear.isSome = true)
    (hopen : last.untilYear = none) :
    eras name rules (closed ++ [last]) =
      closed.map (era name rules) ++ [era name rules last] := by
  induction closed with
  | nil => simp [eras, hopen]
  | cons stretch rest ih =>
    obtain ⟨year, huntil⟩ := Option.isSome_iff_exists.mp (hclosed stretch (by simp))
    rw [List.cons_append, eras, huntil, ih fun other hother => hclosed other (by simp [hother])]
    rfl

/-- The directives of stretches lay out their eras behind those that are there. -/
theorem foldl_resolveStretches {stretches : List Stretch}
    (h : (resolveStretches name rules stretches).missing = none) (earlier : List Era) :
    (resolveStretches name rules stretches).directives.foldl Draft.apply
        ⟨earlier ++ [({} : Era)]⟩ =
      ⟨earlier ++ eras name rules stretches⟩ := by
  induction stretches generalizing earlier with
  | nil => rfl
  | cons stretch rest ih =>
    obtain ⟨hstretch, hdirectives, hrest⟩ := resolveStretches_cons stretch rest h
    rw [hdirectives, List.foldl_append,
      Draft.foldl_configure earlier {} (resolveSavings_directives hstretch).2, eras,
      directivesAfter]
    cases huntil : stretch.untilYear with
    | none =>
      have hopen := Era.foldl_configure_cutover (resolveSavings name rules stretch).directives {}
      have hera : era name rules stretch =
          (resolveSavings name rules stretch).directives.foldl Era.configure {} := by
        rw [era, Stretch.cutover?, huntil, Option.map_none]
        exact congrArg (fun cutover => ({ (resolveSavings name rules stretch).directives.foldl
          Era.configure {} with cutover } : Era)) hopen.symm
      rw [List.foldl_nil, hera]
    | some year =>
      rw [List.foldl_cons, Draft.apply_cutover, ih (hrest (by simp [huntil]))]
      simp [era, Stretch.cutover?, huntil]

/-- A zone whose rules are all there lays out the eras of its stretches. -/
theorem ofDirectives_resolve (zone : Zone) (h : (zone.resolve rules).missing = none) :
    Draft.ofDirectives (zone.resolve rules).directives = ⟨eras zone.name rules zone.stretches⟩ := by
  obtain ⟨hfirst, hdirectives, -⟩ := resolveStretches_cons zone.first zone.others h
  obtain ⟨⟨millis, others, hfirstDirectives⟩, -⟩ := resolveSavings_directives hfirst
  have hfold := foldl_resolveStretches h []
  rw [stretches, hdirectives, hfirstDirectives] at hfold
  rw [resolve, stretches, hdirectives, hfirstDirectives]
  exact hfold

/-- A zone whose rules are there and whose points of the year have months is compiled. -/
theorem build?_of_hasMonths (zone : Zone) (id : String)
    (hmissing : ∀ stretch ∈ zone.stretches,
      (resolveSavings zone.name rules stretch).missing = none)
    (hmonths : ∀ stretch ∈ zone.stretches, stretch.HasMonths rules) :
    (Draft.ofDirectives (zone.resolve rules).directives).build? id =
      some ((Draft.ofDirectives (zone.resolve rules).directives).build id) := by
  have hreached := fun stretch hstretch => reached_subset zone.stretches (a := stretch) hstretch
  obtain ⟨-, hpoints⟩ := resolveStretches_complete
    (fun stretch hstretch => ⟨hmissing stretch (hreached stretch hstretch),
      directives_hasMonth (hmonths stretch (hreached stretch hstretch))
        (hmissing stretch (hreached stretch hstretch))⟩)
    (fun stretch hstretch => (hmonths stretch (hreached stretch hstretch)).ending)
  have hlacks := Draft.ofDirectives_not_lacksMonth hpoints
  rw [← resolve] at hlacks
  simp [Draft.build?, hlacks]

end Zone

end Source

end CivilTime
