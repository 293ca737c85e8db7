import CivilTime.Proofs.SavingShift
import CivilTime.Proofs.Text

/-!
Names under shifted savings. A format with a slash names standard time before the slash and every
saving after it. If a saving of a set is negative, the savings are counted from the lowest one, so
that this one alone counts as none, and the halves change places once for the whole set. A rule
without saving and a rule with the lowest one are therefore named as before, but any other rule
takes the name of standard time; and if nothing follows the slash, it becomes the first character
of the format and no longer divides it. Formats without halves name every rule as before.
-/

namespace CivilTime

namespace Abbreviation

theorem halves?_slash {first second : String} (hfirst : first ≠ "") (hplain : '/' ∉ first.toList) :
    halves? (first ++ "/" ++ second) = some (first, second) := by
  have htext : (first ++ "/" ++ second).toList = first.toList ++ '/' :: second.toList := by
    rw [String.toList_append, String.toList_append, List.append_assoc]
    rfl
  have hbefore : ∀ c ∈ first.toList, decide (c ≠ '/') = true := by
    intro c hc
    exact decide_eq_true fun hsame => hplain (hsame ▸ hc)
  rw [halves?, htext, List.takeWhile_append_of_pos hbefore, List.dropWhile_append_of_pos hbefore]
  cases hcs : first.toList with
  | nil => exact absurd (String.toList_eq_nil_iff.mp hcs) hfirst
  | cons c cs =>
    have hname : String.ofList (c :: cs) = first := by rw [← hcs, String.ofList_toList]
    simp only [List.takeWhile_cons, List.dropWhile_cons, ne_eq, not_true_eq_false, decide_false,
      Bool.false_eq_true, if_false, List.append_nil, hname, String.ofList_toList]

theorem exists_of_halves? {format first second : String}
    (h : halves? format = some (first, second)) : first ≠ "" ∧ format = first ++ "/" ++ second := by
  have hall := List.takeWhile_append_dropWhile (p := (· ≠ '/')) (l := format.toList)
  rw [halves?] at h
  split at h
  · next c before d after htake hdrop =>
    obtain ⟨rfl, rfl⟩ := Prod.mk.inj (Option.some.inj h)
    have hslash : d = '/' := by
      have hhead := List.head?_dropWhile_not (· ≠ '/') format.toList
      rw [hdrop] at hhead
      simpa using hhead
    rw [htake, hdrop, hslash] at hall
    constructor
    · simp
    · apply String.toList_inj.mp
      simp [← hall]
  · cases h

theorem plain_halves {first second : String} (h : (first ++ "/" ++ second).toList.count '/' ≤ 1) :
    '/' ∉ first.toList ∧ '/' ∉ second.toList := by
  have hslash : "/".toList.count '/' = 1 := rfl
  rw [String.toList_append, String.toList_append, List.count_append, List.count_append, hslash] at h
  rw [← List.count_eq_zero, ← List.count_eq_zero]
  omega

/-- A format with one slash at most has halves exactly if the slash does not stand first. -/
theorem halves?_eq_some_iff {format first second : String} (h : format.toList.count '/' ≤ 1) :
    halves? format = some (first, second) ↔ first ≠ "" ∧ format = first ++ "/" ++ second := by
  constructor
  · exact exists_of_halves?
  · rintro ⟨hfirst, rfl⟩
    exact halves?_slash hfirst (plain_halves h).1

theorem render_slash {first second : String} (hfirst : first ≠ "") (hplain : '/' ∉ first.toList)
    (save : Int) (letter : Option String) (standardOffset : Int) :
    render (first ++ "/" ++ second) save letter standardOffset =
      if save = 0 then first else second := by
  rw [render, halves?_slash hfirst hplain]

/-- Without halves only the offset is shown, and that does not change. -/
theorem render_shift {format : String} (h : halves? format = none) (save lowest : Int)
    (letter : Option String) (standardOffset : Int) :
    render (swapHalves format) (save - lowest) letter (standardOffset + lowest) =
      render format save letter standardOffset := by
  have htotal : standardOffset + lowest + (save - lowest) = standardOffset + save := by omega
  rw [swapHalves, h]
  simp only [render, h, htotal]

/-- If nothing follows the slash, it ends up in the name. -/
theorem slash_mem_render (name : String) (save : Int) (letter : Option String)
    (standardOffset : Int) : '/' ∈ (render ("/" ++ name) save letter standardOffset).toList := by
  have htext : ("/" ++ name).toList = '/' :: name.toList := String.toList_append
  have hnone : halves? ("/" ++ name) = none := by simp [halves?, htext]
  rw [render, hnone]
  dsimp only
  split
  · next before after hsplit =>
    rw [htext] at hsplit
    have hwhole := Text.splitAtFirst?_eq_some hsplit
    cases before with
    | nil => simp at hwhole
    | cons c before =>
      obtain rfl := (List.cons.inj hwhole).1
      simp
  · split
    · next hoffset => simp [htext, String.toList_inj.symm] at hoffset
    · simp [htext]

/-- The halves of a format, exchanged for savings that count from a negative one, give a state its
name from before exactly if there are two halves and the state has no saving or the lowest one. -/
theorem render_swapHalves_iff {first second : String} (hfirst : first ≠ "")
    (hplain : (first ++ "/" ++ second).toList.count '/' ≤ 1) {lowest : Int} (hlowest : lowest < 0)
    (save : Int) (letter : Option String) (standardOffset shifted : Int) :
    render (swapHalves (first ++ "/" ++ second)) (save - lowest) letter shifted =
        render (first ++ "/" ++ second) save letter standardOffset ↔
      second ≠ "" ∧ (save = 0 ∨ save = lowest ∨ first = second) := by
  obtain ⟨hbefore, hafter⟩ := plain_halves hplain
  rw [swapHalves, halves?_slash hfirst hbefore, render_slash hfirst hbefore]
  dsimp only
  by_cases hsecond : second = ""
  · subst hsecond
    have hmem := slash_mem_render first (save - lowest) letter shifted
    have hnone : '/' ∉ (if save = 0 then first else "").toList := by
      split
      · exact hbefore
      · simp
    simp only [String.empty_append, ne_eq, not_true_eq_false, false_and, iff_false]
    intro hsame
    exact hnone (hsame ▸ hmem)
  · rw [render_slash hsecond hafter]
    simp only [hsecond, ne_eq, not_false_eq_true, true_and]
    split_ifs with hlow hzero hzero
    · omega
    · simp [sub_eq_zero.mp hlow]
    · simp [hzero]
    · have hother : save ≠ lowest := fun hsame => hlow (sub_eq_zero.mpr hsame)
      simp [hzero, hother]

end Abbreviation

namespace Source

namespace RuleSet

variable {set : RuleSet} {standardOffset : Int} {format : String}

/-- The halves of the format still name a rule after they have changed places: there are two of
them, and the rule has no saving, the lowest one, or the same name for both. -/
def KeepsHalves (set : RuleSet) (format : String) (rule : Rule) : Prop :=
  ∀ first second, first ≠ "" → format = first ++ "/" ++ second →
    second ≠ "" ∧ (rule.save = 0 ∨ (∀ other ∈ set.rules, rule.save ≤ other.save) ∨ first = second)

theorem keepsHalves_of_none (hslash : format.toList.count '/' ≤ 1)
    (hnone : Abbreviation.halves? format = none) (rule : Rule) : set.KeepsHalves format rule := by
  intro first second hfirst hformat
  have hsome := (Abbreviation.halves?_eq_some_iff hslash).mpr ⟨hfirst, hformat⟩
  rw [hnone] at hsome
  cases hsome

theorem keepsHalves_iff {first second : String}
    (hslash : (first ++ "/" ++ second).toList.count '/' ≤ 1) (hfirst : first ≠ "") (rule : Rule) :
    set.KeepsHalves (first ++ "/" ++ second) rule ↔
      second ≠ "" ∧
        (rule.save = 0 ∨ (∀ other ∈ set.rules, rule.save ≤ other.save) ∨ first = second) := by
  constructor
  · intro hkept
    exact hkept first second hfirst rfl
  · intro hkept other rest hother hformat
    have hfound := (Abbreviation.halves?_eq_some_iff hslash).mpr ⟨hfirst, rfl⟩
    have hsame := (Abbreviation.halves?_eq_some_iff hslash).mpr ⟨hother, hformat⟩
    obtain ⟨rfl, rfl⟩ := Prod.mk.inj (Option.some.inj (hfound.symm.trans hsame))
    exact hkept

/-- Of negative savings the lowest is the one that is taken off. -/
theorem eq_lowestSave_iff (hnegative : set.lowestSave < 0) {rule : Rule}
    (hrule : set.lowestSave ≤ rule.save) :
    rule.save = set.lowestSave ↔ ∀ other ∈ set.rules, rule.save ≤ other.save := by
  constructor
  · intro hsame other hother
    exact hsame.trans_le (set.lowestSave_le.2 other hother)
  · intro hleast
    obtain ⟨other, hother, hsave⟩ := set.lowestSave_cases.resolve_left hnegative.ne
    exact le_antisymm ((hleast other hother).trans hsave.le) hrule

theorem yearly_name_iff (hslash : format.toList.count '/' ≤ 1) {rule : Rule}
    (hrule : rule ∈ set.resolvedRules) :
    (rule.yearly set.lowestSave (set.resolvedFormat format)
          (standardOffset + set.lowestSave)).recurrence.name =
        Abbreviation.render format rule.save rule.letter standardOffset ↔
      ((∃ other ∈ set.rules, other.save < 0) → set.KeepsHalves format rule) := by
  rw [← lowestSave_neg_iff, Rule.yearly, resolvedFormat]
  dsimp only
  by_cases hnegative : set.lowestSave < 0
  · simp only [hnegative, if_true, true_imp_iff]
    cases hhalves : Abbreviation.halves? format with
    | none =>
      rw [Abbreviation.render_shift hhalves]
      exact iff_of_true rfl (keepsHalves_of_none hslash hhalves rule)
    | some halves =>
      obtain ⟨first, second⟩ := halves
      obtain ⟨hfirst, rfl⟩ := Abbreviation.exists_of_halves? hhalves
      rw [Abbreviation.render_swapHalves_iff hfirst hslash hnegative, keepsHalves_iff hslash hfirst,
        eq_lowestSave_iff hnegative (lowestSave_le_of_resolved hrule)]
  · have hzero : set.lowestSave = 0 := le_antisymm set.lowestSave_le.1 (not_lt.mp hnegative)
    simp [hzero]

/-- Which names survive the shift of the savings. A format with one slash at most, unless that
stands first, names a state without saving by what precedes the slash and any other state by what
follows it. The directives of a set come in the order of its rules, after the anchor if there is
one, and each carries the name that the rule has by itself, with its own saving and the standard
offset as written, exactly if no saving of the set is negative or the format keeps its halves for
the rule. -/
theorem directives_keep_names_iff (set : RuleSet) (standardOffset : Int) (format : String)
    (hslash : format.toList.count '/' ≤ 1) :
    (∀ first second, first ≠ "" → format = first ++ "/" ++ second → ∀ save letter,
      Abbreviation.render format save letter standardOffset = if save = 0 then first else second) ∧
    ∃ shifted carried,
      set.directives standardOffset format =
        .standardOffset shifted :: carried.map YearlyRule.directive ∧
      List.Forall₂
        (fun rule yearly => rule.Becomes standardOffset shifted yearly ∧
          (yearly.recurrence.name =
              Abbreviation.render format rule.save rule.letter standardOffset ↔
            ((∃ other ∈ set.rules, other.save < 0) → set.KeepsHalves format rule)))
        (set.anchors ++ set.rules) carried := by
  constructor
  · rintro first second hfirst rfl save letter
    exact Abbreviation.render_slash hfirst (Abbreviation.plain_halves hslash).1 save letter _
  · refine ⟨standardOffset + set.lowestSave, set.shiftedRules standardOffset format,
      set.directives_eq_shiftedRules standardOffset format, ?_⟩
    rw [← resolvedRules_eq, shiftedRules, List.forall₂_map_right_iff, List.forall₂_same]
    intro rule hrule
    constructor
    · exact Rule.yearly_becomes (lowestSave_le_of_resolved hrule) standardOffset _
    · exact yearly_name_iff hslash hrule

def mixedRules : RuleSet where
  first :=
    { name := "M"
      fromYear := 1990
      toYear := 9999
      type := none
      point := { month := 10 }
      save := -3600000
      letter := none }
  others :=
    [{ name := "M"
       fromYear := 1990
       toYear := 9999
       type := none
       point := { month := 3 }
       save := 0
       letter := none },
     { name := "M"
       fromYear := 1990
       toYear := 9999
       type := none
       point := { month := 6 }
       save := 3600000
       letter := none }]

/-- The hour less and standard time keep their names, and the hour more does not. -/
theorem directives_keep_names_mixed :
    "STD/DST".toList.count '/' ≤ 1 ∧ (∃ rule ∈ mixedRules.rules, rule.save < 0) ∧
      ∃ shifted anchor winter spring summer,
        mixedRules.directives 0 "STD/DST" =
          .standardOffset shifted ::
            [anchor, winter, spring, summer].map YearlyRule.directive ∧
        anchor.recurrence.name = "STD" ∧ winter.recurrence.name = "DST" ∧
        spring.recurrence.name = "STD" ∧ summer.recurrence.name ≠ "DST" := by
  have hslash : ("STD" ++ "/" ++ "DST").toList.count '/' ≤ 1 := by decide
  have hnegative : ∃ rule ∈ mixedRules.rules, rule.save < 0 := by decide
  obtain ⟨hnamed, shifted, carried, hdirectives, hcarried⟩ :=
    directives_keep_names_iff mixedRules 0 ("STD" ++ "/" ++ "DST") hslash
  have hnames := hnamed "STD" "DST" (by decide) rfl
  simp only [hnames, keepsHalves_iff hslash (show "STD" ≠ "" by decide), hnegative,
    true_imp_iff] at hcarried
  obtain - | ⟨⟨-, hanchor⟩, hcarried⟩ := hcarried
  obtain - | ⟨⟨-, hwinter⟩, hcarried⟩ := hcarried
  obtain - | ⟨⟨-, hspring⟩, hcarried⟩ := hcarried
  obtain - | ⟨⟨-, hsummer⟩, hcarried⟩ := hcarried
  obtain - | - := hcarried
  refine ⟨hslash, hnegative, shifted, _, _, _, _, hdirectives, ?_, ?_, ?_, ?_⟩
  · exact hanchor.mpr (by decide)
  · exact hwinter.mpr (by decide)
  · exact hspring.mpr (by decide)
  · intro hkept
    exact absurd (hsummer.mp hkept) (by decide)

/-- With savings on both sides of standard time the hour more is called standard time, and with
nothing after the slash every name begins with it. -/
theorem mixed_savings_exchange_names :
    (mixedRules.directives 0 "STD/DST").drop 3 =
        [.recurringSaving ⟨{ month := 3 }, "STD", 3600000⟩ 1990 9999,
          .recurringSaving ⟨{ month := 6 }, "STD", 7200000⟩ 1990 9999] ∧
      Abbreviation.render "STD/DST" 3600000 none 0 = "DST" ∧
      (mixedRules.directives 0 "STD/").drop 3 =
        [.recurringSaving ⟨{ month := 3 }, "/STD", 3600000⟩ 1990 9999,
          .recurringSaving ⟨{ month := 6 }, "/STD", 7200000⟩ 1990 9999] ∧
      Abbreviation.render "STD/" 0 none 0 = "STD" := by
  decide +kernel

end RuleSet

end Source

end CivilTime
