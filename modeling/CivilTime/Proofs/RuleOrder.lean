import CivilTime.Proofs.Lookup
import Mathlib.Data.List.Permutation

/-!
The order in which the rules of an era are listed. It decides which of two rules wins that occur at
the same instant, which of them names the state before the first, and which of the two rules of a
tail comes first. Where none of this makes a difference, both orders lead to the same timeline and
to tails with the same offsets.

Some rules may stand before the others in both orders. These may tie with the others, since they
lose every tie.
-/

namespace CivilTime

namespace YearlyRule

/-- Two rules that never occur at the same instant under one saving of which `P` holds. -/
def Untied (standardOffset : Int) (P : Int → Prop) (first second : YearlyRule) : Prop :=
  ∀ instant save, P save → instant < first.next instant standardOffset save →
    first.next instant standardOffset save ≠ second.next instant standardOffset save

/-- Two rules that never occur at the same instant, neither under one saving nor, if both recur
forever, each under the saving of the other. -/
structure Apart (standardOffset : Int) (P : Int → Prop) (first second : YearlyRule) : Prop where
  untied : first.Untied standardOffset P second
  across : first.toYear = Directive.foreverYear → second.toYear = Directive.foreverYear →
    ∀ instant,
      first.recurrence.point.next instant standardOffset second.recurrence.save ≠
        second.recurrence.point.next instant standardOffset first.recurrence.save

theorem Apart.mono {standardOffset : Int} {P Q : Int → Prop} {first second : YearlyRule}
    (h : first.Apart standardOffset P second) (hsaves : ∀ save, Q save → P save) :
    first.Apart standardOffset Q second :=
  ⟨fun instant save hsave => h.untied instant save (hsaves save hsave), h.across⟩

end YearlyRule

namespace Era

/-- A saving that may be in effect while the rules of the era are followed. -/
def InEffect (era : Era) (save : Int) : Prop :=
  save = 0 ∨ (∃ fixed ∈ era.fixed, fixed.save = save) ∨
    ∃ rule ∈ era.rules, rule.recurrence.save = save

theorem inEffect_of_rule {era : Era} {rule : YearlyRule} (h : rule ∈ era.rules) :
    era.InEffect rule.recurrence.save :=
  Or.inr (Or.inr ⟨rule, h, rfl⟩)

theorem soonest_swap {first second : Int × YearlyRule} {rest : List (Int × YearlyRule)}
    (hpair : first.1 ≠ second.1) (hfirst : ∀ candidate ∈ rest, first.1 ≠ candidate.1)
    (hsecond : ∀ candidate ∈ rest, second.1 ≠ candidate.1) :
    soonest (first :: second :: rest) = soonest (second :: first :: rest) := by
  rw [soonest, soonest, soonest, soonest]
  cases hbest : soonest rest with
  | none =>
    dsimp only
    split <;> split <;> first | rfl | omega
  | some best =>
    have hmem := soonest_mem hbest
    have hneFirst := hfirst best hmem
    have hneSecond := hsecond best hmem
    dsimp only
    grind

/-- Of candidates at different instants the soonest does not depend on their order. -/
theorem soonest_perm {first second : List (Int × YearlyRule)} (h : first.Perm second)
    (hdistinct : first.Pairwise fun a b => a.1 ≠ b.1) : soonest first = soonest second := by
  induction h with
  | nil => rfl
  | cons candidate _ ih => rw [soonest, soonest, ih (List.pairwise_cons.mp hdistinct).2]
  | swap first second rest =>
    obtain ⟨hsecond, hrest⟩ := List.pairwise_cons.mp hdistinct
    obtain ⟨hfirst, -⟩ := List.pairwise_cons.mp hrest
    exact soonest_swap (hsecond first (by simp)) (fun c hc => hsecond c (by simp [hc])) hfirst
  | trans hperm _ ihfirst ihsecond =>
    rw [ihfirst hdistinct]
    exact ihsecond ((hperm.pairwise_iff fun h => Ne.symm h).mp hdistinct)

/-- Candidates listed before others lose every tie with them, so of the others only the soonest
counts. -/
theorem soonest_append (front : List (Int × YearlyRule)) {first second : List (Int × YearlyRule)}
    (h : soonest first = soonest second) :
    soonest (front ++ first) = soonest (front ++ second) := by
  induction front with
  | nil => exact h
  | cons candidate front ih => rw [List.cons_append, List.cons_append, soonest, soonest, ih]

/-- Two lists of rules that begin with the same ones and go on with the same ones in any order,
which never occur at the same instant. -/
def Shuffled (standardOffset : Int) (P : Int → Prop) (first second : List YearlyRule) : Prop :=
  ∃ front rest other, first = front ++ rest ∧ second = front ++ other ∧ rest.Perm other ∧
    rest.Pairwise (YearlyRule.Apart standardOffset P)

namespace Shuffled

variable {era : Era} {P : Int → Prop} {first second : List YearlyRule}

theorem refl (standardOffset : Int) (P : Int → Prop) (rules : List YearlyRule) :
    Shuffled standardOffset P rules rules :=
  ⟨rules, [], [], by simp, by simp, .nil, .nil⟩

section

variable (h : Shuffled era.standardOffset P first second)

include h

theorem perm : first.Perm second := by
  obtain ⟨front, rest, other, rfl, rfl, hperm, -⟩ := h
  exact hperm.append_left front

theorem filter (p : YearlyRule → Bool) :
    Shuffled era.standardOffset P (first.filter p) (second.filter p) := by
  obtain ⟨front, rest, other, rfl, rfl, hperm, hapart⟩ := h
  exact ⟨front.filter p, rest.filter p, other.filter p, List.filter_append ..,
    List.filter_append .., hperm.filter p, hapart.filter p⟩

theorem soonest_eq (instant : Int) {save : Int} (hsave : P save) :
    soonest (era.upcoming first instant save) = soonest (era.upcoming second instant save) := by
  obtain ⟨front, rest, other, rfl, rfl, hperm, hapart⟩ := h
  have happend : ∀ rules, era.upcoming (front ++ rules) instant save =
      era.upcoming front instant save ++ era.upcoming rules instant save := by
    intro rules
    simp [upcoming]
  rw [happend, happend]
  apply soonest_append
  apply soonest_perm ((hperm.map _).filter _)
  rw [List.pairwise_filter, List.pairwise_map]
  apply hapart.imp
  intro a b hab hlater _
  exact hab.untied instant save hsave (by simpa using hlater)

/-- Both orders take the same step, and what is left is again the same in another order. -/
theorem nextTransition {instant save : Int} (hsave : P save) {transition : Option Transition}
    {remaining : List YearlyRule}
    (hnext : era.nextTransition first instant save = (transition, remaining)) :
    ∃ others, era.nextTransition second instant save = (transition, others) ∧
      Shuffled era.standardOffset P remaining others := by
  have hsoonest := h.soonest_eq instant hsave
  have hrules := h.filter fun rule => instant < rule.next instant era.standardOffset save
  rw [← upcoming_rules, ← upcoming_rules] at hrules
  obtain ⟨rfl, rfl⟩ : (era.nextTransition first instant save).1 = transition ∧
      (era.nextTransition first instant save).2 = remaining := by simp [hnext]
  refine ⟨_, ?_, hrules⟩
  rw [Era.nextTransition, Era.nextTransition, hsoonest]

/-- A list of two rules is the same in both orders, or turned round. -/
theorem pair_cases :
    first = second ∨
      (∃ a b, first = [a, b] ∧ second = [b, a] ∧ a.Apart era.standardOffset P b) ∨
      first.length ≠ 2 ∧ second.length ≠ 2 := by
  have hlength := h.perm.length_eq
  obtain ⟨front, rest, other, rfl, rfl, hperm, hapart⟩ := h
  rcases rest with _ | ⟨a, _ | ⟨b, _ | ⟨c, rest⟩⟩⟩
  · exact Or.inl (by rw [hperm.nil_eq])
  · exact Or.inl (by rw [hperm.singleton_eq])
  · rcases List.pair_perm.mp hperm with rfl | rfl
    · exact Or.inl rfl
    · cases front with
      | nil => exact Or.inr (Or.inl ⟨a, b, rfl, rfl, List.rel_of_pairwise_cons hapart (by simp)⟩)
      | cons rule front =>
        rw [← hlength]
        exact Or.inr (Or.inr ⟨by simp, by simp⟩)
  · rw [← hlength]
    exact Or.inr (Or.inr ⟨by simp; omega, by simp; omega⟩)

end

end Shuffled

/-- One step of the way to the state at the start. -/
theorem stateAtStart_of_next {era : Era} {rules remaining : List YearlyRule} {instant save : Int}
    {transition : Option Transition}
    (hnext : era.nextTransition rules instant save = (transition, remaining)) (start : Int)
    (state : Option Transition) :
    era.stateAtStart start rules instant save state =
      match transition with
      | none => state <|> era.defaultTransition start
      | some transition =>
        if transition.millis = start then some (transition.movedTo start)
        else if start < transition.millis then
          state <|> era.defaultTransition start <|>
            some { transition with millis := start, wallOffset := era.standardOffset }
        else
          era.stateAtStart start remaining transition.millis transition.save
            (some (transition.movedTo start)) := by
  rw [stateAtStart]
  split
  · next hnone =>
    obtain ⟨rfl, -⟩ := Prod.mk.inj (hnext.symm.trans hnone)
    rfl
  · next found left hsome =>
    obtain ⟨rfl, rfl⟩ := Prod.mk.inj (hnext.symm.trans hsome)
    rfl

structure Reordered (era other : Era) : Prop where
  standardOffset : other.standardOffset = era.standardOffset
  fixed : other.fixed = era.fixed
  cutover : other.cutover = era.cutover
  rules : Shuffled era.standardOffset era.InEffect era.rules other.rules
  unsaved : ∀ start, other.defaultTransition start = era.defaultTransition start

namespace Reordered

variable {era other : Era}

theorem refl (era : Era) : era.Reordered era :=
  ⟨rfl, rfl, rfl, .refl _ _ _, fun _ => rfl⟩

section

variable (h : era.Reordered other)

include h

theorem upcoming_eq : other.upcoming = era.upcoming := by
  funext rules instant save
  rw [upcoming, upcoming, h.standardOffset]

theorem upperLimit_eq : other.upperLimit = era.upperLimit := by
  funext save
  rw [upperLimit, upperLimit, h.standardOffset, h.cutover]

theorem nextTransition_eq : other.nextTransition = era.nextTransition := by
  funext rules instant save
  simp only [Era.nextTransition, h.upcoming_eq, h.upperLimit_eq, stateOf, h.standardOffset]

/-- Both orders take the same step from rules that are left of each. -/
theorem step {first second : List YearlyRule} {instant save : Int}
    (hrules : Shuffled era.standardOffset era.InEffect first second) (hsave : era.InEffect save)
    {transition : Option Transition} {remaining : List YearlyRule}
    (hnext : era.nextTransition first instant save = (transition, remaining)) :
    ∃ others, other.nextTransition second instant save = (transition, others) ∧
      Shuffled era.standardOffset era.InEffect remaining others := by
  rw [h.nextTransition_eq]
  exact hrules.nextTransition hsave hnext

theorem stateAtStart_eq {first second : List YearlyRule} {start instant save : Int}
    {state : Option Transition} (hkept : first ⊆ era.rules)
    (hrules : Shuffled era.standardOffset era.InEffect first second) (hsave : era.InEffect save) :
    other.stateAtStart start second instant save state =
      era.stateAtStart start first instant save state := by
  fun_induction era.stateAtStart start first instant save state generalizing second with
  | case1 first instant save state remaining hnext =>
    obtain ⟨others, hother, -⟩ := h.step hrules hsave hnext
    rw [stateAtStart_of_next hother, h.unsaved]
  | case2 first instant save state transition remaining hnext hequal =>
    obtain ⟨others, hother, -⟩ := h.step hrules hsave hnext
    rw [stateAtStart_of_next hother]
    exact if_pos hequal
  | case3 first instant save state transition remaining hnext hequal hlater =>
    obtain ⟨others, hother, -⟩ := h.step hrules hsave hnext
    rw [stateAtStart_of_next hother, h.unsaved, h.standardOffset]
    exact (if_neg hequal).trans (if_pos hlater)
  | case4 first instant save state transition remaining hnext hequal hlater ih =>
    obtain ⟨others, hother, hremaining⟩ := h.step hrules hsave hnext
    have hsubset := List.Subset.trans (nextTransition_subset hnext) hkept
    obtain ⟨-, rule, hmem, hstate⟩ := nextTransition_cases hnext
    have hnextSave : era.InEffect transition.save := by
      rw [hstate, stateOf_save]
      exact inEffect_of_rule (hsubset hmem)
    rw [stateAtStart_of_next hother, ← ih hsubset hremaining hnextSave]
    exact (if_neg hequal).trans (if_neg hlater)

theorem firstTransition_eq (start : Int) :
    other.firstTransition start = era.firstTransition start := by
  rw [firstTransition, firstTransition, h.fixed, h.standardOffset]
  split
  · rfl
  · exact h.stateAtStart_eq (List.Subset.refl _) h.rules (Or.inl rfl)

theorem isEmpty_eq : other.isEmpty = era.isEmpty := by
  rw [isEmpty, isEmpty, h.fixed, h.rules.perm.isEmpty_eq]

/-- Whether a month is missing does not depend on the order. -/
theorem lacksMonth_eq : other.lacksMonth = era.lacksMonth := by
  have hsoonest := h.rules.soonest_eq Instant.earliest (Or.inl rfl)
  rw [lacksMonth, lacksMonth, h.isEmpty_eq, h.cutover, h.fixed, h.upcoming_eq, ← hsoonest]
  rw [h.rules.perm.any_eq, h.rules.perm.any_eq]

end

end Reordered

end Era

/-- A tail with its recurrences turned round has the same offsets, if they never come up at the same
instant. -/
theorem Tail.offsetAt_turned {standardOffset : Int} {first second : Recurrence}
    (h : ∀ instant, first.point.next instant standardOffset second.save ≠
      second.point.next instant standardOffset first.save) :
    (⟨standardOffset, second, first⟩ : Tail).offsetAt =
      (⟨standardOffset, first, second⟩ : Tail).offsetAt := by
  funext instant
  have huntied := h instant
  simp only [offsetAt, current, nextEnd, nextStart]
  grind

theorem Era.Reordered.tail? {era other : Era} (h : era.Reordered other)
    {first second : List YearlyRule}
    (hrules : Shuffled era.standardOffset era.InEffect first second) :
    Option.Rel (fun first second => second.offsetAt = first.offsetAt) (era.tail? first)
      (other.tail? second) := by
  rcases hrules.pair_cases with rfl | ⟨a, b, rfl, rfl, hapart⟩ | ⟨hfirst, hsecond⟩
  · have hsame : other.tail? first = era.tail? first := by
      rw [tail?.eq_def, tail?.eq_def, h.standardOffset]
    rw [hsame]
    cases era.tail? first with
    | none => exact .none
    | some tail => exact .some rfl
  · rw [Era.tail?, Era.tail?, h.standardOffset]
    by_cases hattached : a.toYear = Directive.foreverYear ∧ b.toYear = Directive.foreverYear ∧
        (a.recurrence.save ≠ b.recurrence.save ∨ a.recurrence.name ≠ b.recurrence.name)
    · rw [if_pos hattached, if_pos ⟨hattached.2.1, hattached.1, hattached.2.2.imp Ne.symm Ne.symm⟩]
      exact .some (Tail.offsetAt_turned (hapart.across hattached.1 hattached.2.1))
    · rw [if_neg hattached, if_neg]
      · exact .none
      · rintro ⟨hb, ha, hswitches⟩
        exact hattached ⟨ha, hb, hswitches.imp Ne.symm Ne.symm⟩
  · have hnone : ∀ (era : Era) (rules : List YearlyRule), rules.length ≠ 2 →
        era.tail? rules = none := by
      intro era rules hlength
      rw [tail?.eq_def]
      split
      · simp at hlength
      · rfl
    rw [hnone era first hfirst, hnone other second hsecond]
    exact .none

namespace Progress

/-- Two timelines that are the same, except that their tails need only have the same offsets. -/
structure Matches (first second : Progress) : Prop where
  history : second.history = first.history
  millis : second.millis = first.millis
  save : second.save = first.save
  tail : Option.Rel (fun first second => second.offsetAt = first.offsetAt) first.tail second.tail

theorem follow_of_next {era : Era} {rules remaining : List YearlyRule} {progress : Progress}
    {transition : Option Transition}
    (hnext : era.nextTransition rules progress.millis progress.save = (transition, remaining))
    (tailAllowed : Bool) :
    follow era tailAllowed rules progress =
      match transition with
      | none => progress
      | some transition =>
        if (progress.history.push transition).2 && progress.tail.isSome then
          { progress with history := (progress.history.push transition).1 }
        else
          follow era tailAllowed remaining
            { history := (progress.history.push transition).1
              tail :=
                if progress.tail.isNone && tailAllowed then era.tail? remaining
                else progress.tail
              millis := transition.millis
              save := transition.save } := by
  rw [follow]
  split
  · next hnone =>
    obtain ⟨rfl, -⟩ := Prod.mk.inj (hnext.symm.trans hnone)
    rfl
  · next found left hsome =>
    obtain ⟨rfl, rfl⟩ := Prod.mk.inj (hnext.symm.trans hsome)
    rfl

theorem Matches.isSome_eq {first second : Progress} (h : first.Matches second) :
    second.tail.isSome = first.tail.isSome := by
  have htail := h.tail
  revert htail
  generalize first.tail = firstTail, second.tail = secondTail
  rintro (_ | _) <;> rfl

section

variable {era other : Era} (hera : era.Reordered other)

include hera

theorem follow_matches {tailAllowed : Bool} {rules others : List YearlyRule}
    {first second : Progress} (hkept : rules ⊆ era.rules)
    (hrules : Era.Shuffled era.standardOffset era.InEffect rules others)
    (hsave : era.InEffect first.save) (h : first.Matches second) :
    (follow era tailAllowed rules first).Matches (follow other tailAllowed others second) := by
  fun_induction follow era tailAllowed rules first generalizing others second with
  | case1 rules first remaining hnext =>
    rw [← h.millis, ← h.save] at hnext
    obtain ⟨left, hother, -⟩ := hera.step hrules (h.save ▸ hsave) hnext
    rw [follow_of_next hother]
    exact h
  | case2 rules first transition remaining hnext hjoined =>
    rw [← h.millis, ← h.save] at hnext
    obtain ⟨left, hother, -⟩ := hera.step hrules (h.save ▸ hsave) hnext
    rw [follow_of_next hother]
    dsimp only
    rw [h.history, h.isSome_eq, if_pos hjoined]
    exact ⟨rfl, h.millis, h.save, h.tail⟩
  | case3 rules first transition remaining hnext hjoined ih =>
    have hsubset := List.Subset.trans (Era.nextTransition_subset hnext) hkept
    obtain ⟨-, rule, hmem, hstate⟩ := Era.nextTransition_cases hnext
    have hnextSave : era.InEffect transition.save := by
      rw [hstate, Era.stateOf_save]
      exact Era.inEffect_of_rule (hsubset hmem)
    rw [← h.millis, ← h.save] at hnext
    obtain ⟨left, hother, hremaining⟩ := hera.step hrules (h.save ▸ hsave) hnext
    rw [follow_of_next hother]
    dsimp only
    rw [h.history, h.isSome_eq, if_neg hjoined]
    apply ih hsubset hremaining hnextSave
    refine ⟨rfl, rfl, rfl, ?_⟩
    dsimp only
    rw [← Option.not_isSome, ← Option.not_isSome, h.isSome_eq]
    split
    · exact hera.tail? hremaining
    · exact h.tail

theorem enter_matches {first second : Progress} (h : first.Matches second) {opening : Transition}
    (hopening : era.firstTransition first.millis = some opening) (tailAllowed : Bool) :
    (first.enter era tailAllowed opening).Matches
      (second.enter other tailAllowed opening) := by
  apply follow_matches hera (List.Subset.refl _) hera.rules
  · apply Era.firstTransition_save _ _ _ hopening
    · exact fun _ => Or.inl rfl
    · exact fun fixed hfixed => Or.inr (Or.inl ⟨fixed, hfixed, rfl⟩)
    · exact fun rule hrule => Era.inEffect_of_rule hrule
  · exact ⟨by rw [h.history], rfl, rfl, h.tail⟩

end

theorem skip_matches {first second : Progress} (h : first.Matches second) :
    first.skip.Matches second.skip := by
  rw [skip, skip, h.history, h.millis]
  split
  · exact h
  · split
    · exact ⟨rfl, rfl, h.save, h.tail⟩
    · exact h

theorem walk_matches {tails : Bool} {eras others : List Era}
    (heras : List.Forall₂ Era.Reordered eras others) {first second : Progress}
    (h : first.Matches second) : (walk tails eras first).Matches (walk tails others second) := by
  induction heras generalizing first second with
  | nil => exact h
  | @cons era other rest others hera hrest ih =>
    have hlast : others.isEmpty = rest.isEmpty := by
      cases hrest <;> rfl
    rw [walk, walk, hera.isEmpty_eq, h.millis, hera.firstTransition_eq, hera.upperLimit_eq, hlast]
    split
    · exact ih (skip_matches h)
    · split
      · exact ih h
      · next opening hopening =>
        have hentered := enter_matches hera h hopening (tails && rest.isEmpty)
        dsimp only
        rw [hentered.save]
        split
        · exact hentered
        · exact ih ⟨hentered.history, rfl, rfl, hentered.tail⟩

end Progress

/-- Timelines that match lead to zones with the same offsets. -/
theorem Progress.Matches.offsetAt {first second : Progress} (h : first.Matches second)
    (id : String) : (Draft.zoneOf id second).offsetAt = (Draft.zoneOf id first).offsetAt := by
  obtain ⟨history, tail, millis, save⟩ := first
  obtain ⟨_, other, _, _⟩ := second
  obtain ⟨rfl, rfl, rfl, htail⟩ := h
  funext instant
  cases htail with
  | none => rfl
  | @some tail other hsame =>
    have hvalue := congrFun hsame instant
    simp only [Draft.zoneOf, TimeZone.offsetAt, TimeZone.tailAt?]
    generalize Array.back? _ = last
    cases last with
    | none => exact hvalue
    | some last =>
      by_cases hafter : last.millis < instant
      · simpa only [hafter, if_true] using hvalue
      · simp only [hafter, if_false]
        rfl

/-- The order of the rules makes no difference to whether a draft is built, nor to its offsets. -/
theorem Draft.build?_reordered {eras others : List Era}
    (h : List.Forall₂ Era.Reordered eras others) (id : String) :
    ((⟨others⟩ : Draft).build? id).map (fun built => built.1.offsetAt) =
      ((⟨eras⟩ : Draft).build? id).map (fun built => built.1.offsetAt) := by
  have hlacks : (⟨others⟩ : Draft).lacksMonth = (⟨eras⟩ : Draft).lacksMonth := by
    rw [lacksMonth, lacksMonth]
    dsimp only
    induction h with
    | nil => rfl
    | cons hera _ ih => rw [List.any_cons, List.any_cons, hera.lacksMonth_eq, ih]
  have hmatches : ((⟨eras⟩ : Draft).simulate true).Matches ((⟨others⟩ : Draft).simulate true) :=
    Progress.walk_matches h ⟨rfl, rfl, rfl, .none⟩
  rw [build?, build?, hlacks]
  split
  · rfl
  · exact congrArg some (hmatches.offsetAt id)

end CivilTime
