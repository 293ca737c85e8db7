import CivilTime.Proofs.Era
import CivilTime.Proofs.Timeline

/-!
The way through an era as a list of firings, one for each occurrence of a rule, whether it changes
the history or not. Following the rules of an era is replaying its firings, so what happens on the
way is read off the list: where a tail is attached, and which firing joins it to the history.
-/

namespace CivilTime

/-- One occurrence of a rule: the history that it is pushed on, the transition before it, the
transition itself and the rules that are left with it. -/
structure Firing where
  history : History
  last : Transition
  transition : Transition
  remaining : List YearlyRule
  deriving DecidableEq, Repr

namespace Firing

def after (firing : Firing) : History :=
  (firing.history.push firing.transition).1

def added (firing : Firing) : Bool :=
  (firing.history.push firing.transition).2

def Next (firing : Firing) (era : Era) (rules : List YearlyRule) : Prop :=
  era.nextTransition rules firing.last.millis firing.last.save =
    (some firing.transition, firing.remaining)

theorem Next.bounds {firing : Firing} {era : Era} {rules : List YearlyRule}
    (h : firing.Next era rules) :
    firing.last.millis < firing.transition.millis ∧ firing.transition.millis < Era.limit :=
  Era.nextTransition_bounds (congrArg Prod.fst h)

/-- The firing is the next occurrence of a rule after the transition before it. -/
structure OfRule (firing : Firing) (era : Era) (rule : YearlyRule) : Prop where
  state : firing.transition = era.stateOf rule firing.transition.millis
  located : firing.transition.millis =
    rule.next firing.last.millis era.standardOffset firing.last.save
  forward : firing.last.millis < firing.transition.millis
  early : firing.transition.millis < Era.limit

theorem Next.exists_rule {firing : Firing} {era : Era} {rules : List YearlyRule}
    (h : firing.Next era rules) : ∃ rule ∈ firing.remaining, firing.OfRule era rule := by
  obtain ⟨-, rule, hrule, hstate⟩ := Era.nextTransition_cases h
  have hmillis := congrArg Transition.millis hstate
  refine ⟨rule, hrule, ?_, hmillis, h.bounds.1, h.bounds.2⟩
  rw [hstate]
  rfl

theorem OfRule.exists_year {firing : Firing} {era : Era} {rule : YearlyRule}
    (h : firing.OfRule era rule) :
    ∃ year, firing.transition.millis =
      rule.recurrence.point.instantIn year era.standardOffset firing.last.save := by
  have hforward := h.forward
  rw [h.located] at hforward ⊢
  exact YearlyRule.exists_next_eq hforward

/-- A rule whose point stays in the year does not fire before its first year, read on the wall clock
in effect. -/
theorem OfRule.startOfYear_le {firing : Firing} {era : Era} {rule : YearlyRule}
    (h : firing.OfRule era rule) (hstays : rule.recurrence.point.StaysInYear) :
    Instant.startOfYear rule.fromYear ≤
      firing.transition.millis + (era.standardOffset + firing.last.save) := by
  have hforward := h.forward
  rw [h.located] at hforward ⊢
  exact YearlyRule.fromYear_le_next hstays hforward

theorem Next.shows {firing : Firing} {era : Era} {rules : List YearlyRule}
    (h : firing.Next era rules) (hshown : firing.history.Shows firing.last) :
    firing.after.Shows firing.transition :=
  hshown.push h.bounds.1

def outcome (history : History) : List Firing → History
  | [] => history
  | firing :: rest => outcome firing.after rest

theorem outcome_append (history : History) (earlier : List Firing) (firing : Firing)
    (later : List Firing) :
    outcome history (earlier ++ firing :: later) = outcome firing.after later := by
  induction earlier generalizing history with
  | nil => rfl
  | cons first rest ih => exact ih first.after

theorem outcome_ne_nil {history : History} (h : history ≠ []) (firings : List Firing) :
    outcome history firings ≠ [] := by
  induction firings generalizing history with
  | nil => exact h
  | cons firing rest ih => exact ih (History.push_ne_nil firing.history firing.transition)

theorem after_of_added {firing : Firing} (h : firing.added = true) :
    ∃ kept, firing.after = firing.transition :: kept := by
  obtain ⟨kept, -, ⟨hpush, -⟩ | ⟨hpush, -⟩⟩ :=
    History.push_cases firing.history firing.transition
  · exact ⟨kept, by rw [after, hpush]⟩
  · simp [added, hpush] at h

theorem after_subset {firing : Firing} (h : firing.added = false) :
    firing.after ⊆ firing.history := by
  obtain ⟨kept, hsuffix, ⟨hpush, -⟩ | ⟨hpush, -⟩⟩ :=
    History.push_cases firing.history firing.transition
  · simp [added, hpush] at h
  · rw [after, hpush]
    exact hsuffix.subset

end Firing

namespace Era

def firings (era : Era) (rules : List YearlyRule) (history : History) (last : Transition) :
    List Firing :=
  match _h : era.nextTransition rules last.millis last.save with
  | (none, _) => []
  | (some transition, remaining) =>
    ⟨history, last, transition, remaining⟩ ::
      era.firings remaining (history.push transition).1 transition
  termination_by (limit - last.millis).toNat
  decreasing_by
    have := @nextTransition_bounds era rules last.millis last.save transition (by rw [_h])
    omega

theorem firings_eq_cons {era : Era} {rules : List YearlyRule} {history : History}
    {last : Transition} {firing : Firing} {rest : List Firing}
    (h : era.firings rules history last = firing :: rest) :
    firing.history = history ∧ firing.last = last ∧ firing.Next era rules ∧
      rest = era.firings firing.remaining firing.after firing.transition := by
  rw [firings] at h
  split at h
  · contradiction
  · next transition remaining hnext =>
    obtain ⟨rfl, rfl⟩ := List.cons.inj h
    exact ⟨rfl, rfl, hnext, rfl⟩

theorem firings_eq_nil {era : Era} {rules : List YearlyRule} {history : History}
    {last : Transition} (h : era.firings rules history last = []) :
    (era.nextTransition rules last.millis last.save).1 = none := by
  rw [firings] at h
  split at h
  · next hnext => rw [hnext]
  · contradiction

theorem firings_of_next {era : Era} {rules : List YearlyRule} {firing : Firing}
    (h : firing.Next era rules) :
    era.firings rules firing.history firing.last =
      firing :: era.firings firing.remaining firing.after firing.transition := by
  rw [firings]
  split
  · next hnone => exact absurd (h.symm.trans hnone) (by simp)
  · next transition remaining hsome =>
    obtain ⟨htransition, hremaining⟩ :
        firing.transition = transition ∧ firing.remaining = remaining := by
      simpa using h.symm.trans hsome
    rw [← htransition, ← hremaining]
    rfl

/-- What holds at the start and is kept by every firing holds before each of them; and what comes
after a firing is again the way through the era, from that firing on. -/
theorem firings_split {era : Era} {P : List YearlyRule → History → Transition → Prop}
    (hstep : ∀ (rules : List YearlyRule) (firing : Firing), P rules firing.history firing.last →
      firing.Next era rules → P firing.remaining firing.after firing.transition)
    {rules : List YearlyRule} {history : History} {last : Transition} (hstart : P rules history last)
    {earlier later : List Firing} {firing : Firing}
    (h : era.firings rules history last = earlier ++ firing :: later) :
    ∃ offered, P offered firing.history firing.last ∧ firing.Next era offered ∧
      later = era.firings firing.remaining firing.after firing.transition := by
  induction earlier generalizing rules history last with
  | nil =>
    obtain ⟨hhistory, hlast, hnext, hlater⟩ := firings_eq_cons h
    exact ⟨rules, by rwa [hhistory, hlast], hnext, hlater⟩
  | cons first rest ih =>
    obtain ⟨hhistory, hlast, hnext, hrest⟩ := firings_eq_cons h
    exact ih (hstep rules first (by rwa [hhistory, hlast]) hnext) hrest.symm

theorem mem_firings {era : Era} {P : List YearlyRule → History → Transition → Prop}
    (hstep : ∀ (rules : List YearlyRule) (firing : Firing), P rules firing.history firing.last →
      firing.Next era rules → P firing.remaining firing.after firing.transition)
    {rules : List YearlyRule} {history : History} {last : Transition} (hstart : P rules history last)
    {firing : Firing} (h : firing ∈ era.firings rules history last) :
    ∃ offered, P offered firing.history firing.last ∧ firing.Next era offered := by
  obtain ⟨earlier, later, hsplit⟩ := List.append_of_mem h
  obtain ⟨offered, hoffered, hnext, -⟩ := firings_split hstep hstart hsplit
  exact ⟨offered, hoffered, hnext⟩

/-- Firings move forwards, and no rule comes back once it has been dropped. -/
theorem firings_forward {era : Era} {rules : List YearlyRule} {history : History}
    {last : Transition} {firing : Firing} (h : firing ∈ era.firings rules history last) :
    last.millis < firing.transition.millis ∧ firing.remaining ⊆ rules := by
  obtain ⟨offered, hforward, hnext⟩ := mem_firings
    (P := fun offered _ reached => last.millis ≤ reached.millis ∧ offered ⊆ rules)
    (fun _ _ hforward hnext => ⟨hforward.1.trans hnext.bounds.1.le,
      List.Subset.trans (nextTransition_subset hnext) hforward.2⟩)
    ⟨le_rfl, List.Subset.refl rules⟩ h
  exact ⟨hforward.1.trans_lt hnext.bounds.1,
    List.Subset.trans (nextTransition_subset hnext) hforward.2⟩

/-- Every firing finds the transition before it shown, if the first one does. -/
theorem firings_shows {era : Era} {rules : List YearlyRule} {history : History}
    {last : Transition} (hshows : history.Shows last) {firing : Firing}
    (h : firing ∈ era.firings rules history last) : firing.history.Shows firing.last := by
  obtain ⟨offered, hshown, -⟩ := mem_firings (P := fun _ history last => history.Shows last)
    (fun _ _ hshown hnext => hnext.shows hshown) hshows h
  exact hshown

theorem firings_increasing (era : Era) (rules : List YearlyRule) (history : History)
    (last : Transition) : (era.firings rules history last).Pairwise
      fun earlier later => earlier.transition.millis < later.transition.millis := by
  fun_induction era.firings rules history last with
  | case1 rules history last remaining hnext => exact List.Pairwise.nil
  | case2 rules history last transition remaining hnext ih =>
    refine List.pairwise_cons.mpr ⟨?_, ih⟩
    intro firing hfiring
    exact (firings_forward hfiring).1

/-- If no firing is added, no entry is left that was not there before. -/
theorem outcome_subset {era : Era} {rules : List YearlyRule} {history : History}
    {last : Transition} (h : ∀ firing ∈ era.firings rules history last, firing.added = false) :
    Firing.outcome history (era.firings rules history last) ⊆ history := by
  fun_induction era.firings rules history last with
  | case1 rules history last remaining hnext => exact List.Subset.refl history
  | case2 rules history last transition remaining hnext ih =>
    have hfirst := Firing.after_subset (h ⟨history, last, transition, remaining⟩ (by simp))
    have hrest := ih fun firing hfiring => h firing (by simp [hfiring])
    exact List.Subset.trans hrest hfirst

end Era

namespace Progress

/-- Takes firings one by one. Once there is a tail, the first one that is added ends the way. -/
def replay (era : Era) (tailAllowed : Bool) : List Firing → Progress → Progress
  | [], progress => progress
  | firing :: rest, progress =>
    if firing.added && progress.tail.isSome then { progress with history := firing.after }
    else
      replay era tailAllowed rest
        { history := firing.after
          tail :=
            if progress.tail.isNone && tailAllowed then era.tail? firing.remaining
            else progress.tail
          millis := firing.transition.millis
          save := firing.transition.save }

theorem follow_eq_replay (era : Era) (tailAllowed : Bool) (rules : List YearlyRule)
    (history : History) (tail : Option Tail) (last : Transition) :
    follow era tailAllowed rules ⟨history, tail, last.millis, last.save⟩ =
      replay era tailAllowed (era.firings rules history last)
        ⟨history, tail, last.millis, last.save⟩ := by
  fun_induction era.firings rules history last generalizing tail with
  | case1 rules history last remaining hnext =>
    rw [follow]
    split
    · rfl
    · next hsome => exact absurd (hnext.symm.trans hsome) (by simp)
  | case2 rules history last transition remaining hnext ih =>
    rw [follow, replay]
    split
    · next hnone => exact absurd (hnext.symm.trans hnone) (by simp)
    · next found left hfound =>
      obtain ⟨rfl, rfl⟩ : transition = found ∧ remaining = left := by
        simpa using hnext.symm.trans hfound
      rw [ih]
      rfl

theorem replay_plain (era : Era) (firings : List Firing) {progress : Progress}
    (h : progress.tail = none) :
    (replay era false firings progress).tail = none ∧
      (replay era false firings progress).history = Firing.outcome progress.history firings := by
  induction firings generalizing progress with
  | nil => exact ⟨h, rfl⟩
  | cons firing rest ih => simpa [replay, h, Firing.outcome] using ih rfl

/-- Once there is a tail it stays, and the first firing that is added ends the way. -/
theorem replay_attached (era : Era) (tailAllowed : Bool) (firings : List Firing)
    (progress : Progress) {tail : Tail} (h : progress.tail = some tail) :
    (replay era tailAllowed firings progress).tail = some tail ∧
      ((∃ earlier joining later, firings = earlier ++ joining :: later ∧
          (∀ firing ∈ earlier, firing.added = false) ∧ joining.added = true ∧
          (replay era tailAllowed firings progress).history = joining.after) ∨
        ((∀ firing ∈ firings, firing.added = false) ∧
          (replay era tailAllowed firings progress).history =
            Firing.outcome progress.history firings)) := by
  induction firings generalizing progress with
  | nil => exact ⟨h, Or.inr ⟨by simp, rfl⟩⟩
  | cons firing rest ih =>
    rw [replay]
    cases hadded : firing.added with
    | true =>
      rw [if_pos (by simp [h])]
      exact ⟨h, Or.inl ⟨[], firing, rest, rfl, by simp, hadded, rfl⟩⟩
    | false =>
      rw [if_neg (by simp)]
      simp only [h, Option.isNone_some, Bool.false_and, Bool.false_eq_true, if_false]
      obtain ⟨htail, ⟨earlier, joining, later, rfl, hearlier, hjoining, hhistory⟩ |
        ⟨hrest, hhistory⟩⟩ := ih
          ⟨firing.after, some tail, firing.transition.millis, firing.transition.save⟩ rfl
      · exact ⟨htail, Or.inl ⟨firing :: earlier, joining, later, rfl,
          by simpa [hadded] using hearlier, hjoining, hhistory⟩⟩
      · exact ⟨htail, Or.inr ⟨by simpa [hadded] using hrest, hhistory⟩⟩

/-- The tail is attached with the first firing that leaves two rules for it. -/
theorem replay_attach {era : Era} {firings : List Firing} {progress : Progress} {tail : Tail}
    (hnone : progress.tail = none) (h : (replay era true firings progress).tail = some tail) :
    ∃ earlier attaching later, firings = earlier ++ attaching :: later ∧
      (∀ firing ∈ earlier, era.tail? firing.remaining = none) ∧
      era.tail? attaching.remaining = some tail ∧
      replay era true firings progress = replay era true later
        ⟨attaching.after, some tail, attaching.transition.millis, attaching.transition.save⟩ := by
  induction firings generalizing progress with
  | nil => simp [replay, hnone] at h
  | cons firing rest ih =>
    rw [replay, if_neg (by simp [hnone])] at h ⊢
    simp only [hnone, Option.isNone_none, Bool.and_self, if_true] at h ⊢
    cases hremaining : era.tail? firing.remaining with
    | none =>
      rw [hremaining] at h
      obtain ⟨earlier, attaching, later, rfl, hearlier, hattaching, hreplay⟩ := ih rfl h
      exact ⟨firing :: earlier, attaching, later, rfl, by simpa [hremaining] using hearlier,
        hattaching, hreplay⟩
    | some found =>
      rw [hremaining] at h
      have hattached := (replay_attached era true rest
        ⟨firing.after, some found, firing.transition.millis, firing.transition.save⟩ rfl).1
      obtain rfl : found = tail := Option.some.inj (hattached.symm.trans h)
      exact ⟨[], firing, rest, rfl, by simp, hremaining, rfl⟩

end Progress

end CivilTime
