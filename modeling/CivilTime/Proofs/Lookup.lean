import CivilTime.Proofs.Timeline
import CivilTime.TimeZone

/-!
What the queries of a zone look up. Bisection finds the place where the transitions pass an instant,
so where the transitions run forwards the one in effect is the newest that does not lie after the
instant.
-/

namespace CivilTime

/-- If the condition goes on holding once it holds, the search finds where it begins. -/
theorem Bisection.search_spec {condition : Nat → Bool}
    (hmono : ∀ i j, i ≤ j → condition i = true → condition j = true) {low high : Nat}
    (h : low ≤ high) :
    (low ≤ search condition low high ∧ search condition low high ≤ high) ∧
      (∀ i, low ≤ i → i < search condition low high → condition i = false) ∧
      ∀ i, search condition low high ≤ i → i < high → condition i = true := by
  fun_induction search condition low high with
  | case1 low high hlt middle hholds ih =>
    obtain ⟨hbounds, hbelow, habove⟩ := ih (by omega)
    refine ⟨by omega, hbelow, fun i hi hhigh => ?_⟩
    by_cases hmiddle : i < middle
    · exact habove i hi hmiddle
    · exact hmono middle i (by omega) hholds
  | case2 low high hlt middle hfails ih =>
    obtain ⟨hbounds, hbelow, habove⟩ := ih (by omega)
    refine ⟨by omega, fun i hlow hi => ?_, habove⟩
    by_cases hmiddle : middle < i
    · exact hbelow i hmiddle hi
    · refine Bool.eq_false_iff.mpr fun hholds => hfails ?_
      exact hmono i middle (by omega) hholds
  | case3 low high hge => exact ⟨by omega, fun i _ _ => by omega, fun i _ _ => by omega⟩

structure State where
  wallOffset : Int
  standardOffset : Int
  name : String
  deriving DecidableEq, Repr

def Transition.state (transition : Transition) : State :=
  ⟨transition.wallOffset, transition.standardOffset, transition.name⟩

theorem Transition.sameState_iff_state (first second : Transition) :
    first.sameState second = true ↔ first.state = second.state := by
  simp [sameState_iff, state]

def TimeZone.stateAt (zone : TimeZone) (instant : Int) : State :=
  ⟨zone.offsetAt instant, zone.standardOffsetAt instant, zone.nameAt instant⟩

namespace History

/-- The entry in effect at an instant: the newest one that does not lie after it. -/
def at? (history : History) (instant : Int) : Option Transition :=
  history.find? fun entry => entry.millis ≤ instant

/-- Entries that lie after an instant make no difference to what is in effect there. -/
theorem at?_append {added history : History} {instant : Int}
    (h : ∀ entry ∈ added, instant < entry.millis) :
    at? (added ++ history) instant = at? history instant := by
  have hnone : added.find? (fun entry => entry.millis ≤ instant) = none := by
    simpa [List.find?_eq_none] using h
  simp [at?, List.find?_append, hnone]

theorem at?_cons_of_le {entry : Transition} {history : History} {instant : Int}
    (h : entry.millis ≤ instant) : at? (entry :: history) instant = some entry := by
  simp [at?, h]

/-- From the instant of the transition that is shown on, the newest entry is in effect. -/
theorem Shows.at? {history : History} {transition : Transition} (h : history.Shows transition)
    {instant : Int} (hinstant : transition.millis ≤ instant) :
    ∃ newest, history.at? instant = some newest ∧ transition.sameState newest = true := by
  obtain ⟨newest, hnewest, hshown⟩ := h.shown
  obtain ⟨older, rfl⟩ : ∃ older, history = newest :: older := by
    simpa [List.head?_eq_some_iff] using hnewest
  exact ⟨newest, at?_cons_of_le ((h.bounded newest (by simp)).trans hinstant), hshown⟩

/-- What was in effect before a transition that takes nothing back stays so. -/
theorem Stands.at?_push {history : History} {last transition : Transition} {bound instant : Int}
    (h : history.Stands last bound) (hlater : last.millis < transition.millis)
    (hlocal : bound < transition.millis + last.wallOffset) (hinstant : instant < transition.millis) :
    (history.push transition).1.at? instant = history.at? instant := by
  rcases h.push_cases hlater hlocal with ⟨hpush, -⟩ | hpush
  · rw [hpush]
  · rw [hpush, ← List.singleton_append]
    exact at?_append (by simpa using hinstant)

end History

namespace TimeZone

def Increasing (zone : TimeZone) : Prop :=
  zone.transitions.toList.Pairwise fun earlier later => earlier.millis < later.millis

theorem Orderly.isIncreasing {zone : TimeZone} (h : zone.Orderly) : zone.Increasing :=
  h.increasing

/-- A condition on instants that goes on holding once it holds splits the transitions where the
search finds it. -/
theorem Increasing.search_split {zone : TimeZone} (h : zone.Increasing) (condition : Int → Bool)
    (hmono : ∀ earlier later, earlier ≤ later → condition earlier = true → condition later = true) :
    let count := Bisection.search
      (fun i => match zone.transitions[i]? with
        | some transition => condition transition.millis
        | none => true)
      0 zone.transitions.size
    (∀ transition ∈ zone.transitions.toList.take count, condition transition.millis = false) ∧
      (∀ transition ∈ zone.transitions.toList.drop count, condition transition.millis = true) ∧
      count ≤ zone.transitions.toList.length := by
  intro count
  have hindex : ∀ i j : Nat, i ≤ j →
      (match zone.transitions[i]? with
        | some transition => condition transition.millis
        | none => true) = true →
      (match zone.transitions[j]? with
        | some transition => condition transition.millis
        | none => true) = true := by
    intro i j hij hi
    cases hlater : zone.transitions[j]? with
    | none => rfl
    | some later =>
      obtain ⟨hj, rfl⟩ := Array.getElem?_eq_some_iff.mp hlater
      rw [Array.getElem?_eq_getElem (by omega)] at hi
      rcases hij.lt_or_eq with hlt | rfl
      · have hincreasing := List.pairwise_iff_getElem.mp h i j (by simp; omega)
          (by simpa using hj) hlt
        exact hmono _ _ hincreasing.le hi
      · exact hi
  obtain ⟨⟨-, hsize⟩, hbelow, habove⟩ :=
    Bisection.search_spec hindex (Nat.zero_le zone.transitions.size)
  change count ≤ _ at hsize
  refine ⟨?_, ?_, by simpa using hsize⟩
  · intro transition hmem
    obtain ⟨i, hi, rfl⟩ := List.mem_take_iff_getElem.mp hmem
    have hsmall : i < zone.transitions.size := by simpa using (lt_min_iff.mp hi).2
    have hfails := hbelow i (Nat.zero_le i) (lt_min_iff.mp hi).1
    rw [Array.getElem?_eq_getElem hsmall] at hfails
    simpa using hfails
  · intro transition hmem
    obtain ⟨i, hi, rfl⟩ := List.mem_drop_iff_getElem.mp hmem
    have hsmall : count + i < zone.transitions.size := by
      rw [Array.length_toList] at hi
      omega
    have hholds := habove _ (Nat.le_add_right count i) hsmall
    rw [Array.getElem?_eq_getElem hsmall] at hholds
    simpa using hholds

/-- The transitions up to an instant are those that `countThrough` counts. -/
theorem Increasing.countThrough_split {zone : TimeZone} (h : zone.Increasing) (instant : Int) :
    (∀ transition ∈ zone.transitions.toList.take (zone.countThrough instant),
        transition.millis ≤ instant) ∧
      (∀ transition ∈ zone.transitions.toList.drop (zone.countThrough instant),
        instant < transition.millis) ∧
      zone.countThrough instant ≤ zone.transitions.toList.length := by
  obtain ⟨hbefore, hafter, hcount⟩ := h.search_split (fun millis => decide (instant < millis))
    (by simpa using fun _ _ hle hlt => lt_of_lt_of_le hlt hle)
  exact ⟨fun transition hmem => by simpa using hbefore transition hmem,
    fun transition hmem => by simpa using hafter transition hmem, hcount⟩

/-- The transitions before an instant are those that `countBefore` counts. -/
theorem Increasing.countBefore_split {zone : TimeZone} (h : zone.Increasing) (instant : Int) :
    (∀ transition ∈ zone.transitions.toList.take (zone.countBefore instant),
        transition.millis < instant) ∧
      (∀ transition ∈ zone.transitions.toList.drop (zone.countBefore instant),
        instant ≤ transition.millis) ∧
      zone.countBefore instant ≤ zone.transitions.toList.length := by
  obtain ⟨hbefore, hafter, hcount⟩ := h.search_split (fun millis => decide (instant ≤ millis))
    (by simpa using fun _ _ hle hlt => le_trans hlt hle)
  exact ⟨fun transition hmem => by simpa using hbefore transition hmem,
    fun transition hmem => by simpa using hafter transition hmem, hcount⟩

theorem Increasing.transitionAt?_eq {zone : TimeZone} (h : zone.Increasing) (instant : Int) :
    zone.transitionAt? instant = History.at? zone.transitions.toList.reverse instant := by
  obtain ⟨hthrough, hafter, hcount⟩ := h.countThrough_split instant
  have hsplit := List.take_append_drop (zone.countThrough instant) zone.transitions.toList
  rw [← hsplit, List.reverse_append, History.at?_append (by simpa using hafter), transitionAt?]
  cases hn : zone.countThrough instant with
  | zero => simp [History.at?]
  | succ n =>
    rw [hn] at hcount hthrough
    have hlast : zone.transitions.toList[n]? = some zone.transitions.toList[n] :=
      List.getElem?_eq_getElem (by omega)
    rw [List.take_add_one, hlast, Option.toList_some, List.reverse_append]
    have hle : zone.transitions.toList[n].millis ≤ instant :=
      hthrough _ (by rw [List.take_add_one, hlast]; simp)
    rw [List.reverse_singleton, List.singleton_append, History.at?_cons_of_le hle]
    simp

theorem stateAt_of_transitionAt? {zone : TimeZone} {instant : Int} {transition : Transition}
    (htail : zone.tailAt? instant = none) (h : zone.transitionAt? instant = some transition) :
    zone.stateAt instant = transition.state := by
  simp [stateAt, offsetAt, standardOffsetAt, nameAt, htail, h, Transition.state]

theorem tail_eq_of_tailAt? {zone : TimeZone} {instant : Int} {tail : Tail}
    (h : zone.tailAt? instant = some tail) : zone.tail = some tail := by
  rw [tailAt?] at h
  split at h
  · exact h
  · split at h
    · exact h
    · contradiction

theorem tailAt?_of_tail_eq_none {zone : TimeZone} (h : zone.tail = none) (instant : Int) :
    zone.tailAt? instant = none := by
  rw [tailAt?]
  split
  · exact h
  · split
    · exact h
    · rfl

end TimeZone

theorem Draft.zoneOf_transitionAt? (id : String) {progress : Progress} (h : progress.Sound)
    (hfilled : progress.history ≠ []) (instant : Int) :
    (zoneOf id progress).transitionAt? instant = progress.history.at? instant := by
  rw [(zoneOf_orderly id h).isIncreasing.transitionAt?_eq]
  simp [zoneOf, hfilled]

end CivilTime
