import CivilTime.Transition
import Mathlib.Data.List.Chain
import Mathlib.Tactic

/-!
What appending to a history can do, and what it keeps. `push` first takes back some of the newest
entries; what is left stays as it was, and the transition is put on it unless it changes nothing
there. So a history stays in order whatever is pushed on it.
-/

namespace CivilTime

namespace Transition

theorem sameState_iff (first second : Transition) :
    first.sameState second = true ↔ first.wallOffset = second.wallOffset ∧
      first.standardOffset = second.standardOffset ∧ first.name = second.name := by
  simp [sameState, and_assoc]

theorem sameState_refl (transition : Transition) : transition.sameState transition = true :=
  (transition.sameState_iff transition).mpr ⟨rfl, rfl, rfl⟩

theorem sameState_congr {second third : Transition} (h : second.sameState third = true)
    (first : Transition) : first.sameState second = true ↔ first.sameState third = true := by
  simp only [sameState_iff] at h ⊢
  rw [h.1, h.2.1, h.2.2]

theorem follows_some_iff (transition last : Transition) :
    transition.follows (some last) = true ↔
      last.millis < transition.millis ∧ ¬ transition.sameState last = true := by
  simp [follows]

end Transition

namespace History

/-- Of two neighbours the newer one, on the left, is later and changes the state of the other. -/
def Ordered (history : History) : Prop :=
  List.IsChain (fun newer older => newer.follows (some older) = true) history

/-- Everything that `push` can do. The entries taken back are the newest ones, each at the local
time of the transition if the two are read with the offset in effect before each of them. The
transition is put on the rest exactly if it follows the newest entry there. -/
theorem push_split (history : History) (transition : Transition) :
    ∃ removed kept, history = removed ++ kept ∧
      (∀ newer entry earlier, removed = newer ++ entry :: earlier →
        entry.millis + ((earlier ++ kept).head?.map Transition.wallOffset).getD 0 =
          transition.millis + entry.wallOffset) ∧
      ((push history transition = (transition :: kept, true) ∧
          ∀ last ∈ kept.head?, transition.follows (some last) = true) ∨
        (push history transition = (kept, false) ∧
          ∃ last ∈ kept.head?, ¬ transition.follows (some last) = true)) := by
  induction history with
  | nil => exact ⟨[], [], rfl, by simp, Or.inl ⟨rfl, by simp⟩⟩
  | cons last older ih =>
    by_cases hfollows : transition.follows (some last) = true
    · by_cases hlocal : transition.millis + last.wallOffset =
          last.millis + (older.head?.map Transition.wallOffset).getD 0
      · obtain ⟨removed, kept, rfl, hremoved, hpush⟩ := ih
        refine ⟨last :: removed, kept, rfl, ?_, ?_⟩
        · intro newer entry earlier hsplit
          rcases List.cons_eq_append_iff.mp hsplit with ⟨-, hnewest⟩ | ⟨newer, -, hrest⟩
          · obtain ⟨rfl, rfl⟩ := List.cons.inj hnewest
            exact hlocal.symm
          · exact hremoved newer entry earlier hrest
        · simpa only [push, hfollows, hlocal, if_true] using hpush
      · refine ⟨[], last :: older, rfl, by simp, Or.inl ⟨?_, by simpa using hfollows⟩⟩
        simp only [push, hfollows, hlocal, if_true, if_false]
    · refine ⟨[], last :: older, rfl, by simp, Or.inr ⟨?_, last, rfl, hfollows⟩⟩
      simp only [push, hfollows, if_false, Bool.false_eq_true]

theorem push_cases (history : History) (transition : Transition) :
    ∃ kept, kept <:+ history ∧
      ((push history transition = (transition :: kept, true) ∧
          ∀ last ∈ kept.head?, transition.follows (some last) = true) ∨
        (push history transition = (kept, false) ∧
          ∃ last ∈ kept.head?, ¬ transition.follows (some last) = true)) := by
  obtain ⟨removed, kept, rfl, -, hpush⟩ := push_split history transition
  exact ⟨kept, List.suffix_append removed kept, hpush⟩

theorem push_ne_nil (history : History) (transition : Transition) :
    (push history transition).1 ≠ [] := by
  obtain ⟨kept, -, ⟨hpush, -⟩ | ⟨hpush, last, hlast, -⟩⟩ := push_cases history transition
  · simp [hpush]
  · rw [hpush]
    rintro rfl
    simp at hlast

/-- What holds of all entries and of the transition still holds of all entries. -/
theorem push_forall {history : History} {transition : Transition} {P : Transition → Prop}
    (hentries : ∀ entry ∈ history, P entry) (htransition : P transition) :
    ∀ entry ∈ (push history transition).1, P entry := by
  obtain ⟨kept, hsuffix, ⟨hpush, -⟩ | ⟨hpush, -⟩⟩ := push_cases history transition
  · rw [hpush]
    intro entry hentry
    rcases List.mem_cons.mp hentry with rfl | hkept
    · exact htransition
    · exact hentries entry (hsuffix.subset hkept)
  · rw [hpush]
    exact fun entry hentry => hentries entry (hsuffix.subset hentry)

theorem push_ordered {history : History} (h : Ordered history) (transition : Transition) :
    Ordered (push history transition).1 := by
  obtain ⟨kept, hsuffix, ⟨hpush, hfollows⟩ | ⟨hpush, -⟩⟩ := push_cases history transition
  · rw [hpush]
    exact (List.isChain_cons).mpr ⟨hfollows, List.IsChain.suffix h hsuffix⟩
  · rw [hpush]
    exact List.IsChain.suffix h hsuffix

theorem lt_of_push_added (last : Transition) (older : History) {transition : Transition}
    (h : (push (last :: older) transition).2 = true) : last.millis < transition.millis := by
  rw [push] at h
  split at h
  · next hfollows => exact ((transition.follows_some_iff last).mp hfollows).1
  · simp at h

/-- No entry comes to lie before a bound, if the first entry of all does not. -/
theorem push_bounded {history : History} {transition : Transition} {bound : Int}
    (hbound : ∀ entry ∈ history, bound ≤ entry.millis)
    (hfirst : history = [] → bound ≤ transition.millis) :
    ∀ entry ∈ (push history transition).1, bound ≤ entry.millis := by
  obtain ⟨kept, hsuffix, ⟨hpush, -⟩ | ⟨hpush, -⟩⟩ := push_cases history transition
  · rw [hpush]
    intro entry hentry
    rcases List.mem_cons.mp hentry with rfl | hkept
    · cases history with
      | nil => exact hfirst rfl
      | cons last older =>
        have hlast := hbound last (by simp)
        have hlater := lt_of_push_added last older (by rw [hpush])
        omega
    · exact hbound entry (hsuffix.subset hkept)
  · rw [hpush]
    exact fun entry hentry => hbound entry (hsuffix.subset hentry)

/-- Read from the oldest entry on, an ordered history runs strictly forwards in time. -/
theorem Ordered.increasing {history : History} (h : Ordered history) :
    history.reverse.Pairwise (fun earlier later => earlier.millis < later.millis) := by
  rw [List.pairwise_reverse, ← List.isChain_iff_pairwise]
  refine List.IsChain.imp ?_ h
  intro newer older hfollows
  exact ((newer.follows_some_iff older).mp hfollows).1

/-- Read from the oldest entry on, each entry of an ordered history changes the state. -/
theorem Ordered.changing {history : History} (h : Ordered history) :
    history.reverse.IsChain (fun earlier later =>
      earlier.wallOffset ≠ later.wallOffset ∨ earlier.standardOffset ≠ later.standardOffset ∨
        earlier.name ≠ later.name) := by
  rw [List.isChain_reverse]
  refine List.IsChain.imp ?_ h
  intro newer older hfollows
  have hstate := ((newer.follows_some_iff older).mp hfollows).2
  rw [newer.sameState_iff older] at hstate
  simp only [not_and_or] at hstate
  exact hstate.imp (fun h => Ne.symm h) (Or.imp (fun h => Ne.symm h) (fun h => Ne.symm h))

/-- The newest entry has the state of a transition, and no entry lies after it. -/
@[mk_iff]
structure Shows (history : History) (transition : Transition) : Prop where
  shown : ∃ newest ∈ history.head?, transition.sameState newest = true
  bounded : ∀ entry ∈ history, entry.millis ≤ transition.millis

instance (history : History) (transition : Transition) : Decidable (history.Shows transition) :=
  decidable_of_iff _ (shows_iff history transition).symm

/-- A transition after all entries is shown once it has been pushed, whether it is added or its
state is there already. -/
theorem push_shows {history : History} {transition : Transition}
    (h : ∀ entry ∈ history, entry.millis < transition.millis) :
    (push history transition).1.Shows transition := by
  obtain ⟨kept, hsuffix, ⟨hpush, -⟩ | ⟨hpush, newest, hnewest, hunchanged⟩⟩ :=
    push_cases history transition
  · rw [hpush]
    refine ⟨⟨transition, rfl, transition.sameState_refl⟩, ?_⟩
    intro entry hentry
    rcases List.mem_cons.mp hentry with rfl | hkept
    · exact le_rfl
    · exact (h entry (hsuffix.subset hkept)).le
  · rw [hpush]
    refine ⟨⟨newest, hnewest, ?_⟩, fun entry hentry => (h entry (hsuffix.subset hentry)).le⟩
    have hbefore := h newest (hsuffix.subset (List.mem_of_mem_head? hnewest))
    by_contra hdifferent
    exact hunchanged ((transition.follows_some_iff newest).mpr ⟨hbefore, hdifferent⟩)

theorem Shows.push {history : History} {last transition : Transition} (h : history.Shows last)
    (hlater : last.millis < transition.millis) :
    (history.push transition).1.Shows transition :=
  push_shows fun entry hentry => (h.bounded entry hentry).trans_lt hlater

theorem push_of_sameState {history : History} {newest transition : Transition}
    (hnewest : newest ∈ history.head?) (h : transition.sameState newest = true) :
    push history transition = (history, false) := by
  cases history with
  | nil => simp at hnewest
  | cons head older =>
    obtain rfl : head = newest := by simpa using hnewest
    simp [push, Transition.follows, h]

theorem Shows.not_sameState_of_added {history : History} {last transition : Transition}
    (h : history.Shows last) (hadded : (history.push transition).2 = true) :
    ¬ transition.sameState last = true := by
  intro hsame
  obtain ⟨newest, hnewest, hshown⟩ := h.shown
  rw [push_of_sameState hnewest ((Transition.sameState_congr hshown transition).mp hsame)] at hadded
  exact Bool.false_ne_true hadded

def Keeps (history : History) (transition : Transition) : Prop :=
  history <:+ (history.push transition).1

instance (history : History) (transition : Transition) : Decidable (history.Keeps transition) :=
  inferInstanceAs (Decidable (history <:+ (history.push transition).1))

/-- Where no entry is taken back, a later transition to another state than the one shown is put on
top of all entries. -/
theorem Shows.push_of_keeps {history : History} {last transition : Transition}
    (h : history.Shows last) (hkeeps : history.Keeps transition)
    (hlater : last.millis < transition.millis)
    (hchanges : ¬ transition.sameState last = true) :
    history.push transition = (transition :: history, true) := by
  obtain ⟨kept, hsuffix, ⟨hpush, -⟩ | ⟨hpush, newest, hnewest, hunchanged⟩⟩ :=
    push_cases history transition
  · rw [Keeps, hpush] at hkeeps
    have hshort : history.length ≤ kept.length := by
      rcases List.suffix_cons_iff.mp hkeeps with rfl | hkept
      · have := h.bounded transition (by simp)
        omega
      · exact hkept.length_le
    rw [hpush, hsuffix.eq_of_length_le hshort]
  · rw [Keeps, hpush] at hkeeps
    obtain rfl : kept = history := hsuffix.eq_of_length_le hkeeps.length_le
    obtain ⟨shown, hshown, hstate⟩ := h.shown
    obtain rfl : newest = shown := Option.mem_unique hnewest hshown
    have hbefore := h.bounded newest (List.mem_of_mem_head? hnewest)
    refine absurd ((transition.follows_some_iff newest).mpr ⟨by omega, ?_⟩) hunchanged
    intro hsame
    exact hchanges ((Transition.sameState_congr hstate transition).mpr hsame)

/-- The local time of the newest entry, read with the offset in effect before it. -/
def newestLocal? : History → Option Int
  | [] => none
  | last :: older =>
    some (last.millis + (older.head?.map Transition.wallOffset).getD 0)

structure Stands (history : History) (transition : Transition) (bound : Int) : Prop where
  shows : history.Shows transition
  early : ∀ millis ∈ history.newestLocal?, millis ≤ bound

theorem stands_singleton (transition : Transition) :
    Stands (push [] transition).1 transition transition.millis := by
  refine ⟨⟨⟨transition, rfl, transition.sameState_refl⟩, by simp [push]⟩, ?_⟩
  simp [push, newestLocal?]

/-- A transition at a later instant and a later local time takes nothing back: it is left out if it
changes nothing, and otherwise put on top of all entries. -/
theorem Stands.push_cases {history : History} {last transition : Transition} {bound : Int}
    (h : history.Stands last bound) (hlater : last.millis < transition.millis)
    (hlocal : bound < transition.millis + last.wallOffset) :
    (push history transition).1 = history ∧ transition.sameState last = true ∨
      (push history transition).1 = transition :: history := by
  obtain ⟨newest, hnewest, hshown⟩ := h.shows.shown
  obtain ⟨older, rfl⟩ : ∃ older, history = newest :: older := by
    simpa [List.head?_eq_some_iff] using hnewest
  have hwall : last.wallOffset = newest.wallOffset := ((last.sameState_iff newest).mp hshown).1
  have hbefore := h.shows.bounded newest (by simp)
  have hearly := h.early _ rfl
  by_cases hsame : transition.sameState last = true
  · refine Or.inl ⟨?_, hsame⟩
    rw [push_of_sameState hnewest ((Transition.sameState_congr hshown transition).mp hsame)]
  · have hfollows : transition.follows (some newest) = true := by
      refine (transition.follows_some_iff newest).mpr ⟨by omega, fun hnew => hsame ?_⟩
      exact (Transition.sameState_congr hshown transition).mpr hnew
    refine Or.inr ?_
    rw [History.push, if_pos hfollows]
    exact congrArg Prod.fst (if_neg (by omega))

theorem Stands.push {history : History} {last transition : Transition} {bound : Int}
    (h : history.Stands last bound) (hlater : last.millis < transition.millis)
    (hlocal : bound < transition.millis + last.wallOffset) :
    (history.push transition).1.Stands transition (transition.millis + last.wallOffset) := by
  refine ⟨h.shows.push hlater, fun millis hmillis => ?_⟩
  rcases h.push_cases hlater hlocal with ⟨hpush, -⟩ | hpush
  · rw [hpush] at hmillis
    exact (h.early millis hmillis).trans hlocal.le
  · obtain ⟨newest, hnewest, hshown⟩ := h.shows.shown
    rw [hpush, newestLocal?, Option.mem_def.mp hnewest, Option.mem_some] at hmillis
    rw [← hmillis, ((last.sameState_iff newest).mp hshown).1]
    exact le_rfl

end History

end CivilTime
