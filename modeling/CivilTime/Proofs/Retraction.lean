import CivilTime.Proofs.Lookup

/-!
What is seen of a history on which a transition is pushed. From the transition on, its state is
shown, whether it is put on top or left out. Before it nothing changes up to the oldest of the
entries that are taken back for it.
-/

namespace CivilTime.History

def toZone (history : History) (id : String) : TimeZone :=
  { id, transitions := history.reverse.toArray }

namespace Ordered

variable {history : History}

/-- A zone made from an ordered history shows the entry in effect, and universal time before the
first. -/
theorem stateAt_toZone (h : history.Ordered) (id : String) (instant : Int) :
    (history.toZone id).stateAt instant =
      ((history.at? instant).map Transition.state).getD ⟨0, 0, "UTC"⟩ := by
  have hincreasing : (history.toZone id).Increasing := h.increasing
  have hentry : (history.toZone id).transitionAt? instant = history.at? instant := by
    rw [hincreasing.transitionAt?_eq, toZone, List.reverse_reverse]
  have htail := (history.toZone id).tailAt?_of_tail_eq_none rfl instant
  simp only [TimeZone.stateAt, TimeZone.offsetAt, TimeZone.standardOffsetAt, TimeZone.nameAt, htail,
    hentry]
  cases history.at? instant with
  | none => rfl
  | some entry => rfl

/-- What comes after the newest entry comes after all entries. -/
theorem lt_of_newest_lt {newest : Transition} {older : History} (h : Ordered (newest :: older))
    {instant : Int} (hlater : newest.millis < instant) :
    ∀ entry ∈ newest :: older, entry.millis < instant := by
  have hbelow := (List.pairwise_cons.mp (List.pairwise_reverse.mp h.increasing)).1
  intro entry hentry
  rcases List.mem_cons.mp hentry with rfl | holder
  · exact hlater
  · exact (hbelow entry holder).trans hlater

/-- The entries on top make no difference to what is in effect before the oldest of them. -/
theorem at?_of_lt_first {removed kept : History} (h : Ordered (removed ++ kept)) {instant : Int}
    (hfirst : ∀ first ∈ removed.getLast?, instant < first.millis) :
    at? (removed ++ kept) instant = at? kept instant := by
  apply at?_append
  rcases List.eq_nil_or_concat removed with rfl | ⟨newer, first, rfl⟩
  · simp
  · rw [List.concat_eq_append] at h hfirst ⊢
    have hbefore := hfirst first (by simp)
    have hdecreasing := (List.pairwise_append.mp (List.pairwise_reverse.mp h.increasing)).1
    have hnewer := (List.pairwise_append.mp hdecreasing).2.2
    intro entry hentry
    rcases List.mem_append.mp hentry with hmem | hmem
    · exact hbefore.trans (hnewer entry hmem first (by simp))
    · rwa [List.mem_singleton.mp hmem]

end Ordered

/-- A transition turns a history into `pushed`: the entries of `removed` are taken back, those of
`kept` stay, and the transition is put on them or left out. -/
structure Retracts (transition : Transition) (history pushed removed kept : History) : Prop where
  split : history = removed ++ kept
  result : pushed = kept ∨ pushed = transition :: kept
  /-- From the transition on its state is shown. -/
  shown : ∀ id instant, transition.millis ≤ instant →
    (pushed.toZone id).stateAt instant = transition.state
  /-- Before it, what is shown stays the same up to the oldest entry taken back. -/
  unchanged : ∀ id instant, instant < transition.millis →
    (∀ first ∈ removed.getLast?, instant < first.millis) →
      (pushed.toZone id).stateAt instant = (history.toZone id).stateAt instant
  /-- An entry taken back stands at the local time of the transition, if it is read with the offset
  in effect before it and the transition with the offset of the entry. -/
  sameLocal : ∀ newer entry earlier, removed = newer ++ entry :: earlier →
    entry.millis + ((earlier ++ kept).head?.map Transition.wallOffset).getD 0 =
      transition.millis + entry.wallOffset

theorem Ordered.push_retracts {history : History} {transition : Transition} (h : history.Ordered)
    (hlater : ∀ entry ∈ history, entry.millis < transition.millis) :
    ∃ removed kept, Retracts transition history (history.push transition).1 removed kept := by
  have hordered := push_ordered h transition
  obtain ⟨removed, kept, hsplit, hlocal, hpush⟩ := push_split history transition
  have hresult : (history.push transition).1 = kept ∨
      (history.push transition).1 = transition :: kept :=
    hpush.symm.imp (fun hleft => congrArg Prod.fst hleft.1) fun hput => congrArg Prod.fst hput.1
  refine ⟨removed, kept, hsplit, hresult, ?_, ?_, hlocal⟩
  · intro id instant hinstant
    obtain ⟨newest, hnewest, hsame⟩ := (push_shows hlater).at? hinstant
    rw [hordered.stateAt_toZone, hnewest]
    exact ((transition.sameState_iff_state newest).mp hsame).symm
  · intro id instant hinstant hfirst
    have hafter : (history.push transition).1.at? instant = kept.at? instant := by
      rcases hresult with hleft | hput
      · rw [hleft]
      · rw [hput, ← List.singleton_append]
        exact at?_append (by simpa using hinstant)
    have hbefore : history.at? instant = kept.at? instant := by
      rw [hsplit] at h ⊢
      exact h.at?_of_lt_first hfirst
    rw [hordered.stateAt_toZone, h.stateAt_toZone, hafter, hbefore]

/-- After a later transition has been pushed, the flag tells whether it is the newest entry. -/
theorem push_flag_iff {history : History} {transition : Transition}
    (hlater : ∀ entry ∈ history, entry.millis < transition.millis) :
    (history.push transition).2 = true ↔
      (history.push transition).1.head? = some transition := by
  obtain ⟨kept, hsuffix, ⟨hput, -⟩ | ⟨hleft, -⟩⟩ := push_cases history transition
  · simp [hput]
  · suffices hnot : kept.head? ≠ some transition by simpa [hleft] using hnot
    intro htop
    have hmem := hsuffix.subset (List.mem_of_mem_head? htop)
    exact lt_irrefl transition.millis (hlater transition hmem)

/-- Pushing a transition on an ordered history that has a newest entry. A later transition leaves an
ordered history: it takes back some of the newest entries and is shown from then on, and the flag
tells whether it is the newest entry. Any other transition is left out. -/
theorem push_keeps_timeline {newest : Transition} {older : History}
    (h : Ordered (newest :: older)) (transition : Transition) :
    let history : History := newest :: older
    let pushed := history.push transition
    (newest.millis < transition.millis →
      pushed.1.Ordered ∧
      (∃ removed kept, Retracts transition history pushed.1 removed kept) ∧
      (pushed.2 = true ↔ pushed.1.head? = some transition)) ∧
    (transition.millis ≤ newest.millis → pushed = (history, false)) := by
  intro history pushed
  refine ⟨fun hlater => ?_, fun hearly => ?_⟩
  · have hall := h.lt_of_newest_lt hlater
    exact ⟨push_ordered h transition, h.push_retracts hall, push_flag_iff hall⟩
  · have hstays : ¬ transition.follows (some newest) = true := by
      rw [transition.follows_some_iff newest]
      exact fun hfollows => absurd hfollows.1 (not_lt.mpr hearly)
    simp only [pushed, history, push, hstays, if_false, Bool.false_eq_true]

/-- Universal time, then a clock that is put back in the first hour and again in the second. -/
def fallingBack : History :=
  [⟨7200000, "B", -10800000, 0⟩, ⟨3600000, "A", -7200000, 0⟩, ⟨0, "UTC", 0, 0⟩]

/-- A return to universal time in the third hour takes back both changes, and then changes
nothing. -/
theorem push_keeps_timeline_falling_back :
    let returned : Transition := ⟨10800000, "UTC", 0, 0⟩
    let late : Transition := ⟨7200000, "C", 0, 0⟩
    fallingBack.Ordered ∧
    fallingBack.push returned = ([⟨0, "UTC", 0, 0⟩], false) ∧
    (∃ removed kept,
      Retracts returned fallingBack (fallingBack.push returned).1 removed kept) ∧
    fallingBack.push late = (fallingBack, false) := by
  intro returned late
  have hordered : fallingBack.Ordered := by
    simp [fallingBack, Ordered, Transition.follows, Transition.sameState]
  refine ⟨hordered, by decide, ?_, ?_⟩
  · exact ((push_keeps_timeline hordered returned).1 (by decide)).2.1
  · exact (push_keeps_timeline hordered late).2 (by decide)

end CivilTime.History
