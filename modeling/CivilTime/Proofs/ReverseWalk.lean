import CivilTime.Proofs.Verification

/-!
What a verification says about the way back. It passes any zone whose transitions are right on the
way forwards as long as the way back shows no wrong one, and the way back may end early: where going
back stays in its place, or leaves the range. So a zone that has passed leads back to all of its
transitions exactly if this does not happen before all of them are met.
-/

namespace CivilTime

/-- The next transition is never earlier; if there is none, the instant itself is the answer. -/
def Queries.Advances (zone : Queries) : Prop :=
  ∀ instant next, zone.next instant = some next → instant ≤ next

def Queries.backFrom (zone : Queries) : Int → Nat → Option Int
  | millis, 0 => some millis
  | millis, count + 1 => (zone.previous millis).bind fun previous => zone.backFrom previous count

namespace Verification

variable {zone : Queries} {first last millis : Int} {view : View}

/-- The transitions that lie ahead of an instant up to `last`, in order. -/
inductive Ahead (zone : Queries) (last : Int) : Int → List Int → Prop
  | stop {millis next : Int} (hnext : zone.next millis = some next)
      (hend : next = millis ∨ last < next) : Ahead zone last millis []
  | step {millis next : Int} {rest : List Int} (hnext : zone.next millis = some next)
      (hinside : ¬ (next = millis ∨ last < next)) (hrest : Ahead zone last next rest) :
      Ahead zone last millis (next :: rest)

def ShowsChanges (zone : Queries) : View → List Int → Prop
  | _, [] => True
  | view, millis :: rest =>
    ∃ next, view? zone millis = some next ∧ next ≠ view ∧ isProper next.name = true ∧
      ShowsChanges zone next rest

theorem Ahead.increasing (hadvances : zone.Advances) {found : List Int}
    (h : Ahead zone last millis found) :
    found.Pairwise (· < ·) ∧ ∀ transition ∈ found, millis < transition ∧ transition ≤ last := by
  induction h with
  | stop => simp
  | @step millis next rest hnext hinside _ ih =>
    have hle := hadvances millis next hnext
    obtain ⟨hpairwise, hbounds⟩ := ih
    constructor
    · exact List.pairwise_cons.mpr ⟨fun transition hmem => (hbounds transition hmem).1, hpairwise⟩
    · intro transition hmem
      rcases List.mem_cons.mp hmem with rfl | hrest
      · omega
      · have := hbounds transition hrest
        omega

theorem Ahead.next_isSome {found : List Int} (h : Ahead zone last millis found) :
    ∃ next, zone.next millis = some next := by
  cases h with
  | stop hnext => exact ⟨_, hnext⟩
  | step hnext => exact ⟨_, hnext⟩

theorem ahead_iff_of_end {next : Int} (hnext : zone.next millis = some next)
    (hend : next = millis ∨ last < next) (found : List Int) :
    Ahead zone last millis found ↔ found = [] := by
  constructor
  · intro h
    cases h with
    | stop => rfl
    | step hother hinside =>
      rw [hnext] at hother
      cases hother
      exact absurd hend hinside
  · rintro rfl
    exact .stop hnext hend

theorem ahead_iff_of_inside {next : Int} (hnext : zone.next millis = some next)
    (hinside : ¬ (next = millis ∨ last < next)) (found : List Int) :
    Ahead zone last millis found ↔ ∃ rest, found = next :: rest ∧ Ahead zone last next rest := by
  constructor
  · intro h
    cases h with
    | stop hother hend =>
      rw [hnext] at hother
      cases hother
      exact absurd hend hinside
    | @step _ other rest hother _ hrest =>
      rw [hnext] at hother
      cases hother
      exact ⟨rest, rfl, hrest⟩
  · rintro ⟨rest, rfl, hrest⟩
    exact .step hnext hinside hrest

/-- The walk forwards comes to its end exactly if everything on the way is as it should be, and then
it has found the transitions that lie ahead. -/
theorem walkForward_eq_done_iff (hadvances : zone.Advances) (last : Int) (patience : Nat)
    (millis : Int) (view : View) (found all : List Int) :
    walkForward zone last patience millis view found = .done all ↔
      ∃ ahead, Ahead zone last millis ahead ∧ ShowsChanges zone view ahead ∧
        all = ahead.reverse ++ found := by
  fun_induction walkForward zone last patience millis view found with
  | case1 patience millis view found hnext =>
    constructor
    · intro h
      cases h
    · rintro ⟨ahead, hahead, -⟩
      obtain ⟨next, hother⟩ := hahead.next_isSome
      rw [hnext] at hother
      cases hother
  | case2 patience millis view found next hnext hend =>
    simp only [ahead_iff_of_end hnext hend, exists_eq_left, ShowsChanges, List.reverse_nil,
      List.nil_append, true_and, Walk.done.injEq]
    exact eq_comm
  | case3 patience millis view found next hnext hinside hview =>
    simp [ahead_iff_of_inside hnext hinside, ShowsChanges, hview]
  | case4 patience millis found next hnext hinside nextView hview =>
    simp [ahead_iff_of_inside hnext hinside, ShowsChanges, hview]
  | case5 patience millis view found next hnext hinside nextView hview _ hname =>
    have himproper : isProper nextView.name = false := by simpa using hname
    simp [ahead_iff_of_inside hnext hinside, ShowsChanges, hview, himproper]
  | case6 patience millis view found next hnext hinside nextView hview hchange hname _ ih =>
    have hproper : isProper nextView.name = true := by simpa using hname
    rw [ih]
    simp [ahead_iff_of_inside hnext hinside, ShowsChanges, hview, hchange, hproper]
  | case7 millis view found next hnext hinside nextView _ _ _ hback
  | case8 millis view found next hnext hinside nextView _ _ _ hback =>
    have := hadvances millis next hnext
    omega

/-- The first `count` steps back lead to the instants just before the transitions, which are given
newest first. -/
def Meets (zone : Queries) (millis : Int) (found : List Int) (count : Nat) : Prop :=
  ∀ place < count, ∃ transition, found[place]? = some transition ∧
    zone.backFrom millis (place + 1) = some (transition - 1)

/-- After `count` steps back, the next one stays in its place or leaves the range. -/
def GivesUp (zone : Queries) (first millis : Int) (count : Nat) : Prop :=
  ∃ here there, zone.backFrom millis count = some here ∧
    zone.backFrom millis (count + 1) = some there ∧ (there = here ∨ there < first)

theorem meets_succ_iff {transition : Int} {rest : List Int} {count : Nat} :
    Meets zone millis (transition :: rest) (count + 1) ↔
      zone.previous millis = some (transition - 1) ∧ Meets zone (transition - 1) rest count := by
  have hfirst : zone.backFrom millis 1 = zone.previous millis := by
    simp [Queries.backFrom]
  have hlater : zone.previous millis = some (transition - 1) → ∀ place,
      zone.backFrom millis (place + 1) = zone.backFrom (transition - 1) place := by
    intro hprevious place
    rw [Queries.backFrom, hprevious, Option.bind_some]
  constructor
  · intro h
    obtain ⟨met, hmet, hback⟩ := h 0 (Nat.succ_pos count)
    obtain rfl : transition = met := by simpa using hmet
    rw [hfirst] at hback
    refine ⟨hback, fun place hplace => ?_⟩
    obtain ⟨other, hother, hreached⟩ := h (place + 1) (Nat.succ_lt_succ hplace)
    rw [hlater hback] at hreached
    exact ⟨other, by simpa using hother, hreached⟩
  · rintro ⟨hprevious, hrest⟩ place hplace
    cases place with
    | zero => exact ⟨transition, rfl, hfirst.trans hprevious⟩
    | succ place =>
      obtain ⟨other, hother, hreached⟩ := hrest place (Nat.lt_of_succ_lt_succ hplace)
      rw [hlater hprevious]
      exact ⟨other, by simpa using hother, hreached⟩

theorem givesUp_zero_iff :
    GivesUp zone first millis 0 ↔
      ∃ previous, zone.previous millis = some previous ∧
        (previous = millis ∨ previous < first) := by
  simp [GivesUp, Queries.backFrom]

theorem givesUp_succ_iff {previous : Int} (h : zone.previous millis = some previous)
    (count : Nat) :
    GivesUp zone first millis (count + 1) ↔ GivesUp zone first previous count := by
  simp [GivesUp, Queries.backFrom, h]

def Returns (zone : Queries) (first millis : Int) (found : List Int) : Prop :=
  Meets zone millis found found.length ∨
    ∃ count < found.length, Meets zone millis found count ∧ GivesUp zone first millis count

theorem returns_cons_iff {transition : Int} {rest : List Int} :
    Returns zone first millis (transition :: rest) ↔
      GivesUp zone first millis 0 ∨
        zone.previous millis = some (transition - 1) ∧
          Returns zone first (transition - 1) rest := by
  constructor
  · rintro (hall | ⟨count, hlt, hmeets, hgives⟩)
    · obtain ⟨hback, hrest⟩ := meets_succ_iff.mp hall
      exact Or.inr ⟨hback, Or.inl hrest⟩
    · cases count with
      | zero => exact Or.inl hgives
      | succ count =>
        obtain ⟨hback, hrest⟩ := meets_succ_iff.mp hmeets
        exact Or.inr ⟨hback, Or.inr ⟨count, Nat.lt_of_succ_lt_succ hlt, hrest,
          (givesUp_succ_iff hback count).mp hgives⟩⟩
  · rintro (hgives | ⟨hback, hall | ⟨count, hlt, hmeets, hgives⟩⟩)
    · exact Or.inr ⟨0, Nat.succ_pos _, fun place hplace => absurd hplace (Nat.not_lt_zero place),
        hgives⟩
    · exact Or.inl (meets_succ_iff.mpr ⟨hback, hall⟩)
    · exact Or.inr ⟨count + 1, Nat.succ_lt_succ hlt, meets_succ_iff.mpr ⟨hback, hmeets⟩,
        (givesUp_succ_iff hback count).mpr hgives⟩

theorem walkBackward_eq_done_iff (first millis : Int) (found : List Int) :
    walkBackward zone first millis found = .done () ↔ Returns zone first millis found := by
  induction found generalizing millis with
  | nil => simp [walkBackward, Returns, Meets]
  | cons transition rest ih =>
    rw [returns_cons_iff, givesUp_zero_iff, ← ih, walkBackward]
    cases hprevious : zone.previous millis with
    | none => simp
    | some previous =>
      dsimp only
      by_cases hexit : previous = millis ∨ previous < first
      · simp [hexit]
      · have hgoes : ¬ ∃ found, some previous = some found ∧ (found = millis ∨ found < first) := by
          rintro ⟨found, hsame, hfound⟩
          cases hsame
          exact hexit hfound
        rw [if_neg hexit, or_iff_right hgoes]
        by_cases hmet : previous = transition - 1
        · simp [hmet]
        · simp [hmet]

theorem walk_eq_done_iff (first last : Int) :
    walk zone first last = .done () ↔
      ∃ view found, view? zone first = some view ∧
        walkForward zone last patience first view [] = .done found ∧
        walkBackward zone first last found = .done () := by
  unfold walk
  cases hview : view? zone first with
  | none => simp
  | some view =>
    cases hforward : walkForward zone last patience first view [] with
    | done found => simp [hforward]
    | defect defect => simp [hforward]
    | failed failure => simp [hforward]

/-- Where all transitions are met, none of the steps stays or leaves the range. -/
theorem Meets.not_givesUp {found : List Int} (hmeets : Meets zone last found found.length)
    (hdecreasing : found.Pairwise (· > ·))
    (hbounds : ∀ transition ∈ found, first < transition ∧ transition ≤ last) {count : Nat}
    (hcount : count < found.length) : ¬ GivesUp zone first last count := by
  rintro ⟨here, there, hhere, hthere, hexit⟩
  obtain ⟨transition, hplace, hreached⟩ := hmeets count hcount
  obtain rfl : transition - 1 = there := Option.some.inj (hreached.symm.trans hthere)
  have hmem := List.mem_of_getElem? hplace
  have hrange := hbounds transition hmem
  cases count with
  | zero =>
    obtain rfl : last = here := Option.some.inj hhere
    omega
  | succ count =>
    obtain ⟨earlier, hearlier, hmet⟩ := hmeets count (Nat.lt_of_succ_lt hcount)
    obtain rfl : earlier - 1 = here := Option.some.inj (hmet.symm.trans hhere)
    have hlater : transition < earlier := by
      rw [List.getElem?_eq_some_iff] at hplace hearlier
      obtain ⟨hsecond, rfl⟩ := hplace
      obtain ⟨hfirst, rfl⟩ := hearlier
      exact List.pairwise_iff_getElem.mp hdecreasing count (count + 1) hfirst hsecond (by omega)
    omega

end Verification

namespace Verifier

open Verification

variable {zone : Queries}

theorem verdict_eq_true_iff (verifier : Verifier) :
    (verifier.verify zone none).verdict = .ok true ↔
      walk zone (Instant.startOfYear verifier.startYear)
        (Instant.startOfYear verifier.endYear) = .done () := by
  rw [verify, if_neg (by simp)]
  cases walk zone (Instant.startOfYear verifier.startYear)
      (Instant.startOfYear verifier.endYear) with
  | done value => simp
  | defect defect => simp
  | failed failure => simp

/-- What it takes to pass, for a zone that never leads back in time. -/
theorem passes_iff (verifier : Verifier) (hadvances : zone.Advances) :
    (verifier.verify zone none).verdict = .ok true ↔
      ∃ view found, view? zone (Instant.startOfYear verifier.startYear) = some view ∧
        Ahead zone (Instant.startOfYear verifier.endYear)
          (Instant.startOfYear verifier.startYear) found ∧
        ShowsChanges zone view found ∧
        Returns zone (Instant.startOfYear verifier.startYear)
          (Instant.startOfYear verifier.endYear) found.reverse := by
  rw [verdict_eq_true_iff, walk_eq_done_iff]
  simp only [walkForward_eq_done_iff hadvances, walkBackward_eq_done_iff]
  constructor
  · rintro ⟨view, _, hview, ⟨found, hahead, hchanges, rfl⟩, hback⟩
    exact ⟨view, found, hview, hahead, hchanges, by simpa using hback⟩
  · rintro ⟨view, found, hview, hahead, hchanges, hback⟩
    exact ⟨view, _, hview, ⟨found, hahead, hchanges, rfl⟩, by simpa using hback⟩

/-- A zone that never leads back in time and passes leads back from the end of the range to the
instant before each of its transitions there, the latest first, exactly if going back does not give
up before it has met them all. -/
theorem meets_all_iff (verifier : Verifier) (hadvances : zone.Advances)
    (hpasses : (verifier.verify zone none).verdict = .ok true) :
    ∃ found, Ahead zone (Instant.startOfYear verifier.endYear)
        (Instant.startOfYear verifier.startYear) found ∧
      (Meets zone (Instant.startOfYear verifier.endYear) found.reverse found.length ↔
        ¬ ∃ count < found.length,
          Meets zone (Instant.startOfYear verifier.endYear) found.reverse count ∧
            GivesUp zone (Instant.startOfYear verifier.startYear)
              (Instant.startOfYear verifier.endYear) count) := by
  obtain ⟨view, found, -, hahead, -, hback⟩ := (verifier.passes_iff hadvances).mp hpasses
  obtain ⟨hincreasing, hbounds⟩ := hahead.increasing hadvances
  unfold Returns at hback
  rw [List.length_reverse] at hback
  refine ⟨found, hahead, fun hall => ?_, fun hgoes => hback.resolve_right hgoes⟩
  rintro ⟨count, hcount, -, hgives⟩
  rw [← List.length_reverse] at hall hcount
  apply hall.not_givesUp _ _ hcount hgives
  · exact List.pairwise_reverse.mpr hincreasing
  · intro transition hmem
    exact hbounds transition (List.mem_reverse.mp hmem)

def oneChange (turn skew : Int) : Queries where
  id := "Test/Zone"
  offset instant := some (if instant < turn then 3600000 else 7200000)
  standardOffset _ := some 3600000
  name instant := some (some (if instant < turn then "XST" else "XDT"))
  next instant := some (if instant < turn then turn else instant)
  previous instant := some (if instant < turn then instant else turn - 1 + skew)

theorem oneChange_advances (turn skew : Int) : (oneChange turn skew).Advances := by
  intro instant next hnext
  obtain rfl := Option.some.inj hnext
  split <;> omega

theorem oneChange_ahead_iff {turn first last : Int} (skew : Int) (hfirst : first < turn)
    (hlast : turn ≤ last) (found : List Int) :
    Ahead (oneChange turn skew) last first found ↔ found = [turn] := by
  have hturn : (oneChange turn skew).next first = some turn := by simp [oneChange, hfirst]
  have hafter : (oneChange turn skew).next turn = some turn := by simp [oneChange]
  rw [ahead_iff_of_inside hturn (by omega)]
  simp only [ahead_iff_of_end hafter (Or.inl rfl), exists_eq_right]

theorem oneChange_showsChanges {turn first : Int} (skew : Int) (hfirst : first < turn) :
    ∃ view, view? (oneChange turn skew) first = some view ∧
      ShowsChanges (oneChange turn skew) view [turn] := by
  refine ⟨⟨3600000, 3600000, some "XST"⟩, by simp [view?, oneChange, hfirst], ?_⟩
  exact ⟨⟨7200000, 3600000, some "XDT"⟩, by simp [view?, oneChange], by decide, by decide, trivial⟩

/-- Going back from the end meets the change, or misses it by so much that it leaves the range: the
zone passes in either case. -/
theorem oneChange_passes (verifier : Verifier) {turn skew : Int}
    (hfirst : Instant.startOfYear verifier.startYear < turn)
    (hlast : turn ≤ Instant.startOfYear verifier.endYear)
    (hskew : skew = 0 ∨ turn - 1 + skew < Instant.startOfYear verifier.startYear) :
    (verifier.verify (oneChange turn skew) none).verdict = .ok true := by
  obtain ⟨view, hview, hchanges⟩ := oneChange_showsChanges skew hfirst
  have hprevious : (oneChange turn skew).previous (Instant.startOfYear verifier.endYear) =
      some (turn - 1 + skew) := by simp [oneChange, hlast]
  apply (verifier.passes_iff (oneChange_advances turn skew)).mpr
  refine ⟨view, [turn], hview, (oneChange_ahead_iff skew hfirst hlast _).mpr rfl, hchanges, ?_⟩
  rw [List.reverse_singleton, returns_cons_iff]
  rcases hskew with rfl | hleaves
  · right
    refine ⟨by simpa using hprevious, Or.inl ?_⟩
    simp [Meets]
  · left
    exact givesUp_zero_iff.mpr ⟨_, hprevious, Or.inr hleaves⟩

theorem oneChange_backFrom {turn skew last : Int} (hlast : turn ≤ last) (hskew : skew ≤ 0)
    (count : Nat) : (oneChange turn skew).backFrom last (count + 1) = some (turn - 1 + skew) := by
  have hprevious : (oneChange turn skew).previous last = some (turn - 1 + skew) := by
    simp [oneChange, hlast]
  have hstays : (oneChange turn skew).previous (turn - 1 + skew) = some (turn - 1 + skew) := by
    have : turn - 1 + skew < turn := by omega
    simp [oneChange, this]
  rw [Queries.backFrom, hprevious, Option.bind_some]
  induction count with
  | zero => rfl
  | succ count ih => rw [Queries.backFrom, hstays, Option.bind_some, ih]

/-- The change of 1900 is met on the way back. -/
theorem meets_all_from_1900 :
    (oneChange (Instant.startOfYear 1900) 0).Advances ∧
      (({} : Verifier).verify (oneChange (Instant.startOfYear 1900) 0) none).verdict = .ok true ∧
      Meets (oneChange (Instant.startOfYear 1900) 0) (Instant.startOfYear 2050)
        [Instant.startOfYear 1900] 1 := by
  have hadvances := oneChange_advances (Instant.startOfYear 1900) 0
  have hfirst : Instant.startOfYear 1850 < Instant.startOfYear 1900 := by decide
  have hlast : Instant.startOfYear 1900 ≤ Instant.startOfYear 2050 := by decide
  have hpasses := oneChange_passes {} hfirst hlast (Or.inl rfl)
  obtain ⟨found, hfound, hmeets⟩ := meets_all_iff {} hadvances hpasses
  obtain rfl := (oneChange_ahead_iff 0 hfirst hlast found).mp hfound
  refine ⟨hadvances, hpasses, hmeets.mpr ?_⟩
  rintro ⟨count, hcount, -, hgives⟩
  obtain rfl : count = 0 := Nat.lt_one_iff.mp hcount
  obtain ⟨previous, hprevious, hexit⟩ := givesUp_zero_iff.mp hgives
  obtain rfl : Instant.startOfYear 1900 - 1 = previous := by
    simpa [oneChange, not_lt.mpr hlast] using hprevious
  revert hexit
  decide

/-- The change of 1900 is missed by far on the way back, and the zone passes all the same: no number
of steps back leads to the instant before the change. -/
theorem passes_without_return :
    (oneChange (Instant.startOfYear 1900) (-4000000000000)).Advances ∧
      (({} : Verifier).verify (oneChange (Instant.startOfYear 1900) (-4000000000000))
        none).verdict = .ok true ∧
      Ahead (oneChange (Instant.startOfYear 1900) (-4000000000000)) (Instant.startOfYear 2050)
        (Instant.startOfYear 1850) [Instant.startOfYear 1900] ∧
      ∀ count, (oneChange (Instant.startOfYear 1900) (-4000000000000)).backFrom
        (Instant.startOfYear 2050) count ≠ some (Instant.startOfYear 1900 - 1) := by
  have hfirst : Instant.startOfYear 1850 < Instant.startOfYear 1900 := by decide
  have hlast : Instant.startOfYear 1900 ≤ Instant.startOfYear 2050 := by decide
  refine ⟨oneChange_advances _ _, oneChange_passes {} hfirst hlast (Or.inr (by decide)),
    (oneChange_ahead_iff _ hfirst hlast _).mpr rfl, fun count => ?_⟩
  cases count with
  | zero => decide
  | succ count =>
    rw [oneChange_backFrom hlast (by decide)]
    decide

end Verifier

end CivilTime
