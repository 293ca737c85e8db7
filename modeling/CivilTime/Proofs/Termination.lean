import CivilTime.Proofs.Timeline

/-!
The construction of a timeline as loops over an era that changes under way. Asking an era for its
next transition drops the rules that do not occur again. Two loops keep asking: the search for the
state at the start of an era, which puts the rules back when it is done, and the walk along the
rules, which begins with what the search has left.

Every round of a loop that goes on comes closer to the limit, so both loops end, and with them the
construction. It comes to what the recursive definitions say.
-/

namespace CivilTime

/-- A loop that is in `state` ends in `final` after so many rounds that went on. -/
inductive Ends {σ : Type} (round : σ → ForInStep σ) : σ → Nat → σ → Prop where
  | done {state final : σ} (h : round state = .done final) : Ends round state 0 final
  | yield {state next final : σ} {rounds : Nat} (h : round state = .yield next)
    (hrest : Ends round next rounds final) : Ends round state (rounds + 1) final

theorem Ends.unique {σ : Type} {round : σ → ForInStep σ} {state first second : σ} {n m : Nat}
    (hfirst : Ends round state n first) (hsecond : Ends round state m second) : first = second := by
  induction hfirst generalizing m with
  | done h =>
    cases hsecond with
    | done h' => exact ForInStep.done.inj (h.symm.trans h')
    | yield h' => exact absurd (h.symm.trans h') (by simp)
  | yield h _ ih =>
    cases hsecond with
    | done h' => exact absurd (h.symm.trans h') (by simp)
    | yield h' hrest =>
      obtain rfl := ForInStep.yield.inj (h.symm.trans h')
      exact ih hrest

/-- The loop ends from every state. What is left up to the limit shrinks in every round that goes
on, and bounds the number of these rounds. -/
structure Terminates {σ : Type} (round : σ → ForInStep σ) (millis : σ → Int) (limit : Int) :
    Prop where
  shrinks : ∀ state next, round state = .yield next →
    0 < limit - millis next ∧ limit - millis next < limit - millis state
  wellFounded : WellFounded fun next state => round state = .yield next
  ends : ∀ state, ∃ rounds final,
    Ends round state rounds final ∧ rounds ≤ (limit - millis state).toNat

/-- A loop ends if every round that goes on raises the instant and keeps it below the limit. -/
theorem Terminates.of_advances {σ : Type} {round : σ → ForInStep σ} {millis : σ → Int} {limit : Int}
    (h : ∀ state next, round state = .yield next →
      millis state < millis next ∧ millis next < limit) : Terminates round millis limit := by
  have hwellFounded : WellFounded fun next state => round state = .yield next := by
    refine Subrelation.wf ?_ (measure fun state => (limit - millis state).toNat).wf
    intro next state hround
    obtain ⟨hraised, hbelow⟩ := h state next hround
    change (limit - millis next).toNat < (limit - millis state).toNat
    omega
  refine ⟨fun state next hround => ?_, hwellFounded, fun state => ?_⟩
  · obtain ⟨hraised, hbelow⟩ := h state next hround
    omega
  · induction state using hwellFounded.induction with
    | _ state ih =>
      cases hround : round state with
      | done final => exact ⟨0, final, .done hround, Nat.zero_le _⟩
      | yield next =>
        obtain ⟨rounds, final, hends, hbound⟩ := ih next hround
        obtain ⟨hraised, hbelow⟩ := h state next hround
        exact ⟨rounds + 1, final, .yield hround hends, by omega⟩

namespace Era

def advance (era : Era) (instant save : Int) : Option Transition × Era :=
  let (transition, remaining) := era.nextTransition era.rules instant save
  (transition, { era with rules := remaining })

theorem advance_eq (era : Era) (rules : List YearlyRule) (instant save : Int) :
    { era with rules }.advance instant save =
      ((era.nextTransition rules instant save).1,
        { era with rules := (era.nextTransition rules instant save).2 }) :=
  rfl

theorem advance_bounds {era left : Era} {instant save : Int} {transition : Transition}
    (h : era.advance instant save = (some transition, left)) :
    instant < transition.millis ∧ transition.millis < limit :=
  nextTransition_bounds (congrArg Prod.fst h)

structure Search where
  era : Era
  millis : Int := Instant.earliest
  save : Int := 0
  first : Option Transition := none

def Search.round (start : Int) (saved : List YearlyRule) (search : Search) : ForInStep Search :=
  match search.era.advance search.millis search.save with
  | (none, era) => .done { search with era }
  | (some transition, era) =>
    let search := { search with era, millis := transition.millis }
    if transition.millis = start then .done { search with first := transition.movedTo start }
    else if start < transition.millis then
      .done { search with
        first := search.first <|> { era with rules := saved }.defaultTransition start <|>
          some { transition with millis := start, wallOffset := era.standardOffset } }
    else .yield { search with save := transition.save, first := transition.movedTo start }

theorem Search.terminates (start : Int) (saved : List YearlyRule) :
    Terminates (Search.round start saved) Search.millis limit := by
  apply Terminates.of_advances
  intro search next hround
  rcases hadvance : search.era.advance search.millis search.save with ⟨_ | transition, left⟩
  · simp [round, hadvance] at hround
  · have hbounds := advance_bounds hadvance
    simp only [round, hadvance] at hround
    split_ifs at hround
    obtain rfl := ForInStep.yield.inj hround
    exact hbounds

/-- A search that has lost some rules comes to the state at the start, and loses no more than
rules. -/
theorem Search.exists_ends (era : Era) (start : Int) (rules : List YearlyRule) (instant save : Int)
    (state : Option Transition) :
    ∃ rounds final, Ends (Search.round start era.rules) ⟨{ era with rules }, instant, save, state⟩
        rounds final ∧
      { final.era with rules := era.rules } = era ∧
      (final.first <|> era.defaultTransition start) =
        era.stateAtStart start rules instant save state := by
  fun_induction era.stateAtStart start rules instant save state with
  | case1 rules instant save state remaining hnext =>
    have hround : Search.round start era.rules ⟨{ era with rules }, instant, save, state⟩ =
        .done ⟨{ era with rules := remaining }, instant, save, state⟩ := by
      simp only [round, advance_eq, hnext]
    exact ⟨0, _, .done hround, rfl, rfl⟩
  | case2 rules instant save state transition remaining hnext hequal =>
    have hround : Search.round start era.rules ⟨{ era with rules }, instant, save, state⟩ =
        .done ⟨{ era with rules := remaining }, transition.millis, save,
          some (transition.movedTo start)⟩ := by
      simp only [round, advance_eq, hnext, if_pos hequal]
    exact ⟨0, _, .done hround, rfl, rfl⟩
  | case3 rules instant save state transition remaining hnext hequal hlater =>
    have hround : Search.round start era.rules ⟨{ era with rules }, instant, save, state⟩ =
        .done ⟨{ era with rules := remaining }, transition.millis, save,
          state <|> era.defaultTransition start <|>
            some { transition with millis := start, wallOffset := era.standardOffset }⟩ := by
      simp only [round, advance_eq, hnext, if_neg hequal, if_pos hlater]
    refine ⟨0, _, .done hround, rfl, ?_⟩
    cases state <;> cases era.defaultTransition start <;> rfl
  | case4 rules instant save state transition remaining hnext hequal hlater ih =>
    have hround : Search.round start era.rules ⟨{ era with rules }, instant, save, state⟩ =
        .yield ⟨{ era with rules := remaining }, transition.millis, transition.save,
          some (transition.movedTo start)⟩ := by
      simp only [round, advance_eq, hnext, if_neg hequal, if_neg hlater]
    obtain ⟨rounds, final, hends, hfinal⟩ := ih
    exact ⟨rounds + 1, final, .yield hround hends, hfinal⟩

/-- An era tells the state at its start and is left as `left`: at once if the state is fixed, and
otherwise after a search, whose end puts the rules back. -/
inductive Opens (start : Int) (era : Era) : Option Transition → Era → Prop where
  | fixed {fixed : FixedSaving} (h : era.fixed = some fixed) :
    Opens start era
      (some ⟨start, fixed.name, era.standardOffset + fixed.save, era.standardOffset⟩) era
  | searched {rounds : Nat} {final : Search} (h : era.fixed = none)
    (hends : Ends (Search.round start era.rules) { era } rounds final) :
    Opens start era
      (final.first <|> { final.era with rules := era.rules }.defaultTransition start)
      { final.era with rules := era.rules }

/-- The search finds the state at the start, and the era is afterwards what it was. -/
theorem opens_iff {start : Int} {era left : Era} {first : Option Transition} :
    era.Opens start first left ↔ first = era.firstTransition start ∧ left = era := by
  obtain ⟨rounds, final, hends, hera, hfirst⟩ :=
    Search.exists_ends era start era.rules Instant.earliest 0 none
  constructor
  · rintro (⟨hfixed⟩ | ⟨hfixed, hother⟩)
    · simp [firstTransition, hfixed]
    · rw [hother.unique hends, hera, hfirst]
      simp [firstTransition, hfixed]
  · rintro ⟨rfl, rfl⟩
    cases hfixed : left.fixed with
    | some fixed =>
      simp only [firstTransition, hfixed]
      exact .fixed hfixed
    | none =>
      have hopens := Opens.searched hfixed hends
      rw [hera, hfirst] at hopens
      simpa only [firstTransition, hfixed] using hopens

structure Following where
  era : Era
  progress : Progress

def Following.round (tailAllowed : Bool) (following : Following) : ForInStep Following :=
  let progress := following.progress
  match following.era.advance progress.millis progress.save with
  | (none, era) => .done ⟨era, progress⟩
  | (some transition, era) =>
    let (history, added) := progress.history.push transition
    if added && progress.tail.isSome then .done ⟨era, { progress with history }⟩
    else
      .yield ⟨era,
        { history
          tail :=
            if progress.tail.isNone && tailAllowed then era.tail? era.rules else progress.tail
          millis := transition.millis
          save := transition.save }⟩

theorem Following.terminates (tailAllowed : Bool) :
    Terminates (Following.round tailAllowed) (fun following => following.progress.millis)
      limit := by
  apply Terminates.of_advances
  intro following next hround
  rcases hadvance : following.era.advance following.progress.millis following.progress.save with
    ⟨_ | transition, left⟩
  · simp [round, hadvance] at hround
  · have hbounds := advance_bounds hadvance
    simp only [round, hadvance] at hround
    split at hround
    · contradiction
    · obtain rfl := ForInStep.yield.inj hround
      exact hbounds

/-- The walk along rules that are left over comes to where `Progress.follow` does. -/
theorem Following.exists_ends (era : Era) (tailAllowed : Bool) (rules : List YearlyRule)
    (progress : Progress) :
    ∃ rounds remaining, Ends (Following.round tailAllowed) ⟨{ era with rules }, progress⟩ rounds
      ⟨{ era with rules := remaining }, progress.follow era tailAllowed rules⟩ := by
  fun_induction Progress.follow era tailAllowed rules progress with
  | case1 rules progress remaining hnext =>
    have hround : Following.round tailAllowed ⟨{ era with rules }, progress⟩ =
        .done ⟨{ era with rules := remaining }, progress⟩ := by
      simp only [round, advance_eq, hnext]
    exact ⟨0, remaining, .done hround⟩
  | case2 rules progress transition remaining hnext hjoined =>
    have hround : Following.round tailAllowed ⟨{ era with rules }, progress⟩ =
        .done ⟨{ era with rules := remaining },
          { progress with history := (progress.history.push transition).1 }⟩ := by
      simp only [round, advance_eq, hnext, if_pos hjoined]
    exact ⟨0, remaining, .done hround⟩
  | case3 rules progress transition remaining hnext hopen ih =>
    have hround : Following.round tailAllowed ⟨{ era with rules }, progress⟩ =
        .yield ⟨{ era with rules := remaining },
          { history := (progress.history.push transition).1
            tail :=
              if progress.tail.isNone && tailAllowed then era.tail? remaining else progress.tail
            millis := transition.millis
            save := transition.save }⟩ := by
      simp only [round, advance_eq, hnext, if_neg hopen]
      rfl
    obtain ⟨rounds, left, hends⟩ := ih
    exact ⟨rounds + 1, left, .yield hround hends⟩

end Era

namespace Progress

def opened (progress : Progress) (first : Transition) : Progress :=
  { progress with
    history := (progress.history.push first).1
    millis := first.millis
    save := first.save }

/-- The walk through eras. In each of them the rules are followed from what the search for the
state at its start has left of it, and the cutover is that of what the rules have left. -/
inductive Walks (tails : Bool) : List Era → Progress → Progress → Prop where
  | done (progress : Progress) : Walks tails [] progress progress
  | skip {era : Era} {rest : List Era} {progress final : Progress} (hempty : era.isEmpty = true)
    (hrest : Walks tails rest progress.skip final) : Walks tails (era :: rest) progress final
  | pass {era left : Era} {rest : List Era} {progress final : Progress}
    (hempty : era.isEmpty = false) (hopens : era.Opens progress.millis none left)
    (hrest : Walks tails rest progress final) : Walks tails (era :: rest) progress final
  | last {era left : Era} {rest : List Era} {progress : Progress} {first : Transition}
    {rounds : Nat} {following : Era.Following} (hempty : era.isEmpty = false)
    (hopens : era.Opens progress.millis (some first) left)
    (hends : Ends (Era.Following.round (tails && rest.isEmpty)) ⟨left, progress.opened first⟩
      rounds following)
    (hupper : following.era.upperLimit following.progress.save = none) :
    Walks tails (era :: rest) progress following.progress
  | cutover {era left : Era} {rest : List Era} {progress final : Progress} {first : Transition}
    {rounds : Nat} {following : Era.Following} {upper : Int} (hempty : era.isEmpty = false)
    (hopens : era.Opens progress.millis (some first) left)
    (hends : Ends (Era.Following.round (tails && rest.isEmpty)) ⟨left, progress.opened first⟩
      rounds following)
    (hupper : following.era.upperLimit following.progress.save = some upper)
    (hrest : Walks tails rest { following.progress with millis := upper } final) :
    Walks tails (era :: rest) progress final

/-- Entering an era is a walk along all of its rules, since the search has put them back. -/
theorem ends_enter (progress : Progress) (era : Era) (tailAllowed : Bool) (first : Transition) :
    ∃ rounds remaining, Ends (Era.Following.round tailAllowed) ⟨era, progress.opened first⟩ rounds
      ⟨{ era with rules := remaining }, progress.enter era tailAllowed first⟩ :=
  Era.Following.exists_ends era tailAllowed era.rules (progress.opened first)

theorem walks_walk (tails : Bool) (eras : List Era) (progress : Progress) :
    Walks tails eras progress (walk tails eras progress) := by
  fun_induction walk tails eras progress with
  | case1 progress => exact .done progress
  | case2 era rest progress hempty ih => exact .skip hempty ih
  | case3 era rest progress hempty hfirst ih =>
    have hopens := Era.opens_iff.mpr ⟨hfirst.symm, rfl⟩
    exact .pass (by simpa using hempty) hopens ih
  | case4 era rest progress hempty first hfirst entered hupper =>
    have hopens := Era.opens_iff.mpr ⟨hfirst.symm, rfl⟩
    obtain ⟨rounds, remaining, hends⟩ := progress.ends_enter era (tails && rest.isEmpty) first
    exact .last (by simpa using hempty) hopens hends hupper
  | case5 era rest progress hempty first hfirst entered upper hupper ih =>
    have hopens := Era.opens_iff.mpr ⟨hfirst.symm, rfl⟩
    obtain ⟨rounds, remaining, hends⟩ := progress.ends_enter era (tails && rest.isEmpty) first
    exact .cutover (by simpa using hempty) hopens hends hupper ih

/-- The walk through eras comes to where `Progress.walk` does, and nowhere else. -/
theorem Walks.eq_walk {tails : Bool} {eras : List Era} {progress final : Progress}
    (h : Walks tails eras progress final) : final = walk tails eras progress := by
  induction h with
  | done progress => rfl
  | skip hempty _ ih => rw [ih, walk, if_pos hempty]
  | pass hempty hopens _ ih =>
    obtain ⟨hfirst, -⟩ := Era.opens_iff.mp hopens
    simp only [walk, hempty, ← hfirst, ih]
    rfl
  | @last era left rest progress first rounds following hempty hopens hends hupper =>
    obtain ⟨hfirst, rfl⟩ := Era.opens_iff.mp hopens
    obtain ⟨_, remaining, hentered⟩ := progress.ends_enter left (tails && rest.isEmpty) first
    obtain rfl := hends.unique hentered
    change left.upperLimit _ = none at hupper
    simp only [walk, hempty, ← hfirst, hupper]
    rfl
  | @cutover era left rest progress final first rounds following upper hempty hopens hends hupper
      _ ih =>
    obtain ⟨hfirst, rfl⟩ := Era.opens_iff.mp hopens
    obtain ⟨_, remaining, hentered⟩ := progress.ends_enter left (tails && rest.isEmpty) first
    obtain rfl := hends.unique hentered
    change left.upperLimit _ = some upper at hupper
    simp only [walk, hempty, ← hfirst, hupper, ih]
    rfl

end Progress

namespace Draft

/-- Whatever the offsets, savings, days, years and cutovers are, a timeline whose months are months
is built. A transition that is found lies after the instant asked for and before the limit, so both
loops end, the search leaves the era as it was, and the walk through the eras comes to the zone. -/
theorem construction_ends (directives : List Directive) (id : String)
    (hmonths : ∀ directive ∈ directives, ∀ point ∈ directive.point?,
      1 ≤ point.month ∧ point.month ≤ 12) :
    let draft := ofDirectives directives
    let limit := Instant.startOfYear 2100
    (∀ (era left : Era) (instant save : Int) (transition : Transition),
        era.advance instant save = (some transition, left) →
          instant < transition.millis ∧ transition.millis < limit) ∧
      (∀ (start : Int) (saved : List YearlyRule),
        Terminates (Era.Search.round start saved) Era.Search.millis limit) ∧
      (∀ tailAllowed : Bool,
        Terminates (Era.Following.round tailAllowed) (fun following => following.progress.millis)
          limit) ∧
      (∀ (era left : Era) (start : Int) (first : Option Transition),
        era.Opens start first left ↔ first = era.firstTransition start ∧ left = era) ∧
      (∀ final, Progress.Walks true draft.eras {} final ↔ final = draft.simulate true) ∧
      draft.build? id =
        some (zoneOf id (draft.simulate true), messagesOf id (draft.simulate true)) := by
  intro draft limit
  have hlacks : draft.lacksMonth = false := by
    refine ofDirectives_not_lacksMonth fun directive hdirective point hpoint => ?_
    obtain ⟨hlow, hhigh⟩ := hmonths directive hdirective point hpoint
    exact YearPoint.hasMonth_of_range hlow hhigh
  refine ⟨fun _ _ _ _ _ => Era.advance_bounds, Era.Search.terminates, Era.Following.terminates,
    fun _ _ _ _ => Era.opens_iff, fun final => ⟨Progress.Walks.eq_walk, ?_⟩, ?_⟩
  · rintro rfl
    exact Progress.walks_walk true draft.eras {}
  · simp [build?, hlacks, build]

theorem construction_ends_backdated :
    (∀ directive ∈ backdatedDirectives, ∀ point ∈ directive.point?,
      1 ≤ point.month ∧ point.month ≤ 12) ∧
    let draft := ofDirectives backdatedDirectives
    Progress.Walks true draft.eras {} (draft.simulate true) ∧
      draft.build? "Z" =
        some (zoneOf "Z" (draft.simulate true), messagesOf "Z" (draft.simulate true)) := by
  obtain ⟨-, -, -, -, hwalks, hbuild⟩ := construction_ends backdatedDirectives "Z" (by decide)
  exact ⟨by decide, (hwalks _).mpr rfl, hbuild⟩

end Draft

end CivilTime
