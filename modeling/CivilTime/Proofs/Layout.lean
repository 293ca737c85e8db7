import CivilTime.Proofs.YearPoint
import CivilTime.Timeline.Draft

/-!
The shape of a draft that directives have laid out: every era but the last is closed by a cutover,
the last one is open, and every point of the year in it comes from a directive.
-/

namespace CivilTime

def Directive.point? : Directive → Option YearPoint
  | .recurringSaving recurrence _ _ => some recurrence.point
  | .cutover _ point => some point
  | .standardOffset _ | .fixedSaving _ _ => none

def Era.HasMonths (era : Era) : Prop :=
  (∀ rule ∈ era.rules, rule.recurrence.point.hasMonth = true) ∧
    ∀ cutover ∈ era.cutover, cutover.point.hasMonth = true

theorem Era.HasMonths.not_lacksMonth {era : Era} (h : era.HasMonths) : era.lacksMonth = false := by
  have hrules : (era.rules.any fun rule => !rule.recurrence.point.hasMonth) = false := by
    simpa using h.1
  have hcutover : era.cutover.any (fun cutover => !cutover.point.hasMonth) = false := by
    cases hclosed : era.cutover with
    | none => rfl
    | some cutover => simpa using h.2 cutover hclosed
  simp [Era.lacksMonth, hrules, hcutover]

/-- An era that lacks no month has one for each of its rules. -/
theorem Era.hasMonth_of_mem {era : Era} (h : era.lacksMonth = false) {rule : YearlyRule}
    (hmem : rule ∈ era.rules) : rule.recurrence.point.hasMonth = true := by
  have hfilled : era.rules.isEmpty = false := by
    simpa using List.ne_nil_of_mem hmem
  have hrules : (era.rules.any fun rule => !rule.recurrence.point.hasMonth) = false := by
    simp only [lacksMonth, isEmpty, hfilled, Bool.and_false, Bool.not_false, Bool.true_and,
      Bool.or_eq_false_iff] at h
    exact h.1
  simpa using List.any_eq_false.mp hrules rule hmem

namespace Draft

@[simp]
theorem modifyLast_nil (change : Era → Era) : (⟨[]⟩ : Draft).modifyLast change = ⟨[change {}]⟩ :=
  rfl

@[simp]
theorem modifyLast_concat (earlier : List Era) (last : Era) (change : Era → Era) :
    (⟨earlier ++ [last]⟩ : Draft).modifyLast change = ⟨earlier ++ [change last]⟩ := by
  simp [modifyLast]

/-- The last era is open and every earlier one is closed. -/
def LaidOut (draft : Draft) : Prop :=
  draft.eras = [] ∨ ∃ earlier last, draft.eras = earlier ++ [last] ∧
    (∀ era ∈ earlier, era.cutover.isSome = true) ∧ last.cutover = none

theorem LaidOut.modifyLast {draft : Draft} (h : draft.LaidOut) {change : Era → Era}
    (hopen : ∀ era : Era, (change era).cutover = era.cutover) :
    (draft.modifyLast change).LaidOut := by
  obtain ⟨eras⟩ := draft
  rcases h with rfl | ⟨earlier, last, rfl, hclosed, hlast⟩
  · exact Or.inr ⟨[], change {}, rfl, by simp, hopen {}⟩
  · refine Or.inr ⟨earlier, change last, by simp, hclosed, ?_⟩
    rw [hopen, hlast]

theorem LaidOut.apply {draft : Draft} (h : draft.LaidOut) (directive : Directive) :
    (draft.apply directive).LaidOut := by
  cases directive with
  | standardOffset millis => exact h.modifyLast fun _ => rfl
  | fixedSaving name save => exact h.modifyLast fun _ => rfl
  | recurringSaving recurrence fromYear toYear =>
    rw [Draft.apply]
    split
    · exact h
    · exact h.modifyLast fun _ => rfl
  | cutover year point =>
    obtain ⟨eras⟩ := draft
    rcases h with rfl | ⟨earlier, last, rfl, hclosed, -⟩
    · exact Or.inr ⟨[], {}, rfl, by simp, rfl⟩
    · refine Or.inr ⟨earlier ++ [{ last with cutover := some ⟨year, point⟩ }], {}, ?_, ?_, rfl⟩
      · simp [Draft.apply]
      · intro era hera
        rcases List.mem_append.mp hera with hearlier | hlast
        · exact hclosed era hearlier
        · rw [List.mem_singleton.mp hlast]
          rfl

theorem ofDirectives_laidOut (directives : List Directive) : (ofDirectives directives).LaidOut := by
  refine List.foldlRecOn directives Draft.apply (motive := LaidOut) (Or.inl rfl) ?_
  intro draft hdraft directive _
  exact hdraft.apply directive

theorem modifyLast_forall {P : Era → Prop} {draft : Draft} {change : Era → Era}
    (h : ∀ era ∈ draft.eras, P era) (hnew : P {}) (hchange : ∀ era, P era → P (change era)) :
    ∀ era ∈ (draft.modifyLast change).eras, P era := by
  obtain ⟨eras⟩ := draft
  rcases List.eq_nil_or_concat eras with rfl | ⟨earlier, last, rfl⟩
  · simpa using hchange {} hnew
  · simp only [List.concat_eq_append] at h ⊢
    rw [modifyLast_concat]
    intro era hera
    rcases List.mem_append.mp hera with hearlier | hlast
    · exact h era (by simp [hearlier])
    · rw [List.mem_singleton.mp hlast]
      exact hchange last (h last (by simp))

theorem apply_hasMonths {draft : Draft} {directive : Directive}
    (h : ∀ era ∈ draft.eras, era.HasMonths)
    (hpoint : ∀ point ∈ directive.point?, point.hasMonth = true) :
    ∀ era ∈ (draft.apply directive).eras, era.HasMonths := by
  have hnew : Era.HasMonths {} := ⟨by simp, by simp⟩
  cases directive with
  | standardOffset millis => exact modifyLast_forall h hnew fun era hera => hera
  | fixedSaving name save => exact modifyLast_forall h hnew fun era hera => hera
  | recurringSaving recurrence fromYear toYear =>
    have hmonth := hpoint recurrence.point rfl
    rw [Draft.apply]
    split
    · exact h
    · refine modifyLast_forall h hnew fun era hera => ⟨?_, hera.2⟩
      intro rule hrule
      rcases List.mem_append.mp hrule with hold | hadded
      · exact hera.1 rule hold
      · rw [List.mem_singleton.mp hadded]
        exact hmonth
  | cutover year point =>
    have hmonth := hpoint point rfl
    rw [Draft.apply]
    split
    · simpa using hnew
    · intro era hera
      rcases List.mem_append.mp hera with hold | hadded
      · have hclose : ∀ era : Era, era.HasMonths →
            { era with cutover := some ⟨year, point⟩ : Era }.HasMonths := by
          intro era hera
          exact ⟨hera.1, by simpa using hmonth⟩
        exact modifyLast_forall h hnew hclose era hold
      · rw [List.mem_singleton.mp hadded]
        exact hnew

/-- If every point that the directives name has a month, no era lacks one. -/
theorem ofDirectives_not_lacksMonth {directives : List Directive}
    (h : ∀ directive ∈ directives, ∀ point ∈ directive.point?, point.hasMonth = true) :
    (ofDirectives directives).lacksMonth = false := by
  have hmonths : ∀ era ∈ (ofDirectives directives).eras, era.HasMonths := by
    refine List.foldlRecOn directives Draft.apply
      (motive := fun draft => ∀ era ∈ draft.eras, era.HasMonths)
      (fun era hera => absurd hera List.not_mem_nil) ?_
    intro draft hdraft directive hmem
    exact apply_hasMonths hdraft (h directive hmem)
  rw [lacksMonth, List.any_eq_false]
  intro era hera
  simp [(hmonths era hera).not_lacksMonth]

theorem build?_eq_some {draft : Draft} {id : String} {zone : TimeZone} {messages : List Message}
    (h : draft.build? id = some (zone, messages)) :
    draft.lacksMonth = false ∧ zone = draft.toTimeZone id := by
  rw [build?] at h
  split at h
  · contradiction
  · next hlacks => exact ⟨by simpa using hlacks, (congrArg Prod.fst (Option.some.inj h)).symm⟩

end Draft

end CivilTime
