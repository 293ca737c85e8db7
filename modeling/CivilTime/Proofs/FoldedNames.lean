import CivilTime.Proofs.NameOrder
import Mathlib.Data.String.Basic
import Mathlib.Order.Bounds.Basic

/-!
The canonical form of a map whose names are told apart only up to folding, such as lower case. The
names of one folded form make a class; of each class the least spelling is kept with the value of
the greatest. This determines the list, so the order in which the map was filled does not matter and
sorting twice is sorting once.
-/

namespace CivilTime.AliasIndex

variable {α : Type} {fold : String → String}

def variants (fold : String → String) (entries : List (String × α)) (folded : String) :
    Set String :=
  {name | (∃ value, (name, value) ∈ entries) ∧ fold name = folded}

theorem variants_congr {entries others : List (String × α)}
    (h : ∀ entry, entry ∈ entries ↔ entry ∈ others) (folded : String) :
    variants fold entries folded = variants fold others folded := by
  simp only [variants, h]

/-- The list has one entry for each folded form among those of a map, in strict order of the folded
forms: the least spelling with the value of the greatest. -/
structure IsFolded (fold : String → String) (entries result : List (String × α)) : Prop where
  increasing : result.Pairwise fun first second => fold first.1 < fold second.1
  covers : ∀ entry ∈ entries, ∃ kept ∈ result, fold kept.1 = fold entry.1
  spelling : ∀ kept ∈ result, IsLeast (variants fold entries (fold kept.1)) kept.1
  value : ∀ kept ∈ result, ∃ name, (name, kept.2) ∈ entries ∧
    IsGreatest (variants fold entries (fold kept.1)) name

namespace IsFolded

variable {entries others first second result : List (String × α)}

theorem congr (h : IsFolded fold entries result)
    (hmem : ∀ entry, entry ∈ entries ↔ entry ∈ others) : IsFolded fold others result where
  increasing := h.increasing
  covers entry hentry := h.covers entry ((hmem entry).mpr hentry)
  spelling kept hkept := variants_congr hmem (fold kept.1) ▸ h.spelling kept hkept
  value kept hkept := by
    obtain ⟨name, hname, hgreatest⟩ := h.value kept hkept
    exact ⟨name, (hmem _).mp hname, variants_congr hmem (fold kept.1) ▸ hgreatest⟩

/-- No two entries of the list have one folded form. -/
theorem injective (h : IsFolded fold entries result) {kept other : String × α}
    (hkept : kept ∈ result) (hother : other ∈ result) (hfold : fold kept.1 = fold other.1) :
    kept = other := by
  have hnodup : (result.map fun entry => fold entry.1).Nodup :=
    List.pairwise_map.mpr (h.increasing.imp fun hlt => ne_of_lt hlt)
  exact List.inj_on_of_nodup_map hnodup hkept hother hfold

/-- What is kept of a class is determined by the class. -/
theorem subset (hfirst : IsFolded fold entries first) (hsecond : IsFolded fold entries second)
    (hdistinct : NameMap.Distinct entries) : first ⊆ second := by
  rintro ⟨name, value⟩ hkept
  have hleast := hfirst.spelling _ hkept
  obtain ⟨greatest, hvalue, hgreatest⟩ := hfirst.value _ hkept
  obtain ⟨⟨_, hentry⟩, -⟩ := hleast.1
  obtain ⟨⟨other, kept⟩, hother, hfold⟩ := hsecond.covers _ hentry
  dsimp only at hfold
  obtain rfl : name = other := by
    refine hleast.unique ?_
    rw [← hfold]
    exact hsecond.spelling _ hother
  obtain ⟨last, hlast, hupper⟩ := hsecond.value _ hother
  obtain rfl : greatest = last := hgreatest.unique hupper
  have hsame := List.inj_on_of_nodup_map hdistinct hvalue hlast rfl
  obtain rfl : value = kept := (Prod.mk.inj hsame).2
  exact hother

theorem distinct (h : IsFolded fold entries result) : NameMap.Distinct result :=
  List.pairwise_map.mpr (h.increasing.imp fun hlt heq => ne_of_lt hlt (congrArg fold heq))

/-- There is one such list. -/
theorem unique (hfirst : IsFolded fold entries first) (hsecond : IsFolded fold entries second)
    (hdistinct : NameMap.Distinct entries) : first = second := by
  have hperm : first.Perm second := by
    apply (List.perm_ext_iff_of_nodup hfirst.distinct.of_map hsecond.distinct.of_map).mpr
    intro entry
    exact ⟨fun h => hfirst.subset hsecond hdistinct h, fun h => hsecond.subset hfirst hdistinct h⟩
  refine hperm.eq_of_pairwise ?_ hfirst.increasing hsecond.increasing
  exact fun _ _ _ _ hlt hgt => absurd hgt (lt_asymm hlt)

/-- A list in which every class has a single name is its own canonical form. -/
theorem self (h : IsFolded fold entries result) : IsFolded fold result result := by
  have hsingle : ∀ kept ∈ result, variants fold result (fold kept.1) = {kept.1} := by
    intro kept hkept
    ext name
    constructor
    · rintro ⟨⟨value, hmem⟩, hfold⟩
      exact congrArg Prod.fst (h.injective hmem hkept hfold)
    · rintro rfl
      exact ⟨⟨kept.2, hkept⟩, rfl⟩
  refine ⟨h.increasing, fun entry hentry => ⟨entry, hentry, rfl⟩, ?_, ?_⟩
  · intro kept hkept
    rw [hsingle kept hkept]
    exact isLeast_singleton
  · intro kept hkept
    rw [hsingle kept hkept]
    exact ⟨kept.1, hkept, isGreatest_singleton⟩

end IsFolded

structure Grouped (fold : String → String) (done : List (String × α)) (groups : List (Group α)) :
    Prop where
  distinct : (groups.map Group.folded).Nodup
  covers : ∀ entry ∈ done, fold entry.1 ∈ groups.map Group.folded
  spelling : ∀ group ∈ groups, IsLeast (variants fold done group.folded) group.spelling
  value : ∀ group ∈ groups, ∃ name, (name, group.value) ∈ done ∧
    IsGreatest (variants fold done group.folded) name

theorem variants_append_of_ne {entry : String × α} {folded : String} (h : folded ≠ fold entry.1)
    (done : List (String × α)) :
    variants fold (done ++ [entry]) folded = variants fold done folded := by
  ext name
  simp only [variants, Set.mem_ofPred_eq, List.mem_append, List.mem_singleton]
  constructor
  · rintro ⟨⟨value, hmem | rfl⟩, rfl⟩
    · exact ⟨⟨value, hmem⟩, rfl⟩
    · exact absurd rfl h
  · rintro ⟨⟨value, hmem⟩, hfold⟩
    exact ⟨⟨value, Or.inl hmem⟩, hfold⟩

theorem variants_append (fold : String → String) (done : List (String × α)) (entry : String × α) :
    variants fold (done ++ [entry]) (fold entry.1) =
      insert entry.1 (variants fold done (fold entry.1)) := by
  ext name
  simp only [variants, Set.mem_insert_iff, Set.mem_ofPred_eq, List.mem_append, List.mem_singleton]
  constructor
  · rintro ⟨⟨value, hmem | rfl⟩, hfold⟩
    · exact Or.inr ⟨⟨value, hmem⟩, hfold⟩
    · exact Or.inl rfl
  · rintro (rfl | ⟨⟨value, hmem⟩, hfold⟩)
    · exact ⟨⟨entry.2, Or.inr rfl⟩, rfl⟩
    · exact ⟨⟨value, Or.inl hmem⟩, hfold⟩

section Collapse

variable {groups : List (Group α)} {entry : String × α}

/-- Either the class of an entry has a group already, whose value it replaces with a message, or it
makes a new one. -/
theorem collapse_cases (fold : String → String) (groups : List (Group α)) (entry : String × α) :
    (fold entry.1 ∈ groups.map Group.folded ∧ (collapse fold groups entry).2.length = 1 ∧
      (collapse fold groups entry).1 = groups.map fun group =>
        if group.folded = fold entry.1 then { group with value := entry.2 } else group) ∨
    (fold entry.1 ∉ groups.map Group.folded ∧
      collapse fold groups entry = (groups ++ [⟨fold entry.1, entry.1, entry.2⟩], [])) := by
  cases hfind : groups.find? fun group => group.folded = fold entry.1 with
  | none =>
    refine Or.inr ⟨?_, by simp only [collapse, hfind]⟩
    simpa [List.find?_eq_none] using hfind
  | some found =>
    have hfolded : found.folded = fold entry.1 := by simpa using List.find?_some hfind
    refine Or.inl ⟨?_, by simp only [collapse, hfind, List.length_singleton], ?_⟩
    · exact List.mem_map.mpr ⟨found, List.mem_of_find?_eq_some hfind, hfolded⟩
    · simp only [collapse, hfind]

theorem map_folded_collapse (fold : String → String) (groups : List (Group α))
    (entry : String × α) :
    (collapse fold groups entry).1.map Group.folded =
      if fold entry.1 ∈ groups.map Group.folded then groups.map Group.folded
      else groups.map Group.folded ++ [fold entry.1] := by
  rcases collapse_cases fold groups entry with ⟨hknown, -, hgroups⟩ | ⟨hnew, hcollapse⟩
  · rw [if_pos hknown, hgroups, List.map_map]
    apply List.map_congr_left
    intro group _
    simp only [Function.comp_apply]
    split <;> rfl
  · rw [if_neg hnew, hcollapse, List.map_append, List.map_singleton]

/-- A group is left as it was, unless it is that of the class of the entry. -/
theorem of_mem_collapse {group : Group α} (h : group ∈ (collapse fold groups entry).1) :
    (group ∈ groups ∧ group.folded ≠ fold entry.1) ∨
    (group.folded = fold entry.1 ∧ group.value = entry.2 ∧
      ((∃ old ∈ groups, old.folded = fold entry.1 ∧ old.spelling = group.spelling) ∨
        (fold entry.1 ∉ groups.map Group.folded ∧ group.spelling = entry.1))) := by
  rcases collapse_cases fold groups entry with ⟨-, -, hgroups⟩ | ⟨hnew, hcollapse⟩
  · rw [hgroups] at h
    obtain ⟨old, hold, rfl⟩ := List.mem_map.mp h
    split
    · next hfolded => exact Or.inr ⟨hfolded, rfl, Or.inl ⟨old, hold, hfolded, rfl⟩⟩
    · next hfolded => exact Or.inl ⟨hold, hfolded⟩
  · rw [hcollapse] at h
    rcases List.mem_append.mp h with hold | hmem
    · refine Or.inl ⟨hold, fun hfolded => hnew ?_⟩
      exact List.mem_map.mpr ⟨group, hold, hfolded⟩
    · obtain rfl := List.mem_singleton.mp hmem
      exact Or.inr ⟨rfl, rfl, Or.inr ⟨hnew, rfl⟩⟩

end Collapse

namespace Grouped

variable {done rest : List (String × α)} {groups : List (Group α)}

theorem start (fold : String → String) : Grouped fold ([] : List (String × α)) [] :=
  ⟨List.nodup_nil, by simp, by simp, by simp⟩

/-- One more entry, whose name is not before those that are done. -/
theorem collapse (h : Grouped fold done groups) {entry : String × α}
    (hlast : ∀ earlier ∈ done, earlier.1 ≤ entry.1) :
    Grouped fold (done ++ [entry]) (collapse fold groups entry).1 where
  distinct := by
    rw [map_folded_collapse]
    split
    · exact h.distinct
    · next hnew =>
      rw [List.nodup_append_comm]
      exact List.nodup_cons.mpr ⟨hnew, h.distinct⟩
  covers := by
    intro other hother
    rw [map_folded_collapse]
    rcases List.mem_append.mp hother with hdone | hmem
    · have hcovered := h.covers other hdone
      split
      · exact hcovered
      · exact List.mem_append_left _ hcovered
    · obtain rfl := List.mem_singleton.mp hmem
      split
      · assumption
      · simp
  spelling := by
    intro group hgroup
    rcases of_mem_collapse hgroup with ⟨hold, hne⟩ | ⟨hfolded, -, hspelling⟩
    · rw [variants_append_of_ne hne]
      exact h.spelling group hold
    · rw [hfolded, variants_append]
      rcases hspelling with ⟨old, hold, hclass, hsame⟩ | ⟨hnew, hsame⟩
      · have hleast := h.spelling old hold
        rw [hclass, hsame] at hleast
        obtain ⟨⟨value, hmem⟩, -⟩ := hleast.1
        have hmin := hleast.insert entry.1
        rwa [min_eq_right (hlast _ hmem)] at hmin
      · have hnone : variants fold done (fold entry.1) = ∅ := by
          apply Set.eq_empty_of_forall_notMem
          rintro name ⟨⟨value, hmem⟩, hfold⟩
          exact hnew (hfold ▸ h.covers _ hmem)
        rw [hnone, hsame, insert_empty_eq]
        exact isLeast_singleton
  value := by
    intro group hgroup
    rcases of_mem_collapse hgroup with ⟨hold, hne⟩ | ⟨hfolded, hvalue, -⟩
    · obtain ⟨name, hmem, hgreatest⟩ := h.value group hold
      refine ⟨name, List.mem_append_left _ hmem, ?_⟩
      rwa [variants_append_of_ne hne]
    · refine ⟨entry.1, by simp [hvalue], ?_⟩
      rw [hfolded, variants_append]
      refine ⟨Set.mem_insert _ _, ?_⟩
      rintro name (rfl | ⟨⟨value, hmem⟩, -⟩)
      · exact le_rfl
      · exact hlast _ hmem

/-- All entries, in the order of their names. -/
theorem collapseAll (h : Grouped fold done groups)
    (hsorted : (done ++ rest).Pairwise fun first second => first.1 ≤ second.1) :
    Grouped fold (done ++ rest) (collapseAll fold groups rest).1 := by
  induction rest generalizing done groups with
  | nil =>
    rw [List.append_nil]
    exact h
  | cons entry rest ih =>
    rw [List.append_cons] at hsorted ⊢
    have hlast : ∀ earlier ∈ done, earlier.1 ≤ entry.1 := by
      have hdone := (List.pairwise_append.mp (List.pairwise_append.mp hsorted).1).2.2
      exact fun earlier hearlier => hdone earlier hearlier entry (by simp)
    exact ih (h.collapse hlast) hsorted

end Grouped

theorem collapseAll_length (fold : String → String) (groups : List (Group α))
    (entries : List (String × α)) :
    (collapseAll fold groups entries).2.length + (collapseAll fold groups entries).1.length =
      groups.length + entries.length := by
  induction entries generalizing groups with
  | nil => simp [collapseAll]
  | cons entry rest ih =>
    have hrest := ih (collapse fold groups entry).1
    have hstep : (collapse fold groups entry).2.length + (collapse fold groups entry).1.length =
        groups.length + 1 := by
      rcases collapse_cases fold groups entry with ⟨-, hone, hgroups⟩ | ⟨-, hcollapse⟩
      · rw [hone, hgroups, List.length_map, Nat.add_comm]
      · simp [hcollapse]
    simp only [collapseAll, List.length_append, List.length_cons]
    omega

/-- Different names stand in strict order. -/
theorem sortByKey_increasing {entries : List (String × α)} (h : (entries.map Prod.fst).Nodup) :
    (sortByKey entries).Pairwise fun first second => first.1 < second.1 := by
  have hdistinct : ((sortByKey entries).map Prod.fst).Nodup :=
    ((List.mergeSort_perm entries _).map Prod.fst).nodup_iff.mpr h
  refine (List.pairwise_map.mp hdistinct).imp₂ ?_ (pairwise_sortByKey entries)
  intro first second hne hle
  simp only [Bool.not_eq_true', decide_eq_false_iff_not] at hle
  exact lt_of_le_of_ne (not_lt.mp hle) hne

/-- The list of groups in the order of their folded forms. -/
theorem Grouped.isFolded {done : List (String × α)} {groups : List (Group α)}
    (h : Grouped fold done groups) :
    IsFolded fold done ((sortByKey (groups.map fun group => (group.folded, group))).map
      fun (_, group) => (group.spelling, group.value)) := by
  have hfold : ∀ group ∈ groups, fold group.spelling = group.folded :=
    fun group hgroup => (h.spelling group hgroup).1.2
  have hmem : ∀ pair ∈ sortByKey (groups.map fun group => (group.folded, group)),
      pair.2 ∈ groups ∧ pair.1 = pair.2.folded := by
    intro pair hpair
    obtain ⟨group, hgroup, rfl⟩ := List.mem_map.mp (mem_sortByKey.mp hpair)
    exact ⟨hgroup, rfl⟩
  have hkeys : ((groups.map fun group => (group.folded, group)).map Prod.fst).Nodup := by
    rw [List.map_map]
    exact h.distinct
  refine ⟨?_, ?_, ?_, ?_⟩
  · refine List.pairwise_map.mpr ((sortByKey_increasing hkeys).imp_of_mem ?_)
    intro first second hfirst hsecond hlt
    rw [hfold _ (hmem first hfirst).1, hfold _ (hmem second hsecond).1, ← (hmem first hfirst).2,
      ← (hmem second hsecond).2]
    exact hlt
  · intro entry hentry
    obtain ⟨group, hgroup, hfolded⟩ := List.mem_map.mp (h.covers entry hentry)
    refine ⟨(group.spelling, group.value), List.mem_map.mpr ⟨(group.folded, group), ?_, rfl⟩, ?_⟩
    · exact mem_sortByKey.mpr (List.mem_map.mpr ⟨group, hgroup, rfl⟩)
    · exact (hfold group hgroup).trans hfolded
  · intro kept hkept
    obtain ⟨pair, hpair, rfl⟩ := List.mem_map.mp hkept
    have hgroup := (hmem pair hpair).1
    dsimp only
    rw [hfold _ hgroup]
    exact h.spelling _ hgroup
  · intro kept hkept
    obtain ⟨pair, hpair, rfl⟩ := List.mem_map.mp hkept
    have hgroup := (hmem pair hpair).1
    dsimp only
    rw [hfold _ hgroup]
    exact h.value _ hgroup

theorem sortFolded_isFolded (fold : String → String) (entries : List (String × α)) :
    IsFolded fold entries (sortFolded fold entries).1 := by
  have hsorted : (sortByKey entries).Pairwise fun first second => first.1 ≤ second.1 := by
    refine (pairwise_sortByKey entries).imp fun hle => ?_
    simpa only [Bool.not_eq_true', decide_eq_false_iff_not, not_lt] using hle
  have hgrouped : Grouped fold (sortByKey entries) (collapseAll fold [] (sortByKey entries)).1 :=
    (Grouped.start fold).collapseAll hsorted
  exact hgrouped.isFolded.congr fun entry => mem_sortByKey

theorem sortFolded_length (fold : String → String) (entries : List (String × α)) :
    (sortFolded fold entries).2.length + (sortFolded fold entries).1.length = entries.length := by
  have hlength := collapseAll_length fold [] (sortByKey entries)
  simpa [sortFolded, sortByKey, List.length_mergeSort] using hlength

theorem sortFolded_perm {entries others : NameMap α} (h : entries.Distinct)
    (hperm : entries.Perm others) (fold : String → String) :
    sortFolded fold others = sortFolded fold entries := by
  simp only [sortFolded, h.sortByKey_perm hperm]

/-- Sorting what has been sorted gives the same list, without a message. -/
theorem sortFolded_sorted {entries : NameMap α} (fold : String → String) :
    sortFolded fold (sortFolded fold entries).1 = ((sortFolded fold entries).1, []) := by
  have hfolded := sortFolded_isFolded fold entries
  have hsame : (sortFolded fold (sortFolded fold entries).1).1 = (sortFolded fold entries).1 :=
    (sortFolded_isFolded fold _).unique hfolded.self hfolded.distinct
  have hlength := sortFolded_length fold (sortFolded fold entries).1
  have hsilent : (sortFolded fold (sortFolded fold entries).1).2 = [] := by
    rw [hsame] at hlength
    exact List.length_eq_zero_iff.mp (by omega)
  exact Prod.ext hsame hsilent

/-- The canonical form of a map under any folding of its names. It has one entry for each folded
form, in strict order: the least spelling with the value of the greatest. It does not tell the order
in which the map was filled, and sorting it again changes nothing. Each name that is not kept is
reported with one warning. -/
theorem sortFolded_canonical (fold : String → String) (entries : NameMap α)
    (h : entries.Distinct) :
    let sorted := (sortFolded fold entries).1
    let messages := (sortFolded fold entries).2
    IsFolded fold entries sorted ∧
    (∀ entry ∈ entries, ∃! kept, kept ∈ sorted ∧ fold kept.1 = fold entry.1) ∧
    (∀ others, entries.Perm others → sortFolded fold others = sortFolded fold entries) ∧
    sortFolded fold sorted = (sorted, []) ∧
    (∀ message ∈ messages, message.level = .warning) ∧
    messages.length + sorted.length = entries.length := by
  intro sorted messages
  have hfolded := sortFolded_isFolded fold entries
  refine ⟨hfolded, fun entry hentry => ?_, fun others hperm => sortFolded_perm h hperm fold,
    sortFolded_sorted fold, collapseAll_levels fold [] (sortByKey entries),
    sortFolded_length fold entries⟩
  obtain ⟨kept, hkept, hfold⟩ := hfolded.covers entry hentry
  refine ⟨kept, ⟨hkept, hfold⟩, ?_⟩
  rintro other ⟨hother, hclass⟩
  exact hfolded.injective hother hkept (hclass.trans hfold.symm)

def spellings : NameMap Nat :=
  [("test/zone", 1), ("Test/Zone", 2), ("Test/Other", 3), ("Test/ZONE", 4)]

theorem sortFolded_canonical_spellings :
    spellings.Distinct ∧
      IsFolded Text.lower spellings (sort spellings).1 ∧
      (∃! kept, kept ∈ (sort spellings).1 ∧ Text.lower kept.1 = Text.lower "Test/Zone") ∧
      sort spellings.reverse = sort spellings ∧
      sort (sort spellings).1 = ((sort spellings).1, []) ∧
      (sort spellings).2.length + (sort spellings).1.length = 4 := by
  have hdistinct : spellings.Distinct := by
    unfold NameMap.Distinct
    decide
  obtain ⟨hfolded, hclass, hperm, hsorted, -, hlength⟩ :=
    sortFolded_canonical Text.lower spellings hdistinct
  exact ⟨hdistinct, hfolded, hclass ("Test/Zone", 2) (by decide),
    hperm _ (List.reverse_perm spellings).symm, hsorted, hlength⟩

end CivilTime.AliasIndex
