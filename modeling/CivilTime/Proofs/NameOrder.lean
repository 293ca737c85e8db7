import CivilTime.Proofs.AliasIndex
import CivilTime.Proofs.LinkClosure

/-!
Maps up to the order of their entries. A map in which every name stands once is told by what is
found in it, and so is its list sorted by names. What entries of different names make does not
depend on the order in which they are put in.
-/

namespace CivilTime

namespace NameMap

variable {α ι : Type} {map first second : NameMap α}

def Distinct (map : NameMap α) : Prop :=
  (map.map Prod.fst).Nodup

theorem Distinct.insert (h : map.Distinct) (name : String) (value : α) :
    (map.insert name value).Distinct := by
  unfold Distinct NameMap.insert
  split
  · have hkeys : (map.map fun entry => if entry.1 = name then (name, value) else entry).map
        Prod.fst = map.map Prod.fst := by
      rw [List.map_map]
      apply List.map_congr_left
      intro entry _
      simp only [Function.comp_apply]
      split
      · next hname => exact hname.symm
      · rfl
    rw [hkeys]
    exact h
  · next hfresh =>
    rw [List.map_append, List.map_singleton, List.nodup_append_comm]
    apply List.nodup_cons.mpr
    refine ⟨fun hmem => hfresh ?_, h⟩
    obtain ⟨entry, hentry, hname⟩ := List.mem_map.mp hmem
    exact List.any_eq_true.mpr ⟨entry, hentry, by simpa using hname⟩

theorem Distinct.mem_iff (h : map.Distinct) {name : String} {value : α} :
    (name, value) ∈ map ↔ map.find? name = some value := by
  constructor
  · intro hmem
    cases hfind : map.find? name with
    | none =>
      rw [find?, Option.map_eq_none_iff, List.find?_eq_none] at hfind
      exact absurd (decide_eq_true rfl) (hfind (name, value) hmem)
    | some found =>
      have hsame := List.inj_on_of_nodup_map h hmem (mem_of_find? hfind) rfl
      rw [(Prod.mk.inj hsame).2]
  · exact mem_of_find?

theorem Distinct.perm (hfirst : first.Distinct) (hsecond : second.Distinct)
    (h : ∀ name, first.find? name = second.find? name) : first.Perm second := by
  apply (List.perm_ext_iff_of_nodup hfirst.of_map hsecond.of_map).mpr
  rintro ⟨name, value⟩
  rw [hfirst.mem_iff, hsecond.mem_iff, h]

/-- Sorted by names, a map does not tell the order in which it was filled. -/
theorem Distinct.sortByKey_perm (hfirst : first.Distinct) (hperm : first.Perm second) :
    AliasIndex.sortByKey first = AliasIndex.sortByKey second := by
  have hsorted : (AliasIndex.sortByKey first).Perm (AliasIndex.sortByKey second) :=
    (List.mergeSort_perm first _).trans (hperm.trans (List.mergeSort_perm second _).symm)
  apply hsorted.eq_of_pairwise _ (AliasIndex.pairwise_sortByKey first)
    (AliasIndex.pairwise_sortByKey second)
  intro entry other hentry hother hle hge
  simp only [Bool.not_eq_true', decide_eq_false_iff_not, String.not_lt] at hle hge
  exact List.inj_on_of_nodup_map hfirst (AliasIndex.mem_sortByKey.mp hentry)
    (hperm.mem_iff.mpr (AliasIndex.mem_sortByKey.mp hother)) (String.le_antisymm hle hge)

/-- Sorted by names, maps in which the same is found are the same. -/
theorem Distinct.sortByKey_eq (hfirst : first.Distinct) (hsecond : second.Distinct)
    (h : ∀ name, first.find? name = second.find? name) :
    AliasIndex.sortByKey first = AliasIndex.sortByKey second :=
  hfirst.sortByKey_perm (hfirst.perm hsecond h)

def insert? (map : NameMap α) (name : String) : Option α → NameMap α
  | none => map
  | some value => map.insert name value

theorem find?_insert? (map : NameMap α) (name : String) (value : Option α) (other : String) :
    (map.insert? name value).find? other =
      if other = name then value.or (map.find? other) else map.find? other := by
  cases value with
  | none => simp [insert?]
  | some value => simp [insert?, find?_insert]

theorem Distinct.insert? (h : map.Distinct) (name : String) (value : Option α) :
    (map.insert? name value).Distinct := by
  cases value with
  | none => exact h
  | some value => exact h.insert name value

variable {key : ι → String} {value : ι → Option α} {items : List ι}

theorem Distinct.foldl_insert? (h : map.Distinct) (items : List ι) :
    (items.foldl (fun map item => map.insert? (key item) (value item)) map).Distinct := by
  induction items generalizing map with
  | nil => exact h
  | cons item rest ih =>
    exact ih (h.insert? (key item) (value item))

/-- Items without a value for a name leave what is found there. -/
theorem find?_foldl_insert?_of_none {name : String}
    (h : ∀ item ∈ items, key item = name → value item = none) (map : NameMap α) :
    (items.foldl (fun map item => map.insert? (key item) (value item)) map).find? name =
      map.find? name := by
  induction items generalizing map with
  | nil => rfl
  | cons item rest ih =>
    obtain ⟨hitem, hrest⟩ := List.forall_mem_cons.mp h
    rw [List.foldl_cons, ih hrest, find?_insert?]
    split
    · next hname =>
      rw [hitem hname.symm]
      rfl
    · rfl

/-- What is found after items of different names have been put in: the value of the item of that
name, or what was there before. -/
theorem find?_foldl_insert? (hdistinct : (items.map key).Nodup) (map : NameMap α) (name : String)
    (found : α) :
    (items.foldl (fun map item => map.insert? (key item) (value item)) map).find? name =
        some found ↔
      (∃ item ∈ items, key item = name ∧ value item = some found) ∨
        map.find? name = some found ∧ ∀ item ∈ items, key item = name → value item = none := by
  induction items generalizing map with
  | nil => simp
  | cons item rest ih =>
    obtain ⟨hfresh, hrest⟩ := List.nodup_cons.mp hdistinct
    rw [List.foldl_cons, ih hrest, find?_insert?]
    simp only [List.mem_cons, exists_eq_or_imp, forall_eq_or_imp]
    by_cases hname : name = key item
    · subst hname
      have hother : ∀ other ∈ rest, key other ≠ key item :=
        fun other hother hkey => hfresh (hkey ▸ List.mem_map_of_mem hother)
      have hnone : ¬ ∃ other ∈ rest, key other = key item ∧ value other = some found :=
        fun ⟨other, hrest, hkey, _⟩ => hother other hrest hkey
      have hall : ∀ other ∈ rest, key other = key item → value other = none :=
        fun other hrest hkey => absurd hkey (hother other hrest)
      rw [iff_false_intro hnone, iff_true_intro hall]
      cases value item with
      | none => simp
      | some here => simp
    · simp [hname, Ne.symm hname]

/-- The order of the items makes no difference. -/
theorem find?_foldl_perm {others : List ι} {other : ι → Option α}
    (hdistinct : (items.map key).Nodup) (hperm : items.Perm others)
    (hvalue : ∀ item, value item = other item)
    (h : ∀ name, first.find? name = second.find? name) (name : String) :
    (items.foldl (fun map item => map.insert? (key item) (value item)) first).find? name =
      (others.foldl (fun map item => map.insert? (key item) (other item)) second).find? name := by
  apply Option.ext
  intro found
  rw [find?_foldl_insert? hdistinct, find?_foldl_insert? ((hperm.map key).nodup_iff.mp hdistinct)]
  simp only [hperm.mem_iff, hvalue, h]

theorem keys_foldl_insert? (hdistinct : (items.map key).Nodup) {name : String}
    (h : name ∈
      (items.foldl (fun map item => map.insert? (key item) (value item)) map).keys) :
    name ∈ items.map key ∨ name ∈ map.keys := by
  obtain ⟨found, hfound⟩ := h
  rcases (find?_foldl_insert? hdistinct map name found).mp hfound with
    ⟨item, hitem, rfl, -⟩ | ⟨hbefore, -⟩
  · exact Or.inl (List.mem_map_of_mem hitem)
  · exact Or.inr ⟨found, hbefore⟩

end NameMap

namespace LinkResolution

open Source (Link)

theorem pass_distinct {zones : NameMap TimeZone} (h : zones.Distinct) (links : List Link) :
    (pass zones links).zones.Distinct := by
  induction links generalizing zones with
  | nil => exact h
  | cons link rest ih =>
    cases hfind : zones.find? link.target with
    | none =>
      rw [pass_cons_of_missing hfind]
      exact ih h
    | some zone =>
      rw [pass_cons_of_found hfind]
      exact ih (h.insert link.name zone)

theorem resolve_distinct {zones : NameMap TimeZone} (h : zones.Distinct) (links : List Link) :
    (resolve zones links).zones.Distinct := by
  fun_induction resolve zones links with
  | case1 zones links _ => exact pass_distinct h links
  | case2 zones links _ ih => exact ih (pass_distinct h links)

end LinkResolution

end CivilTime
