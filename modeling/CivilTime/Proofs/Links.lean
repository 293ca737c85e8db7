import CivilTime.LinkResolution
import Mathlib.Tactic

/-!
Maps from names, and back links in them: resolving links brings no zone into a map that was not
there under some name.
-/

namespace CivilTime

namespace NameMap

variable {α : Type} {map : NameMap α} {name : String} {value : α}

theorem mem_of_find? (h : map.find? name = some value) : (name, value) ∈ map := by
  rw [find?, Option.map_eq_some_iff] at h
  obtain ⟨entry, hfound, rfl⟩ := h
  have hname : entry.1 = name := by simpa using List.find?_some hfound
  rw [← hname]
  exact List.mem_of_find?_eq_some hfound

/-- An entry of a map after a value has been put in is the new one or an old one of another name. -/
theorem mem_insert {entry : String × α} (h : entry ∈ map.insert name value) :
    entry = (name, value) ∨ entry ∈ map ∧ entry.1 ≠ name := by
  rw [insert] at h
  split at h
  · obtain ⟨old, hold, rfl⟩ := List.mem_map.mp h
    split
    · exact Or.inl rfl
    · next hne => exact Or.inr ⟨hold, hne⟩
  · next hfresh =>
    rcases List.mem_append.mp h with hold | hnew
    · refine Or.inr ⟨hold, fun heq => hfresh ?_⟩
      exact List.any_eq_true.mpr ⟨entry, hold, by simpa using heq⟩
    · exact Or.inl (List.mem_singleton.mp hnew)

theorem find?_insert (map : NameMap α) (name : String) (value : α) (other : String) :
    (map.insert name value).find? other = if other = name then some value else map.find? other := by
  unfold insert
  split
  · next hknown =>
    have hkey : ∀ entry : String × α,
        (if entry.1 = name then (name, value) else entry).1 = entry.1 := by
      intro entry
      by_cases hentry : entry.1 = name
      · simp [hentry]
      · simp [hentry]
    simp only [find?, List.find?_map, Function.comp_def, hkey]
    cases hfind : List.find? (fun entry => decide (entry.1 = other)) map with
    | none =>
      have hne : other ≠ name := by
        rintro rfl
        obtain ⟨entry, hentry, hname⟩ := List.any_eq_true.mp hknown
        exact List.find?_eq_none.mp hfind entry hentry hname
      simp [hne]
    | some entry =>
      have hentry : entry.1 = other := by simpa using List.find?_some hfind
      by_cases hother : other = name
      · simp [hentry, hother]
      · simp [hentry, hother]
  · next hfresh =>
    by_cases hother : other = name
    · have hnone : List.find? (fun entry => decide (entry.1 = name)) map = none := by
        rw [List.find?_eq_none]
        intro entry hentry hname
        exact hfresh (List.any_eq_true.mpr ⟨entry, hentry, hname⟩)
      simp [find?, hother, hnone]
    · simp [find?, hother, Ne.symm hother]

end NameMap

namespace LinkResolution

open Source (Link)

theorem pass_values {zones : NameMap TimeZone} {P : TimeZone → Prop}
    (h : ∀ entry ∈ zones, P entry.2) (links : List Link) :
    ∀ entry ∈ (pass zones links).zones, P entry.2 := by
  induction links generalizing zones with
  | nil => exact h
  | cons link rest ih =>
    rw [pass]
    split
    · exact ih h
    · next zone hfound =>
      refine ih fun entry hentry => ?_
      rcases NameMap.mem_insert hentry with rfl | ⟨hold, -⟩
      · exact h (link.target, zone) (NameMap.mem_of_find? hfound)
      · exact h entry hold

theorem resolve_values {zones : NameMap TimeZone} {P : TimeZone → Prop}
    (h : ∀ entry ∈ zones, P entry.2) (links : List Link) :
    ∀ entry ∈ (resolve zones links).zones, P entry.2 := by
  fun_induction resolve zones links with
  | case1 zones links _ => exact pass_values h links
  | case2 zones links _ ih => exact ih (pass_values h links)

theorem pass_levels (zones : NameMap TimeZone) (links : List Link) :
    ∀ message ∈ (pass zones links).messages, message.level = .debug := by
  induction links generalizing zones with
  | nil => simp [pass]
  | cons link rest ih =>
    rw [pass]
    split
    · exact ih zones
    · next zone _ =>
      intro message hmessage
      rcases List.mem_cons.mp hmessage with rfl | hrest
      · rfl
      · exact ih _ message hrest

theorem resolve_levels (zones : NameMap TimeZone) (links : List Link) :
    ∀ message ∈ (resolve zones links).messages, message.level = .debug := by
  fun_induction resolve zones links with
  | case1 zones links _ => exact pass_levels zones links
  | case2 zones links _ ih =>
    intro message hmessage
    rcases List.mem_append.mp hmessage with hfirst | hrest
    · exact pass_levels zones links message hfirst
    · exact ih message hrest

end LinkResolution

end CivilTime
