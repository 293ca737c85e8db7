import CivilTime.NamePool
import Mathlib.Tactic

/-!
A pool of names holds each name once, under the number of its place.
-/

namespace CivilTime.NamePool

theorem number?_eq_some_iff (pool : NamePool) (name : String) (number : Nat) :
    pool.number? name = some number ↔ pool.names[number]? = some name :=
  pool.numbers_iff name number

theorem number?_isSome_iff (pool : NamePool) (name : String) :
    (∃ number, pool.number? name = some number) ↔ name ∈ pool.names.toList := by
  simp only [number?_eq_some_iff, ← Array.getElem?_toList, ← List.mem_iff_getElem?]

/-- A number belongs to one place only, so no name stands in the pool twice. -/
theorem names_nodup (pool : NamePool) : pool.names.toList.Nodup := by
  rw [List.nodup_iff_getElem?_ne_getElem?]
  intro first second hlt hbound hsame
  obtain ⟨name, hname⟩ : ∃ name, pool.names[second]? = some name := by
    rw [Array.length_toList] at hbound
    exact ⟨_, Array.getElem?_eq_getElem hbound⟩
  simp only [Array.getElem?_toList] at hsame
  have hsecond := (pool.number?_eq_some_iff name second).mpr hname
  have hfirst := (pool.number?_eq_some_iff name first).mpr (hsame.trans hname)
  rw [hsecond] at hfirst
  exact absurd (Option.some.inj hfirst) (by omega)

theorem push_names (pool : NamePool) (name : String) (fresh : pool.number? name = none) :
    (pool.push name fresh).names = pool.names.push name := by
  cases pool
  rfl

theorem mem_add (pool : NamePool) (name other : String) :
    other ∈ (pool.add name).2.names.toList ↔ other ∈ pool.names.toList ∨ other = name := by
  rw [add]
  split
  · next number hknown =>
    have hmem := (pool.number?_isSome_iff name).mp ⟨number, hknown⟩
    constructor
    · exact Or.inl
    · rintro (h | rfl)
      · exact h
      · exact hmem
  · next hfresh => simp [push_names]

def addAll (pool : NamePool) (names : List String) : NamePool :=
  names.foldl (fun pool name => (pool.add name).2) pool

theorem mem_addAll (pool : NamePool) (names : List String) (name : String) :
    name ∈ (pool.addAll names).names.toList ↔ name ∈ pool.names.toList ∨ name ∈ names := by
  induction names generalizing pool with
  | nil => simp [addAll]
  | cons head tail ih =>
    have hstep : pool.addAll (head :: tail) = (pool.add head).2.addAll tail := rfl
    rw [hstep, ih, mem_add, List.mem_cons, or_assoc]

theorem mem_ofList (names : List String) (name : String) :
    name ∈ (ofList names).names.toList ↔ name ∈ names := by
  have hall : ofList names = empty.addAll names := rfl
  rw [hall, mem_addAll]
  simp [empty]

theorem add_of_known {pool : NamePool} {name : String} {number : Nat}
    (h : pool.number? name = some number) : pool.add name = (number, pool) := by
  unfold add
  split
  · next found hfound =>
    rw [h] at hfound
    rw [Option.some.inj hfound]
  · next hfresh =>
    rw [h] at hfresh
    cases hfresh

theorem size_add_of_fresh {pool : NamePool} {name : String} (h : pool.number? name = none) :
    (pool.add name).2.size = pool.size + 1 := by
  unfold add
  split
  · next number hknown =>
    rw [h] at hknown
    cases hknown
  · simp [size, push_names]

theorem size_le_add (pool : NamePool) (name : String) : pool.size ≤ (pool.add name).2.size := by
  cases hnumber : pool.number? name with
  | some number => rw [add_of_known hnumber]
  | none => rw [size_add_of_fresh hnumber]; exact Nat.le_succ _

theorem size_le_addAll (pool : NamePool) (names : List String) :
    pool.size ≤ (pool.addAll names).size := by
  induction names generalizing pool with
  | nil => exact Nat.le_refl _
  | cons head tail ih => exact (pool.size_le_add head).trans (ih (pool.add head).2)

theorem size_ofList (names : List String) : (ofList names).size = names.toFinset.card := by
  have hsame : (ofList names).names.toList.toFinset = names.toFinset := by
    ext name
    simp only [List.mem_toFinset, mem_ofList]
  rw [← hsame, List.toFinset_card_of_nodup (names_nodup _), Array.length_toList, size]

end CivilTime.NamePool
