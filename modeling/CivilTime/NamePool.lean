import Std.Data.HashMap

/-!
A pool of names numbered in the order in which they first come.
-/

namespace CivilTime

/-- Names in order, and the number of each. -/
structure NamePool where
  names : Array String := #[]
  numbers : Std.HashMap String Nat := ∅
  /-- A number belongs to a name exactly if the name stands there. -/
  numbers_iff : ∀ (name : String) (number : Nat),
      numbers[name]? = some number ↔ names[number]? = some name := by simp

namespace NamePool

def empty : NamePool := {}

def size (pool : NamePool) : Nat := pool.names.size

def number? (pool : NamePool) (name : String) : Option Nat := pool.numbers[name]?

/-- Puts in a name that is not in the pool, under the next number. -/
def push : (pool : NamePool) → (name : String) → pool.number? name = none → NamePool
  | ⟨names, numbers, numbers_iff⟩, name, fresh =>
    let number := names.size
    { names := names.push name
      numbers := numbers.insert name number
      numbers_iff := by
        intro other place
        have hother := numbers_iff other place
        have hname := numbers_iff name place
        simp only [number?] at fresh
        rw [fresh] at hname
        have hbound : names[place]? = some other → place < names.size := by
          intro h
          exact (Array.getElem?_eq_some_iff.mp h).1
        simp only [Std.HashMap.getElem?_insert, Array.getElem?_push]
        grind }

def add (pool : NamePool) (name : String) : Nat × NamePool :=
  match h : pool.number? name with
  | some number => (number, pool)
  | none => (pool.size, pool.push name h)

def ofList (names : List String) : NamePool :=
  names.foldl (fun pool name => (pool.add name).2) empty

end NamePool

end CivilTime
