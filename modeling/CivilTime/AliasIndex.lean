import CivilTime.Message
import CivilTime.Text.LowerCase
import CivilTime.TimeZone.Codec

/-!
The index of a compilation: every id and alias with the id of the zone that holds its data.
-/

namespace CivilTime.AliasIndex

open Bytes

/-- Entries in order of their ids, code point by code point. -/
def sortByKey {α : Type} (entries : List (String × α)) : List (String × α) :=
  entries.mergeSort fun first second => !(second.1 < first.1)

/-- Ids that are equal up to case: the common folded form, the spelling kept and the value. -/
structure Group (α : Type) where
  folded : String
  spelling : String
  value : α

/-- Puts an entry into its group, where it replaces the value, or into a new one. A replacement is
reported. -/
def collapse {α : Type} (fold : String → String) (groups : List (Group α))
    (entry : String × α) : List (Group α) × List Message :=
  let folded := fold entry.1
  match groups.find? fun group => group.folded = folded with
  | some found =>
    (groups.map fun group =>
        if group.folded = folded then { group with value := entry.2 } else group,
      [.warning ("Zone id '" ++ entry.1 ++ "' collides with '" ++ found.spelling ++
        "', replacing its value")])
  | none => (groups ++ [⟨folded, entry.1, entry.2⟩], [])

def collapseAll {α : Type} (fold : String → String) (groups : List (Group α)) :
    List (String × α) → List (Group α) × List Message
  | [] => (groups, [])
  | entry :: rest =>
    let (groups, messages) := collapse fold groups entry
    let (groups, more) := collapseAll fold groups rest
    (groups, messages ++ more)

/-- Entries in order of their folded ids. Of ids with one folded form, the first spelling is kept
with the value of the last. -/
def sortFolded {α : Type} (fold : String → String) (entries : List (String × α)) :
    List (String × α) × List Message :=
  let (groups, messages) := collapseAll fold [] (sortByKey entries)
  let sorted := sortByKey (groups.map fun group => (group.folded, group))
  (sorted.map fun (_, group) => (group.spelling, group.value), messages)

def sort {α : Type} (entries : List (String × α)) : List (String × α) × List Message :=
  sortFolded Text.lower entries

def nameLimit : Nat := 32767

/-- The number of a name and the pool with the name in it, unless that is more than the pool may
hold. -/
def addName (pool : NamePool) (name : String) : Except EncodeError (Nat × NamePool) :=
  if (pool.number? name).isNone ∧ nameLimit ≤ pool.size then .error (.tooManyNames nameLimit)
  else .ok (pool.add name)

/-- Numbers the names of a pair of alias and target, and puts the numbers before those of the pairs
that came earlier. -/
def addPair : NamePool × List (Nat × Nat) → String × String →
    Except EncodeError (NamePool × List (Nat × Nat))
  | (pool, earlier), (name, target) => do
    let (nameNumber, pool) ← addName pool name
    let (targetNumber, pool) ← addName pool target
    return (pool, (nameNumber, targetNumber) :: earlier)

def encodePair (pair : Nat × Nat) : Except EncodeError (List UInt8) := do
  return (← encodeInt .u16 pair.1) ++ (← encodeInt .u16 pair.2)

def encode (pairs : List (String × String)) : Except EncodeError (List UInt8) := do
  let (pool, backwards) ← pairs.foldlM addPair (.empty, [])
  let numbers := backwards.reverse
  let names ← TimeZone.encodePool pool
  let count ← encodeInt .u16 numbers.length
  let body ← numbers.mapM encodePair
  return names ++ count ++ body.flatten

def readPair (names : Array String) : Reader (String × String) := do
  let source ← Reader.nat 2
  let target ← Reader.nat 2
  match names[source]?, names[target]? with
  | some name, some id => return (name, id)
  | _, _ => throw (.unknownPair source target names.size)

def reader : Reader (List (String × String)) := do
  let names ← TimeZone.readPool
  Reader.many (← Reader.nat 2) (readPair names)

/-- The pairs of an index. Data after them is ignored. -/
def decode (bytes : List UInt8) : Except DecodeError (List (String × String)) :=
  reader.runOn bytes

end CivilTime.AliasIndex
