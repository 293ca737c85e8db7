import CivilTime.Bytes.Field

/-!
Reading of binary records field by field. A failing read keeps its place after what it has already
consumed.
-/

namespace CivilTime.Bytes

inductive DecodeError where
  | endOfData (size position available : Nat)
  | malformedText
  | unknownName (index size : Nat)
  | unknownPair (source target size : Nat)
  | trailingData (zone : String)
  deriving DecidableEq, Repr

namespace DecodeError

def message : DecodeError → String
  | .endOfData size position available =>
    "Unexpected end of data: need " ++ Text.paddedNat 0 size ++ " bytes at " ++
      Text.paddedNat 0 position ++ ", have " ++ Text.paddedNat 0 available
  | .malformedText => "text is not UTF-8"
  | .unknownName index size =>
    "Invalid name index " ++ Text.paddedNat 0 index ++ " in pool of " ++ Text.paddedNat 0 size
  | .unknownPair source target size =>
    "Invalid pool index (" ++ Text.paddedNat 0 source ++ ", " ++ Text.paddedNat 0 target ++
      ") in pool of " ++ Text.paddedNat 0 size
  | .trailingData zone => "Trailing data after zone '" ++ zone ++ "'"

end DecodeError

/-- A place in the data: how much has been read, and the rest. -/
structure Cursor where
  position : Nat
  rest : List UInt8
  deriving DecidableEq, Repr

def Cursor.start (bytes : List UInt8) : Cursor := ⟨0, bytes⟩

def Cursor.atEnd (cursor : Cursor) : Bool := cursor.rest.isEmpty

abbrev Reader := EStateM DecodeError Cursor

/-- The first `n` elements and the others, if there are that many. -/
def splitExactly? {α : Type} (n : Nat) (xs : List α) : Option (List α × List α) :=
  if (xs.take n).length = n then some (xs.take n, xs.drop n) else none

namespace Reader

def take (size : Nat) : Reader (List UInt8) := fun cursor =>
  match splitExactly? size cursor.rest with
  | some (taken, rest) => .ok taken ⟨cursor.position + size, rest⟩
  | none => .error (.endOfData size cursor.position cursor.rest.length) cursor

def int (field : IntField) : Reader Int := do
  return decodeInt field (← take field.bytes)

def nat (bytes : Nat) : Reader Nat := do
  return value (← take bytes)

def text : Reader String := do
  match ofUtf8? (← take (← nat 2)) with
  | some text => return text
  | none => throw .malformedText

/-- Reads `n` items, and puts them on those already read, which are given backwards. -/
def manyOnto {α : Type} (item : Reader α) : Nat → List α → Reader (List α)
  | 0, read => fun cursor => .ok read.reverse cursor
  | n + 1, read => fun cursor =>
    match item cursor with
    | .ok a cursor => manyOnto item n (a :: read) cursor
    | .error e cursor => .error e cursor

def many {α : Type} (n : Nat) (item : Reader α) : Reader (List α) :=
  manyOnto item n []

def runOn {α : Type} (reader : Reader α) (bytes : List UInt8) : Except DecodeError α :=
  match reader (.start bytes) with
  | .ok a _ => .ok a
  | .error e _ => .error e

end Reader

end CivilTime.Bytes
