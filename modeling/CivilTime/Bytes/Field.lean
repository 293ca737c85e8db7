import CivilTime.Text.Numbers

/-!
Fields of binary records: integers of a fixed number of bytes, most significant byte first, and
texts as UTF-8 after their length in bytes. Negative integers are written in two's complement.
-/

namespace CivilTime.Bytes

structure IntField where
  bytes : Nat
  signed : Bool
  deriving DecidableEq, Repr

namespace IntField

def u8 : IntField := ⟨1, false⟩
def i8 : IntField := ⟨1, true⟩
def u16 : IntField := ⟨2, false⟩
def u32 : IntField := ⟨4, false⟩
def i32 : IntField := ⟨4, true⟩
def i64 : IntField := ⟨8, true⟩

def size (field : IntField) : Nat := Nat.pow 256 field.bytes

def highest (field : IntField) : Int :=
  if field.signed then (field.size / 2 : Nat) - 1 else field.size - 1

def lowest (field : IntField) : Int :=
  if field.signed then -(field.size / 2 : Nat) else 0

def name (field : IntField) : String :=
  (if field.signed then "int" else "uint") ++ Text.paddedNat 0 (8 * field.bytes)

end IntField

inductive EncodeError where
  | tooHigh (field : IntField) (value : Int)
  | tooLow (field : IntField) (value : Int)
  /-- The mark of a clock is not one character. -/
  | clockMark (mark : String)
  /-- An index would hold more names than `limit`. -/
  | tooManyNames (limit : Nat)
  deriving DecidableEq, Repr

namespace EncodeError

def message : EncodeError → String
  | .tooHigh field value =>
    "x=" ++ Text.ofInt value ++ " > " ++ Text.ofInt field.highest ++ ", cannot write into " ++
      field.name
  | .tooLow field value =>
    "x=" ++ Text.ofInt value ++ " < " ++ Text.ofInt field.lowest ++ ", cannot write into " ++
      field.name
  | .clockMark mark => "the mark of a clock is one character, not '" ++ mark ++ "'"
  | .tooManyNames limit =>
    "Too many unique ids in ZoneInfoMap: limit " ++ Text.paddedNat 0 limit

end EncodeError

/-- The lowest `width` bytes of a number, most significant first. -/
def bigEndian : Nat → Nat → List UInt8
  | 0, _ => []
  | width + 1, n => UInt8.ofNat (n / Nat.pow 256 width) :: bigEndian width n

/-- The number that bytes denote, most significant first. -/
def value (bytes : List UInt8) : Nat :=
  bytes.foldl (fun n byte => n * 256 + byte.toNat) 0

def encodeInt (field : IntField) (x : Int) : Except EncodeError (List UInt8) :=
  if field.highest < x then .error (.tooHigh field x)
  else if x < field.lowest then .error (.tooLow field x)
  else .ok (bigEndian field.bytes (x % field.size).toNat)

def decodeInt (field : IntField) (bytes : List UInt8) : Int :=
  let n := value bytes
  if field.signed ∧ field.size / 2 ≤ n then n - field.size else n

def utf8 (text : String) : List UInt8 :=
  text.toUTF8.data.toList

def ofUtf8? (bytes : List UInt8) : Option String :=
  String.fromUTF8? ⟨bytes.toArray⟩

/-- The UTF-8 form of a text after its length in two bytes. -/
def encodeText (text : String) : Except EncodeError (List UInt8) := do
  let bytes := utf8 text
  return (← encodeInt .u16 bytes.length) ++ bytes

end CivilTime.Bytes
