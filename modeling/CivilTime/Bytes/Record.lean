import CivilTime.Bytes.Reader

/-!
Records field after field: each field is put at the end of one array, and fields are read in the
order in which they stand. A failing write keeps what the array then holds.
-/

namespace CivilTime.Bytes

abbrev Writer := EStateM EncodeError (List UInt8)

namespace Writer

def append (bytes : List UInt8) : Writer Unit :=
  modify (· ++ bytes)

/-- Puts what has been encoded at the end of the array, unless that has failed. -/
def emit (encoded : Except EncodeError (List UInt8)) : Writer Unit := do
  append (← MonadExcept.ofExcept encoded)

def int (field : IntField) (x : Int) : Writer Unit :=
  emit (encodeInt field x)

/-- The length of the UTF-8 form in two bytes, and then the form itself. -/
def text (text : String) : Writer Unit := do
  let bytes := utf8 text
  int .u16 bytes.length
  append bytes

end Writer

/-- The kind of a field: an integer of at least one byte, or a text. -/
inductive Kind where
  | int (field : IntField) (bytes_pos : 0 < field.bytes)
  | text
  deriving DecidableEq, Repr

namespace Kind

def u8 : Kind := .int .u8 (by decide)
def i8 : Kind := .int .i8 (by decide)
def u16 : Kind := .int .u16 (by decide)
def u32 : Kind := .int .u32 (by decide)
def i32 : Kind := .int .i32 (by decide)
def i64 : Kind := .int .i64 (by decide)

abbrev Content : Kind → Type
  | .int _ _ => Int
  | .text => String

def write : (kind : Kind) → kind.Content → Writer Unit
  | .int field _ => Writer.int field
  | .text => Writer.text

def read : (kind : Kind) → Reader kind.Content
  | .int field _ => Reader.int field
  | .text => Reader.text

end Kind

structure Item where
  kind : Kind
  content : kind.Content

/-- A write that has been tried: the array before and after it, and the error that refused it. -/
structure Attempt where
  item : Item
  before : List UInt8
  after : List UInt8
  error : Option EncodeError

/-- Tries to write a field. A refusal is recorded, and the array is then as the write has left
it. -/
def Item.attempt (item : Item) : StateM (List UInt8) Attempt := fun before =>
  match item.kind.write item.content before with
  | .ok () after => ({ item, before, after, error := none }, after)
  | .error error after => ({ item, before, after, error := some error }, after)

def attemptAll (items : List Item) : StateM (List UInt8) (List Attempt) :=
  items.mapM Item.attempt

def written (attempts : List Attempt) : List Item :=
  (attempts.filter fun attempt => attempt.error.isNone).map Attempt.item

def readItem (kind : Kind) : Reader Item := do
  return ⟨kind, ← kind.read⟩

def readAll (kinds : List Kind) : Reader (List Item) :=
  kinds.mapM readItem

end CivilTime.Bytes
