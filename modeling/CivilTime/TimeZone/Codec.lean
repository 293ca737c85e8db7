import CivilTime.Bytes.Reader
import CivilTime.NamePool
import CivilTime.TimeZone

/-!
The binary form of a time zone: the pool of its names, its transitions and its tail. The id of the
zone is not part of it.
-/

namespace CivilTime.TimeZone

open Bytes

def names (zone : TimeZone) : List String :=
  (zone.transitions.map Transition.name).toList ++
    match zone.tail with
    | some tail => [tail.starting.name, tail.ending.name]
    | none => []

def encodeName (pool : NamePool) (name : String) : Except EncodeError (List UInt8) :=
  encodeInt .u16 ((pool.number? name).getD pool.size)

def encodeTransition (pool : NamePool) (transition : Transition) :
    Except EncodeError (List UInt8) := do
  let millis ← encodeInt .i64 transition.millis
  let wall ← encodeInt .i32 transition.wallOffset
  let standard ← encodeInt .i32 transition.standardOffset
  let name ← encodeName pool transition.name
  return millis ++ wall ++ standard ++ name

/-- A clock is written as the code of its mark, which has to be one character. -/
def encodeClock (clock : Clock) : Except EncodeError (List UInt8) :=
  match clock.mark.toList with
  | [c] => encodeInt .u8 c.toNat
  | _ => .error (.clockMark clock.mark)

def encodeRecurrence (pool : NamePool) (recurrence : Recurrence) :
    Except EncodeError (List UInt8) := do
  let point := recurrence.point
  let name ← encodeName pool recurrence.name
  let save ← encodeInt .i32 recurrence.save
  let clock ← encodeClock point.clock
  let month ← encodeInt .u8 point.month
  let day ← encodeInt .i8 point.day
  let weekday ← encodeInt .u8 point.weekday
  let advance ← encodeInt .u8 (if point.advance then 1 else 0)
  let millis ← encodeInt .i32 point.millisOfDay
  return name ++ save ++ clock ++ month ++ day ++ weekday ++ advance ++ millis

def encodeTail (pool : NamePool) : Option Tail → Except EncodeError (List UInt8)
  | none => encodeInt .u8 0
  | some tail => do
    let flag ← encodeInt .u8 1
    let standard ← encodeInt .i32 tail.standardOffset
    let starting ← encodeRecurrence pool tail.starting
    let ending ← encodeRecurrence pool tail.ending
    return flag ++ standard ++ starting ++ ending

def encodePool (pool : NamePool) : Except EncodeError (List UInt8) := do
  let count ← encodeInt .u16 pool.size
  let names ← pool.names.toList.mapM encodeText
  return count ++ names.flatten

def encode (zone : TimeZone) : Except EncodeError (List UInt8) := do
  let pool := NamePool.ofList zone.names
  let names ← encodePool pool
  let count ← encodeInt .u32 zone.transitions.size
  let transitions ← zone.transitions.toList.mapM (encodeTransition pool)
  let tail ← encodeTail pool zone.tail
  return names ++ count ++ transitions.flatten ++ tail

def readPool : Reader (Array String) := do
  return (← Reader.many (← Reader.nat 2) Reader.text).toArray

def readName (names : Array String) : Reader String := do
  let index ← Reader.nat 2
  match names[index]? with
  | some name => return name
  | none => throw (.unknownName index names.size)

def readTransition (names : Array String) : Reader Transition := do
  let millis ← Reader.int .i64
  let wallOffset ← Reader.int .i32
  let standardOffset ← Reader.int .i32
  let name ← readName names
  return { millis, name, wallOffset, standardOffset }

def readRecurrence (names : Array String) : Reader Recurrence := do
  let name ← readName names
  let save ← Reader.int .i32
  let mark ← Reader.nat 1
  let month ← Reader.int .u8
  let day ← Reader.int .i8
  let weekday ← Reader.int .u8
  let advance ← Reader.nat 1
  let millisOfDay ← Reader.int .i32
  let clock : Clock := ⟨String.ofList [Char.ofNat mark]⟩
  let point : YearPoint :=
    { clock, month, day, weekday, advance := advance != 0, millisOfDay }
  return { point, name, save }

def readTail (names : Array String) : Reader (Option Tail) := do
  if (← Reader.nat 1) = 0 then return none
  let standardOffset ← Reader.int .i32
  let starting ← readRecurrence names
  let ending ← readRecurrence names
  return some { standardOffset, starting, ending }

/-- A zone of the given id, which takes up all of the data. -/
def reader (id : String) : Reader TimeZone := do
  let names ← readPool
  let transitions ← Reader.many (← Reader.nat 4) (readTransition names)
  let tail ← readTail names
  unless (← get).atEnd do throw (.trailingData id)
  return { id, transitions := transitions.toArray, tail }

def decode (bytes : List UInt8) (id : String) : Except DecodeError TimeZone :=
  (reader id).runOn bytes

end CivilTime.TimeZone
