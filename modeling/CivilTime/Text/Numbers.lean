import CivilTime.Text.Characters

/-!
Numbers as text. They are written in decimal digits, filled with zeros after the sign up to a least
width that counts the sign. They are read from decimal digits of any script, as long as there are
not too many of them. An integer literal may have white space around it, one sign, and single
underscores between its digits.
-/

namespace CivilTime.Text

/-- The decimal digits of `n`, filled with zeros on the left up to `width` characters. -/
def paddedNat (width n : Nat) : String :=
  let digits := Nat.toDigits 10 n
  String.ofList (List.replicate (width - digits.length) '0' ++ digits)

/-- The decimal text of `n`, filled with zeros between the sign and the digits up to `width`
characters. -/
def paddedInt (width : Nat) (n : Int) : String :=
  if n < 0 then "-" ++ paddedNat (width - 1) n.natAbs else paddedNat width n.natAbs

def ofInt (n : Int) : String :=
  paddedInt 0 n

/-- The number that a row of decimal digits denotes; other characters count as zero. -/
def digitsValue (cs : List Char) : Nat :=
  cs.foldl (fun n c => n * 10 + (digitValue? c).getD 0) 0

/-- The most digits that a number is read from. -/
def digitLimit : Nat := 4300

structure Overlong where
  digits : Nat
  deriving DecidableEq, Repr

def Overlong.message (overlong : Overlong) : String :=
  "Exceeds the limit (" ++ paddedNat 0 digitLimit ++
    " digits) for integer string conversion: value has " ++ paddedNat 0 overlong.digits ++
    " digits; use sys.set_int_max_str_digits() to increase the limit"

/-- A number is refused if it has too many digits, whatever its value. -/
def checkDigits (digits : Nat) : Except Overlong Unit :=
  if digitLimit < digits then .error ⟨digits⟩ else .ok ()

def readDigits (cs : List Char) : Except Overlong Nat := do
  checkDigits cs.length
  return digitsValue cs

/-- White space that may stand around an integer: all but the four information separators. -/
def isIntegerBlank (c : Char) : Bool :=
  isBlank c && !(0x1c ≤ c.toNat && c.toNat ≤ 0x1f)

/-- The value of digits with single underscores between them, read after the value `n` of what
stands before; `joined` tells that a digit stands right before. -/
def groupedValue? (n : Nat) (joined : Bool) : List Char → Option Nat
  | [] => if joined then some n else none
  | c :: cs =>
    if c = '_' then
      if joined then groupedValue? n false cs else none
    else
      match digitValue? c with
      | some d => groupedValue? (n * 10 + d) true cs
      | none => none

/-- The number of digits up to the first character that is no digit and no underscore, read after
`n` digits; `joined` tells that a digit stands right before. Nothing is counted if an underscore
does not stand between two digits. -/
def groupedDigits? (n : Nat) (joined : Bool) : List Char → Option Nat
  | [] => if joined then some n else none
  | c :: cs =>
    if c = '_' then
      if joined then groupedDigits? n false cs else none
    else if isDecimal c then groupedDigits? (n + 1) true cs
    else if joined then some n else none

def splitSign (text : String) : Bool × List Char :=
  let inner := ((text.toList.dropWhile isIntegerBlank).reverse.dropWhile isIntegerBlank).reverse
  match inner with
  | '-' :: cs => (true, cs)
  | '+' :: cs => (false, cs)
  | cs => (false, cs)

def integer? (text : String) : Option Int :=
  (groupedValue? 0 false (splitSign text).2).map fun (n : Nat) =>
    if (splitSign text).1 then -(n : Int) else n

/-- Reads an integer literal. Its digits are counted before it is known whether anything else stands
behind them. -/
def readInteger (text : String) : Except Overlong (Option Int) := do
  checkDigits ((groupedDigits? 0 false (splitSign text).2).getD 0)
  return integer? text

end CivilTime.Text
