import CivilTime.Text.Characters

/-!
Messages that a run reports, in order, and the texts that are quoted in them. Messages are values,
so that a run can be read off its result. A quoted text has escapes for the quote, the backslash and
whatever does not show when printed.
-/

namespace CivilTime

inductive Level where
  | debug
  | info
  | warning
  | error
  deriving DecidableEq, Repr

namespace Level

def name : Level → String
  | .debug => "DEBUG"
  | .info => "INFO"
  | .warning => "WARNING"
  | .error => "ERROR"

end Level

structure Message where
  level : Level
  text : String
  deriving DecidableEq, Repr

namespace Message

def debug (text : String) : Message := ⟨.debug, text⟩
def info (text : String) : Message := ⟨.info, text⟩
def warning (text : String) : Message := ⟨.warning, text⟩
def error (text : String) : Message := ⟨.error, text⟩

end Message

end CivilTime

namespace CivilTime.Text.Quoted

/-- Single quotes, unless the text has single quotes and no double ones. -/
def quoteFor (cs : List Char) : Char :=
  if cs.contains '\'' && !cs.contains '"' then '"' else '\''

/-- The hexadecimal digits of `n` in small letters, filled with zeros up to `width`. -/
def hex (width n : Nat) : List Char :=
  let digits := Nat.toDigits 16 n
  List.replicate (width - digits.length) '0' ++ digits

def escape (quote c : Char) : List Char :=
  if c = quote ∨ c = '\\' then ['\\', c]
  else if c = '\t' then ['\\', 't']
  else if c = '\n' then ['\\', 'n']
  else if c = '\r' then ['\\', 'r']
  else if isPrintable c then [c]
  else if c.toNat < 0x100 then '\\' :: 'x' :: hex 2 c.toNat
  else if c.toNat < 0x10000 then '\\' :: 'u' :: hex 4 c.toNat
  else '\\' :: 'U' :: hex 8 c.toNat

def encode (text : String) : String :=
  let cs := text.toList
  let quote := quoteFor cs
  String.ofList (quote :: cs.flatMap (escape quote) ++ [quote])

end CivilTime.Text.Quoted
