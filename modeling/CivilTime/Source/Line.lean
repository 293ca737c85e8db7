import CivilTime.Text.Pieces

/-!
The lines of a source file by their shape. A number sign begins a comment, and a line that begins
with white space continues the zone above it.
-/

namespace CivilTime.Source

inductive Line where
  /-- Nothing but white space or a comment. -/
  | blank
  /-- Neither blank nor with any word; there is no such line. -/
  | wordless
  | continuation (fields : List String)
  | record (keyword : String) (fields : List String)
  deriving DecidableEq, Repr

namespace Line

/-- The part of a line before its comment. -/
def content (cs : List Char) : List Char :=
  cs.takeWhile (· ≠ '#')

def isIndented : List Char → Bool
  | [] => false
  | c :: _ => Text.isBlank c

def trimmed (text : String) : String :=
  String.ofList (Text.trim text.toList)

def read (text : String) : Line :=
  match Text.trim text.toList with
  | [] | '#' :: _ => .blank
  | _ =>
    let content := content text.toList
    match Text.words content with
    | [] => .wordless
    | keyword :: fields =>
      if isIndented content then .continuation (keyword :: fields) else .record keyword fields

end Line

end CivilTime.Source
