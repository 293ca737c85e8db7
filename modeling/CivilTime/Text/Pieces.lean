import CivilTime.Text.Characters

/-!
Texts and their pieces: trimmed text, words, lines, and what stands before and after a pattern. A
line ends at a line feed, at a carriage return, or at both in this order; each end is read as one
line feed.
-/

namespace CivilTime.Text

def trimStart (cs : List Char) : List Char :=
  cs.dropWhile isBlank

def trimEnd (cs : List Char) : List Char :=
  (trimStart cs.reverse).reverse

def trim (cs : List Char) : List Char :=
  trimEnd (trimStart cs)

def consToFirst (c : Char) : List (List Char) → List (List Char)
  | [] => [[c]]
  | piece :: rest => (c :: piece) :: rest

/-- The pieces of a text between the characters that `isSep` holds of, in order, also the empty
ones. -/
def pieces (isSep : Char → Bool) (cs : List Char) : List (List Char) :=
  cs.foldr (fun c pieces => if isSep c then [] :: pieces else consToFirst c pieces) [[]]

def words (cs : List Char) : List String :=
  ((pieces isBlank cs).filter fun piece => !piece.isEmpty).map String.ofList

/-- Splits a text into lines and puts them on those already `done`, of which the last comes first;
`line` is the part of the current line that has been read, backwards. -/
def splitLinesOnto (done : List (List Char)) (line : List Char) : List Char → List (List Char)
  | [] => (if line.isEmpty then done else line.reverse :: done).reverse
  | '\r' :: '\n' :: cs => splitLinesOnto (('\n' :: line).reverse :: done) [] cs
  | c :: cs =>
    if c = '\n' ∨ c = '\r' then splitLinesOnto (('\n' :: line).reverse :: done) [] cs
    else splitLinesOnto done (c :: line) cs

/-- The lines of a text, each with its line feed; the last one may have none. -/
def lines (text : String) : List String :=
  (splitLinesOnto [] [] text.toList).map String.ofList

/-- What follows `pattern` in `cs`, if `cs` starts with it. -/
def after? : List Char → List Char → Option (List Char)
  | [], cs => some cs
  | _ :: _, [] => none
  | p :: pattern, c :: cs => if p = c then after? pattern cs else none

/-- Looks for `pattern` after the text `before`, which is given backwards. -/
def splitAtFirstOnto (pattern before : List Char) : List Char → Option (List Char × List Char)
  | [] => (after? pattern []).map fun rest => (before.reverse, rest)
  | c :: cs =>
    match after? pattern (c :: cs) with
    | some rest => some (before.reverse, rest)
    | none => splitAtFirstOnto pattern (c :: before) cs

/-- The text before and after the first place of `pattern`. -/
def splitAtFirst? (pattern cs : List Char) : Option (List Char × List Char) :=
  splitAtFirstOnto pattern [] cs

end CivilTime.Text
