import CivilTime.Text.LowerCase

/-!
Keywords of the source format. Case does not matter, and a keyword may be cut short as long as
enough of it is left.
-/

namespace CivilTime

structure Keyword where
  whole : String
  shortest : String

namespace Keyword

/-- The forms of a keyword, from the shortest to the whole, or nothing if the shortest is not the
beginning of the whole. -/
def forms? (keyword : Keyword) : Option (List String) :=
  let whole := keyword.whole.toList
  let shortest := keyword.shortest.toList
  if shortest.isPrefixOf whole then
    some ((List.range' shortest.length (whole.length + 1 - shortest.length)).map fun n =>
      String.ofList (whole.take n))
  else none

def mismatch (keyword : Keyword) : String :=
  "'" ++ keyword.shortest ++ "' is not a prefix of '" ++ keyword.whole ++ "'"

def forms (keyword : Keyword) : List String :=
  keyword.forms?.getD []

def accepts (keyword : Keyword) (word : String) : Bool :=
  keyword.forms.contains word

def rule : Keyword := ⟨"rule", "r"⟩
def zone : Keyword := ⟨"zone", "z"⟩
def link : Keyword := ⟨"link", "l"⟩
def minimum : Keyword := ⟨"minimum", "mi"⟩
def maximum : Keyword := ⟨"maximum", "ma"⟩
def only : Keyword := ⟨"only", "o"⟩

def months : List Keyword :=
  [⟨"january", "ja"⟩, ⟨"february", "f"⟩, ⟨"march", "mar"⟩, ⟨"april", "ap"⟩, ⟨"may", "may"⟩,
    ⟨"june", "jun"⟩, ⟨"july", "jul"⟩, ⟨"august", "au"⟩, ⟨"september", "s"⟩, ⟨"october", "o"⟩,
    ⟨"november", "n"⟩, ⟨"december", "d"⟩]

/-- The weekdays in ISO order, Monday first. -/
def weekdays : List Keyword :=
  [⟨"monday", "m"⟩, ⟨"tuesday", "tu"⟩, ⟨"wednesday", "w"⟩, ⟨"thursday", "th"⟩, ⟨"friday", "f"⟩,
    ⟨"saturday", "sa"⟩, ⟨"sunday", "su"⟩]

/-- The position, counted from 1, of the keyword that a text stands for. -/
def position? (keywords : List Keyword) (text : String) : Option Int :=
  let word := Text.lower text
  (keywords.findIdx? fun keyword => keyword.accepts word).map fun index => (index : Int) + 1

/-- Every form of the keywords with the position, counted from 1, of its keyword. -/
def table (keywords : List Keyword) : List (String × Nat) :=
  keywords.zipIdx.flatMap fun (keyword, index) => keyword.forms.map fun form => (form, index + 1)

end Keyword

end CivilTime
