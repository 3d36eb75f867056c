import StyleAudit.Occurrence
import StyleAudit.Text.Blank

/-!
# Class definitions in a stylesheet

A stylesheet is not parsed. Its class selectors are collected first: a dot, an ASCII letter and
the ASCII letters, digits, hyphens and low lines after it. A dot that comes after `@import` on
the same line is part of a file name and no selector.

Then every line counts as a definition of each class whose selector it contains. Containing is
meant literally: a line with `.btn-primary` also contains `.btn`.
-/

namespace StyleAudit

/-- Whether a character continues the name of a class selector. -/
def isNameChar (c : Char) : Bool :=
  c.isAlphanum || c == '-' || c == '_'

/-- The word after which a line holds file names. -/
def importMark : List Char := "@import".toList

/-- The names of the class selectors in a line, up to the first `@import`. -/
def selectorNames : List Char → List (List Char)
  | [] => []
  | c :: rest =>
    if importMark.isPrefixOf (c :: rest) then []
    else if c = '.' && (rest.head?.any Char.isAlpha) then
      rest.takeWhile isNameChar :: selectorNames rest
    else selectorNames rest

/-- The class names that a stylesheet has selectors for, each once, in order of appearance. -/
def definedNames (text : List Char) : List (List Char) :=
  ((lines text).flatMap selectorNames).eraseDups

/-- The class definitions of a stylesheet: for each line in order, the classes whose selector the
line contains. -/
def stylesheetOccurrences (text : List Char) (path : String) : List ClassOccurrence :=
  let names := definedNames text
  ((lines text).zipIdx 1).flatMap fun entry =>
    (names.filter fun name => occursIn ('.' :: name) entry.1).map fun name =>
      ⟨String.ofList name, entry.2, path⟩

end StyleAudit
