import StyleAudit.Text.Blank

/-!
# Occurrences

What the audit collects from a project: class names and dynamic expressions, each with the file
and the line where it stands. Lines count from 1; a path is relative to the project's root and
has slashes between its segments.

A class list is the plain text of a class attribute: names with blanks in between. A single dot
in front of a name is dropped, so that a selector pasted from a stylesheet names its class; a dot
alone is no name.
-/

namespace StyleAudit

/-- A class name at a line of a file. -/
structure ClassOccurrence where
  name : String
  line : Int
  path : String
deriving DecidableEq, Repr

/-- An expression that stands for class names nobody can tell without running it. -/
structure DynamicOccurrence where
  text : String
  line : Int
  path : String
deriving DecidableEq, Repr

/-- A class name or a dynamic expression of a markup file. -/
inductive Occurrence where
  | named (occurrence : ClassOccurrence)
  | dynamic (occurrence : DynamicOccurrence)
deriving DecidableEq, Repr

namespace Occurrence

/-- The file the occurrence stands in. -/
def path : Occurrence → String
  | named occurrence => occurrence.path
  | dynamic occurrence => occurrence.path

/-- The line the occurrence stands on. -/
def line : Occurrence → Int
  | named occurrence => occurrence.line
  | dynamic occurrence => occurrence.line

end Occurrence

/-! ## Class lists -/

/-- The class name that a word stands for. -/
def className : List Char → List Char
  | '.' :: name => name
  | name => name

/-- The class names of a class list. -/
def classNames (text : List Char) : List String :=
  ((words text).map className).filterMap fun name =>
    if name.isEmpty then none else some (String.ofList name)

/-- The class names of a class list as occurrences on one line. -/
def classListAt (line : Int) (path : String) (text : List Char) : List Occurrence :=
  (classNames text).map fun name => .named ⟨name, line, path⟩

/-- The class names of a class list that may span lines, each on its own line; `line` is the line
of the list's first character. -/
def classListFrom (line : Int) (path : String) (text : List Char) : List Occurrence :=
  ((lines text).zipIdx).flatMap fun entry => classListAt (line + entry.2) path entry.1

end StyleAudit
