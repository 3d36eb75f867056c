/-!
# Findings

The result of an audit, in five categories. A category that is switched off is absent, which is
not the same as an empty one. Findings about classes and expressions are grouped by name: one
group for each, with its files in order of appearance and in each file the lines in ascending
order.
-/

namespace StyleAudit

/-- A file and the lines in it. -/
structure FileLines where
  path : String
  lines : List Int
deriving DecidableEq, Repr

/-- A class and the places a finding is about. -/
structure ClassFinding where
  name : String
  locations : List FileLines
deriving DecidableEq, Repr

/-- A dynamic expression and the places where it stands. -/
structure ExpressionFinding where
  text : String
  locations : List FileLines
deriving DecidableEq, Repr

/-- A suggestion to move the definition of a class closer to its uses. -/
structure RelocationFinding where
  name : String
  /-- The directory of the stylesheet that defines the class. -/
  source : String
  /-- The directory all uses lie in. -/
  target : String
  /-- The file of each use, repeated for repeated uses. -/
  uses : List String
deriving DecidableEq, Repr

/-- The result of an audit. -/
structure Findings where
  unusedDefinitions : Option (List ClassFinding) := none
  relocationSuggestions : Option (List RelocationFinding) := none
  missingDefinitions : Option (List ClassFinding) := none
  expressions : Option (List ExpressionFinding) := none
  duplicateDefinitions : Option (List ClassFinding) := none
deriving DecidableEq, Repr

/-- The number of findings in all categories together. -/
def Findings.total (findings : Findings) : Nat :=
  let count {α : Type} (category : Option (List α)) : Nat := (category.getD []).length
  count findings.unusedDefinitions + count findings.relocationSuggestions
    + count findings.missingDefinitions + count findings.expressions
    + count findings.duplicateDefinitions

end StyleAudit
