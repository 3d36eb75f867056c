import StyleAudit.Findings

/-!
# Findings as text

The report for people: a section for each category that is switched on, with a heading that
counts its groups, one entry for each group, and the total at the end.
-/

namespace StyleAudit

/-- The line of a file in an entry: its path and line numbers. -/
def FileLines.reportLine (location : FileLines) : String :=
  "  " ++ location.path ++ ": " ++ ", ".intercalate (location.lines.map toString)

/-- An entry with a name and the places it is about. -/
def groupEntry (name : String) (locations : List FileLines) : List String :=
  ("- " ++ name) :: locations.map FileLines.reportLine

/-- The entry of a class finding. -/
def ClassFinding.entry (finding : ClassFinding) : List String :=
  groupEntry finding.name finding.locations

/-- The entry of an expression finding. -/
def ExpressionFinding.entry (finding : ExpressionFinding) : List String :=
  groupEntry finding.text finding.locations

/-- A directory as it is shown: the root is a dot. -/
def shownDirectory (directory : String) : String :=
  if directory.isEmpty then "." else directory

/-- The entry of a suggestion to move a definition. -/
def RelocationFinding.entry (finding : RelocationFinding) : List String :=
  ("- move '" ++ finding.name ++ "' from '" ++ shownDirectory finding.source ++ "' to '"
      ++ shownDirectory finding.target ++ "'")
    :: "  used in:" :: finding.uses.map fun path => "  " ++ path

/-- The section of a category; a category that is switched off has none. -/
def titled {α : Type} (title : String) (entry : α → List String) :
    Option (List α) → List String
  | none => []
  | some findings =>
    ("## " ++ title ++ " (" ++ toString findings.length ++ ")")
      :: (if findings.isEmpty then ["(none)"] else findings.flatMap entry) ++ [""]

/-- The lines of the report. -/
def reportLines (findings : Findings) : List String :=
  ["CSS tracker report", ""]
    ++ titled "Unused class definitions" ClassFinding.entry findings.unusedDefinitions
    ++ titled "Relocation suggestions" RelocationFinding.entry findings.relocationSuggestions
    ++ titled "Classes used without a definition" ClassFinding.entry findings.missingDefinitions
    ++ titled "Dynamic expressions to review" ExpressionFinding.entry findings.expressions
    ++ titled "Duplicate class definitions" ClassFinding.entry findings.duplicateDefinitions
    ++ ["Total: " ++ toString findings.total]

/-- The report as a text. -/
def textReport (findings : Findings) : List Char :=
  ("\n".intercalate (reportLines findings)).toList ++ ['\n']

end StyleAudit
