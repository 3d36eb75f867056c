import StyleAudit.Findings
import StyleAudit.Ledger
import StyleAudit.Path.Project

/-!
# Analysis

What the records of a ledger show, category by category. The categories only read the ledger;
`Ledger.run` joins it first and then gives the categories that are switched on.
-/

namespace StyleAudit

/-- Which categories of findings are wanted. -/
structure AnalysisOptions where
  unusedDefinitions : Bool := true
  relocationSuggestions : Bool := true
  missingDefinitions : Bool := true
  expressions : Bool := true
  duplicateDefinitions : Bool := true
deriving DecidableEq, Repr

/-- A name at a line of a file. -/
structure NamedPlace where
  name : String
  path : String
  line : Int
deriving DecidableEq, Repr

/-- The files and lines of some places, files in order of appearance, lines ascending. -/
def fileLines (places : List NamedPlace) : List FileLines :=
  (collect (places.map fun place => (place.path, place.line))).map fun entry =>
    ⟨entry.1, ascending entry.2⟩

/-- Places gathered by name, names in order of appearance. -/
def placesByName (places : List NamedPlace) : List (String × List NamedPlace) :=
  collect (places.map fun place => (place.name, place))

/-- One class finding for each name. -/
def classFindings (places : List NamedPlace) : List ClassFinding :=
  (placesByName places).map fun entry => ⟨entry.1, fileLines entry.2⟩

/-- The place of a class occurrence. -/
def ClassOccurrence.place (occurrence : ClassOccurrence) : NamedPlace :=
  ⟨occurrence.name, occurrence.path, occurrence.line⟩

namespace Ledger

variable (ledger : Ledger)

/-- Definitions without a use. -/
def unusedDefinitions : List ClassFinding :=
  classFindings <| (ledger.definitions.filter fun definition =>
    definition.files.isEmpty
      && !ledger.exclusions.excludes .css definition.occurrence.path
      && !ledger.exclusions.excludes .move definition.occurrence.path
      && !ledger.exclusions.excludesClass definition.occurrence.name).map (·.occurrence.place)

/-- The suggestion to move one definition: its uses have a directory in common, and it is not the
definition's own. -/
def relocation? (isFile : String → Bool) (definition : Definition) : Option RelocationFinding :=
  let occurrence := definition.occurrence
  if definition.files.isEmpty || ledger.exclusions.excludes .move occurrence.path
      || ledger.exclusions.excludesClass occurrence.name then none
  else
    match commonPath isFile definition.files with
    | none => none
    | some target =>
      let source := parentDir occurrence.path
      if target = source then none
      else some ⟨occurrence.name, source, target, definition.files⟩

/-- Definitions whose uses all lie in another directory, each suggestion once. -/
def relocationSuggestions (isFile : String → Bool) : List RelocationFinding :=
  (ledger.definitions.filterMap (ledger.relocation? isFile)).eraseDups

/-- The place of a use of a class that no stylesheet defines. -/
def missingPlace? (use : Use) : Option NamedPlace :=
  match use.occurrence with
  | .named occurrence =>
    if occurrence.name ≠ "" && use.files.isEmpty
        && !ledger.exclusions.excludes .front occurrence.path
        && !ledger.exclusions.excludesClass occurrence.name then some occurrence.place
    else none
  | .dynamic _ => none

/-- Classes that are used and have no definition. -/
def missingDefinitions : List ClassFinding :=
  classFindings (ledger.uses.filterMap ledger.missingPlace?)

/-- The place of a dynamic expression. -/
def expressionPlace? (use : Use) : Option NamedPlace :=
  match use.occurrence with
  | .named _ => none
  | .dynamic occurrence =>
    if ledger.exclusions.excludes .front occurrence.path then none
    else some ⟨occurrence.text, occurrence.path, occurrence.line⟩

/-- Dynamic expressions, to be looked at by a person. -/
def expressions : List ExpressionFinding :=
  (placesByName (ledger.uses.filterMap ledger.expressionPlace?)).map fun entry =>
    ⟨entry.1, fileLines entry.2⟩

/-- Classes with more than one definition, in one file or in several. -/
def duplicateDefinitions : List ClassFinding :=
  let places := (ledger.definitions.filter fun definition =>
    !ledger.exclusions.excludes .css definition.occurrence.path
      && !ledger.exclusions.excludes .duplicate definition.occurrence.path
      && !ledger.exclusions.excludesClass definition.occurrence.name).map (·.occurrence.place)
  ((placesByName places).filter fun entry => 2 ≤ entry.2.length).map fun entry =>
    ⟨entry.1, fileLines entry.2⟩

/-- The findings of the wanted categories. `isFile` tells which project paths name files. -/
def findings (options : AnalysisOptions) (isFile : String → Bool) : Findings where
  unusedDefinitions := if options.unusedDefinitions then some ledger.unusedDefinitions else none
  relocationSuggestions :=
    if options.relocationSuggestions then some (ledger.relocationSuggestions isFile) else none
  missingDefinitions := if options.missingDefinitions then some ledger.missingDefinitions else none
  expressions := if options.expressions then some ledger.expressions else none
  duplicateDefinitions :=
    if options.duplicateDefinitions then some ledger.duplicateDefinitions else none

/-- Joins the ledger and gives the findings of the wanted categories. -/
def run (options : AnalysisOptions) (isFile : String → Bool) :
    Ledger × Except LinkError Findings :=
  match ledger.join with
  | (ledger, .ok ()) => (ledger, .ok (ledger.findings options isFile))
  | (ledger, .error failure) => (ledger, .error failure)

end Ledger

end StyleAudit
