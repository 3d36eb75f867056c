import StyleAudit.Findings
import StyleAudit.Json.Writer
import StyleAudit.Validation

/-!
# Findings as JSON

`Findings.toJson` gives the findings as a JSON value, with every category present and null for
one that is switched off. `Findings.ofJson` reads such a value back; it also takes the spellings
with low lines, ignores what it does not know, and lets lists be absent.
-/

namespace StyleAudit

/-! ## Writing -/

/-- A file and its lines. -/
def FileLines.toJson (location : FileLines) : Json :=
  .obj [("path", .str location.path), ("lines", .arr (location.lines.map .int))]

/-- A class and its places. -/
def ClassFinding.toJson (finding : ClassFinding) : Json :=
  .obj [("class", .str finding.name), ("locations", .arr (finding.locations.map FileLines.toJson))]

/-- An expression and its places. -/
def ExpressionFinding.toJson (finding : ExpressionFinding) : Json :=
  .obj [("expression", .str finding.text),
    ("locations", .arr (finding.locations.map FileLines.toJson))]

/-- A suggestion to move a definition. -/
def RelocationFinding.toJson (finding : RelocationFinding) : Json :=
  .obj [("class", .str finding.name), ("moveFrom", .str finding.source),
    ("moveTo", .str finding.target), ("occurrences", .arr (finding.uses.map .str))]

/-- A category of findings; null if it is switched off. -/
def categoryJson {α : Type} (toJson : α → Json) : Option (List α) → Json
  | none => .null
  | some findings => .arr (findings.map toJson)

/-- All findings. -/
def Findings.toJson (findings : Findings) : Json :=
  .obj [("unusedDefinitions", categoryJson ClassFinding.toJson findings.unusedDefinitions),
    ("relocationSuggestions",
      categoryJson RelocationFinding.toJson findings.relocationSuggestions),
    ("missingDefinitions", categoryJson ClassFinding.toJson findings.missingDefinitions),
    ("expressions", categoryJson ExpressionFinding.toJson findings.expressions),
    ("duplicateDefinitions", categoryJson ClassFinding.toJson findings.duplicateDefinitions)]

/-- The report as a JSON text. -/
def jsonReport (findings : Findings) : List Char :=
  Json.write .plain 0 findings.toJson ++ ['\n']

/-! ## Reading -/

/-- Reads an object; anything else is a problem of the named type. -/
def checkObject {α : Type} (model : String) (default : α)
    (check : List (String × Json) → Checked α) : Json → Checked α
  | .obj entries => check entries
  | _ => .problem default (.modelType model)

/-- Reads a file and its lines. -/
def FileLines.check : Json → Checked FileLines :=
  checkObject "FileLines" ⟨"", []⟩ fun entries =>
    let path := checkRequired entries ["path"] "" checkText
    let lines := checkField entries ["lines"] [] (checkItems checkWhole)
    ⟨⟨path.value, lines.value⟩, path.problems ++ lines.problems⟩

/-- Reads a class and its places. -/
def ClassFinding.check : Json → Checked ClassFinding :=
  checkObject "ClassFinding" ⟨"", []⟩ fun entries =>
    let name := checkRequired entries ["class", "class_name"] "" checkText
    let locations := checkField entries ["locations"] [] (checkItems FileLines.check)
    ⟨⟨name.value, locations.value⟩, name.problems ++ locations.problems⟩

/-- Reads an expression and its places. -/
def ExpressionFinding.check : Json → Checked ExpressionFinding :=
  checkObject "ExpressionFinding" ⟨"", []⟩ fun entries =>
    let text := checkRequired entries ["expression"] "" checkText
    let locations := checkField entries ["locations"] [] (checkItems FileLines.check)
    ⟨⟨text.value, locations.value⟩, text.problems ++ locations.problems⟩

/-- Reads a suggestion to move a definition. -/
def RelocationFinding.check : Json → Checked RelocationFinding :=
  checkObject "RelocationFinding" ⟨"", "", "", []⟩ fun entries =>
    let name := checkRequired entries ["class", "class_name"] "" checkText
    let source := checkRequired entries ["moveFrom", "move_from"] "" checkText
    let target := checkRequired entries ["moveTo", "move_to"] "" checkText
    let uses := checkField entries ["occurrences"] [] (checkItems checkText)
    ⟨⟨name.value, source.value, target.value, uses.value⟩,
      name.problems ++ source.problems ++ target.problems ++ uses.problems⟩

/-- Reads all findings. -/
def Findings.check : Json → Checked Findings :=
  checkObject "Findings" {} fun entries =>
    let category {α : Type} (spellings : List String) (check : Json → Checked α) :
        Checked (Option (List α)) :=
      checkField entries spellings none (checkOptional (checkItems check))
    let unused := category ["unusedDefinitions", "unused_definitions"] ClassFinding.check
    let relocations :=
      category ["relocationSuggestions", "relocation_suggestions"] RelocationFinding.check
    let missing := category ["missingDefinitions", "missing_definitions"] ClassFinding.check
    let expressions := category ["expressions"] ExpressionFinding.check
    let duplicates := category ["duplicateDefinitions", "duplicate_definitions"] ClassFinding.check
    ⟨⟨unused.value, relocations.value, missing.value, expressions.value, duplicates.value⟩,
      unused.problems ++ relocations.problems ++ missing.problems ++ expressions.problems
        ++ duplicates.problems⟩

/-- Reads findings. -/
def Findings.ofJson (value : Json) : Except (List Problem) Findings :=
  (Findings.check value).toExcept

end StyleAudit
