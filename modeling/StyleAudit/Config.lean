import StyleAudit.Analysis
import StyleAudit.Path.Wide
import StyleAudit.Validation

/-!
# Configuration

What a project can set about its audit. `Config.ofJson` reads a configuration from the object in
the manifest. A field may be spelled in camel case or with low lines; camel case wins, and fields
that nobody knows are ignored. In the list of exclusions some fields also have an older spelling,
and there an unknown field, or a second spelling of a field, is a problem.
-/

namespace StyleAudit

/-- The configuration of an audit. -/
structure Config (τ : Type := String) [JsonText τ] where
  checkDeclarations : Bool := true
  checkDefinitionPaths : Bool := true
  checkDefinitions : Bool := true
  listExpressions : Bool := true
  duplicateDefinitions : Bool := true
  cssFiles : List τ := [".css", ".scss"].map JsonText.ofString
  frontFiles : List τ := [".tsx", ".jsx", ".html"].map JsonText.ofString
  outputLog : τ := JsonText.ofString "./logs.txt"
  exclusions : ExclusionLists τ := {}
deriving DecidableEq, Repr

/-- The configuration as the audit uses it. The suffix of a file, a class name and a path that is
there are strings, so nothing is lost with a suffix, a class name or a listed path that cannot be
one of these. -/
def Config.plain (config : Config WideText) : Config where
  checkDeclarations := config.checkDeclarations
  checkDefinitionPaths := config.checkDefinitionPaths
  checkDefinitions := config.checkDefinitions
  listExpressions := config.listExpressions
  duplicateDefinitions := config.duplicateDefinitions
  cssFiles := config.cssFiles.filterMap WideText.fileName?
  frontFiles := config.frontFiles.filterMap WideText.fileName?
  outputLog := config.outputLog.shown
  exclusions := {
    cssPaths := config.exclusions.cssPaths.map WideText.listedPath
    movePaths := config.exclusions.movePaths.map WideText.listedPath
    frontPaths := config.exclusions.frontPaths.map WideText.listedPath
    duplicatePaths := config.exclusions.duplicatePaths.map WideText.listedPath
    classes := config.exclusions.classes.filterMap WideText.toString? }

/-- The categories of findings that a configuration asks for. -/
def Config.analysisOptions (config : Config) : AnalysisOptions where
  unusedDefinitions := config.checkDeclarations
  relocationSuggestions := config.checkDefinitionPaths
  missingDefinitions := config.checkDefinitions
  expressions := config.listExpressions
  duplicateDefinitions := config.duplicateDefinitions

variable {τ : Type} [DecidableEq τ] [JsonText τ]

namespace ExclusionLists

/-- The spellings of the fields, those of one field together. -/
def spellings : List (List String) :=
  [["cssPaths", "css", "css_paths"],
    ["moveCssPaths", "notUsedCss", "move_css_paths"],
    ["frontPaths", "front", "front_paths"],
    ["duplicateCssPaths", "duplicateCss", "duplicate_css_paths"],
    ["cssClasses", "css_classes"]]

/-- The problems of entries that no field uses. -/
def extraProblems (entries : List (τ × Json τ)) : List Problem :=
  let used : List τ :=
    spellings.filterMap fun names => (spelling? entries names).map (JsonText.ofString ·.1)
  (entries.filter fun entry => !used.contains entry.1).map fun entry =>
    ⟨[JsonText.shown entry.1], .extraForbidden⟩

/-- Reads listed exclusions. -/
def check : Json τ → Checked (ExclusionLists τ)
  | .obj entries =>
    let field (index : Nat) : Checked (List τ) :=
      checkField entries (spellings.getD index []) [] (checkItems checkText)
    let css := field 0
    let move := field 1
    let front := field 2
    let duplicate := field 3
    let classes := field 4
    { value := ⟨css.value, move.value, front.value, duplicate.value, classes.value⟩
      problems := css.problems ++ move.problems ++ front.problems ++ duplicate.problems
        ++ classes.problems ++ extraProblems entries }
  | _ => .problem {} (.modelType "BlacklistConfig")

end ExclusionLists

/-- Why there is no configuration. -/
inductive ConfigError where
  | notAnObject
  | invalid (problems : List Problem)
deriving DecidableEq, Repr

/-- The report of a faulty configuration: its number of problems. -/
def ConfigError.message : ConfigError → String
  | .notAnObject => "Tracker configuration must be a JSON object"
  | .invalid problems =>
    "Invalid tracker configuration: " ++ problemCount "TrackerConfig" problems

namespace Config

/-- Reads the fields of a configuration. -/
def check (entries : List (τ × Json τ)) : Checked (Config τ) :=
  let initial : Config τ := {}
  let flag (spellings : List String) : Checked Bool := checkField entries spellings true checkFlag
  let declarations := flag ["checkDeclarations", "check_declarations"]
  let paths := flag ["checkDefinitionPaths", "check_definition_paths"]
  let definitions := flag ["checkDefinitions", "check_definitions"]
  let expressions := flag ["listExpressions", "list_expressions"]
  let duplicates := flag ["duplicateDefinitions", "duplicate_definitions"]
  let css := checkField entries ["cssFiles", "css_files"] initial.cssFiles (checkItems checkText)
  let front :=
    checkField entries ["frontFiles", "front_files"] initial.frontFiles (checkItems checkText)
  let log := checkField entries ["outputLog", "output_log"] initial.outputLog checkText
  let exclusions := checkField entries ["blacklist"] {} ExclusionLists.check
  { value := ⟨declarations.value, paths.value, definitions.value, expressions.value,
      duplicates.value, css.value, front.value, log.value, exclusions.value⟩
    problems := declarations.problems ++ paths.problems ++ definitions.problems
      ++ expressions.problems ++ duplicates.problems ++ css.problems ++ front.problems
      ++ log.problems ++ exclusions.problems }

/-- Reads a configuration. -/
def ofJson : Json τ → Except ConfigError (Config τ)
  | .obj entries =>
    match (check entries).toExcept with
    | .ok config => .ok config
    | .error problems => .error (.invalid problems)
  | _ => .error .notAnObject

end Config

end StyleAudit
