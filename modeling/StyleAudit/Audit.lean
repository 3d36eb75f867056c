import StyleAudit.Analysis
import StyleAudit.Markup
import StyleAudit.Session
import StyleAudit.Settings
import StyleAudit.Store.Scan
import StyleAudit.Stylesheet

/-!
# The audit of a project

`runAudit` looks for the stylesheets and the markup files of a project, collects what they define
and use, and analyses it. The first failure ends the audit without findings.
-/

namespace StyleAudit

/-- The result of an audit and what it is based on. -/
structure AuditReport where
  findings : Findings
  cssFiles : Nat
  frontFiles : Nat
  cssOccurrences : Nat
  frontOccurrences : Nat
deriving DecidableEq, Repr

/-- The files of a project below its root that have one of some suffixes. -/
def projectFiles (settings : Settings) (store : Store) (root : Path) (suffixes : List String) :
    Except Failure (List String) :=
  (store.scan ⟨suffixes, settings.ignoredDirs⟩ root).mapError .store

/-- The text of a file of a project. -/
def sourceText (settings : Settings) (store : Store) (root : Path) (path : String) :
    Except Failure (List Char) :=
  store.readText settings.fileEncoding (root.join (Path.ofString path)) fun flaw =>
    .unreadable path settings.fileEncoding flaw

/-- The class definitions in some stylesheets. -/
def collectDefinitions (settings : Settings) (store : Store) (root : Path) (paths : List String) :
    Except Failure (List ClassOccurrence) := do
  let found ← paths.mapM fun path => do
    let text ← sourceText settings store root path
    pure (stylesheetOccurrences text path)
  pure found.flatten

/-- The class names and dynamic expressions in some markup files. -/
def collectUses (settings : Settings) (store : Store) (root : Path) (paths : List String) :
    Except Failure (List Occurrence) := do
  let found ← paths.mapM fun path => do
    let text ← sourceText settings store root path
    (markupOccurrences? (Dialect.ofPath path) text path).mapError .malformed
  pure found.flatten

/-- The ledger of what was found, joined, with the exclusions of a configuration. -/
def Config.ledger (config : Config) (here : List String) (root : Path)
    (definitions : List ClassOccurrence) (uses : List Occurrence) : Ledger :=
  (Ledger.ofOccurrences (config.exclusions.normalize (root.resolve here)) definitions uses).join.1

/-- Audits the project at a root. -/
def runAudit (settings : Settings) (root : Path) (config : Config) : Action AuditReport := do
  let store ← Action.store
  let cssFiles ← Action.ofExcept (projectFiles settings store root config.cssFiles)
  let frontFiles ← Action.ofExcept (projectFiles settings store root config.frontFiles)
  Action.log .info ("Skanowanie " ++ root.toString ++ ": " ++ toString cssFiles.length
    ++ " arkuszy, " ++ toString frontFiles.length ++ " plików front-end")
  let definitions ← Action.ofExcept (collectDefinitions settings store root cssFiles)
  let uses ← Action.ofExcept (collectUses settings store root frontFiles)
  Action.log .info ("Ekstrakcja: " ++ toString definitions.length ++ " definicji, "
    ++ toString uses.length ++ " wystąpień front-end")
  let ledger := config.ledger store.here root definitions uses
  Action.log .info ("Połączono " ++ toString ledger.linkedCount ++ "/"
    ++ toString definitions.length ++ " definicji z " ++ toString uses.length
    ++ " wystąpieniami front-end")
  let findings := ledger.findings config.analysisOptions fun path =>
    store.isFile (root.join (Path.ofString path))
  Action.log .info ("Analiza zakończona: " ++ toString findings.total ++ " grup wyników")
  pure {
    findings := findings
    cssFiles := cssFiles.length
    frontFiles := frontFiles.length
    cssOccurrences := definitions.length
    frontOccurrences := uses.length }

end StyleAudit
