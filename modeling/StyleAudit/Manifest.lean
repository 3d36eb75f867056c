import StyleAudit.Json.Reader
import StyleAudit.Json.Writer
import StyleAudit.Session
import StyleAudit.Settings

/-!
# The manifest

The manifest is a JSON object in a file of the project. It holds the configuration under a key that
the settings name. `readConfig` reads the configuration; `initManifest` adds the default one, and a
script that runs the audit, and leaves everything else in the manifest as it is. The texts in a
manifest are wide texts, so names that differ in surrogates alone are different names.
-/

namespace StyleAudit

namespace Manifest

/-- The manifest's path: the given one, or else the usual file in the root. -/
def path (settings : Settings) (root : Path) (given : Option String) : Path :=
  match given with
  | none | some "" => root.join (Path.ofString settings.manifestName)
  | some text => Path.ofString text

/-- The name of the scripts in a manifest. -/
def scriptsName : WideText := "scripts"

/-- The name of the script that runs the audit. -/
def auditName : WideText := "track-css"

/-- The name of the configuration in a manifest. -/
def configName (settings : Settings) : WideText := settings.configKey

/-- The entries of a manifest. -/
def read (settings : Settings) (store : Store) (path : Path) :
    Except Failure (List (WideText × Json WideText)) := do
  if !store.isFile path then throw (.manifest path.toString .missing)
  let text ← store.readText settings.fileEncoding path fun flaw =>
    .manifest path.toString (.undecodable settings.fileEncoding flaw)
  match Json.read text with
  | .error (.tooManyDigits count) => throw (.tooManyDigits count)
  | .error (.flaw flaw index) =>
    throw (.manifest path.toString (.invalidJson (Json.flawMessage text flaw index)))
  | .ok (.obj entries) => pure entries
  | .ok _ => throw (.manifest path.toString .notAnObject)

/-- Directories that a new configuration excludes. -/
def defaultExcludedPaths : Json WideText :=
  .arr [.str "./node_modules", .str ".public", .str "./.cache", .str "./build"]

/-- A new configuration. -/
def defaultSection : Json WideText :=
  .obj [("blacklist", .obj [("cssPaths", .arr []), ("moveCssPaths", defaultExcludedPaths),
      ("frontPaths", defaultExcludedPaths), ("duplicateCssPaths", .arr []),
      ("cssClasses", .arr [])]),
    ("frontFiles", .arr [.str ".tsx", .str ".jsx", .str ".html"]),
    ("cssFiles", .arr [.str ".css", .str ".scss"]), ("outputLog", .str "./logs.txt")]

/-- The entries with the script that runs the audit; `none` if what they have for scripts is no
object. -/
def withScript? (entries : List (WideText × Json WideText)) :
    Option (List (WideText × Json WideText)) :=
  let command : Json WideText := .str "css-tracker"
  match entries.lookup scriptsName with
  | none => some (setEntry scriptsName (.obj [(auditName, command)]) entries)
  | some (.obj scripts) =>
    some (setEntry scriptsName (.obj (setEntry auditName command scripts)) entries)
  | some _ => none

/-- The entries with a configuration, a new one if there is none, and whether it is new. -/
def withSection (key : WideText) (entries : List (WideText × Json WideText)) :
    List (WideText × Json WideText) × Bool :=
  match entries.lookup key with
  | none => (setEntry key defaultSection entries, true)
  | some _ => (entries, false)

/-- The text of a manifest. -/
def text (entries : List (WideText × Json WideText)) : List Char :=
  Json.write .ascii 0 (.obj entries) ++ ['\n']

end Manifest

/-- Reads the configuration from the manifest. -/
def readConfig (settings : Settings) (store : Store) (manifest : Path) :
    Except Failure (Config WideText) := do
  let entries ← Manifest.read settings store manifest
  match entries.lookup (Manifest.configName settings) with
  | none => throw (.manifest manifest.toString (.noSection settings.configKey))
  | some value => (Config.ofJson value).mapError .config

/-- Reads the configuration from the manifest, as the audit uses it. -/
def loadConfig (settings : Settings) (store : Store) (manifest : Path) : Except Failure Config :=
  (readConfig settings store manifest).map Config.plain

/-- Adds a configuration and the script that runs the audit to the manifest; the configuration that
is there is kept. The result tells whether a configuration was added. -/
def initManifest (settings : Settings) (manifest : Path) : Action Bool := do
  let entries ← Action.ofExcept (Manifest.read settings (← Action.store) manifest)
  let some entries := Manifest.withScript? entries
    | throw (.manifest manifest.toString .scriptsNotAnObject)
  let (entries, added) := Manifest.withSection (Manifest.configName settings) entries
  let key := settings.configKey
  if added then
    Action.log .info ("Dodano sekcję '" ++ key ++ "' do " ++ manifest.toString)
  else
    Action.log .info ("Sekcja '" ++ key ++ "' już istnieje w " ++ manifest.toString)
  Action.writeText settings.fileEncoding manifest (Manifest.text entries)
  pure added

end StyleAudit
