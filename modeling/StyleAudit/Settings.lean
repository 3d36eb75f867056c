import StyleAudit.Text.Blank
import StyleAudit.Text.Lowercase

/-!
# Settings

Settings come from the environment, each from the variable of its name behind `CSS_TRACKER_`. The
case of a variable's name does not matter; of two variables that differ in case alone the later one
counts.
-/

namespace StyleAudit

/-- How the audit runs. -/
structure Settings where
  logLevel : String := "INFO"
  logFile : String := ""
  /-- The file name of the manifest. -/
  manifestName : String := "package.json"
  /-- The name of the configuration in the manifest. -/
  configKey : String := "cssTracker"
  /-- The names of the directories that scans do not enter, with commas between them. -/
  scanIgnoredDirs : String := ".git,node_modules"
  /-- The encoding of all files. -/
  fileEncoding : String := "utf-8"
deriving DecidableEq, Repr

namespace Settings

/-- The names of the directories that scans do not enter. -/
def ignoredDirs (settings : Settings) : List String :=
  let names := (settings.scanIgnoredDirs.toList.splitOn ',').map strip
  ((names.filter fun name => !name.isEmpty).map String.ofList).eraseDups

/-- The value that the environment has for a setting. -/
def value? (environment : List (String × String)) (setting : String) : Option String :=
  let name := "css_tracker_" ++ setting
  (environment.reverse.find? fun entry => lower entry.1 = name).map (·.2)

/-- The settings in an environment. -/
def ofEnvironment (environment : List (String × String)) : Settings :=
  let initial : Settings := {}
  let setting (name value : String) : String := (value? environment name).getD value
  { logLevel := setting "log_level" initial.logLevel
    logFile := setting "log_file" initial.logFile
    manifestName := setting "manifest_name" initial.manifestName
    configKey := setting "config_key" initial.configKey
    scanIgnoredDirs := setting "scan_ignored_dirs" initial.scanIgnoredDirs
    fileEncoding := setting "file_encoding" initial.fileEncoding }

end Settings

end StyleAudit
