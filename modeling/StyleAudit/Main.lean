import StyleAudit.Command.Run

/-!
# The program

The command line program around `Command.run`. It copies the part of the disk that a run can look
at into a store, runs the command, and writes back what has changed.
-/

namespace StyleAudit

namespace Program

/-- The settings in the environment. A variable in capitals counts before one in small letters. -/
def readSettings : IO Settings := do
  let names := ["LOG_LEVEL", "LOG_FILE", "MANIFEST_NAME", "CONFIG_KEY", "SCAN_IGNORED_DIRS",
    "FILE_ENCODING"].map ("CSS_TRACKER_" ++ ·)
  let found ← (names.map String.toLower ++ names).mapM fun name => do
    return (name, ← IO.getEnv name)
  return Settings.ofEnvironment (found.filterMap fun (name, value) => value.map (name, ·))

/-- The path of a place. -/
def pathOf (place : List String) : String := (Path.fromRoot place).toString

/-- The tree at a place of the disk. Files that the rule does not want are left empty, and
directories that it ignores are. -/
partial def loadTree (rule : ScanRule) (place : List String) : IO Tree := do
  let path := (← IO.currentDir) / pathOf place
  if ← path.isDir then
    let entries ← (← path.readDir).toList.mapM fun entry => do
      let isIgnored := rule.ignored.contains entry.fileName && (← entry.path.isDir)
      let tree ← if isIgnored then pure (.dir []) else loadTree rule (place ++ [entry.fileName])
      return (entry.fileName, tree)
    return .dir entries
  else if rule.wants (place.getLast?.getD "") then
    return .file (← IO.FS.readBinFile path)
  else
    return .file ByteArray.empty

/-- Adds what is on the disk at a place and on the way to it. -/
def loadAlong (tree : Tree) (place : List String) : IO Tree := do
  let here ← IO.currentDir
  (List.range (place.length + 1)).foldlM (fun tree length => do
    let part := place.take length
    let path := here / pathOf part
    if ← path.isDir then
      return if (tree.at? part).isSome then tree else tree.put part (.dir [])
    else if ← path.pathExists then
      return tree.put part (.file (← IO.FS.readBinFile path))
    else
      return tree) tree

/-- The store that a run with some arguments starts from. -/
def loadStore (settings : Settings) (arguments : Command.Arguments) : IO Store := do
  let here := (Path.ofString (← IO.currentDir).toString).segments
  let rootPlace := (Path.ofString arguments.root).resolve here
  let root := Path.fromRoot rootPlace
  let manifest := Manifest.path settings root arguments.manifest
  let tree ← loadAlong (← loadAlong (.dir []) here) (manifest.resolve here)
  match readConfig settings ⟨tree, here⟩ manifest with
  | .error _ => return ⟨tree, here⟩
  | .ok config =>
    let suffixes := config.plain.cssFiles ++ config.plain.frontFiles
    let tree ← loadAlong tree rootPlace
    let found ← loadTree ⟨suffixes, settings.ignoredDirs⟩ rootPlace
    let isRoot := (tree.at? rootPlace).any Tree.isDir
    let tree := if isRoot then tree.put rootPlace found else tree
    let report := match arguments.destination root config with
      | .output => []
      | .file path => [path]
      | .nowhere parent _ => parent.toList
    let tree ← (manifest :: report).foldlM
      (fun tree path => loadAlong tree (path.resolve here)) tree
    return ⟨tree, here⟩

/-- Writes to the disk what is new in a tree. The disk is reached by strings alone, so a name that
is none cannot be written. -/
partial def saveTree (place : List String) (old : Option Tree) : Tree → IO Unit
  | .file bytes =>
    let isSame := match old with
      | some (.file same) => same == bytes
      | _ => false
    if isSame then pure () else IO.FS.writeBinFile (pathOf place) bytes
  | .dir entries => do
    if !old.any Tree.isDir then IO.FS.createDirAll (pathOf place)
    for (name, tree) in entries do
      if name.contains '/' then throw (IO.userError ("no UTF-8 name: " ++ name))
      saveTree (place ++ [name]) (old.bind (·.at? [name])) tree

/-- Whether messages of a level are shown at a threshold. -/
def isShown (threshold : String) (level : LogLevel) : Bool :=
  let higher := ["SUCCESS", "WARNING", "ERROR", "CRITICAL"]
  level = .error || !higher.contains threshold.toUpper

end Program

end StyleAudit

open StyleAudit in
def main (words : List String) : IO UInt32 := do
  let settings ← Program.readSettings
  let store ← match Command.Request.ofWords words with
    | .ok (.run arguments) => Program.loadStore settings arguments
    | _ => pure ⟨.dir [], []⟩
  let (outcome, session) := Command.run settings words { store := store }
  Program.saveTree [] (some store.tree) session.store.tree
  for entry in session.log do
    if Program.isShown settings.logLevel entry.level then
      let level := match entry.level with
        | .info => "INFO"
        | .error => "ERROR"
      IO.eprintln (level ++ " | " ++ entry.text)
  IO.print (String.ofList session.output)
  match outcome with
  | .refused error => IO.eprint (Command.usage ++ Command.refusal error ++ "\n")
  | .failed failure => IO.eprintln failure.message
  | .exit _ => pure ()
  return UInt32.ofNat outcome.code
