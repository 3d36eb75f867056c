import StyleAudit.Audit
import StyleAudit.Command.Arguments
import StyleAudit.Manifest

/-!
# The command

A run of the command reads the configuration, audits the project and writes the report; or it sets
up the manifest; or it explains the options. `Command.run` gives its outcome and the session it
leaves behind.
-/

namespace StyleAudit

namespace Command

/-- How the command is to be used. -/
def usage : String :=
  "usage: css-tracker [-h] [--root ROOT] [--manifest MANIFEST]\n" ++
  "                   [--format \x7bjson,text\x7d] [--output OUTPUT]\n" ++
  "                   [--fail-on-findings] [--init]\n"

/-- The explanation of the options. -/
def help : String :=
  usage ++
  "\n" ++
  "Report unused, undefined, duplicated and misplaced CSS classes.\n" ++
  "\n" ++
  "options:\n" ++
  "  -h, --help            show this help message and exit\n" ++
  "  --root ROOT           Project root (default: .)\n" ++
  "  --manifest MANIFEST   Manifest with tracker config (default:\n" ++
  "                        <root>/package.json)\n" ++
  "  --format \x7bjson,text\x7d\n" ++
  "  --output OUTPUT       Report destination, '-' for stdout (default: outputLog\n" ++
  "                        from config)\n" ++
  "  --fail-on-findings\n" ++
  "  --init                Add default tracker config and a track-css script to\n" ++
  "                        the manifest, then exit\n"

/-- How a run of the command ends. -/
inductive Outcome where
  | exit (code : Nat)
  /-- The arguments are refused. -/
  | refused (error : UsageError)
  /-- A failure that is not reported ends the program. -/
  | failed (failure : Failure)
deriving Repr

/-- The line that refuses arguments. -/
def refusal (error : UsageError) : String := "css-tracker: error: " ++ error.message

/-- The exit code of an outcome. -/
def Outcome.code : Outcome → Nat
  | exit code => code
  | refused _ => 2
  | failed _ => 1

/-- Where a run writes its report. -/
def Arguments.destination (arguments : Arguments) (root : Path) (config : Config WideText) :
    Destination :=
  match arguments.output with
  | none | some "" => .ofWide root config.outputLog
  | some destination => .ofString destination

/-- Audits a project as arguments say. The result is the exit code. -/
def audit (settings : Settings) (arguments : Arguments) (root : Path) : Action Nat := do
  let manifest := Manifest.path settings root arguments.manifest
  if arguments.init then
    let _ ← initManifest settings manifest
    return 0
  let config ← Action.ofExcept (readConfig settings (← Action.store) manifest)
  let report ← runAudit settings root config.plain
  writeReportTo settings.fileEncoding report.findings arguments.format
    (arguments.destination root config)
  Action.log .info (toString report.cssFiles ++ " stylesheets, " ++ toString report.frontFiles
    ++ " front-end files, " ++ toString report.findings.total ++ " finding groups")
  return if arguments.failOnFindings && report.findings.total != 0 then 1 else 0

/-- Runs a request. -/
def runRequest (settings : Settings) (session : Session) : Request → Outcome × Session
  | .help => (.exit 0, { session with output := session.output ++ help.toList })
  | .run arguments =>
    let root := Path.ofString arguments.root
    if arguments.root.toList.contains (Char.ofNat 0) then
      (.failed (.store ⟨.nullCharacter, root.toString⟩), session)
    else
      let place := root.resolve session.store.here
      match (audit settings arguments (Path.fromRoot place)).run session with
      | (.ok code, session) => (.exit code, session)
      | (.error failure, session) =>
        if failure.isReported then
          let entry : LogEntry := ⟨.error, "css-tracker failed: " ++ failure.message⟩
          (.exit 2, { session with log := session.log ++ [entry] })
        else (.failed failure, session)

/-- Runs the command on the words of a command line. -/
def run (settings : Settings) (words : List String) (session : Session) : Outcome × Session :=
  match Request.ofWords words with
  | .error error => (.refused error, session)
  | .ok request => runRequest settings session request

end Command

end StyleAudit
