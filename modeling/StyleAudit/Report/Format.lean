import StyleAudit.Report.Json
import StyleAudit.Report.Text
import StyleAudit.Session

/-!
# Writing a report

A report has one of two formats. It goes to a file, whose directories are made if they are missing,
or to the standard output, which a single hyphen stands for. A name that no file can have is found
out only when the file is to be written.
-/

namespace StyleAudit

/-- The format of a report. -/
inductive ReportFormat where
  | text
  | json
deriving DecidableEq, Repr

namespace ReportFormat

/-- The format of a name. -/
def ofName? (name : String) : Option ReportFormat :=
  if name = "text" then some text else if name = "json" then some json else none

/-- The format of a name that somebody gave. -/
def ofName (name : String) : Except Failure ReportFormat :=
  match ofName? name with
  | some format => .ok format
  | none => .error (.unknownFormat name)

/-- The report in a format. -/
def render : ReportFormat → Findings → List Char
  | text => textReport
  | json => jsonReport

end ReportFormat

/-- Where a report goes. -/
inductive Destination where
  /-- The standard output. -/
  | output
  | file (path : Path)
  /-- Nowhere, since no file can have the name, although its directory may. -/
  | nowhere (parent : Option Path) (flaw : EncodeFlaw)
deriving DecidableEq, Repr

namespace Destination

/-- The destination that somebody names. -/
def ofString (text : String) : Destination :=
  if text = "-" then output else file (Path.ofString text)

/-- The file that a text names, as seen from `root`. -/
def ofWide (root : Path) (text : WideText) : Destination :=
  match text.path? with
  | some path => file (root.join path)
  | none => nowhere (text.parent?.map root.join) (text.pathFlaw root)

end Destination

/-- Writes a report to its destination. -/
def writeReportTo (encoding : String) (findings : Findings) (format : ReportFormat) :
    Destination → Action Unit
  | .output => Action.print (format.render findings)
  | .file path => do
    Action.ensureDirs path.parent
    Action.writeText encoding path (format.render findings)
    Action.log .info ("Zapisano raport: " ++ path.toString)
  | .nowhere parent flaw => do
    if let some parent := parent then Action.ensureDirs parent
    throw (.unencodable flaw)

/-- Writes a report to the destination that somebody names. -/
def writeReport (encoding : String) (findings : Findings) (destination : String)
    (format : ReportFormat) : Action Unit :=
  writeReportTo encoding findings format (.ofString destination)

end StyleAudit
