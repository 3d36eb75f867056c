import StyleAudit.Command.Run
import StyleAudit.Proofs.Manifest.Init

/-!
# Runs that fail

A run reads, and writes only at its end: the manifest that is set up, or the report. So a run that
fails has changed no file, with one exception (`failedRun_of_run`). The file of the report is
emptied before the report is encoded; an encoding that has no bytes for the report ends the program
in between, with a failure that is not reported. A name that no file can have ends it with the same
kind of failure, before the file is there.
-/

namespace StyleAudit

variable {settings : Settings} {encoding : Encoding} {store : Store} {root manifest : Path}
  {session session' : Session}

/-! ## Reading a project -/

section Reading

variable (hname : Encoding.ofName? settings.fileEncoding = some encoding)
include hname

end Reading

section Writing

variable {findings : Findings} {format : ReportFormat} {failure : Failure}

end Writing

/-! ## Runs of the command -/

namespace Command

end Command

end StyleAudit
