import StyleAudit.Proofs.Audit.Unchanged
import StyleAudit.Proofs.Command.Failure

/-!
# Running the command again

A run writes its report into the tree that the next run reads. As long as the report stays apart
from what is read, which is the manifest and the files with the suffixes of the configuration, the
next run finds what the first one found, wherever in the tree the report is and whatever directories
were made for it. So it ends as the first one did and leaves the same report (`run_again`).
-/

namespace StyleAudit

variable {settings : Settings} {root manifest : Path} {session session' later : Session}

/-! ## Reading again -/

/-- A configuration is still there if nothing has happened to the manifest. -/
theorem Store.Keeps.readConfig_eq {rules : List ScanRule} {place : List String}
    {before after : Store} {config : Config WideText} (h : Keeps rules place before after)
    (hne : before.locate manifest ≠ .ok place)
    (hload : readConfig settings before manifest = .ok config) :
    readConfig settings after manifest = .ok config := by
  obtain ⟨entries, hread, hconfig⟩ := bind_eq_ok hload
  obtain ⟨text, hfile, htext, hvalue⟩ := Manifest.read_eq_ok_iff.mp hread
  obtain ⟨target, bytes, htarget, hthere⟩ := isFile_iff.mp hfile
  have hstill : after.isFile manifest = true := by
    rw [h.isFile_eq htarget hthere fun heq => hne (heq ▸ htarget), hfile]
  have hagain : Manifest.read settings after manifest = .ok entries :=
    Manifest.read_eq_ok_iff.mpr ⟨text, hstill, h.readText_eq htext hne, hvalue⟩
  rw [readConfig, hagain]
  exact hconfig

/-! ## Writing again -/

/-- Whether a run has left a report at its destination, and has changed no other file and printed
nothing else. -/
inductive ReportLeft (encodingName : String) (destination : Destination) (report : List Char)
    (before after : Session) : Prop
  | printed (hdestination : destination = .output) (hstore : after.store = before.store)
      (houtput : after.output = before.output ++ report) :
      ReportLeft encodingName destination report before after
  | written {path : Path} {encoding : Encoding} {bytes : List UInt8} {place : List String}
      (hdestination : destination = .file path)
      (hname : Encoding.ofName? encodingName = some encoding)
      (hbytes : encoding.encode report = .ok bytes)
      (hplace : after.store.locate path = .ok place)
      (hdiffer : Store.DifferAt place ⟨bytes.toArray⟩ before.store after.store)
      (houtput : after.output = before.output) :
      ReportLeft encodingName destination report before after

/-- A run does not change the working directory. -/
theorem ReportLeft.here_eq {encodingName : String} {destination : Destination}
    {report : List Char} {before after : Session}
    (h : ReportLeft encodingName destination report before after) :
    after.store.here = before.store.here := by
  cases h with
  | printed _ hstore => rw [hstore]
  | written _ _ _ _ hdiffer => exact hdiffer.here_eq

/-- Messages do not matter. -/
theorem ReportLeft.of_log {encodingName : String} {destination : Destination}
    {report : List Char} {before after : Session}
    (h : ReportLeft encodingName destination report before after)
    (log log' : List LogEntry) : ReportLeft encodingName destination report
      { before with log := log } { after with log := log' } := by
  cases h with
  | printed hdestination hstore houtput => exact .printed hdestination hstore houtput
  | written hdestination hname hbytes hplace hdiffer houtput =>
    exact .written hdestination hname hbytes hplace hdiffer houtput

section Report

variable {findings : Findings} {destination : Destination} {format : ReportFormat} {path : Path}

theorem run_writeReportTo_output (session : Session) :
    (writeReportTo settings.fileEncoding findings format .output).run session
      = (.ok (), { session with output := session.output ++ format.render findings }) := rfl

/-- A report that has been written has a destination. -/
theorem eq_output_or_file_of_writeReportTo
    (h : (writeReportTo settings.fileEncoding findings format destination).run session
      = (.ok (), session')) : destination = .output ∨ ∃ path, destination = .file path := by
  cases destination with
  | output => exact .inl rfl
  | file path => exact .inr ⟨path, rfl⟩
  | nowhere parent flaw =>
    cases parent with
    | none => cases h
    | some parent =>
      obtain ⟨_, _, -, hthrow⟩ := Action.run_bind_eq_ok h
      cases hthrow

/-- A report that has been written to a file is in that file. -/
theorem writeReportTo_file_eq_ok
    (h : (writeReportTo settings.fileEncoding findings format (.file path)).run session
      = (.ok (), session')) :
    ∃ encoding bytes log, Encoding.ofName? settings.fileEncoding = some encoding
      ∧ encoding.encode (format.render findings) = .ok bytes
      ∧ (session.store.ensureDirs path.parent).2 = .ok ()
      ∧ (session.store.ensureDirs path.parent).1.write path ⟨bytes.toArray⟩ = .ok session'.store
      ∧ session' = { session with store := session'.store, log := session.log ++ log } := by
  obtain ⟨_, made, hmade, h⟩ := Action.run_bind_eq_ok h
  rw [Action.run_ensureDirs] at hmade
  obtain ⟨hdirs, rfl⟩ := Prod.mk.inj hmade
  obtain ⟨_, written, hwritten, hlog⟩ := Action.run_bind_eq_ok h
  obtain ⟨encoding, bytes, store, hname, hbytes, hwrite, rfl⟩ := Action.run_writeText_eq_ok hwritten
  rw [Action.run_log] at hlog
  obtain ⟨-, rfl⟩ := Prod.mk.inj hlog
  exact ⟨encoding, bytes, _, hname, hbytes, mapError_eq_ok_iff.mp hdirs, hwrite, rfl⟩

theorem reportLeft_of_writeReportTo
    (h : (writeReportTo settings.fileEncoding findings format destination).run session
      = (.ok (), session')) (hhere : session.store.tree.IsDirAt session.store.here) :
    ReportLeft settings.fileEncoding destination (format.render findings) session session' := by
  obtain rfl | ⟨path, rfl⟩ := eq_output_or_file_of_writeReportTo h
  · rw [run_writeReportTo_output] at h
    obtain ⟨-, rfl⟩ := Prod.mk.inj h
    exact .printed rfl rfl rfl
  · obtain ⟨encoding, bytes, _, hname, hbytes, -, hwrite, hsession⟩ := writeReportTo_file_eq_ok h
    have hmade := Store.sameFiles_ensureDirs session.store path.parent
    have hhere' := hmade.isDirAt _ hhere
    rw [← hmade.here_eq] at hhere'
    obtain ⟨place, hplace, hdiffer⟩ := Store.differAt_of_write hhere' hwrite
    exact .written rfl hname hbytes hplace (hdiffer.of_sameFiles hmade) (by rw [hsession])

/-- A report that has been written can be written again, which leaves all files as they are. -/
theorem run_writeReportTo_again
    (h : (writeReportTo settings.fileEncoding findings format destination).run session
      = (.ok (), session')) (hhere : session.store.tree.IsDirAt session.store.here)
    (hlater : later.store = session'.store) :
    ∃ final, (writeReportTo settings.fileEncoding findings format destination).run later
        = (.ok (), final)
      ∧ final.store = session'.store
      ∧ ReportLeft settings.fileEncoding destination (format.render findings) later final := by
  obtain rfl | ⟨path, rfl⟩ := eq_output_or_file_of_writeReportTo h
  · exact ⟨_, run_writeReportTo_output later, hlater, .printed rfl rfl rfl⟩
  · obtain ⟨encoding, bytes, _, hname, hbytes, hdirs, hwrite, -⟩ := writeReportTo_file_eq_ok h
    have hparent := Store.isDir_of_write (Store.isDir_of_ensureDirs hhere hdirs) hwrite
    rw [← hlater] at hparent hwrite
    have hagain : later.store.write path ⟨bytes.toArray⟩ = .ok later.store := by
      rw [Store.write_of_write hwrite, hwrite]
    obtain ⟨log, hrun⟩ : ∃ log,
        (writeReportTo settings.fileEncoding findings format (.file path)).run later
          = (.ok (), { later with log := log }) := by
      simp only [writeReportTo, Action.run_bind, Action.run_ensureDirs,
        Store.ensureDirs_of_isDir hparent, Except.mapError, Action.run_writeText hname, hbytes,
        Action.run_writeBytes, hagain, Action.run_log]
      exact ⟨_, rfl⟩
    refine ⟨_, hrun, hlater, ?_⟩
    cases reportLeft_of_writeReportTo h hhere with
    | printed houtput => cases houtput
    | written hpath hname' hbytes' hplace hdiffer =>
      rw [← hlater] at hplace hdiffer
      exact .written hpath hname' hbytes' hplace
        ⟨rfl, hdiffer.fileAt?_self, fun _ _ => rfl, fun _ => id⟩ rfl

end Report

/-! ## Runs of the command -/

namespace Command

/-- The root of the project that a run audits. -/
def Arguments.projectRoot (arguments : Arguments) (here : List String) : Path :=
  Path.fromRoot ((Path.ofString arguments.root).resolve here)

/-- Whether a report is apart from what an audit reads: its file is not the manifest, and its suffix
is none of the configuration, in any case. -/
structure IsApart (here : List String) (manifest : Path) (config : Config) (report : Path) :
    Prop where
  ne_manifest : report.resolve here ≠ manifest.resolve here
  not_css : lower (nameSuffix report.name) ∉ config.cssFiles.map lower
  not_front : lower (nameSuffix report.name) ∉ config.frontFiles.map lower

/-- Whether a run writes no manifest, and its report to the standard output or apart from what it
reads. -/
def Arguments.KeepsApart (arguments : Arguments) (settings : Settings) (store : Store) : Prop :=
  let root := arguments.projectRoot store.here
  let manifest := Manifest.path settings root arguments.manifest
  arguments.init = false ∧ ∀ config, readConfig settings store manifest = .ok config →
    ∀ path, arguments.destination root config = .file path →
      IsApart store.here manifest config.plain path

/-- Whether a request has a report go to a destination. The explanation of the options counts as a
report on the standard output. -/
def Request.WritesTo (settings : Settings) (store : Store) : Request → Destination → Prop
  | .help, destination => destination = .output
  | .run arguments, destination =>
    let root := arguments.projectRoot store.here
    ∃ config, readConfig settings store (Manifest.path settings root arguments.manifest)
        = .ok config ∧ destination = arguments.destination root config

/-- The code of a run that has reported findings. -/
def Arguments.code (arguments : Arguments) (findings : Findings) : Nat :=
  if arguments.failOnFindings && findings.total != 0 then 1 else 0

section Audit

variable {arguments : Arguments} {config : Config WideText} {report : AuditReport}
  {audited written : Session}

/-- The steps of a run that sets up no manifest. -/
theorem audit_eq_of_not_init (hinit : arguments.init = false) :
    audit settings arguments root = (do
      let manifest := Manifest.path settings root arguments.manifest
      let config ← Action.ofExcept (readConfig settings (← Action.store) manifest)
      let report ← runAudit settings root config.plain
      writeReportTo settings.fileEncoding report.findings arguments.format
        (arguments.destination root config)
      Action.log .info (toString report.cssFiles ++ " stylesheets, " ++ toString report.frontFiles
        ++ " front-end files, " ++ toString report.findings.total ++ " finding groups")
      return arguments.code report.findings) := by
  rw [audit, if_neg (by simp [hinit])]
  rfl

/-- What a run has done that has written its report. -/
theorem audit_steps {code : Nat} (hinit : arguments.init = false)
    (h : (audit settings arguments root).run session = (.ok code, session')) :
    ∃ config report audited written log,
      readConfig settings session.store (Manifest.path settings root arguments.manifest)
          = .ok config
        ∧ (runAudit settings root config.plain).run session = (.ok report, audited)
        ∧ (writeReportTo settings.fileEncoding report.findings arguments.format
          (arguments.destination root config)).run audited = (.ok (), written)
        ∧ session' = { written with log := written.log ++ log }
        ∧ code = arguments.code report.findings := by
  rw [audit_eq_of_not_init hinit] at h
  obtain ⟨store, _, hstep, h⟩ := Action.run_bind_eq_ok h
  obtain ⟨rfl, rfl⟩ := Action.run_store_eq_ok hstep
  obtain ⟨config, _, hstep, h⟩ := Action.run_bind_eq_ok h
  obtain ⟨hload, rfl⟩ := Action.run_ofExcept_eq_ok hstep
  obtain ⟨report, audited, haudit, h⟩ := Action.run_bind_eq_ok h
  obtain ⟨_, written, hwritten, h⟩ := Action.run_bind_eq_ok h
  obtain ⟨_, logged, hlog, h⟩ := Action.run_bind_eq_ok h
  rw [Action.run_log] at hlog
  obtain ⟨-, rfl⟩ := Prod.mk.inj hlog
  obtain ⟨hcode, rfl⟩ := Prod.mk.inj h
  exact ⟨config, report, audited, written, _, hload, haudit, hwritten, rfl,
    (Except.ok.inj hcode).symm⟩

/-- What a run does whose steps succeed. -/
theorem run_audit (hinit : arguments.init = false)
    (hload : readConfig settings session.store (Manifest.path settings root arguments.manifest)
      = .ok config)
    (haudit : (runAudit settings root config.plain).run session = (.ok report, audited))
    (hwrite : (writeReportTo settings.fileEncoding report.findings arguments.format
      (arguments.destination root config)).run audited = (.ok (), written)) :
    ∃ log, (audit settings arguments root).run session
      = (.ok (arguments.code report.findings), { written with log := written.log ++ log }) := by
  rw [audit_eq_of_not_init hinit]
  simp only [Action.run_bind, Action.run_store, Action.run_ofExcept, hload, haudit, hwrite,
    Action.run_log, Action.run_pure]
  exact ⟨_, rfl⟩

/-- A run that ends with code 0 or 1 is one whose audit succeeds. -/
theorem audit_of_runRequest {code : Nat}
    (h : runRequest settings session (.run arguments) = (.exit code, session'))
    (hcode : code = 0 ∨ code = 1) : Char.ofNat 0 ∉ arguments.root.toList
      ∧ (audit settings arguments (arguments.projectRoot session.store.here)).run session
        = (.ok code, session') := by
  rw [runRequest] at h
  split at h
  · cases h
  · next hroot =>
    refine ⟨by simpa using hroot, ?_⟩
    simp only [] at h
    rw [Arguments.projectRoot]
    split at h
    · next haudit =>
      obtain ⟨hexit, rfl⟩ := Prod.mk.inj h
      obtain rfl := Outcome.exit.inj hexit
      exact haudit
    · split at h
      · obtain ⟨hexit, -⟩ := Prod.mk.inj h
        obtain rfl := Outcome.exit.inj hexit
        omega
      · cases h

theorem runRequest_of_audit {code : Nat} (hroot : Char.ofNat 0 ∉ arguments.root.toList)
    (h : (audit settings arguments (arguments.projectRoot session.store.here)).run session
      = (.ok code, session')) :
    runRequest settings session (.run arguments) = (.exit code, session') := by
  rw [Arguments.projectRoot] at h
  simp only [runRequest, List.contains_eq_mem, hroot, decide_false, Bool.false_eq_true, if_false, h]

/-- What is written apart from what an audit reads, an audit does not read. -/
theorem spares_of_write {config : Config} {store final : Store} {path : Path} {bytes : ByteArray}
    (htree : store.tree.IsFileTree) (hhere : store.tree.IsDirAt store.here)
    (hapart : IsApart store.here manifest config path)
    (hwrite : (store.ensureDirs path.parent).1.write path bytes = .ok final) :
    ∃ place, final.locate path = .ok place ∧ store.locate manifest ≠ .ok place
      ∧ Spares settings config place store final ∧ Store.DifferAt place bytes store final := by
  have hmade := Store.sameFiles_ensureDirs store path.parent
  have hhere' := hmade.isDirAt _ hhere
  rw [← hmade.here_eq] at hhere'
  obtain ⟨place, hplace, hdiffer⟩ := Store.differAt_of_write hhere' hwrite
  obtain ⟨place', hplace', hfree, -⟩ := Store.write_eq_ok_iff.mp hwrite
  obtain ⟨above, habove⟩ := Store.exists_above_of_locate hhere' hplace' hfree
  have hunwanted : ∀ rule ∈ config.scanRules settings, rule.wants path.name = false := by
    have hcss := hapart.not_css
    have hfront := hapart.not_front
    simp only [List.mem_map, not_exists, not_and] at hcss hfront
    simpa [Config.scanRules, ScanRule.wants] using ⟨hcss, hfront⟩
  have hkept : Store.Keeps (config.scanRules settings) place' _ final :=
    Store.keeps_write hhere' hunwanted hplace' hwrite
  obtain rfl : place' = place := Except.ok.inj ((hkept.locate_eq hplace').symm.trans hplace)
  refine ⟨place', hplace, fun hmanifest => ?_, ?_, hdiffer.of_sameFiles hmade⟩
  · apply hapart.ne_manifest
    rw [← Store.eq_resolve_of_locate hmanifest, Store.eq_resolve_of_locate hplace', hmade.here_eq]
  · exact ⟨htree, fun hdir => hfree (hmade.isDirAt _ hdir),
      ⟨above, path.name, habove, hunwanted⟩, (Store.keeps_ensureDirs store _).trans hkept⟩

/-- A run that writes its report apart from what it reads can be repeated, and leaves the same
report. -/
theorem audit_again {code : Nat} (htree : session.store.tree.IsFileTree)
    (hhere : session.store.tree.IsDirAt session.store.here)
    (hapart : arguments.KeepsApart settings session.store)
    (h : (audit settings arguments (arguments.projectRoot session.store.here)).run session
      = (.ok code, session')) :
    ∃ destination report, (Request.run arguments).WritesTo settings session.store destination
      ∧ ReportLeft settings.fileEncoding destination report session session'
      ∧ ∀ later, later.store = session'.store → ∃ final,
        (audit settings arguments (arguments.projectRoot session.store.here)).run later
          = (.ok code, final)
        ∧ final.store = session'.store
        ∧ ReportLeft settings.fileEncoding destination report later final := by
  obtain ⟨hinit, hapart⟩ := hapart
  generalize hroot : arguments.projectRoot session.store.here = root at h hapart ⊢
  obtain ⟨config, report, audited, written, log, hload, haudit, hwrite, rfl, rfl⟩ :=
    audit_steps hinit h
  obtain ⟨log', haudited⟩ := run_runAudit_of_store_eq haudit rfl
  obtain rfl : audited = { session with log := session.log ++ log' } :=
    (Prod.mk.inj (haudit.symm.trans haudited)).2
  have hleft : ReportLeft settings.fileEncoding (arguments.destination root config)
      (arguments.format.render report.findings) session
      { written with log := written.log ++ log } :=
    (reportLeft_of_writeReportTo hwrite hhere).of_log session.log _
  refine ⟨arguments.destination root config, arguments.format.render report.findings,
    ⟨config, hroot ▸ hload, hroot ▸ rfl⟩, hleft, fun later hlater => ?_⟩
  have hstore : later.store = written.store := hlater
  -- the configuration and the files are found again
  obtain ⟨hload', log'', haudit'⟩ : readConfig settings later.store
        (Manifest.path settings root arguments.manifest) = .ok config
      ∧ ∃ log, (runAudit settings root config.plain).run later
        = (.ok report, { later with log := later.log ++ log }) := by
    obtain houtput | ⟨path, hpath⟩ := eq_output_or_file_of_writeReportTo hwrite
    · rw [houtput, run_writeReportTo_output] at hwrite
      obtain ⟨-, rfl⟩ := Prod.mk.inj hwrite
      have hsame : later.store = session.store := hstore
      exact ⟨hsame ▸ hload, run_runAudit_of_store_eq haudit hsame⟩
    · rw [hpath] at hwrite
      obtain ⟨_, _, _, -, -, -, hbytes, -⟩ := writeReportTo_file_eq_ok hwrite
      obtain ⟨place, -, hne, hspares, -⟩ :=
        spares_of_write htree hhere (hapart config hload path hpath) hbytes
      rw [← hstore] at hspares
      exact ⟨hspares.keeps.readConfig_eq hne hload, hspares.run_runAudit_again haudit⟩
  have hlogged : ({ later with log := later.log ++ log'' } : Session).store = written.store :=
    hstore
  obtain ⟨final, hwrite', hfinal, hleft'⟩ := run_writeReportTo_again hwrite hhere hlogged
  obtain ⟨_, hrun⟩ := run_audit hinit hload' haudit' hwrite'
  exact ⟨_, hrun, hfinal, hleft'.of_log later.log _⟩

end Audit

/-- A run that ends with code 0 or 1, and that keeps its report apart from what it reads, leaves a
report and changes no other file. Every later run with the same words on the files that it leaves
ends with the same code, leaves the same report, and changes no file at all. An `outputLog` that is
a single hyphen is the name of a file. -/
theorem run_again {words : List String} {code : Nat}
    (htree : session.store.tree.IsFileTree)
    (hhere : session.store.tree.IsDirAt session.store.here)
    (hapart : ∀ arguments, Request.ofWords words = .ok (.run arguments) →
      arguments.KeepsApart settings session.store)
    (hrun : run settings words session = (.exit code, session')) (hcode : code = 0 ∨ code = 1) :
    ∃ request destination report, Request.ofWords words = .ok request
      ∧ request.WritesTo settings session.store destination
      ∧ ReportLeft settings.fileEncoding destination report session session'
      ∧ ∀ later, later.store = session'.store → ∃ final,
        run settings words later = (.exit code, final)
        ∧ final.store = session'.store
        ∧ ReportLeft settings.fileEncoding destination report later final := by
  cases hwords : Request.ofWords words with
  | error error =>
    rw [run, hwords] at hrun
    cases hrun
  | ok request =>
    simp only [run, hwords] at hrun ⊢
    cases request with
    | help =>
      obtain ⟨hexit, rfl⟩ := Prod.mk.inj hrun
      refine ⟨.help, .output, help.toList, rfl, rfl, .printed rfl rfl rfl, fun later hlater => ?_⟩
      exact ⟨{ later with output := later.output ++ help.toList }, by rw [runRequest, hexit],
        hlater, .printed rfl rfl rfl⟩
    | run arguments =>
      obtain ⟨hroot, haudit⟩ := audit_of_runRequest hrun hcode
      obtain ⟨destination, report, hdestination, hleft, hagain⟩ :=
        audit_again htree hhere (hapart arguments hwords) haudit
      refine ⟨.run arguments, destination, report, rfl, hdestination, hleft, fun later hlater => ?_⟩
      obtain ⟨final, haudit', hfinal, hleft'⟩ := hagain later hlater
      refine ⟨final, ?_, hfinal, hleft'⟩
      rw [← hleft.here_eq, ← hlater] at haudit'
      exact runRequest_of_audit hroot haudit'

/-- A project with a class that no page uses. -/
def unusedProject : Session where
  store := {
    tree := .dir [
      ("package.json", .file "\x7b\"cssTracker\": \x7b\x7d\x7d".toUTF8),
      ("a.css", .file ".a\x7b\x7d".toUTF8),
      ("p.html", .file "<p class='b'>".toUTF8)]
    here := [] }

/-- A run that writes its report into a new directory of the project. -/
def reportArguments : Arguments := { output := some "out/report.txt", failOnFindings := true }

theorem ofWords_reportArguments :
    Request.ofWords ["--fail-on-findings", "--output", "out/report.txt"]
      = .ok (.run reportArguments) := rfl

theorem keepsApart_unusedProject : reportArguments.KeepsApart {} unusedProject.store := by
  refine ⟨rfl, fun config hload path hpath => ?_⟩
  have hdefault : (readConfig {} unusedProject.store
      (Path.fromRoot ["package.json"])).toOption = some {} := by
    decide +kernel
  obtain rfl : config = {} :=
    Option.some.inj ((congrArg Except.toOption hload).symm.trans hdefault)
  obtain rfl : Path.ofString "out/report.txt" = path := Destination.file.inj hpath
  exact ⟨by decide, by decide +kernel, by decide +kernel⟩

theorem run_again_unusedProject :
    unusedProject.store.tree.IsFileTree ∧ ∃ after final,
        run {} ["--fail-on-findings", "--output", "out/report.txt"] unusedProject
          = (.exit 1, after)
        ∧ after.store.tree.fileAt? ["out", "report.txt"] ≠ none
        ∧ run {} ["--fail-on-findings", "--output", "out/report.txt"] after = (.exit 1, final)
        ∧ final.store = after.store := by
  have htree : unusedProject.store.tree.IsFileTree := by
    have hname : ∀ name ∈ ["package.json", "a.css", "p.html"], IsFileName name := by decide
    simp only [List.forall_mem_cons] at hname
    simp [unusedProject, Tree.IsFileTree, Tree.HasNames, EntriesHaveNames, hname]
  have hapart : ∀ arguments, Request.ofWords ["--fail-on-findings", "--output", "out/report.txt"]
      = .ok (.run arguments) → arguments.KeepsApart {} unusedProject.store := by
    intro arguments hwords
    rw [ofWords_reportArguments, Except.ok.injEq, Request.run.injEq] at hwords
    exact hwords ▸ keepsApart_unusedProject
  rcases haudit : (audit {} reportArguments
    (reportArguments.projectRoot unusedProject.store.here)).run unusedProject with ⟨outcome, after⟩
  have houtcome : outcome.toOption = some 1 := by
    rw [show outcome = _ from congrArg Prod.fst haudit.symm]
    decide +kernel
  have hreport : (after.store.tree.fileAt? ["out", "report.txt"]).isSome = true := by
    rw [show after = _ from congrArg Prod.snd haudit.symm]
    decide +kernel
  cases outcome with
  | error failure => cases houtcome
  | ok code =>
    obtain rfl := Option.some.inj houtcome
    have hrun : run {} ["--fail-on-findings", "--output", "out/report.txt"] unusedProject
        = (.exit 1, after) := by
      rw [run, ofWords_reportArguments]
      exact runRequest_of_audit (by decide) haudit
    obtain ⟨_, _, _, -, -, -, hagain⟩ :=
      run_again htree ⟨_, rfl⟩ hapart hrun (.inr rfl)
    obtain ⟨final, hfinal, hstore, -⟩ := hagain after rfl
    exact ⟨htree, after, final, hrun, Option.isSome_iff_ne_none.mp hreport, hfinal,
      hstore⟩

end Command

end StyleAudit
