import StyleAudit.Audit
import StyleAudit.Proofs.Markup.Bounds
import StyleAudit.Proofs.Outcome
import StyleAudit.Proofs.Session

/-!
# What a run of the audit has done

A run that succeeds has read every file it found and every attribute in it, and its findings are
those of the joined ledger (`runAudit_eq_ok`). It changes the log and nothing else of the session.
-/

namespace StyleAudit

/-! ## The audit -/

/-- What a run that succeeds has read, and what it reports. -/
theorem runAudit_eq_ok {settings : Settings} {root : Path} {config : Config}
    {session session' : Session} {report : AuditReport}
    (h : (runAudit settings root config).run session = (.ok report, session')) :
    ∃ cssFiles frontFiles definitions uses,
      projectFiles settings session.store root config.cssFiles = .ok cssFiles
        ∧ projectFiles settings session.store root config.frontFiles = .ok frontFiles
        ∧ collectDefinitions settings session.store root cssFiles = .ok definitions
        ∧ collectUses settings session.store root frontFiles = .ok uses
        ∧ session'.store = session.store
        ∧ report = {
          findings := (config.ledger session.store.here root definitions uses).findings
            config.analysisOptions fun path => session.store.isFile (root.join (Path.ofString path))
          cssFiles := cssFiles.length
          frontFiles := frontFiles.length
          cssOccurrences := definitions.length
          frontOccurrences := uses.length } := by
  unfold runAudit at h
  obtain ⟨store, _, hstep, h⟩ := Action.run_bind_eq_ok h
  obtain ⟨rfl, rfl⟩ := Action.run_store_eq_ok hstep
  obtain ⟨cssFiles, _, hstep, h⟩ := Action.run_bind_eq_ok h
  obtain ⟨hcss, rfl⟩ := Action.run_ofExcept_eq_ok hstep
  obtain ⟨frontFiles, _, hstep, h⟩ := Action.run_bind_eq_ok h
  obtain ⟨hfront, rfl⟩ := Action.run_ofExcept_eq_ok hstep
  obtain ⟨_, scanned, hscanned, h⟩ := Action.run_bind_eq_ok h
  obtain ⟨definitions, _, hstep, h⟩ := Action.run_bind_eq_ok h
  obtain ⟨hdefinitions, rfl⟩ := Action.run_ofExcept_eq_ok hstep
  obtain ⟨uses, _, hstep, h⟩ := Action.run_bind_eq_ok h
  obtain ⟨huses, rfl⟩ := Action.run_ofExcept_eq_ok hstep
  obtain ⟨_, extracted, hextracted, h⟩ := Action.run_bind_eq_ok h
  obtain ⟨_, joined, hjoined, h⟩ := Action.run_bind_eq_ok h
  obtain ⟨_, analysed, hanalysed, h⟩ := Action.run_bind_eq_ok h
  obtain ⟨hreport, rfl⟩ := Prod.mk.inj h
  have hsame : analysed.store = session.store := by
    rw [Action.run_log_store hanalysed, Action.run_log_store hjoined,
      Action.run_log_store hextracted, Action.run_log_store hscanned]
  exact ⟨cssFiles, frontFiles, definitions, uses, hcss, hfront, hdefinitions, huses, hsame,
    (Except.ok.inj hreport).symm⟩

/-- What a run of the audit does if it can read everything. -/
theorem run_runAudit {settings : Settings} {root : Path} {config : Config} {session : Session}
    {cssFiles frontFiles : List String} {definitions : List ClassOccurrence}
    {uses : List Occurrence}
    (hcss : projectFiles settings session.store root config.cssFiles = .ok cssFiles)
    (hfront : projectFiles settings session.store root config.frontFiles = .ok frontFiles)
    (hdefinitions : collectDefinitions settings session.store root cssFiles = .ok definitions)
    (huses : collectUses settings session.store root frontFiles = .ok uses) :
    ∃ log, (runAudit settings root config).run session
      = (.ok {
          findings := (config.ledger session.store.here root definitions uses).findings
            config.analysisOptions fun path => session.store.isFile (root.join (Path.ofString path))
          cssFiles := cssFiles.length
          frontFiles := frontFiles.length
          cssOccurrences := definitions.length
          frontOccurrences := uses.length },
        { session with log := session.log ++ log }) := by
  simp only [runAudit, Action.run_bind, Action.run_store, Action.run_ofExcept, Action.run_log,
    hcss, hfront, hdefinitions, huses, Action.run_pure, List.append_assoc]
  exact ⟨_, rfl⟩

/-- A run of the audit changes the log alone, and depends on the store alone. -/
theorem run_runAudit_of_store_eq {settings : Settings} {root : Path} {config : Config}
    {session audited later : Session} {report : AuditReport}
    (h : (runAudit settings root config).run session = (.ok report, audited))
    (hlater : later.store = session.store) :
    ∃ log, (runAudit settings root config).run later
      = (.ok report, { later with log := later.log ++ log }) := by
  obtain ⟨cssFiles, frontFiles, definitions, uses, hcss, hfront, hdefinitions, huses, -, rfl⟩ :=
    runAudit_eq_ok h
  rw [← hlater] at hcss hfront hdefinitions huses ⊢
  exact run_runAudit hcss hfront hdefinitions huses

/-! ## Files read one by one -/

/-- The files of a project are those that a scan of its root finds. -/
theorem projectFiles_eq_ok_iff {settings : Settings} {store : Store} {root : Path}
    {suffixes paths : List String} : projectFiles settings store root suffixes = .ok paths
      ↔ store.scan ⟨suffixes, settings.ignoredDirs⟩ root = .ok paths :=
  mapError_eq_ok_iff

section Collect

variable {settings : Settings} {store : Store} {root : Path} {paths : List String}

/-- A definition that was collected stands in one of the stylesheets. -/
theorem exists_of_mem_collectDefinitions {definitions : List ClassOccurrence}
    {definition : ClassOccurrence}
    (h : collectDefinitions settings store root paths = .ok definitions)
    (hmem : definition ∈ definitions) : ∃ path ∈ paths, ∃ text,
      sourceText settings store root path = .ok text
        ∧ definition ∈ stylesheetOccurrences text path := by
  obtain ⟨found, hfound, hflatten⟩ := bind_eq_ok h
  obtain rfl := Except.ok.inj hflatten
  obtain ⟨here, hhere, hdefinition⟩ := List.mem_flatten.mp hmem
  obtain ⟨path, hpath, hread⟩ := exists_of_mem_mapM hfound hhere
  obtain ⟨text, htext, hoccurrences⟩ := bind_eq_ok hread
  obtain rfl := Except.ok.inj hoccurrences
  exact ⟨path, hpath, text, htext, hdefinition⟩

/-- A use that was collected stands in one of the markup files. -/
theorem exists_of_mem_collectUses {uses : List Occurrence} {use : Occurrence}
    (h : collectUses settings store root paths = .ok uses) (hmem : use ∈ uses) :
    ∃ path ∈ paths, ∃ text found, sourceText settings store root path = .ok text
      ∧ markupOccurrences? (Dialect.ofPath path) text path = .ok found ∧ use ∈ found := by
  obtain ⟨all, hall, hflatten⟩ := bind_eq_ok h
  obtain rfl := Except.ok.inj hflatten
  obtain ⟨here, hhere, huse⟩ := List.mem_flatten.mp hmem
  obtain ⟨path, hpath, hread⟩ := exists_of_mem_mapM hall hhere
  obtain ⟨text, htext, hoccurrences⟩ := bind_eq_ok hread
  exact ⟨path, hpath, text, here, htext, mapError_eq_ok_iff.mp hoccurrences, huse⟩

theorem path_mem_of_mem_collectDefinitions {definitions : List ClassOccurrence}
    {definition : ClassOccurrence}
    (h : collectDefinitions settings store root paths = .ok definitions)
    (hmem : definition ∈ definitions) : definition.path ∈ paths := by
  obtain ⟨path, hpath, text, -, hfound⟩ := exists_of_mem_collectDefinitions h hmem
  obtain rfl : definition.path = path := (stylesheetOccurrences_valid hfound).path_eq
  exact hpath

theorem path_mem_of_mem_collectUses {uses : List Occurrence} {use : Occurrence}
    (h : collectUses settings store root paths = .ok uses) (hmem : use ∈ uses) :
    use.path ∈ paths := by
  obtain ⟨path, hpath, text, found, -, hfound, huse⟩ := exists_of_mem_collectUses h hmem
  obtain rfl : use.path = path := (markupOccurrences?_valid hfound huse).path_eq
  exact hpath

/-- Stylesheets that differ define nothing twice: a definition names its file and its line. -/
theorem nodup_collectDefinitions {definitions : List ClassOccurrence}
    (h : collectDefinitions settings store root paths = .ok definitions) (hpaths : paths.Nodup) :
    definitions.Nodup := by
  obtain ⟨found, hfound, hflatten⟩ := bind_eq_ok h
  obtain rfl := Except.ok.inj hflatten
  rw [List.nodup_flatten]
  constructor
  · intro here hhere
    obtain ⟨path, -, hread⟩ := exists_of_mem_mapM hfound hhere
    obtain ⟨text, -, hoccurrences⟩ := bind_eq_ok hread
    obtain rfl := Except.ok.inj hoccurrences
    exact nodup_stylesheetOccurrences text path
  · apply pairwise_of_mapM hfound hpaths
    intro path other hne here there hhere hthere definition hdefinition hother
    obtain ⟨text, -, hoccurrences⟩ := bind_eq_ok hhere
    obtain rfl := Except.ok.inj hoccurrences
    obtain ⟨text', -, hoccurrences⟩ := bind_eq_ok hthere
    obtain rfl := Except.ok.inj hoccurrences
    have hpath := (stylesheetOccurrences_valid hdefinition).path_eq
    have hpath' := (stylesheetOccurrences_valid hother).path_eq
    exact hne (hpath.symm.trans hpath')

end Collect

end StyleAudit
