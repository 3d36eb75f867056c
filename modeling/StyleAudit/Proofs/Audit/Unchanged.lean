import StyleAudit.Proofs.Audit.Positions
import StyleAudit.Proofs.Path.Common
import StyleAudit.Proofs.Store.Unseen

/-!
# Audits of a store that keeps what they read

A file that an audit does not read may come and go: the scans find the same files, with the same
texts, and what the files have in common names a file if and only if it did. So the audit reports
the same (`Spares.run_runAudit_again`).
-/

namespace StyleAudit

/-- A text that was there is read as before. -/
theorem Store.Keeps.readText_eq {rules : List ScanRule} {place : List String}
    {before after : Store} {name : String} {path : Path} {undecodable : DecodeFlaw → Failure}
    {text : List Char} (h : Keeps rules place before after)
    (htext : before.readText name path undecodable = .ok text)
    (hne : before.locate path ≠ .ok place) : after.readText name path undecodable = .ok text := by
  rw [readText_eq_ok_iff] at htext ⊢
  obtain ⟨bytes, encoding, decoded, hread, hdecoded⟩ := htext
  exact ⟨bytes, encoding, decoded, h.read_eq hread hne, hdecoded⟩

/-- The rules of the scans of an audit. -/
def Config.scanRules (config : Config) (settings : Settings) : List ScanRule :=
  [⟨config.cssFiles, settings.ignoredDirs⟩, ⟨config.frontFiles, settings.ignoredDirs⟩]

/-- A file tree before and after something has happened to the file at a place that no scan of an
audit finds. -/
structure Spares (settings : Settings) (config : Config) (place : List String)
    (before after : Store) : Prop where
  isFileTree : before.tree.IsFileTree
  free : ¬ before.tree.IsDirAt place
  unwanted : ∃ above name, place = above ++ [name]
    ∧ ∀ rule ∈ config.scanRules settings, rule.wants name = false
  keeps : Store.Keeps (config.scanRules settings) place before after

namespace Spares

variable {settings : Settings} {config : Config} {place rootPlace : List String}
  {before after : Store} {root : Path} {rule : ScanRule} {paths suffixes : List String}
  {path : String}

/-! ## Files -/

theorem projectFiles_eq (h : Spares settings config place before after)
    (hrule : ⟨suffixes, settings.ignoredDirs⟩ ∈ config.scanRules settings)
    (hfiles : projectFiles settings before root suffixes = .ok paths) :
    projectFiles settings after root suffixes = .ok paths :=
  projectFiles_eq_ok_iff.mpr (h.keeps.scan_eq _ hrule (projectFiles_eq_ok_iff.mp hfiles))

/-- What a scan finds is not at the place. -/
theorem append_ne_place (h : Spares settings config place before after)
    (hrule : rule ∈ config.scanRules settings) {names above : List String} {last : String}
    (hwanted : rule.wants last = true) : names ++ (above ++ [last]) ≠ place := by
  obtain ⟨front, name, rfl, hunwanted⟩ := h.unwanted
  intro heq
  rw [← List.append_assoc] at heq
  obtain ⟨-, rfl⟩ := List.append_inj' heq rfl |>.imp_right List.singleton_inj.mp
  rw [hunwanted rule hrule] at hwanted
  cases hwanted

theorem sourceText_eq (h : Spares settings config place before after)
    (hrule : rule ∈ config.scanRules settings) (hscan : before.scan rule root = .ok paths)
    (hmem : path ∈ paths) {text : List Char}
    (htext : sourceText settings before root path = .ok text) :
    sourceText settings after root path = .ok text := by
  obtain ⟨rootPlace, -, hroot, -⟩ := scan_eq_ok rule hscan
  obtain ⟨above, last, bytes, hnames, hwanted, rfl, -⟩ :=
    exists_wanted_of_mem_scan rule h.isFileTree hroot hscan hmem
  have hne : before.locate (root.join (Path.ofString ("/".intercalate (above ++ [last]))))
      ≠ .ok place := by
    intro hlocate
    rw [Store.locate_under hroot hnames] at hlocate
    exact h.append_ne_place hrule hwanted (Store.eq_of_follow_eq_ok hnames hlocate).symm
  exact h.keeps.readText_eq htext hne

/-- What is made of the texts of scanned files is the same. -/
theorem mapM_sourceText_eq (h : Spares settings config place before after)
    (hrule : rule ∈ config.scanRules settings) (hscan : before.scan rule root = .ok paths)
    {α : Type} {next : String → List Char → Except Failure α} {found : List α}
    (hfound : paths.mapM (fun path => do
      let text ← sourceText settings before root path
      next path text) = .ok found) :
    paths.mapM (fun path => do
      let text ← sourceText settings after root path
      next path text) = .ok found := by
  refine mapM_eq_ok_of_forall hfound fun path hmem result hread => ?_
  obtain ⟨text, htext, hresult⟩ := bind_eq_ok hread
  rw [h.sourceText_eq hrule hscan hmem htext]
  exact hresult

theorem collectDefinitions_eq (h : Spares settings config place before after)
    (hrule : rule ∈ config.scanRules settings) (hscan : before.scan rule root = .ok paths)
    {definitions : List ClassOccurrence}
    (hdefinitions : collectDefinitions settings before root paths = .ok definitions) :
    collectDefinitions settings after root paths = .ok definitions := by
  obtain ⟨found, hfound, hflatten⟩ := bind_eq_ok hdefinitions
  rw [collectDefinitions, h.mapM_sourceText_eq hrule hscan hfound]
  exact hflatten

theorem collectUses_eq (h : Spares settings config place before after)
    (hrule : rule ∈ config.scanRules settings) (hscan : before.scan rule root = .ok paths)
    {uses : List Occurrence} (huses : collectUses settings before root paths = .ok uses) :
    collectUses settings after root paths = .ok uses := by
  obtain ⟨found, hfound, hflatten⟩ := bind_eq_ok huses
  rw [collectUses, h.mapM_sourceText_eq hrule hscan hfound]
  exact hflatten

/-! ## What files have in common -/

/-- What the path of a scanned file starts with names a file if and only if it did. -/
theorem isFile_eq (h : Spares settings config place before after)
    (hrule : rule ∈ config.scanRules settings) (hscan : before.scan rule root = .ok paths)
    (hmem : path ∈ paths) {shared : List String} (hshared : shared <+: slashSegments path) :
    after.isFile (root.join (Path.ofString ("/".intercalate shared)))
      = before.isFile (root.join (Path.ofString ("/".intercalate shared))) := by
  obtain ⟨rootPlace, -, hroot, -⟩ := scan_eq_ok rule hscan
  obtain ⟨above, last, bytes, hnames, hwanted, rfl, hfile⟩ :=
    exists_wanted_of_mem_scan rule h.isFileTree hroot hscan hmem
  rw [slashSegments_intercalate (by simp) fun name hname => (hnames name hname).no_slash] at hshared
  obtain ⟨rest, hrest⟩ := hshared
  have hshared : ∀ name ∈ shared, IsFileName name := fun name hname =>
    hnames name (hrest ▸ List.mem_append_left rest hname)
  -- something is there, since the file is there or below
  rw [← hrest, ← List.append_assoc] at hfile
  have hthere := hfile
  rw [Tree.at?_append] at hthere
  obtain ⟨found, hfound, -⟩ := Option.bind_eq_some_iff.mp hthere
  have hlocate : before.locate (root.join (Path.ofString ("/".intercalate shared)))
      = .ok (rootPlace ++ shared) := by
    rw [Store.locate_under hroot hshared, Store.follow_of_at? rootPlace hshared hfound]
  refine h.keeps.isFile_eq hlocate hfound fun hplace => ?_
  cases found with
  | dir entries => exact h.free ⟨entries, hplace ▸ hfound⟩
  | file bytes =>
    -- nothing is below a file, so it is the one that was scanned
    obtain rfl := Tree.eq_nil_of_at?_append hfound hfile
    rw [List.append_nil] at hrest
    exact h.append_ne_place hrule hwanted (hrest ▸ hplace)

/-- The findings are the same. -/
theorem findings_eq (h : Spares settings config place before after)
    (hrule : rule ∈ config.scanRules settings) (hscan : before.scan rule root = .ok paths)
    (here : List String) (definitions : List ClassOccurrence) {uses : List Occurrence}
    (huses : ∀ use ∈ uses, use.path ∈ paths) (options : AnalysisOptions) :
    ((config.ledger here root definitions uses).findings options fun path =>
        after.isFile (root.join (Path.ofString path)))
      = (config.ledger here root definitions uses).findings options fun path =>
        before.isFile (root.join (Path.ofString path)) := by
  rw [Config.ledger, Ledger.join_ofOccurrences]
  generalize config.exclusions.normalize (root.resolve here) = exclusions
  have hcommon (definition : ClassOccurrence) :
      commonPath (fun path => after.isFile (root.join (Path.ofString path)))
          (matchingUses exclusions uses definition)
        = commonPath (fun path => before.isFile (root.join (Path.ofString path)))
          (matchingUses exclusions uses definition) := by
    cases hfiles : matchingUses exclusions uses definition with
    | nil => rfl
    | cons path files =>
      have hpath : path ∈ matchingUses exclusions uses definition := hfiles ▸ List.mem_cons_self
      obtain ⟨use, huse, rfl⟩ := exists_of_mem_matchingUses hpath
      apply commonPath_congr
      intro shared _ hshared
      exact h.isFile_eq hrule hscan (huses use huse) (hshared _ List.mem_cons_self)
  have hsuggestions :
      ((pairwiseJoin exclusions definitions uses).relocationSuggestions fun path =>
          after.isFile (root.join (Path.ofString path)))
        = (pairwiseJoin exclusions definitions uses).relocationSuggestions fun path =>
          before.isFile (root.join (Path.ofString path)) := by
    rw [Ledger.relocationSuggestions, Ledger.relocationSuggestions]
    refine congrArg List.eraseDups (List.filterMap_congr fun record hrecord => ?_)
    obtain ⟨definition, -, rfl⟩ := List.mem_map.mp hrecord
    simp only [Ledger.relocation?, Record.files, Option.getD_some, hcommon]
    rfl
  simp only [Ledger.findings, hsuggestions]

/-! ## The audit -/

/-- An audit of the second store reports what one of the first did. -/
theorem run_runAudit_again {session later audited : Session} {report : AuditReport}
    (h : Spares settings config place session.store later.store)
    (hrun : (runAudit settings root config).run session = (.ok report, audited)) :
    ∃ log, (runAudit settings root config).run later
      = (.ok report, { later with log := later.log ++ log }) := by
  obtain ⟨cssFiles, frontFiles, definitions, uses, hcss, hfront, hdefinitions, huses, -, rfl⟩ :=
    runAudit_eq_ok hrun
  have hcssRule : ⟨config.cssFiles, settings.ignoredDirs⟩ ∈ config.scanRules settings :=
    List.mem_cons_self
  have hfrontRule : ⟨config.frontFiles, settings.ignoredDirs⟩ ∈ config.scanRules settings :=
    List.mem_cons_of_mem _ List.mem_cons_self
  have hfrontScan := projectFiles_eq_ok_iff.mp hfront
  have hfindings := h.findings_eq hfrontRule hfrontScan session.store.here definitions
    (fun use huse => path_mem_of_mem_collectUses huses huse) config.analysisOptions
  rw [← hfindings, ← h.keeps.here_eq]
  exact run_runAudit (h.projectFiles_eq hcssRule hcss) (h.projectFiles_eq hfrontRule hfront)
    (h.collectDefinitions_eq hcssRule (projectFiles_eq_ok_iff.mp hcss) hdefinitions)
    (h.collectUses_eq hfrontRule hfrontScan huses)

end Spares

end StyleAudit
