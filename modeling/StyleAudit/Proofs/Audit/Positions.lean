import Mathlib.Data.Finset.Card
import StyleAudit.Proofs.Analysis.Grouping
import StyleAudit.Proofs.Audit.Run
import StyleAudit.Proofs.Store.Scan

/-!
# Findings are about lines that exist

Each location in the findings of an audit names a file that was scanned and lines that its text has;
a class that is found duplicate stands in two different places (`positions_exist`).

That follows from what was collected. The occurrences are in their files
(`markupOccurrences?_valid`, `stylesheetOccurrences_valid`), and grouping invents no place
(`groupsOf_lists_iff`). That the places of a duplicate differ needs the scan, which gives each
stylesheet once (`nodup_scan`).
-/

namespace StyleAudit

/-- Whether locations list two different places. -/
def ListsTwo (locations : List FileLines) : Prop :=
  ∃ file ∈ locations, ∃ line ∈ file.lines, ∃ other ∈ locations, ∃ line' ∈ other.lines,
    (file.path, line) ≠ (other.path, line')

section Located

variable (settings : Settings) (store : Store) (root : Path)

/-- Whether a file of a project has a text with a line of this number. -/
def HasLine (path : String) (line : Int) : Prop :=
  ∃ text, sourceText settings store root path = .ok text ∧ 1 ≤ line ∧ line ≤ 1 + lineFeeds text

/-- Whether a location is in one of some files: there are lines, in ascending order, and the file
has all of them. -/
structure FileLines.LocatedIn (files : List String) (file : FileLines) : Prop where
  path_mem : file.path ∈ files
  lines_ne_nil : file.lines ≠ []
  lines_ascending : file.lines.Pairwise (· < ·)
  has_lines : ∀ line ∈ file.lines, HasLine settings store root file.path line

/-- Whether findings are about stylesheets and markup files of a project, about lines that these
have, and about different places where they are about duplicates. -/
structure Findings.Located (cssFiles frontFiles : List String) (findings : Findings) : Prop where
  unused : ∀ finding ∈ findings.unusedDefinitions.getD [], ∀ file ∈ finding.locations,
    file.LocatedIn settings store root cssFiles
  relocations : ∀ finding ∈ findings.relocationSuggestions.getD [], ∀ path ∈ finding.uses,
    path ∈ frontFiles
  missing : ∀ finding ∈ findings.missingDefinitions.getD [], ∀ file ∈ finding.locations,
    file.LocatedIn settings store root frontFiles
  expressions : ∀ finding ∈ findings.expressions.getD [], ∀ file ∈ finding.locations,
    file.LocatedIn settings store root frontFiles
  duplicates : ∀ finding ∈ findings.duplicateDefinitions.getD [], ∀ file ∈ finding.locations,
    file.LocatedIn settings store root cssFiles
  duplicates_differ : ∀ finding ∈ findings.duplicateDefinitions.getD [], ListsTwo finding.locations

end Located

theorem nodup_projectFiles {settings : Settings} {store : Store} {root : Path}
    {suffixes paths : List String} (h : store.tree.WellFormed)
    (hfiles : projectFiles settings store root suffixes = .ok paths) : paths.Nodup :=
  nodup_scan _ h (projectFiles_eq_ok_iff.mp hfiles)

/-- Findings that are listed are findings of their category. -/
theorem mem_of_mem_wanted {α : Type} {wanted : Bool} {findings : List α} {finding : α}
    (h : finding ∈ (if wanted then some findings else none).getD []) : finding ∈ findings := by
  cases wanted with
  | false => simp at h
  | true => simpa using h

/-! ## Groups -/

section Groups

variable {settings : Settings} {store : Store} {root : Path} {files : List String}
  {places : List NamedPlace} {group : String × List FileLines}

/-- Groups of places that exist list places that exist. -/
theorem located_of_mem_groupsOf
    (h : ∀ place ∈ places,
      place.path ∈ files ∧ HasLine settings store root place.path place.line)
    (hgroup : group ∈ groupsOf places) :
    ∀ file ∈ group.2, file.LocatedIn settings store root files := by
  intro file hfile
  have hordered := groupsOf_ordered places
  have hlisted : ∀ line ∈ file.lines,
      file.path ∈ files ∧ HasLine settings store root file.path line := by
    intro line hline
    exact h ⟨group.1, file.path, line⟩
      (groupsOf_lists_iff.mp ⟨group.2, hgroup, file.lines, hfile, hline⟩)
  have hne := hordered.lines_ne_nil group hgroup file hfile
  obtain ⟨line, hline⟩ := List.exists_mem_of_ne_nil _ hne
  exact ⟨(hlisted line hline).1, hne, hordered.lines_ascending group hgroup file hfile,
    fun line hline => (hlisted line hline).2⟩

theorem located_of_mem_classFindings {finding : ClassFinding}
    (h : ∀ place ∈ places,
      place.path ∈ files ∧ HasLine settings store root place.path place.line)
    (hfinding : finding ∈ classFindings places) :
    ∀ file ∈ finding.locations, file.LocatedIn settings store root files := by
  have hgroup : finding.group ∈ groupsOf places :=
    map_group_classFindings places ▸ List.mem_map_of_mem hfinding
  exact located_of_mem_groupsOf h hgroup

/-- The locations under a name list each place of that name. -/
theorem exists_line_of_mem_groupsOf {place : NamedPlace} (hgroup : group ∈ groupsOf places)
    (hplace : place ∈ places) (hname : place.name = group.1) :
    ∃ file ∈ group.2, file.path = place.path ∧ place.line ∈ file.lines := by
  obtain ⟨locations, hmem, lines, hfile, hline⟩ := groupsOf_lists_iff.mpr hplace
  obtain ⟨-, hlocations⟩ := mem_groupsOf_iff.mp hmem
  obtain ⟨-, hlocations'⟩ := mem_groupsOf_iff.mp hgroup
  have hsame : group.2 = locations := by rw [hlocations, hlocations', hname]
  exact ⟨_, hsame ▸ hfile, rfl, hline⟩

/-- A name with two places is at two places in its group. -/
theorem listsTwo_of_mem_groupsOf (hgroup : group ∈ groupsOf places) (hplaces : places.Nodup)
    (htwo : 2 ≤ (places.filter fun place => place.name = group.1).length) : ListsTwo group.2 := by
  rw [← List.toFinset_card_of_nodup (hplaces.filter _)] at htwo
  obtain ⟨first, hfirst, second, hsecond, hdiffer⟩ := Finset.one_lt_card.mp htwo
  simp only [List.mem_toFinset, List.mem_filter, decide_eq_true_eq] at hfirst hsecond
  obtain ⟨file, hfile, hpath, hline⟩ := exists_line_of_mem_groupsOf hgroup hfirst.1 hfirst.2
  obtain ⟨other, hother, hpath', hline'⟩ := exists_line_of_mem_groupsOf hgroup hsecond.1 hsecond.2
  refine ⟨file, hfile, first.line, hline, other, hother, second.line, hline', fun heq => ?_⟩
  -- places of one name that agree in file and line are the same
  obtain ⟨hpaths, hlines⟩ := Prod.mk.inj heq
  refine hdiffer ?_
  rw [NamedPlace.mk.injEq]
  exact ⟨hfirst.2.trans hsecond.2.symm, by rw [← hpath, ← hpath', hpaths], hlines⟩

end Groups

/-! ## Findings of a joined ledger -/

section Joined

variable {settings : Settings} {store : Store} {root : Path} {cssFiles frontFiles : List String}
  {exclusions : Exclusions} {definitions : List ClassOccurrence} {uses : List Occurrence}

/-- What is found duplicate is a group of the places that qualify, of two of them at least. -/
theorem group_of_mem_duplicateDefinitions {finding : ClassFinding}
    (h : finding ∈ (pairwiseJoin exclusions definitions uses).duplicateDefinitions) :
    finding.group ∈ groupsOf (duplicatePlaces exclusions definitions)
      ∧ 2 ≤ ((duplicatePlaces exclusions definitions).filter fun place =>
        place.name = finding.name).length := by
  rw [duplicateDefinitions_pairwiseJoin] at h
  obtain ⟨⟨name, here⟩, hentry, rfl⟩ := List.mem_map.mp h
  obtain ⟨hmem, htwo⟩ := List.mem_filter.mp hentry
  refine ⟨List.mem_map_of_mem hmem, ?_⟩
  have hhere := (mem_placesByName_iff.mp hmem).2
  rw [← hhere]
  exact of_decide_eq_true htwo

theorem nodup_duplicatePlaces (h : definitions.Nodup) :
    (duplicatePlaces exclusions definitions).Nodup := by
  refine (h.filter _).map ?_
  rintro ⟨name, line, path⟩ ⟨name', line', path'⟩ heq
  obtain ⟨rfl, rfl, rfl⟩ := NamedPlace.mk.inj heq
  rfl

/-- A suggestion to move a definition names the files that the definition is linked to. -/
theorem uses_of_relocation? {ledger : Ledger} {isFile : String → Bool} {definition : Definition}
    {finding : RelocationFinding} (h : ledger.relocation? isFile definition = some finding) :
    finding.uses = definition.files := by
  simp only [Ledger.relocation?] at h
  split at h
  · cases h
  · split at h
    · cases h
    · split at h
      · cases h
      · cases h
        rfl

theorem exists_of_mem_matchingUses {definition : ClassOccurrence} {path : String}
    (h : path ∈ matchingUses exclusions uses definition) : ∃ use ∈ uses, use.path = path := by
  unfold matchingUses at h
  split at h
  · simp at h
  · obtain ⟨use, huse, hpath⟩ := List.mem_map.mp h
    exact ⟨use, List.mem_of_mem_filter huse, hpath⟩

theorem exists_of_mem_relocationSuggestions {isFile : String → Bool} {finding : RelocationFinding}
    {path : String}
    (h : finding ∈ (pairwiseJoin exclusions definitions uses).relocationSuggestions isFile)
    (hpath : path ∈ finding.uses) : ∃ use ∈ uses, use.path = path := by
  rw [Ledger.relocationSuggestions, List.mem_eraseDups] at h
  obtain ⟨record, hrecord, hfinding⟩ := List.mem_filterMap.mp h
  obtain ⟨definition, -, rfl⟩ := List.mem_map.mp hrecord
  rw [uses_of_relocation? hfinding] at hpath
  exact exists_of_mem_matchingUses hpath

/-- The findings of a joined ledger are about lines that exist if the occurrences are. -/
theorem findings_located (options : AnalysisOptions) (isFile : String → Bool)
    (hdefinitions : ∀ definition ∈ definitions, definition.path ∈ cssFiles
      ∧ HasLine settings store root definition.path definition.line)
    (huses : ∀ use ∈ uses, use.path ∈ frontFiles ∧ HasLine settings store root use.path use.line)
    (hnodup : definitions.Nodup) :
    ((pairwiseJoin exclusions definitions uses).findings options isFile).Located settings store
      root cssFiles frontFiles where
  unused := by
    intro finding hfinding
    have hmem := mem_of_mem_wanted hfinding
    rw [unusedDefinitions_pairwiseJoin] at hmem
    refine located_of_mem_classFindings ?_ hmem
    rintro ⟨name, path, line⟩ hplace
    exact hdefinitions _ ((mem_unusedPlaces_iff exclusions definitions uses).mp hplace).1
  relocations := by
    intro finding hfinding path hpath
    obtain ⟨use, huse, rfl⟩ :=
      exists_of_mem_relocationSuggestions (mem_of_mem_wanted hfinding) hpath
    exact (huses use huse).1
  missing := by
    intro finding hfinding
    have hmem := mem_of_mem_wanted hfinding
    rw [missingDefinitions_pairwiseJoin] at hmem
    refine located_of_mem_classFindings ?_ hmem
    rintro ⟨name, path, line⟩ hplace
    exact huses _ ((mem_missingPlaces_iff exclusions definitions uses).mp hplace).1
  expressions := by
    intro finding hfinding
    have hmem := mem_of_mem_wanted hfinding
    rw [expressions_pairwiseJoin] at hmem
    obtain ⟨entry, hentry, rfl⟩ := List.mem_map.mp hmem
    have hgroup : (entry.1, fileLines entry.2) ∈ groupsOf (expressionPlaces exclusions uses) :=
      List.mem_map_of_mem hentry
    refine located_of_mem_groupsOf ?_ hgroup
    rintro ⟨text, path, line⟩ hplace
    exact huses _ ((mem_expressionPlaces_iff exclusions uses).mp hplace).1
  duplicates := by
    intro finding hfinding
    obtain ⟨hgroup, -⟩ := group_of_mem_duplicateDefinitions (mem_of_mem_wanted hfinding)
    refine located_of_mem_groupsOf ?_ hgroup
    intro place hplace
    obtain ⟨definition, hdefinition, rfl⟩ := List.mem_map.mp hplace
    exact hdefinitions definition (List.mem_of_mem_filter hdefinition)
  duplicates_differ := by
    intro finding hfinding
    obtain ⟨hgroup, htwo⟩ := group_of_mem_duplicateDefinitions (mem_of_mem_wanted hfinding)
    exact listsTwo_of_mem_groupsOf hgroup (nodup_duplicatePlaces hnodup) htwo

end Joined

/-! ## Findings of an audit -/

/-- What is found in a text has the path it is looked for under, stands on a line of the text and
can be shown. The findings of an audit of a file tree are about stylesheets and markup files that
were scanned and about lines that these have, and what is found duplicate is there twice. -/
theorem positions_exist (text : List Char) (path : String) :
    (∀ definition ∈ stylesheetOccurrences text path,
        (Occurrence.named definition).Valid path 1 (1 + lineFeeds text))
      ∧ (∀ dialect found, markupOccurrences? dialect text path = .ok found →
        ∀ occurrence ∈ found, occurrence.Valid path 1 (1 + lineFeeds text))
      ∧ ∀ settings root config session session' report, session.store.tree.WellFormed →
        (runAudit settings root config).run session = (.ok report, session') →
          ∃ cssFiles frontFiles,
            projectFiles settings session.store root config.cssFiles = .ok cssFiles
              ∧ projectFiles settings session.store root config.frontFiles = .ok frontFiles
              ∧ report.findings.Located settings session.store root cssFiles frontFiles := by
  refine ⟨fun _ => stylesheetOccurrences_valid, fun _ _ h _ => markupOccurrences?_valid h, ?_⟩
  intro settings root config session session' report hwellFormed hrun
  obtain ⟨cssFiles, frontFiles, definitions, uses, hcss, hfront, hdefinitions, huses, -, rfl⟩ :=
    runAudit_eq_ok hrun
  refine ⟨cssFiles, frontFiles, hcss, hfront, ?_⟩
  simp only [Config.ledger, Ledger.join_ofOccurrences]
  refine findings_located _ _ ?_ ?_ ?_
  · intro definition hmem
    obtain ⟨path, hpath, text, htext, hfound⟩ := exists_of_mem_collectDefinitions hdefinitions hmem
    have hvalid := stylesheetOccurrences_valid hfound
    obtain rfl : definition.path = path := hvalid.path_eq
    exact ⟨hpath, text, htext, hvalid.first_le, hvalid.le_last⟩
  · intro use hmem
    obtain ⟨path, hpath, text, found, htext, hfound, huse⟩ := exists_of_mem_collectUses huses hmem
    have hvalid := markupOccurrences?_valid hfound huse
    obtain rfl : use.path = path := hvalid.path_eq
    exact ⟨hpath, text, htext, hvalid.first_le, hvalid.le_last⟩
  · exact nodup_collectDefinitions hdefinitions (nodup_projectFiles hwellFormed hcss)

/-- A project with one stylesheet and one markup file, seen from the root of the file tree. -/
def smallProject : Session where
  store := {
    tree := .dir [("a.css", .file ".a .b\n.a".toUTF8),
      ("pages", .dir [("p.html", .file "<p class='a c'>".toUTF8)])]
    here := [] }

/-- What an audit of the small project reports. -/
def smallReport : AuditReport where
  findings := {
    unusedDefinitions := some [⟨"b", [⟨"a.css", [1]⟩]⟩]
    relocationSuggestions := some [⟨"a", "", "pages", ["pages/p.html"]⟩]
    missingDefinitions := some [⟨"c", [⟨"pages/p.html", [1]⟩]⟩]
    expressions := some []
    duplicateDefinitions := some [⟨"a", [⟨"a.css", [1, 2]⟩]⟩] }
  cssFiles := 1
  frontFiles := 1
  cssOccurrences := 3
  frontOccurrences := 2

set_option maxRecDepth 10000 in
theorem positions_exist_smallProject :
    smallProject.store.tree.WellFormed
      ∧ ∃ session',
        (runAudit {} (Path.fromRoot []) {}).run smallProject = (.ok smallReport, session')
        ∧ ∃ cssFiles frontFiles,
          projectFiles {} smallProject.store (Path.fromRoot []) [".css", ".scss"] = .ok cssFiles
            ∧ projectFiles {} smallProject.store (Path.fromRoot []) [".tsx", ".jsx", ".html"]
              = .ok frontFiles
            ∧ smallReport.findings.Located {} smallProject.store (Path.fromRoot []) cssFiles
              frontFiles := by
  have hwellFormed : smallProject.store.tree.WellFormed := by
    simp [smallProject, Tree.WellFormed, Tree.HasNames, EntriesHaveNames]
  have houtcome : ((runAudit {} (Path.fromRoot []) {}).run smallProject).1.toOption
      = some smallReport := by
    decide +kernel
  rcases hrun : (runAudit {} (Path.fromRoot []) {}).run smallProject with ⟨outcome, session'⟩
  rw [hrun] at houtcome
  cases outcome with
  | error failure => cases houtcome
  | ok report =>
    obtain rfl := Option.some.inj houtcome
    have hpositions := positions_exist [] ""
    exact ⟨hwellFormed, session', rfl,
      hpositions.2.2 {} (Path.fromRoot []) {} smallProject session' smallReport hwellFormed hrun⟩

end StyleAudit
