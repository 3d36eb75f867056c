import StyleAudit.Proofs.Audit.Relocation

/-!
# Classes that files in the root use

Files in the root of a project have nothing in common but the root, and the root is not a segment of
their paths. So the root is their common directory only if they are one file, whose name is then cut
off (`commonPath_of_root_file`); two of them have none (`commonPath_of_root_files`). An audit moves
a class to the root if one file there has all of its uses, and leaves it where it is if there are
two (`relocations_to_root`).
-/

namespace StyleAudit

/-! ## Files in the root -/

section RootFiles

variable (isFile : String → Bool) {paths : List String}

/-- The path of a file in the root is the name of the file. -/
theorem slashSegments_of_liesIn_root {path : String} (h : LiesIn "" path) :
    slashSegments path = [path] := by
  obtain ⟨name, -, hslash, hpath⟩ := h
  have hname : path = name := by rw [hpath, pathUnder, if_pos rfl]
  rw [hname]
  have hsegments := slashSegments_intercalate (List.cons_ne_nil name []) (by simpa using hslash)
  rwa [String.intercalate_singleton] at hsegments

/-- One file in the root, however often it is in the list, has the root for its directory. -/
theorem commonPath_of_root_file {file : String} (hne : paths ≠ [])
    (hsame : ∀ path ∈ paths, path = file) (hroot : LiesIn "" file) (hfile : isFile file = true) :
    commonPath isFile paths = some "" := by
  obtain ⟨first, hfirst⟩ := List.exists_mem_of_ne_nil _ hne
  have hsegments := slashSegments_of_liesIn_root hroot
  have hless : [file] <+: sharedSegments paths := by
    refine (isPrefix_sharedSegments_iff hne).mpr fun path hmem => ?_
    rw [hsame path hmem, hsegments]
  have hmore : sharedSegments paths <+: [file] := by
    have hstart := sharedSegments_isPrefix hfirst
    rwa [hsame first hfirst, hsegments] at hstart
  have hshared : sharedSegments paths = [file] := hmore.eq_of_length_le hless.length_le
  have hkept : keptOff isFile [file] = [] := by
    rw [keptOff, String.intercalate_singleton, if_pos hfile]
    rfl
  rw [commonPath_eq_keptOff, hshared, if_neg (List.cons_ne_nil _ _), hkept]
  rfl

/-- Two files in the root have no directory in common. -/
theorem commonPath_of_root_files {path other : String} (hpath : path ∈ paths)
    (hother : other ∈ paths) (hne : path ≠ other) (hroot : LiesIn "" path)
    (hroot' : LiesIn "" other) : commonPath isFile paths = none := by
  have hdiffer : (slashSegments path).head? ≠ (slashSegments other).head? := by
    rw [slashSegments_of_liesIn_root hroot, slashSegments_of_liesIn_root hroot']
    simpa using hne
  have hnil := sharedSegments_eq_nil_iff.mpr (.inr ⟨path, hpath, other, hother, hdiffer⟩)
  rw [commonPath_eq_keptOff, if_pos hnil]

end RootFiles

/-! ## Suggestions of an audit -/

/-- The path of a file leads to it from the root. -/
theorem IsFilePath.isFile {store : Store} {root : Path} {place : List String} {path : String}
    (hroot : store.locate root = .ok place) (h : IsFilePath store.tree place path) :
    store.isFile (root.join (Path.ofString path)) = true := by
  obtain ⟨names, bytes, -, hnames, rfl, hfile⟩ := h
  exact (Store.isFile_under_iff hroot hnames).mpr ⟨bytes, hfile⟩

/-- Where an audit leaves a class that files in the root use. For a file tree, for every run that
succeeds with that category wanted and for every class that is not excluded, whose counted uses are
not none and all in files in the root:

* If the uses are all in one file, every definition of the class that is not excluded and is in a
  directory below the root is suggested to be moved from there to the root.
* If they are in two files, there is no suggestion for the class. -/
theorem relocations_to_root (settings : Settings) (root : Path) (config : Config)
    (session session' : Session) (report : AuditReport)
    (htree : session.store.tree.IsFileTree) (hwanted : config.checkDefinitionPaths = true)
    (hrun : (runAudit settings root config).run session = (.ok report, session')) :
    ∃ cssFiles frontFiles definitions uses exclusions suggestions,
      projectFiles settings session.store root config.cssFiles = .ok cssFiles
        ∧ projectFiles settings session.store root config.frontFiles = .ok frontFiles
        ∧ collectDefinitions settings session.store root cssFiles = .ok definitions
        ∧ collectUses settings session.store root frontFiles = .ok uses
        ∧ exclusions = config.exclusions.normalize (root.resolve session.store.here)
        ∧ report.findings.relocationSuggestions = some suggestions
        ∧ ∀ name, exclusions.excludesClass name = false →
          countedFiles exclusions uses name ≠ [] →
          (∀ path ∈ countedFiles exclusions uses name, LiesIn "" path) →
            ((∃ file, ∀ path ∈ countedFiles exclusions uses name, path = file) →
              ∀ definition ∈ definitions, definition.name = name →
                exclusions.excludes .move definition.path = false →
                ∀ directory, directory ≠ "" → LiesIn directory definition.path →
                  ⟨name, directory, "", countedFiles exclusions uses name⟩ ∈ suggestions)
            ∧ ((∃ path ∈ countedFiles exclusions uses name,
                ∃ other ∈ countedFiles exclusions uses name, path ≠ other) →
              ∀ finding ∈ suggestions, finding.name ≠ name) := by
  obtain ⟨place, cssFiles, frontFiles, definitions, uses, hroot, hcss, hfront, hdefinitions, huses,
    hsuggestions, hcssPaths, hfrontPaths⟩ := exists_suggestions_of_runAudit htree hwanted hrun
  refine ⟨cssFiles, frontFiles, definitions, uses, _, _, hcss, hfront, hdefinitions, huses, rfl,
    hsuggestions, ?_⟩
  intro name hclass hused hrootFiles
  constructor
  · intro h definition hmem hname hmove directory hdirectory hlies
    obtain ⟨file, hsame⟩ := h
    obtain ⟨path, hpath⟩ := List.exists_mem_of_ne_nil _ hused
    obtain rfl := hsame path hpath
    have hfile := (isFilePath_of_mem_countedFiles hfrontPaths hpath).isFile hroot
    have htarget := commonPath_of_root_file
      (fun path => session.store.isFile (root.join (Path.ofString path))) hused hsame
      (hrootFiles path hpath) hfile
    obtain rfl := (hcssPaths definition hmem).liesIn_iff.mp hlies
    refine mem_relocationSuggestions_iff.mpr ⟨definition, hmem, hmove, ?_, ?_, hdirectory.symm, ?_⟩
    · rwa [hname]
    · rwa [hname]
    · rw [hname]
  · intro h finding hfinding hname
    obtain ⟨path, hpath, other, hother, hne⟩ := h
    obtain ⟨definition, -, -, -, htarget, -, hfields⟩ :=
      mem_relocationSuggestions_iff.mp hfinding
    have hnone := commonPath_of_root_files
      (fun path => session.store.isFile (root.join (Path.ofString path))) hpath hother hne
      (hrootFiles path hpath) (hrootFiles other hother)
    have hdefined : definition.name = name := by
      rw [← hname, hfields]
    rw [hdefined, hnone] at htarget
    cases htarget

/-- A project with a class that one page in the root uses twice, and one that both pages use. -/
def rootPages : Session where
  store := {
    tree := .dir [("css", .dir [("a.css", .file ".a .b".toUTF8)]),
      ("x.html", .file "<p class='a b'><p class='a'>".toUTF8),
      ("y.html", .file "<p class='b'>".toUTF8)]
    here := [] }

/-- The definitions of the project with pages in the root. -/
def rootPagesDefinitions : List ClassOccurrence :=
  [⟨"a", 1, "css/a.css"⟩, ⟨"b", 1, "css/a.css"⟩]

/-- The uses of the project with pages in the root. -/
def rootPagesUses : List Occurrence :=
  [.named ⟨"a", 1, "x.html"⟩, .named ⟨"b", 1, "x.html"⟩, .named ⟨"a", 1, "x.html"⟩,
    .named ⟨"b", 1, "y.html"⟩]

theorem isFileTree_rootPages : rootPages.store.tree.IsFileTree := by
  have hname : ∀ name ∈ ["css", "a.css", "x.html", "y.html"], IsFileName name := by
    decide
  simp only [List.forall_mem_cons] at hname
  simp [rootPages, Tree.IsFileTree, Tree.HasNames, EntriesHaveNames, hname]

/-- A result is known by its value. -/
theorem eq_ok_of_toOption_eq_some {ε α : Type} {result : Except ε α} {value : α}
    (h : result.toOption = some value) : result = .ok value := by
  cases result with
  | error _ => cases h
  | ok _ => exact congrArg Except.ok (Option.some.inj h)

/-- What is found in the project with pages in the root. -/
theorem collected_rootPages :
    projectFiles {} rootPages.store (Path.fromRoot []) ({} : Config).cssFiles = .ok ["css/a.css"]
      ∧ projectFiles {} rootPages.store (Path.fromRoot []) ({} : Config).frontFiles
        = .ok ["x.html", "y.html"]
      ∧ collectDefinitions {} rootPages.store (Path.fromRoot []) ["css/a.css"]
        = .ok rootPagesDefinitions
      ∧ collectUses {} rootPages.store (Path.fromRoot []) ["x.html", "y.html"]
        = .ok rootPagesUses := by
  refine ⟨?_, ?_, ?_, ?_⟩ <;> exact eq_ok_of_toOption_eq_some (by decide +kernel)

theorem runAudit_rootPages : ∃ report session',
    (runAudit {} (Path.fromRoot []) {}).run rootPages = (.ok report, session')
      ∧ report.findings.relocationSuggestions
        = some [⟨"a", "css", "", ["x.html", "x.html"]⟩] := by
  obtain ⟨hcss, hfront, hdefinitions, huses⟩ := collected_rootPages
  obtain ⟨log, hrun⟩ := run_runAudit hcss hfront hdefinitions huses
  exact ⟨_, _, hrun, by decide +kernel⟩

theorem relocations_to_root_rootPages :
    rootPages.store.tree.IsFileTree ∧ ∃ report session' suggestions,
        (runAudit {} (Path.fromRoot []) {}).run rootPages = (.ok report, session')
        ∧ report.findings.relocationSuggestions = some suggestions
        ∧ ⟨"a", "css", "", ["x.html", "x.html"]⟩ ∈ suggestions
        ∧ ∀ finding ∈ suggestions, finding.name ≠ "b" := by
  obtain ⟨report, session', hrun, -⟩ := runAudit_rootPages
  obtain ⟨_, _, _, _, _, suggestions, hcss, hfront, hdefinitions, huses, rfl, hsuggestions,
      htoRoot⟩ :=
    relocations_to_root {} (Path.fromRoot []) {} rootPages session' report isFileTree_rootPages
      rfl hrun
  obtain ⟨hcss', hfront', hdefinitions', huses'⟩ := collected_rootPages
  obtain rfl := Except.ok.inj (hcss.symm.trans hcss')
  obtain rfl := Except.ok.inj (hfront.symm.trans hfront')
  obtain rfl := Except.ok.inj (hdefinitions.symm.trans hdefinitions')
  obtain rfl := Except.ok.inj (huses.symm.trans huses')
  have hx : LiesIn "" "x.html" := ⟨"x.html", by decide, by decide, rfl⟩
  have hy : LiesIn "" "y.html" := ⟨"y.html", by decide, by decide, rfl⟩
  have ha : countedFiles (({} : Config).exclusions.normalize
      ((Path.fromRoot []).resolve rootPages.store.here)) rootPagesUses "a"
        = ["x.html", "x.html"] := by
    decide +kernel
  have hb : countedFiles (({} : Config).exclusions.normalize
      ((Path.fromRoot []).resolve rootPages.store.here)) rootPagesUses "b"
        = ["x.html", "y.html"] := by
    decide +kernel
  have hmoved := htoRoot "a" (by decide +kernel)
  have hkept := htoRoot "b" (by decide +kernel)
  rw [ha] at hmoved
  rw [hb] at hkept
  refine ⟨isFileTree_rootPages, report, session', suggestions, hrun, hsuggestions, ?_, ?_⟩
  · exact (hmoved (List.cons_ne_nil _ _) (by simpa using hx)).1 ⟨"x.html", by simp⟩
      ⟨"a", 1, "css/a.css"⟩ (by decide) rfl (by decide +kernel) "css" (by decide)
      ⟨"a.css", by decide, by decide, by decide⟩
  · exact (hkept (List.cons_ne_nil _ _) (by simpa using ⟨hx, hy⟩)).2
      ⟨"x.html", by simp, "y.html", by simp, by decide⟩

/-- A class that two pages in the root use, and no others, is not suggested to be moved there. -/
theorem rootPages_stays : ∃ exclusions report session' suggestions,
    rootPages.store.tree.IsFileTree
      ∧ (runAudit {} (Path.fromRoot []) {}).run rootPages = (.ok report, session')
      ∧ report.findings.relocationSuggestions = some suggestions
      ∧ exclusions = ({} : Config).exclusions.normalize
        ((Path.fromRoot []).resolve rootPages.store.here)
      ∧ collectUses {} rootPages.store (Path.fromRoot []) ["x.html", "y.html"]
        = .ok rootPagesUses
      ∧ collectDefinitions {} rootPages.store (Path.fromRoot []) ["css/a.css"]
        = .ok rootPagesDefinitions
      ∧ exclusions.excludesClass "b" = false
      ∧ countedFiles exclusions rootPagesUses "b" = ["x.html", "y.html"]
      ∧ LiesIn "" "x.html" ∧ LiesIn "" "y.html"
      ∧ ⟨"b", 1, "css/a.css"⟩ ∈ rootPagesDefinitions
      ∧ exclusions.excludes .move "css/a.css" = false
      ∧ LiesIn "css" "css/a.css"
      ∧ ¬ ∃ finding ∈ suggestions,
        finding.name = "b" ∧ finding.source = "css" ∧ finding.target = "" := by
  obtain ⟨report, session', hrun, hsuggestions⟩ := runAudit_rootPages
  obtain ⟨-, -, hdefinitions, huses⟩ := collected_rootPages
  exact ⟨_, report, session', _, isFileTree_rootPages, hrun, hsuggestions, rfl, huses, hdefinitions,
    by decide +kernel, by decide +kernel, ⟨"x.html", by decide, by decide, rfl⟩,
    ⟨"y.html", by decide, by decide, rfl⟩, by decide, by decide +kernel,
    ⟨"a.css", by decide, by decide, by decide⟩, by decide⟩

end StyleAudit
