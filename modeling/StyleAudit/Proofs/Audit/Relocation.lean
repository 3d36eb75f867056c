import StyleAudit.Proofs.Analysis.Suggestions
import StyleAudit.Proofs.Audit.Run
import StyleAudit.Proofs.Path.Common

/-!
# Where definitions are to be moved

An audit suggests to move a definition to the deepest directory that has all counted uses of its
class below it, whenever that is not where the definition is (`relocations_deepest`).

What the paths of some files share is not a file unless it is all of each of them
(`commonPath_isDeepestAbove`): nothing lies below a file. So to cut off one name is always enough,
and it never cuts off a directory.
-/

namespace StyleAudit

/-! ## Files of a project -/

/-- Whether a path is that of a file below a place of a tree. -/
def IsFilePath (tree : Tree) (place : List String) (path : String) : Prop :=
  ∃ names bytes, names ≠ [] ∧ (∀ name ∈ names, IsFileName name) ∧ path = "/".intercalate names
    ∧ tree.at? (place ++ names) = some (.file bytes)

/-- Whether a directory of a project is the deepest one that some paths lie below. -/
structure IsDeepestAbove (store : Store) (root : Path) (paths : List String) (directory : String) :
    Prop where
  isDirectory : store.isDir (root.join (Path.ofString directory)) = true
  above : ∀ path ∈ paths, LiesBelow directory path
  deepest : ∀ other, store.isDir (root.join (Path.ofString other)) = true →
    (∀ path ∈ paths, LiesBelow other path) → ¬ LiesBelow directory other

/-- The directories above a file lie below each other, so one of them is the deepest. -/
theorem IsDeepestAbove.unique {store : Store} {root : Path} {place paths : List String}
    {path directory other : String} (hpath : path ∈ paths)
    (hfile : IsFilePath store.tree place path)
    (h : IsDeepestAbove store root paths directory)
    (hother : IsDeepestAbove store root paths other) : directory = other := by
  obtain ⟨names, bytes, -, hnames, rfl, -⟩ := hfile
  obtain ⟨above, rest, -, hsplit, rfl⟩ := (liesBelow_iff hnames).mp (h.above _ hpath)
  obtain ⟨above', rest', -, hsplit', rfl⟩ := (liesBelow_iff hnames).mp (hother.above _ hpath)
  have hbelow {front back : List String} (hfront : front <+: back) (hback : back <+: names) :
      front = back ∨ LiesBelow ("/".intercalate front) ("/".intercalate back) := by
    obtain ⟨between, rfl⟩ := hfront
    by_cases hbetween : between = []
    · simp [hbetween]
    · right
      refine (liesBelow_iff fun name hname => hnames name (hback.subset hname)).mpr ?_
      exact ⟨front, between, hbetween, rfl, rfl⟩
  -- of two lists that the names start with, one is the start of the other
  have hstart : above <+: names := ⟨rest, hsplit.symm⟩
  have hstart' : above' <+: names := ⟨rest', hsplit'.symm⟩
  rcases List.prefix_or_prefix_of_prefix hstart hstart' with horder | horder
  · rcases hbelow horder hstart' with rfl | hless
    · rfl
    · exact absurd hless (h.deepest _ hother.isDirectory hother.above)
  · rcases hbelow horder hstart with rfl | hless
    · rfl
    · exact absurd hless (hother.deepest _ h.isDirectory h.above)

/-! ## What files share -/

/-- The names in the paths of some files below a place, one list for each file, and the names that
all of these lists start with. -/
structure FilesShare (tree : Tree) (place : List String) (places : List (List String))
    (shared : List String) : Prop where
  ne_nil : places ≠ []
  isFileName : ∀ names ∈ places, ∀ name ∈ names, IsFileName name
  file : ∀ names ∈ places, ∃ bytes, tree.at? (place ++ names) = some (.file bytes)
  isPrefix_iff : ∀ front, front <+: shared ↔ ∀ names ∈ places, front <+: names

/-- The deepest place of a directory that some places lie below, seen from a place of the tree. -/
structure IsTop (tree : Tree) (place : List String) (places : List (List String))
    (top : List String) : Prop where
  isDirectory : ∃ entries, tree.at? (place ++ top) = some (.dir entries)
  above : ∀ names ∈ places, ∃ rest, rest ≠ [] ∧ names = top ++ rest
  greatest : ∀ above, (∀ names ∈ places, ∃ rest, rest ≠ [] ∧ names = above ++ rest) → above <+: top

namespace FilesShare

variable {tree : Tree} {place shared : List String} {places : List (List String)}
  {paths : List String}

/-- What the paths of files have in common is read from the names that they share. -/
theorem of_isFilePath (isFile : String → Bool) (hne : paths ≠ [])
    (hpaths : ∀ path ∈ paths, IsFilePath tree place path) :
    ∃ places shared, FilesShare tree place places shared
      ∧ paths = places.map "/".intercalate
      ∧ commonPath isFile paths = if shared = [] then none
        else some ("/".intercalate (keptOff isFile shared)) := by
  have hsegments : (paths.map slashSegments).map "/".intercalate = paths := by
    rw [List.map_map]
    simp [Function.comp_def, intercalate_slashSegments]
  have hplaces : ∀ names ∈ paths.map slashSegments, names ≠ []
      ∧ (∀ name ∈ names, IsFileName name)
      ∧ ∃ bytes, tree.at? (place ++ names) = some (.file bytes) := by
    intro names hmem
    obtain ⟨path, hpath, rfl⟩ := List.mem_map.mp hmem
    obtain ⟨names, bytes, hmore, hnames, rfl, hfile⟩ := hpaths path hpath
    rw [slashSegments_intercalate hmore fun name hname => (hnames name hname).no_slash]
    exact ⟨hmore, hnames, bytes, hfile⟩
  have hne' : paths.map slashSegments ≠ [] := by simpa using hne
  obtain ⟨shared, hshared, hcommon⟩ := commonPath_map_intercalate isFile hne' fun names hmem =>
    ⟨(hplaces names hmem).1, fun name hname => ((hplaces names hmem).2.1 name hname).no_slash⟩
  rw [hsegments] at hcommon
  exact ⟨_, shared, ⟨hne', fun names hmem => (hplaces names hmem).2.1,
    fun names hmem => (hplaces names hmem).2.2, hshared⟩, hsegments.symm, hcommon⟩

theorem isPrefix (h : FilesShare tree place places shared) {names : List String}
    (hmem : names ∈ places) : shared <+: names :=
  (h.isPrefix_iff shared).mp (List.prefix_refl _) names hmem

/-- The names that are shared are names of files. -/
theorem isFileName_of_mem (h : FilesShare tree place places shared) :
    ∀ name ∈ shared, IsFileName name := by
  obtain ⟨names, hmem⟩ := List.exists_mem_of_ne_nil _ h.ne_nil
  exact fun name hname => h.isFileName names hmem name ((h.isPrefix hmem).subset hname)

/-- A directory that all of the files lie below has names that their paths start with. -/
theorem exists_above (h : FilesShare tree place places shared) {directory : String}
    (hbelow : ∀ path ∈ places.map "/".intercalate, LiesBelow directory path) :
    ∃ above, directory = "/".intercalate above
      ∧ (∀ name ∈ above, IsFileName name)
      ∧ ∀ names ∈ places, ∃ rest, rest ≠ [] ∧ names = above ++ rest := by
  obtain ⟨first, hfirst⟩ := List.exists_mem_of_ne_nil _ h.ne_nil
  obtain ⟨above, rest, -, hsplit, rfl⟩ :=
    (liesBelow_iff (h.isFileName first hfirst)).mp (hbelow _ (List.mem_map_of_mem hfirst))
  have habove : ∀ name ∈ above, IsFileName name := fun name hname =>
    h.isFileName first hfirst name (hsplit ▸ List.mem_append_left _ hname)
  refine ⟨above, rfl, habove, fun names hmem => ?_⟩
  exact (liesBelow_intercalate_iff habove (h.isFileName names hmem)).mp
    (hbelow _ (List.mem_map_of_mem hmem))

/-- Where the shared place is a file's, it is the place of all of them, so the directory of that
file is the deepest one. -/
theorem isTop_of_file (h : FilesShare tree place places shared) {bytes : ByteArray}
    (hmore : shared ≠ []) (hfile : tree.at? (place ++ shared) = some (.file bytes)) :
    IsTop tree place places shared.dropLast := by
  have hlast : shared.dropLast ++ [shared.getLast hmore] = shared :=
    List.dropLast_append_getLast hmore
  have hall : ∀ names ∈ places, names = shared := by
    intro names hmem
    obtain ⟨rest, rfl⟩ := h.isPrefix hmem
    obtain ⟨found, hfound⟩ := h.file _ hmem
    rw [← List.append_assoc] at hfound
    rw [Tree.eq_nil_of_at?_append hfile hfound, List.append_nil]
  refine ⟨?_, ?_, ?_⟩
  · rw [← hlast, ← List.append_assoc] at hfile
    exact Tree.exists_dir_of_at?_append (List.cons_ne_nil _ _) hfile
  · intro names hmem
    exact ⟨_, List.cons_ne_nil _ _, (hall names hmem).trans hlast.symm⟩
  · intro above habove
    obtain ⟨names, hmem⟩ := List.exists_mem_of_ne_nil _ h.ne_nil
    obtain ⟨rest, hrest, hsplit⟩ := habove names hmem
    rw [← hall names hmem, hsplit, List.dropLast_append_of_ne_nil hrest]
    exact List.prefix_append _ _

/-- Where the shared place is no file's, it is above all of the files. -/
theorem isTop_of_not_file (h : FilesShare tree place places shared)
    (hfile : ¬ ∃ bytes, tree.at? (place ++ shared) = some (.file bytes)) :
    IsTop tree place places shared := by
  have habove : ∀ names ∈ places, ∃ rest, rest ≠ [] ∧ names = shared ++ rest := by
    intro names hmem
    obtain ⟨rest, rfl⟩ := h.isPrefix hmem
    refine ⟨rest, ?_, rfl⟩
    rintro rfl
    exact hfile (by simpa using h.file _ hmem)
  refine ⟨?_, habove, ?_⟩
  · obtain ⟨names, hmem⟩ := List.exists_mem_of_ne_nil _ h.ne_nil
    obtain ⟨rest, hrest, rfl⟩ := habove names hmem
    obtain ⟨bytes, hfound⟩ := h.file _ hmem
    rw [← List.append_assoc] at hfound
    exact Tree.exists_dir_of_at?_append hrest hfound
  · intro above hall
    refine (h.isPrefix_iff above).mpr fun names hmem => ?_
    obtain ⟨rest, -, rfl⟩ := hall names hmem
    exact List.prefix_append _ _

end FilesShare

section Deepest

variable {store : Store} {root : Path} {place : List String} {paths : List String}

/-- The deepest place above some files is that of the deepest directory above them. -/
theorem IsTop.isDeepestAbove {places : List (List String)} {shared top : List String}
    (hroot : store.locate root = .ok place) (hplaces : FilesShare store.tree place places shared)
    (h : IsTop store.tree place places top) :
    IsDeepestAbove store root (places.map "/".intercalate) ("/".intercalate top) := by
  have htop : ∀ name ∈ top, IsFileName name := by
    obtain ⟨names, hmem⟩ := List.exists_mem_of_ne_nil _ hplaces.ne_nil
    obtain ⟨rest, -, rfl⟩ := h.above names hmem
    exact fun name hname => hplaces.isFileName _ hmem name (List.mem_append_left _ hname)
  refine ⟨(Store.isDir_under_iff hroot htop).mpr h.isDirectory, ?_, ?_⟩
  · intro path hpath
    obtain ⟨names, hmem, rfl⟩ := List.mem_map.mp hpath
    obtain ⟨rest, hrest, hsplit⟩ := h.above names hmem
    exact (liesBelow_iff (hplaces.isFileName names hmem)).mpr ⟨top, rest, hrest, hsplit, rfl⟩
  · intro other _ hother hless
    obtain ⟨above, rfl, habove, hall⟩ := hplaces.exists_above hother
    have hstart : above <+: top := h.greatest above hall
    obtain ⟨rest, hrest, rfl⟩ := (liesBelow_intercalate_iff htop habove).mp hless
    have hlength := hstart.length_le
    rw [List.length_append] at hlength
    exact hrest (List.length_eq_zero_iff.mp (by omega))

/-- The directory that files have in common is the deepest one above all of them. -/
theorem commonPath_isDeepestAbove {target : String} (hroot : store.locate root = .ok place)
    (hfiles : ∀ path ∈ paths, IsFilePath store.tree place path)
    (h : commonPath (fun path => store.isFile (root.join (Path.ofString path))) paths
      = some target) : IsDeepestAbove store root paths target := by
  have hne : paths ≠ [] := by
    rintro rfl
    simp [commonPath] at h
  obtain ⟨places, shared, hplaces, rfl, hcommon⟩ := FilesShare.of_isFilePath
    (fun path => store.isFile (root.join (Path.ofString path))) hne hfiles
  rw [h] at hcommon
  by_cases hmore : shared = []
  · simp [hmore] at hcommon
  · rw [if_neg hmore, Option.some.injEq] at hcommon
    rw [hcommon]
    refine IsTop.isDeepestAbove hroot hplaces ?_
    -- a name is cut off only if all of the files are one
    unfold keptOff
    split
    · next hfile =>
      obtain ⟨bytes, hbytes⟩ := (Store.isFile_under_iff hroot hplaces.isFileName_of_mem).mp hfile
      exact hplaces.isTop_of_file hmore hbytes
    · next hfile =>
      rw [Store.isFile_under_iff hroot hplaces.isFileName_of_mem] at hfile
      exact hplaces.isTop_of_not_file hfile

/-- Files below a directory other than the root have a directory in common. -/
theorem commonPath_ne_none {directory : String} (isFile : String → Bool) (hne : paths ≠ [])
    (hfiles : ∀ path ∈ paths, IsFilePath store.tree place path) (hdirectory : directory ≠ "")
    (h : ∀ path ∈ paths, LiesBelow directory path) : commonPath isFile paths ≠ none := by
  obtain ⟨places, shared, hplaces, rfl, hcommon⟩ := FilesShare.of_isFilePath isFile hne hfiles
  obtain ⟨above, rfl, -, hall⟩ := hplaces.exists_above h
  have hstart : above <+: shared := by
    refine (hplaces.isPrefix_iff above).mpr fun names hmem => ?_
    obtain ⟨rest, -, rfl⟩ := hall names hmem
    exact List.prefix_append _ _
  have hmore : shared ≠ [] := by
    rintro rfl
    exact hdirectory (by rw [List.prefix_nil.mp hstart]; rfl)
  rw [hcommon, if_neg hmore]
  exact Option.some_ne_none _

end Deepest

/-! ## The suggestions of an audit -/

/-- The files of a project are files below its root. -/
theorem isFilePath_of_mem_projectFiles {settings : Settings} {store : Store} {root : Path}
    {suffixes paths place : List String} {path : String} (htree : store.tree.IsFileTree)
    (hroot : store.locate root = .ok place)
    (hfiles : projectFiles settings store root suffixes = .ok paths) (hmem : path ∈ paths) :
    IsFilePath store.tree place path :=
  exists_place_of_mem_scan _ htree hroot (projectFiles_eq_ok_iff.mp hfiles) hmem

theorem exists_place_of_projectFiles {settings : Settings} {store : Store} {root : Path}
    {suffixes paths : List String}
    (hfiles : projectFiles settings store root suffixes = .ok paths) :
    ∃ place, store.locate root = .ok place := by
  obtain ⟨place, -, hroot, -⟩ := scan_eq_ok _ (projectFiles_eq_ok_iff.mp hfiles)
  exact ⟨place, hroot⟩

section Joined

variable {store : Store} {root : Path} {place : List String} {exclusions : Exclusions}
  {definitions : List ClassOccurrence} {uses : List Occurrence}

theorem isFilePath_of_mem_countedFiles {name path : String}
    (huses : ∀ use ∈ uses, IsFilePath store.tree place use.path)
    (hpath : path ∈ countedFiles exclusions uses name) : IsFilePath store.tree place path := by
  obtain ⟨use, huse, rfl⟩ := List.mem_map.mp hpath
  exact huses use (List.mem_of_mem_filter huse)

theorem IsFilePath.liesIn_iff {path directory : String} (h : IsFilePath store.tree place path) :
    LiesIn directory path ↔ directory = parentDir path := by
  obtain ⟨names, bytes, hne, hnames, rfl, -⟩ := h
  exact liesIn_iff_eq_parentDir hne hnames

variable (hroot : store.locate root = .ok place)
  (hdefinitions : ∀ definition ∈ definitions, IsFilePath store.tree place definition.path)
  (huses : ∀ use ∈ uses, IsFilePath store.tree place use.path)
include hroot hdefinitions huses

/-- What a joined ledger suggests, if its occurrences are in files of the project. -/
theorem isDeepestAbove_of_mem_relocationSuggestions {finding : RelocationFinding}
    (h : finding ∈ (pairwiseJoin exclusions definitions uses).relocationSuggestions fun path =>
      store.isFile (root.join (Path.ofString path))) :
    finding.uses = countedFiles exclusions uses finding.name
      ∧ finding.uses ≠ []
      ∧ IsDeepestAbove store root finding.uses finding.target
      ∧ finding.target ≠ finding.source
      ∧ ∃ definition ∈ definitions, definition.name = finding.name
        ∧ LiesIn finding.source definition.path := by
  obtain ⟨definition, hmem, -, -, htarget, hmove, hfields⟩ := mem_relocationSuggestions_iff.mp h
  have hname : finding.name = definition.name := by rw [hfields]
  have hcounted : finding.uses = countedFiles exclusions uses finding.name := by rw [hfields]
  have hsource : finding.source = parentDir definition.path := by rw [hfields]
  rw [← hname, ← hcounted] at htarget
  refine ⟨hcounted, ?_, ?_, hsource ▸ hmove, definition, hmem, hname.symm,
    (hdefinitions definition hmem).liesIn_iff.mpr hsource⟩
  · intro hnone
    simp [hnone, commonPath] at htarget
  · refine commonPath_isDeepestAbove hroot (fun path hpath => ?_) htarget
    exact isFilePath_of_mem_countedFiles huses (hcounted ▸ hpath)

/-- What a joined ledger does not fail to suggest, and does not suggest twice. -/
theorem filter_relocationSuggestions_of_isDeepestAbove {definition : ClassOccurrence}
    {source target : String} (hmem : definition ∈ definitions)
    (hmove : exclusions.excludes .move definition.path = false)
    (hclass : exclusions.excludesClass definition.name = false)
    (hused : countedFiles exclusions uses definition.name ≠ [])
    (hsource : LiesIn source definition.path)
    (htarget : IsDeepestAbove store root (countedFiles exclusions uses definition.name) target)
    (htop : target ≠ "") (hdiffer : target ≠ source) :
    (((pairwiseJoin exclusions definitions uses).relocationSuggestions fun path =>
        store.isFile (root.join (Path.ofString path))).filter fun finding =>
          finding.name = definition.name ∧ finding.source = source ∧ finding.target = target)
      = [⟨definition.name, source, target, countedFiles exclusions uses definition.name⟩] := by
  obtain rfl := (hdefinitions definition hmem).liesIn_iff.mp hsource
  have hfiles : ∀ path ∈ countedFiles exclusions uses definition.name,
      IsFilePath store.tree place path := fun path hpath =>
    isFilePath_of_mem_countedFiles huses hpath
  have hcommon : commonPath (fun path => store.isFile (root.join (Path.ofString path)))
      (countedFiles exclusions uses definition.name) = some target := by
    obtain ⟨found, hfound⟩ := Option.ne_none_iff_exists'.mp
      (commonPath_ne_none _ hused hfiles htop htarget.above)
    obtain ⟨path, hpath⟩ := List.exists_mem_of_ne_nil _ hused
    have hsame : target = found := htarget.unique hpath (hfiles path hpath)
      (commonPath_isDeepestAbove hroot hfiles hfound)
    rw [hsame]
    exact hfound
  have hsuggested : (⟨definition.name, parentDir definition.path, target,
      countedFiles exclusions uses definition.name⟩ : RelocationFinding)
      ∈ (pairwiseJoin exclusions definitions uses).relocationSuggestions fun path =>
        store.isFile (root.join (Path.ofString path)) :=
    mem_relocationSuggestions_iff.mpr ⟨definition, hmem, hmove, hclass, hcommon, hdiffer, rfl⟩
  exact filter_relocationSuggestions hsuggested

end Joined

/-- What the suggestions of an audit are made of. -/
theorem exists_suggestions_of_runAudit {settings : Settings} {root : Path} {config : Config}
    {session session' : Session} {report : AuditReport}
    (htree : session.store.tree.IsFileTree) (hwanted : config.checkDefinitionPaths = true)
    (hrun : (runAudit settings root config).run session = (.ok report, session')) :
    ∃ place cssFiles frontFiles definitions uses,
      session.store.locate root = .ok place
        ∧ projectFiles settings session.store root config.cssFiles = .ok cssFiles
        ∧ projectFiles settings session.store root config.frontFiles = .ok frontFiles
        ∧ collectDefinitions settings session.store root cssFiles = .ok definitions
        ∧ collectUses settings session.store root frontFiles = .ok uses
        ∧ report.findings.relocationSuggestions
          = some ((pairwiseJoin (config.exclusions.normalize (root.resolve session.store.here))
            definitions uses).relocationSuggestions fun path =>
              session.store.isFile (root.join (Path.ofString path)))
        ∧ (∀ definition ∈ definitions, IsFilePath session.store.tree place definition.path)
        ∧ ∀ use ∈ uses, IsFilePath session.store.tree place use.path := by
  obtain ⟨cssFiles, frontFiles, definitions, uses, hcss, hfront, hdefinitions, huses, -, rfl⟩ :=
    runAudit_eq_ok hrun
  obtain ⟨place, hroot⟩ := exists_place_of_projectFiles hcss
  refine ⟨place, cssFiles, frontFiles, definitions, uses, hroot, hcss, hfront, hdefinitions, huses,
    ?_, ?_, ?_⟩
  · simp only [Config.ledger, Ledger.join_ofOccurrences, Ledger.findings, Config.analysisOptions,
      hwanted, if_true]
  · intro definition hmem
    exact isFilePath_of_mem_projectFiles htree hroot hcss
      (path_mem_of_mem_collectDefinitions hdefinitions hmem)
  · intro use hmem
    exact isFilePath_of_mem_projectFiles htree hroot hfront
      (path_mem_of_mem_collectUses huses hmem)

/-- The suggestions of an audit to move a definition are right, and there are no others. For a file
tree, and for every run that succeeds with that category wanted:

* A suggestion lists the counted uses of its class, of which there are some. Its target is the
  deepest directory above all of them, and differs from its source, the directory of a scanned
  stylesheet with a definition of the class.
* There is exactly one suggestion to move a class from a directory to another, listing the counted
  uses of the class, if a definition of the class in the one directory is not excluded, the class
  has counted uses and the other directory is the deepest above all of them and not the root. -/
theorem relocations_deepest (settings : Settings) (root : Path) (config : Config)
    (session session' : Session) (report : AuditReport)
    (htree : session.store.tree.IsFileTree) (hwanted : config.checkDefinitionPaths = true)
    (hrun : (runAudit settings root config).run session = (.ok report, session')) :
    ∃ cssFiles frontFiles definitions uses exclusions suggestions,
      projectFiles settings session.store root config.cssFiles = .ok cssFiles
        ∧ projectFiles settings session.store root config.frontFiles = .ok frontFiles
        ∧ collectDefinitions settings session.store root cssFiles = .ok definitions
        ∧ collectUses settings session.store root frontFiles = .ok uses
        ∧ exclusions = config.exclusions.normalize (root.resolve session.store.here)
        ∧ report.findings.relocationSuggestions = some suggestions
        ∧ (∀ finding ∈ suggestions,
          finding.uses = countedFiles exclusions uses finding.name
            ∧ finding.uses ≠ []
            ∧ IsDeepestAbove session.store root finding.uses finding.target
            ∧ finding.target ≠ finding.source
            ∧ ∃ definition ∈ definitions, definition.name = finding.name
              ∧ definition.path ∈ cssFiles ∧ LiesIn finding.source definition.path)
        ∧ ∀ definition ∈ definitions, ∀ source target,
          exclusions.excludes .move definition.path = false →
          exclusions.excludesClass definition.name = false →
          countedFiles exclusions uses definition.name ≠ [] →
          LiesIn source definition.path →
          IsDeepestAbove session.store root (countedFiles exclusions uses definition.name) target →
          target ≠ "" → target ≠ source →
            (suggestions.filter fun finding =>
              finding.name = definition.name ∧ finding.source = source ∧ finding.target = target)
            = [⟨definition.name, source, target, countedFiles exclusions uses definition.name⟩] := by
  obtain ⟨place, cssFiles, frontFiles, definitions, uses, hroot, hcss, hfront, hdefinitions, huses,
    hsuggestions, hcssPaths, hfrontPaths⟩ := exists_suggestions_of_runAudit htree hwanted hrun
  refine ⟨cssFiles, frontFiles, definitions, uses, _, _, hcss, hfront, hdefinitions, huses, rfl,
    hsuggestions, ?_, ?_⟩
  · intro finding hfinding
    obtain ⟨hcounted, hused, hdeepest, hdiffer, definition, hmem, hname, hsource⟩ :=
      isDeepestAbove_of_mem_relocationSuggestions hroot hcssPaths hfrontPaths hfinding
    exact ⟨hcounted, hused, hdeepest, hdiffer, definition, hmem, hname,
      path_mem_of_mem_collectDefinitions hdefinitions hmem, hsource⟩
  · intro definition hmem source target hmove hclass hused hsource htarget htop hdiffer
    exact filter_relocationSuggestions_of_isDeepestAbove hroot hcssPaths hfrontPaths hmem hmove
      hclass hused hsource htarget htop hdiffer

/-- A project with a class that one file below two directories uses twice, and one that files in
different directories use. -/
def nestedProject : Session where
  store := {
    tree := .dir [("css", .dir [("a.css", .file ".a .b\n.c".toUTF8)]),
      ("pages", .dir [("one", .dir [("p.html", .file "<p class='a b'><p class='a'>".toUTF8)]),
        ("q.html", .file "<p class='b'>".toUTF8)])]
    here := [] }

/-- Where the classes of the nested project are to be moved. -/
def nestedSuggestions : List RelocationFinding :=
  [⟨"a", "css", "pages/one", ["pages/one/p.html", "pages/one/p.html"]⟩,
    ⟨"b", "css", "pages", ["pages/one/p.html", "pages/q.html"]⟩]

set_option maxRecDepth 10000 in
theorem relocations_deepest_nestedProject :
    nestedProject.store.tree.IsFileTree ∧ ∃ report session',
        (runAudit {} (Path.fromRoot []) {}).run nestedProject = (.ok report, session')
        ∧ report.findings.relocationSuggestions = some nestedSuggestions
        ∧ ∀ finding ∈ nestedSuggestions,
          IsDeepestAbove nestedProject.store (Path.fromRoot []) finding.uses finding.target := by
  have htree : nestedProject.store.tree.IsFileTree := by
    have hname : ∀ name ∈ ["css", "a.css", "pages", "one", "p.html", "q.html"],
        IsFileName name := by
      decide
    simp only [List.forall_mem_cons] at hname
    simp [nestedProject, Tree.IsFileTree, Tree.HasNames, EntriesHaveNames, hname]
  have houtcome : ((runAudit {} (Path.fromRoot []) {}).run nestedProject).1.toOption.map
      (·.findings.relocationSuggestions) = some (some nestedSuggestions) := by
    decide +kernel
  rcases hrun : (runAudit {} (Path.fromRoot []) {}).run nestedProject with ⟨outcome, session'⟩
  rw [hrun] at houtcome
  cases outcome with
  | error failure => cases houtcome
  | ok report =>
    have hreport : report.findings.relocationSuggestions = some nestedSuggestions :=
      Option.some.inj houtcome
    obtain ⟨_, _, _, _, _, suggestions, -, -, -, -, -, hsuggestions, hright, -⟩ :=
      relocations_deepest {} (Path.fromRoot []) {} nestedProject session' report htree
        rfl hrun
    obtain rfl := Option.some.inj (hreport.symm.trans hsuggestions)
    exact ⟨htree, report, session', rfl, hreport,
      fun finding hmem => (hright finding hmem).2.2.1⟩

end StyleAudit
