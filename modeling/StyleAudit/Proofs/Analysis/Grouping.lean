import StyleAudit.Proofs.Analysis.Places

/-!
# Findings in groups

Findings of a category are groups of places: under each name the files, under each file the lines.
Grouping neither loses nor invents a place and brings the groups to one order, whatever the places
(`groupsOf_lists_iff`, `groupsOf_ordered`). With the places from the occurrences this settles what a
run lists, and where (`findings_grouped`).
-/

namespace StyleAudit

/-! ## Groups of places -/

/-- The name and the locations of a finding. -/
def ClassFinding.group (finding : ClassFinding) : String × List FileLines :=
  (finding.name, finding.locations)

/-- The text and the locations of a finding. -/
def ExpressionFinding.group (finding : ExpressionFinding) : String × List FileLines :=
  (finding.text, finding.locations)

/-- Whether groups list a place: under its name, in its file, its line. -/
def Lists (groups : List (String × List FileLines)) (place : NamedPlace) : Prop :=
  ∃ locations, (place.name, locations) ∈ groups
    ∧ ∃ lines, ⟨place.path, lines⟩ ∈ locations ∧ place.line ∈ lines

/-- The order that groups of some places are in: one group for each name, the names as they first
appear; in each group its files, each once and as they first appear; for each file its lines in
strictly ascending order. Nothing is empty. -/
structure Ordered (places : List NamedPlace) (groups : List (String × List FileLines)) : Prop where
  names : InFirstOrder (places.map (·.name)) (groups.map (·.1))
  files : ∀ group ∈ groups,
    InFirstOrder ((places.filter fun place => place.name = group.1).map (·.path))
      (group.2.map (·.path))
  locations_ne_nil : ∀ group ∈ groups, group.2 ≠ []
  lines_ne_nil : ∀ group ∈ groups, ∀ file ∈ group.2, file.lines ≠ []
  lines_ascending : ∀ group ∈ groups, ∀ file ∈ group.2, file.lines.Pairwise (· < ·)

/-- The groups of some places. -/
def groupsOf (places : List NamedPlace) : List (String × List FileLines) :=
  (placesByName places).map fun entry => (entry.1, fileLines entry.2)

theorem map_group_classFindings (places : List NamedPlace) :
    (classFindings places).map ClassFinding.group = groupsOf places := by
  rw [classFindings, List.map_map]
  rfl

theorem map_fst_groupsOf (places : List NamedPlace) :
    (groupsOf places).map (·.1) = (placesByName places).map (·.1) := by
  rw [groupsOf, List.map_map]
  rfl

/-- The places gathered under a name are all the places of that name. -/
theorem mem_placesByName_iff {places here : List NamedPlace} {name : String} :
    (name, here) ∈ placesByName places ↔
      here ≠ [] ∧ here = places.filter fun place => place.name = name := by
  have hvalues : valuesAt (places.map fun place => (place.name, place)) name
      = places.filter fun place => place.name = name := by
    rw [valuesAt, List.filter_map, List.map_map]
    exact List.map_id _
  rw [placesByName, mem_collect_iff, hvalues]

theorem mem_groupsOf_iff {places : List NamedPlace} {name : String} {locations : List FileLines} :
    (name, locations) ∈ groupsOf places ↔
      (places.filter fun place => place.name = name) ≠ []
        ∧ locations = fileLines (places.filter fun place => place.name = name) := by
  simp only [groupsOf, List.mem_map, Prod.exists, Prod.mk.injEq, mem_placesByName_iff]
  constructor
  · rintro ⟨_, _, ⟨hne, rfl⟩, rfl, rfl⟩
    exact ⟨hne, rfl⟩
  · rintro ⟨hne, rfl⟩
    exact ⟨_, _, ⟨hne, rfl⟩, rfl, rfl⟩

theorem mem_fileLines_iff {places : List NamedPlace} {path : String} {lines : List Int} :
    ⟨path, lines⟩ ∈ fileLines places ↔
      (places.filter fun place => place.path = path) ≠ []
        ∧ lines = ascending ((places.filter fun place => place.path = path).map (·.line)) := by
  have hvalues (key : String) : valuesAt (places.map fun place => (place.path, place.line)) key
      = (places.filter fun place => place.path = key).map (·.line) := by
    rw [valuesAt, List.filter_map, List.map_map]
    rfl
  simp only [fileLines, List.mem_map, Prod.exists, FileLines.mk.injEq, mem_collect_iff, hvalues]
  constructor
  · rintro ⟨_, _, ⟨hne, rfl⟩, rfl, rfl⟩
    exact ⟨by simpa using hne, rfl⟩
  · rintro ⟨hne, rfl⟩
    exact ⟨_, _, ⟨by simpa using hne, rfl⟩, rfl, rfl⟩

theorem map_path_fileLines (places : List NamedPlace) :
    InFirstOrder (places.map (·.path)) ((fileLines places).map (·.path)) := by
  have hkeys := inFirstOrder_keys (places.map fun place => (place.path, place.line))
  rw [List.map_map] at hkeys
  rw [fileLines, List.map_map]
  exact hkeys

/-- Grouping neither loses nor invents a place. -/
theorem groupsOf_lists_iff {places : List NamedPlace} {place : NamedPlace} :
    Lists (groupsOf places) place ↔ place ∈ places := by
  constructor
  · rintro ⟨locations, hgroup, lines, hfile, hline⟩
    obtain ⟨-, rfl⟩ := mem_groupsOf_iff.mp hgroup
    obtain ⟨-, rfl⟩ := mem_fileLines_iff.mp hfile
    obtain ⟨found, hfound, hlineEq⟩ := List.mem_map.mp (mem_ascending.mp hline)
    simp only [List.mem_filter, decide_eq_true_eq] at hfound
    obtain ⟨⟨hmem, hname⟩, hpath⟩ := hfound
    have heq : found = place := by
      rw [NamedPlace.mk.injEq]
      exact ⟨hname, hpath, hlineEq⟩
    exact heq ▸ hmem
  · intro h
    have hname : place ∈ places.filter fun other => other.name = place.name := by simp [h]
    have hpath : place ∈ (places.filter fun other => other.name = place.name).filter fun other =>
        other.path = place.path := by simp [h]
    refine ⟨_, mem_groupsOf_iff.mpr ⟨List.ne_nil_of_mem hname, rfl⟩, _,
      mem_fileLines_iff.mpr ⟨List.ne_nil_of_mem hpath, rfl⟩, ?_⟩
    exact mem_ascending.mpr (List.mem_map_of_mem hpath)

/-- Groups are in order, whatever the places. -/
theorem groupsOf_ordered (places : List NamedPlace) : Ordered places (groupsOf places) where
  names := by
    have hkeys := inFirstOrder_keys (places.map fun place => (place.name, place))
    rw [List.map_map] at hkeys
    rw [map_fst_groupsOf]
    exact hkeys
  files := by
    rintro ⟨name, locations⟩ hgroup
    obtain ⟨-, rfl⟩ := mem_groupsOf_iff.mp hgroup
    exact map_path_fileLines _
  locations_ne_nil := by
    rintro ⟨name, locations⟩ hgroup
    obtain ⟨hne, rfl⟩ := mem_groupsOf_iff.mp hgroup
    obtain ⟨place, hplace⟩ := List.exists_mem_of_ne_nil _ hne
    have hpath := ((map_path_fileLines _).mem_iff place.path).mpr (List.mem_map_of_mem hplace)
    obtain ⟨file, hfile, -⟩ := List.mem_map.mp hpath
    exact List.ne_nil_of_mem hfile
  lines_ne_nil := by
    rintro ⟨name, locations⟩ hgroup ⟨path, lines⟩ hfile
    obtain ⟨-, rfl⟩ := mem_groupsOf_iff.mp hgroup
    obtain ⟨hne, rfl⟩ := mem_fileLines_iff.mp hfile
    obtain ⟨place, hplace⟩ := List.exists_mem_of_ne_nil _ hne
    exact List.ne_nil_of_mem (mem_ascending.mpr (List.mem_map_of_mem hplace))
  lines_ascending := by
    rintro ⟨name, locations⟩ hgroup ⟨path, lines⟩ hfile
    obtain ⟨-, rfl⟩ := mem_groupsOf_iff.mp hgroup
    obtain ⟨-, rfl⟩ := mem_fileLines_iff.mp hfile
    exact pairwise_ascending _

/-- A class is listed once. -/
theorem inFirstOrder_classFindings (places : List NamedPlace) :
    InFirstOrder (places.map (·.name)) ((classFindings places).map (·.name)) := by
  have hnames := (groupsOf_ordered places).names
  rwa [← map_group_classFindings, List.map_map] at hnames

/-! ## The groups of a run -/

/-- What a run with all categories lists as unused, as missing and as dynamic expressions: exactly
the places of the occurrences that qualify, in groups that are in order. -/
theorem findings_grouped (exclusions : Exclusions) (definitions : List ClassOccurrence)
    (uses : List Occurrence) (isFile : String → Bool) :
    ∃ findings unused missing expressions,
      ((Ledger.ofOccurrences exclusions definitions uses).run {} isFile).2 = .ok findings
        ∧ findings.unusedDefinitions = some unused
        ∧ findings.missingDefinitions = some missing
        ∧ findings.expressions = some expressions
        ∧ (∀ name path line, Lists (unused.map ClassFinding.group) ⟨name, path, line⟩ ↔
          ⟨name, line, path⟩ ∈ definitions ∧ IsUnused exclusions uses ⟨name, line, path⟩)
        ∧ (∀ name path line, Lists (missing.map ClassFinding.group) ⟨name, path, line⟩ ↔
          .named ⟨name, line, path⟩ ∈ uses
            ∧ IsMissing exclusions definitions ⟨name, line, path⟩)
        ∧ (∀ text path line, Lists (expressions.map ExpressionFinding.group) ⟨text, path, line⟩ ↔
          .dynamic ⟨text, line, path⟩ ∈ uses ∧ exclusions.excludes .front path = false)
        ∧ Ordered (unusedPlaces exclusions definitions uses) (unused.map ClassFinding.group)
        ∧ Ordered (missingPlaces exclusions definitions uses) (missing.map ClassFinding.group)
        ∧ Ordered (expressionPlaces exclusions uses) (expressions.map ExpressionFinding.group) := by
  have hunused : (pairwiseJoin exclusions definitions uses).unusedDefinitions.map
      ClassFinding.group = groupsOf (unusedPlaces exclusions definitions uses) := by
    rw [unusedDefinitions_pairwiseJoin, map_group_classFindings]
  have hmissing : (pairwiseJoin exclusions definitions uses).missingDefinitions.map
      ClassFinding.group = groupsOf (missingPlaces exclusions definitions uses) := by
    rw [missingDefinitions_pairwiseJoin, map_group_classFindings]
  have hexpressions : (pairwiseJoin exclusions definitions uses).expressions.map
      ExpressionFinding.group = groupsOf (expressionPlaces exclusions uses) := by
    rw [expressions_pairwiseJoin, List.map_map]
    rfl
  refine ⟨_, _, _, _, by rw [Ledger.run_ofOccurrences], rfl, rfl, rfl, ?_⟩
  rw [hunused, hmissing, hexpressions]
  refine ⟨?_, ?_, ?_, groupsOf_ordered _, groupsOf_ordered _, groupsOf_ordered _⟩
  · intro name path line
    rw [groupsOf_lists_iff, mem_unusedPlaces_iff]
  · intro name path line
    rw [groupsOf_lists_iff, mem_missingPlaces_iff]
  · intro text path line
    rw [groupsOf_lists_iff, mem_expressionPlaces_iff]

end StyleAudit
