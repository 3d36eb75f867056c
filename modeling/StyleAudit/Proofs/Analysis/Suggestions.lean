import Mathlib.Data.List.Nodup
import StyleAudit.Proofs.Analysis.Grouping

/-!
# Suggestions to move a definition

A joined ledger suggests to move a definition if the files of the uses that count for its class have
a directory in common and that is not the definition's own (`mem_relocationSuggestions_iff`). The
files belong to the class, so a class and a directory it is defined in are in one suggestion at most
(`eq_of_origin_eq`). With the order of the suggestions this says which there are
(`suggestions_by_origin`).
-/

namespace StyleAudit

/-- The class and the directory of a definition. -/
def ClassOccurrence.home (definition : ClassOccurrence) : String × String :=
  (definition.name, parentDir definition.path)

/-- The class of a suggestion and the directory it is to leave. -/
def RelocationFinding.origin (finding : RelocationFinding) : String × String :=
  (finding.name, finding.source)

/-- The files of all uses that count for a class, in the order of the uses and with repetitions. -/
def countedFiles (exclusions : Exclusions) (uses : List Occurrence) (name : String) : List String :=
  (uses.filter (countsFor exclusions name)).map (·.path)

section Suggestions

variable {exclusions : Exclusions} {definitions : List ClassOccurrence} {uses : List Occurrence}
  {isFile : String → Bool} {finding : RelocationFinding}

/-- When a definition is to be moved, and what is said then. -/
theorem relocation?_eq_some_iff {definition : ClassOccurrence} :
    (pairwiseJoin exclusions definitions uses).relocation? isFile
        ⟨definition, some (matchingUses exclusions uses definition)⟩ = some finding
      ↔ exclusions.excludes .move definition.path = false
        ∧ exclusions.excludesClass definition.name = false
        ∧ commonPath isFile (countedFiles exclusions uses definition.name) = some finding.target
        ∧ finding.target ≠ parentDir definition.path
        ∧ finding = ⟨definition.name, parentDir definition.path, finding.target,
          countedFiles exclusions uses definition.name⟩ := by
  have hjoin : (pairwiseJoin exclusions definitions uses).exclusions = exclusions := rfl
  simp only [Ledger.relocation?, hjoin, Record.files, Option.getD_some]
  cases hmove : exclusions.excludes .move definition.path with
  | true => simp
  | false =>
    cases hclass : exclusions.excludesClass definition.name with
    | true => simp
    | false =>
      have hfiles : matchingUses exclusions uses definition
          = countedFiles exclusions uses definition.name := by
        simp [matchingUses, countedFiles, hclass]
      rw [hfiles]
      simp only [Bool.or_false, true_and, List.isEmpty_iff]
      cases htarget : commonPath isFile (countedFiles exclusions uses definition.name) with
      | none => simp
      | some target =>
        -- there is no common directory of no files
        have hused : countedFiles exclusions uses definition.name ≠ [] := by
          intro hempty
          simp [hempty, commonPath] at htarget
        by_cases hsource : target = parentDir definition.path
        · simp only [hused, hsource, if_false, if_true, Option.some.injEq]
          constructor
          · intro hnone
            cases hnone
          · rintro ⟨htarget, hother, -⟩
            exact absurd htarget.symm hother
        · simp only [hused, hsource, if_false, Option.some.injEq]
          constructor
          · rintro rfl
            exact ⟨rfl, hsource, rfl⟩
          · rintro ⟨rfl, -, hfinding⟩
            exact hfinding.symm

theorem mem_relocationSuggestions_iff :
    finding ∈ (pairwiseJoin exclusions definitions uses).relocationSuggestions isFile
      ↔ ∃ definition ∈ definitions, exclusions.excludes .move definition.path = false
        ∧ exclusions.excludesClass definition.name = false
        ∧ commonPath isFile (countedFiles exclusions uses definition.name) = some finding.target
        ∧ finding.target ≠ parentDir definition.path
        ∧ finding = ⟨definition.name, parentDir definition.path, finding.target,
          countedFiles exclusions uses definition.name⟩ := by
  rw [Ledger.relocationSuggestions, List.mem_eraseDups, List.mem_filterMap]
  constructor
  · rintro ⟨record, hrecord, hfinding⟩
    obtain ⟨definition, hmem, rfl⟩ := List.mem_map.mp hrecord
    exact ⟨definition, hmem, relocation?_eq_some_iff.mp hfinding⟩
  · rintro ⟨definition, hmem, hmoved⟩
    exact ⟨_, List.mem_map_of_mem hmem, relocation?_eq_some_iff.mpr hmoved⟩

/-- Two suggestions differ in the class or in the directory it is to leave: the other two parts
depend on these. -/
theorem eq_of_origin_eq {other : RelocationFinding}
    (h : finding ∈ (pairwiseJoin exclusions definitions uses).relocationSuggestions isFile)
    (hother : other ∈ (pairwiseJoin exclusions definitions uses).relocationSuggestions isFile)
    (hsame : finding.origin = other.origin) : finding = other := by
  obtain ⟨first, -, -, -, htarget, -, hfirst⟩ := mem_relocationSuggestions_iff.mp h
  obtain ⟨second, -, -, -, htarget', -, hsecond⟩ := mem_relocationSuggestions_iff.mp hother
  obtain ⟨hname, hsource⟩ := Prod.mk.inj hsame
  have hclass : first.name = second.name := by rwa [hfirst, hsecond] at hname
  have htargets : finding.target = other.target := by
    rw [hclass, htarget'] at htarget
    exact (Option.some.inj htarget).symm
  have huses : finding.uses = other.uses := by rw [hfirst, hsecond, hclass]
  rw [RelocationFinding.mk.injEq]
  exact ⟨hname, hsource, htargets, huses⟩

/-- A class, a directory it is defined in and a directory to move it to are in one suggestion. -/
theorem filter_relocationSuggestions
    (h : finding ∈ (pairwiseJoin exclusions definitions uses).relocationSuggestions isFile) :
    (((pairwiseJoin exclusions definitions uses).relocationSuggestions isFile).filter fun other =>
        other.name = finding.name ∧ other.source = finding.source ∧ other.target = finding.target)
      = [finding] := by
  have hnodup : ((pairwiseJoin exclusions definitions uses).relocationSuggestions isFile).Nodup :=
    nodup_eraseDups _
  refine List.perm_singleton.mp ((List.perm_ext_iff_of_nodup (hnodup.filter _)
    (List.nodup_singleton finding)).mpr fun other => ?_)
  rw [List.mem_filter, List.mem_singleton, decide_eq_true_iff]
  constructor
  · rintro ⟨hother, hname, hsource, -⟩
    exact eq_of_origin_eq hother h (Prod.ext hname hsource)
  · rintro rfl
    exact ⟨h, rfl, rfl, rfl⟩

end Suggestions

/-! ## Classes and the directories they are to leave -/

section Origins

variable (exclusions : Exclusions) (definitions : List ClassOccurrence) (uses : List Occurrence)
  (isFile : String → Bool)

/-- Whether a definition is to be moved: neither it nor its class is excluded, the class has uses
that count, and these have a directory in common that is not the definition's own. -/
def IsMovable (definition : ClassOccurrence) : Prop :=
  exclusions.excludes .move definition.path = false
    ∧ exclusions.excludesClass definition.name = false
    ∧ countedFiles exclusions uses definition.name ≠ []
    ∧ commonPath isFile (countedFiles exclusions uses definition.name) ≠ none
    ∧ commonPath isFile (countedFiles exclusions uses definition.name)
      ≠ some (parentDir definition.path)

instance : DecidablePred (IsMovable exclusions uses isFile) := fun definition =>
  inferInstanceAs (Decidable (exclusions.excludes .move definition.path = false
    ∧ exclusions.excludesClass definition.name = false
    ∧ countedFiles exclusions uses definition.name ≠ []
    ∧ commonPath isFile (countedFiles exclusions uses definition.name) ≠ none
    ∧ commonPath isFile (countedFiles exclusions uses definition.name)
      ≠ some (parentDir definition.path)))

theorem relocationSuggestions_pairwiseJoin :
    (pairwiseJoin exclusions definitions uses).relocationSuggestions isFile
      = (definitions.filterMap fun definition =>
          (pairwiseJoin exclusions definitions uses).relocation? isFile
            ⟨definition, some (matchingUses exclusions uses definition)⟩).eraseDups := by
  rw [Ledger.relocationSuggestions]
  congr 1
  exact List.filterMap_map

/-- There is a suggestion for a definition if it is to be moved; it names the class of the
definition and its directory. -/
theorem map_origin_relocation? (definition : ClassOccurrence) :
    ((pairwiseJoin exclusions definitions uses).relocation? isFile
        ⟨definition, some (matchingUses exclusions uses definition)⟩).map (·.origin)
      = if IsMovable exclusions uses isFile definition then some definition.home else none := by
  cases hfound : (pairwiseJoin exclusions definitions uses).relocation? isFile
      ⟨definition, some (matchingUses exclusions uses definition)⟩ with
  | some finding =>
    obtain ⟨hmove, hclass, htarget, hdiffer, hfields⟩ := relocation?_eq_some_iff.mp hfound
    have hused : countedFiles exclusions uses definition.name ≠ [] := by
      intro hnone
      simp [hnone, commonPath] at htarget
    have hmovable : IsMovable exclusions uses isFile definition := by
      refine ⟨hmove, hclass, hused, ?_, ?_⟩
      · simp [htarget]
      · simpa [htarget] using hdiffer
    rw [if_pos hmovable, hfields]
    rfl
  | none =>
    refine (if_neg ?_).symm
    intro hmovable
    obtain ⟨hmove, hclass, -, hsome, hdiffer⟩ := hmovable
    obtain ⟨target, htarget⟩ := Option.ne_none_iff_exists'.mp hsome
    have hsuggested : (pairwiseJoin exclusions definitions uses).relocation? isFile
        ⟨definition, some (matchingUses exclusions uses definition)⟩
        = some ⟨definition.name, parentDir definition.path, target,
          countedFiles exclusions uses definition.name⟩ :=
      relocation?_eq_some_iff.mpr
        ⟨hmove, hclass, htarget, fun hsame => hdiffer (hsame ▸ htarget), rfl⟩
    rw [hfound] at hsuggested
    cases hsuggested

/-- The suggestions leave the directories of the definitions that are to be moved, each directory
once for each class. -/
theorem inFirstOrder_origins :
    InFirstOrder
      ((definitions.filter fun definition => IsMovable exclusions uses isFile definition).map
        (·.home))
      (((pairwiseJoin exclusions definitions uses).relocationSuggestions isFile).map
        (·.origin)) := by
  have horigins : (definitions.filterMap fun definition =>
        (pairwiseJoin exclusions definitions uses).relocation? isFile
          ⟨definition, some (matchingUses exclusions uses definition)⟩).map (·.origin)
      = (definitions.filter fun definition => IsMovable exclusions uses isFile definition).map
          (·.home) := by
    rw [List.map_filterMap, ← List.filterMap_eq_map, List.filterMap_filter]
    congr 1
    funext definition
    simpa using map_origin_relocation? exclusions definitions uses isFile definition
  rw [relocationSuggestions_pairwiseJoin, map_eraseDups_of_injOn, horigins]
  · exact inFirstOrder_eraseDups _
  · intro finding hfinding other hother hsame
    rw [← List.mem_eraseDups, ← relocationSuggestions_pairwiseJoin] at hfinding hother
    exact eq_of_origin_eq hfinding hother hsame

/-- A class that is used is not found unused. -/
theorem name_not_mem_unusedDefinitions {name : String}
    (h : countedFiles exclusions uses name ≠ []) :
    name ∉ (pairwiseJoin exclusions definitions uses).unusedDefinitions.map (·.name) := by
  rw [unusedDefinitions_pairwiseJoin, (inFirstOrder_classFindings _).mem_iff]
  intro hmem
  obtain ⟨⟨name, path, line⟩, hplace, rfl⟩ := List.mem_map.mp hmem
  obtain ⟨-, -, -, -, hunused⟩ := (mem_unusedPlaces_iff exclusions definitions uses).mp hplace
  refine h ?_
  rw [countedFiles, filter_countsFor_eq_nil_iff.mpr hunused]
  rfl

/-- There is one suggestion for each class and each directory that a definition of the class is to
be moved from, in the order of these definitions, and there are no others. A suggestion lists the
uses that count for its class and names the directory that these have in common. The definitions of
a class are linked to the same files, so a class with a suggestion is not listed as unused. -/
theorem suggestions_by_origin :
    ∃ ledger suggestions unused,
      (∀ options, ∃ findings,
        (Ledger.ofOccurrences exclusions definitions uses).run options isFile
            = (ledger, .ok findings)
          ∧ findings.relocationSuggestions
            = (if options.relocationSuggestions then some suggestions else none)
          ∧ findings.unusedDefinitions = if options.unusedDefinitions then some unused else none)
        ∧ InFirstOrder
          ((definitions.filter fun definition => IsMovable exclusions uses isFile definition).map
            (·.home))
          (suggestions.map (·.origin))
        ∧ (∀ finding ∈ suggestions, finding.uses = countedFiles exclusions uses finding.name
          ∧ commonPath isFile finding.uses = some finding.target)
        ∧ ledger.definitions.map (·.occurrence) = definitions
        ∧ (∀ record ∈ ledger.definitions, record.files
          = if exclusions.excludesClass record.occurrence.name then []
            else countedFiles exclusions uses record.occurrence.name)
        ∧ ∀ finding ∈ suggestions, finding.name ∉ unused.map (·.name) := by
  have hfields : ∀ finding ∈ (pairwiseJoin exclusions definitions uses).relocationSuggestions
      isFile, finding.uses = countedFiles exclusions uses finding.name
        ∧ commonPath isFile finding.uses = some finding.target := by
    intro finding hfinding
    obtain ⟨definition, -, -, -, htarget, -, hfields⟩ :=
      mem_relocationSuggestions_iff.mp hfinding
    have hname : finding.name = definition.name := by rw [hfields]
    have huses : finding.uses = countedFiles exclusions uses finding.name := by rw [hfields]
    exact ⟨huses, by rw [huses, hname, htarget]⟩
  refine ⟨_, _, _, fun options => ⟨_, Ledger.run_ofOccurrences _ _ _ options isFile, rfl, rfl⟩,
    inFirstOrder_origins exclusions definitions uses isFile, hfields, ?_, ?_, ?_⟩
  · exact map_occurrence_pairwiseJoin exclusions definitions uses
  · intro record hrecord
    obtain ⟨definition, -, rfl⟩ := List.mem_map.mp hrecord
    rfl
  · intro finding hfinding
    obtain ⟨huses, htarget⟩ := hfields finding hfinding
    refine name_not_mem_unusedDefinitions exclusions definitions uses fun hnone => ?_
    simp [huses, hnone, commonPath] at htarget

end Origins

end StyleAudit
