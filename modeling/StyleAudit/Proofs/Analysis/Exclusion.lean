import StyleAudit.Proofs.Analysis.Places

/-!
# Excluded is as good as unseen

An excluded class and an excluded markup file leave no trace in the findings. A run over all
occurrences gives what a run gives that never saw the excluded ones and excludes stylesheets only
(`findings_eq_seen`): in every category the same places qualify, in the same order, and the
definitions that are left are linked to the same uses.
-/

namespace StyleAudit

/-! ## What is seen -/

namespace Exclusions

/-- The exclusions of stylesheets, without those of classes and of markup files. -/
def ofStylesheets (exclusions : Exclusions) : Exclusions :=
  { exclusions with frontPaths := [], classes := [] }

/-- Whether a definition is seen: its class is not excluded. -/
def seesDefinition (exclusions : Exclusions) (definition : ClassOccurrence) : Bool :=
  !exclusions.excludesClass definition.name

/-- Whether an occurrence in a markup file is seen: its file is not excluded, nor is the class that
it names, if it names one. -/
def seesUse (exclusions : Exclusions) : Occurrence → Bool
  | .named use => !exclusions.excludes .front use.path && !exclusions.excludesClass use.name
  | .dynamic found => !exclusions.excludes .front found.path

variable (exclusions : Exclusions)

@[simp] theorem ofStylesheets_excludes_front (path : String) :
    exclusions.ofStylesheets.excludes .front path = false := rfl

@[simp] theorem ofStylesheets_excludesClass (name : String) :
    exclusions.ofStylesheets.excludesClass name = false := rfl

@[simp] theorem ofStylesheets_excludes_css (path : String) :
    exclusions.ofStylesheets.excludes .css path = exclusions.excludes .css path := rfl

@[simp] theorem ofStylesheets_excludes_move (path : String) :
    exclusions.ofStylesheets.excludes .move path = exclusions.excludes .move path := rfl

@[simp] theorem ofStylesheets_excludes_duplicate (path : String) :
    exclusions.ofStylesheets.excludes .duplicate path = exclusions.excludes .duplicate path := rfl

end Exclusions

/-! ## Places that qualify -/

section Seen

variable (exclusions : Exclusions) (definitions : List ClassOccurrence) (uses : List Occurrence)

/-- A use counts for a class that is not excluded if and only if it is seen and names the class. -/
theorem countsFor_eq_seen {name : String} (hname : exclusions.excludesClass name = false)
    (use : Occurrence) :
    countsFor exclusions name use
      = (countsFor exclusions.ofStylesheets name use && exclusions.seesUse use) := by
  cases use with
  | dynamic found => rfl
  | named use =>
    by_cases h : use.name = name
    · simp [countsFor, Exclusions.seesUse, h, hname]
    · simp [countsFor, h]

/-- A definition that is seen is linked to the same files. -/
theorem matchingUses_seen {definition : ClassOccurrence}
    (h : exclusions.excludesClass definition.name = false) :
    matchingUses exclusions.ofStylesheets (uses.filter exclusions.seesUse) definition
      = matchingUses exclusions uses definition := by
  have hcounts : (uses.filter exclusions.seesUse).filter
      (countsFor exclusions.ofStylesheets definition.name)
      = uses.filter (countsFor exclusions definition.name) := by
    rw [List.filter_filter]
    exact List.filter_congr fun use _ => (countsFor_eq_seen exclusions h use).symm
  rw [matchingUses, matchingUses, hcounts, h, Exclusions.ofStylesheets_excludesClass]

theorem unusedPlaces_seen :
    unusedPlaces exclusions.ofStylesheets (definitions.filter exclusions.seesDefinition)
        (uses.filter exclusions.seesUse)
      = unusedPlaces exclusions definitions uses := by
  rw [unusedPlaces, unusedPlaces, List.filter_filter]
  congr 1
  refine List.filter_congr fun definition _ => ?_
  rw [Bool.eq_iff_iff, Bool.and_eq_true, decide_eq_true_iff, decide_eq_true_iff, isUnused_iff,
    isUnused_iff]
  cases h : exclusions.excludesClass definition.name with
  | true => simp [Exclusions.seesDefinition, h]
  | false => simp [Exclusions.seesDefinition, h, matchingUses_seen exclusions uses h]

/-- Whether a class that is not excluded has a definition does not depend on definitions of excluded
classes. -/
theorem forall_ne_seen {name : String} (hname : exclusions.excludesClass name = false) :
    (∀ definition ∈ definitions.filter exclusions.seesDefinition, definition.name ≠ name)
      ↔ ∀ definition ∈ definitions, definition.name ≠ name := by
  constructor
  · rintro h definition hmem rfl
    exact h definition (List.mem_filter.mpr ⟨hmem, by simp [Exclusions.seesDefinition, hname]⟩) rfl
  · intro h definition hmem
    exact h definition (List.mem_of_mem_filter hmem)

theorem missingPlaces_seen :
    missingPlaces exclusions.ofStylesheets (definitions.filter exclusions.seesDefinition)
        (uses.filter exclusions.seesUse)
      = missingPlaces exclusions definitions uses := by
  rw [missingPlaces, missingPlaces, List.filterMap_filter, List.filter_filterMap,
    List.filter_filterMap]
  congr 2
  funext use
  cases use with
  | dynamic found => simp [Occurrence.named?]
  | named use =>
    cases hfront : exclusions.excludes .front use.path with
    | true => simp [Occurrence.named?, Exclusions.seesUse, IsMissing, Option.filter_some, hfront]
    | false =>
      cases hclass : exclusions.excludesClass use.name with
      | true => simp [Occurrence.named?, Exclusions.seesUse, IsMissing, Option.filter_some, hclass]
      | false =>
        have hdefined := forall_ne_seen exclusions definitions hclass
        simp [Occurrence.named?, Exclusions.seesUse, IsMissing, Option.filter_some, hfront, hclass,
          hdefined, -List.mem_filter]

theorem expressionPlaces_seen :
    expressionPlaces exclusions.ofStylesheets (uses.filter exclusions.seesUse)
      = expressionPlaces exclusions uses := by
  rw [expressionPlaces, expressionPlaces, List.filterMap_filter, List.filter_filterMap,
    List.filter_filterMap]
  congr 2
  funext use
  cases use with
  | named use => simp [Occurrence.dynamic?]
  | dynamic found =>
    cases hfront : exclusions.excludes .front found.path <;>
      simp [Occurrence.dynamic?, Exclusions.seesUse, Option.filter_some, hfront]

theorem duplicatePlaces_seen :
    duplicatePlaces exclusions.ofStylesheets (definitions.filter exclusions.seesDefinition)
      = duplicatePlaces exclusions definitions := by
  rw [duplicatePlaces, duplicatePlaces, List.filter_filter]
  congr 1
  refine List.filter_congr fun definition _ => ?_
  simp [Exclusions.seesDefinition]

/-! ## Suggestions -/

/-- There is no suggestion for an excluded class, and the others do not depend on what is
excluded. -/
theorem relocation?_seen (isFile : String → Bool) (definition : ClassOccurrence) :
    (pairwiseJoin exclusions definitions uses).relocation? isFile
        ⟨definition, some (matchingUses exclusions uses definition)⟩
      = if exclusions.seesDefinition definition then
          (pairwiseJoin exclusions.ofStylesheets (definitions.filter exclusions.seesDefinition)
            (uses.filter exclusions.seesUse)).relocation? isFile
            ⟨definition, some (matchingUses exclusions.ofStylesheets
              (uses.filter exclusions.seesUse) definition)⟩
        else none := by
  cases h : exclusions.excludesClass definition.name with
  | true => simp [Ledger.relocation?, pairwiseJoin, Exclusions.seesDefinition, h]
  | false =>
    simp [Ledger.relocation?, pairwiseJoin, Exclusions.seesDefinition, h,
      matchingUses_seen exclusions uses h]

theorem relocationSuggestions_seen (isFile : String → Bool) :
    (pairwiseJoin exclusions.ofStylesheets (definitions.filter exclusions.seesDefinition)
        (uses.filter exclusions.seesUse)).relocationSuggestions isFile
      = (pairwiseJoin exclusions definitions uses).relocationSuggestions isFile := by
  have hrecords (exclusions : Exclusions) (definitions : List ClassOccurrence)
      (uses : List Occurrence) : (pairwiseJoin exclusions definitions uses).definitions
      = definitions.map fun definition =>
        ⟨definition, some (matchingUses exclusions uses definition)⟩ := rfl
  rw [Ledger.relocationSuggestions, Ledger.relocationSuggestions, hrecords, hrecords,
    List.filterMap_map, List.filterMap_map, List.filterMap_filter]
  congr 2
  funext definition
  exact (relocation?_seen exclusions definitions uses isFile definition).symm

end Seen

/-- Excluding classes and markup files is the same as never having seen them. A run gives the same
findings, whichever categories are wanted, as a run over the occurrences that are seen in which
nothing but stylesheets is excluded. -/
theorem findings_eq_seen (exclusions : Exclusions) (definitions : List ClassOccurrence)
    (uses : List Occurrence) (options : AnalysisOptions) (isFile : String → Bool) :
    ∃ findings,
      ((Ledger.ofOccurrences exclusions definitions uses).run options isFile).2 = .ok findings
        ∧ ((Ledger.ofOccurrences exclusions.ofStylesheets
            (definitions.filter exclusions.seesDefinition)
            (uses.filter exclusions.seesUse)).run options isFile).2 = .ok findings := by
  refine ⟨_, by rw [Ledger.run_ofOccurrences], ?_⟩
  rw [Ledger.run_ofOccurrences]
  simp only [Ledger.findings, unusedDefinitions_pairwiseJoin, unusedPlaces_seen,
    relocationSuggestions_seen, missingDefinitions_pairwiseJoin, missingPlaces_seen,
    expressions_pairwiseJoin, expressionPlaces_seen, duplicateDefinitions_pairwiseJoin,
    duplicatePlaces_seen]

end StyleAudit
