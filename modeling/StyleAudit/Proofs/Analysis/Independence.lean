import StyleAudit.Proofs.Analysis.Places

/-!
# Which exclusions findings depend on

The fields of the exclusions do not affect each other's findings. For each category of findings
there is a congruence that names the fields it depends on; two exclusions that agree there give the
same findings, whatever else they exclude (`findings_independent`). The links between definitions
and uses depend on the excluded classes and the excluded markup files alone.
-/

namespace StyleAudit

/-! ## Exclusions that agree -/

/-- A field of the exclusions. -/
inductive ExclusionField where
  | paths (category : ExclusionCategory)
  | classes
deriving DecidableEq, Repr

/-- The entries of a field. -/
def Exclusions.entries (exclusions : Exclusions) : ExclusionField → List String
  | .paths category => exclusions.paths category
  | .classes => exclusions.classes

/-- Two exclusions agree in a field if they have the same entries there. Their order and number do
not matter. -/
def Agree (field : ExclusionField) (first second : Exclusions) : Prop :=
  ∀ entry, entry ∈ first.entries field ↔ entry ∈ second.entries field

/-- Two exclusions agree in all fields but one. -/
def DifferOnlyIn (field : ExclusionField) (first second : Exclusions) : Prop :=
  ∀ other, other ≠ field → Agree other first second

section Congruence

variable {first second : Exclusions}

theorem Agree.excludes_eq {category : ExclusionCategory}
    (h : Agree (.paths category) first second) :
    first.excludes category = second.excludes category := by
  funext path
  rw [Bool.eq_iff_iff, Exclusions.excludes, Exclusions.excludes, List.any_eq_true, List.any_eq_true]
  exact exists_congr fun entry => and_congr_left' (h entry)

theorem Agree.excludesClass_eq (h : Agree .classes first second) :
    first.excludesClass = second.excludesClass := by
  funext name
  rw [Bool.eq_iff_iff, Exclusions.excludesClass, Exclusions.excludesClass, List.contains_iff_mem,
    List.contains_iff_mem]
  exact h name

variable (definitions : List ClassOccurrence) (uses : List Occurrence)

theorem countsFor_congr (hfront : Agree (.paths .front) first second) :
    countsFor first = countsFor second := by
  funext name occurrence
  cases occurrence with
  | named use => simp only [countsFor, hfront.excludes_eq]
  | dynamic _ => rfl

theorem matchingUses_congr (hfront : Agree (.paths .front) first second)
    (hclasses : Agree .classes first second) :
    matchingUses first uses = matchingUses second uses := by
  funext definition
  simp only [matchingUses, countsFor_congr hfront, hclasses.excludesClass_eq]

theorem matchingDefinitions_congr (hfront : Agree (.paths .front) first second)
    (hclasses : Agree .classes first second) :
    matchingDefinitions first definitions = matchingDefinitions second definitions := by
  funext use
  cases use with
  | named use =>
    simp only [matchingDefinitions, hfront.excludes_eq, hclasses.excludesClass_eq]
  | dynamic _ => rfl

/-! ## Findings that agree -/

theorem unusedDefinitions_congr (hcss : Agree (.paths .css) first second)
    (hmove : Agree (.paths .move) first second) (hfront : Agree (.paths .front) first second)
    (hclasses : Agree .classes first second) :
    (pairwiseJoin first definitions uses).unusedDefinitions
      = (pairwiseJoin second definitions uses).unusedDefinitions := by
  rw [unusedDefinitions_pairwiseJoin, unusedDefinitions_pairwiseJoin, unusedPlaces, unusedPlaces]
  congr 2
  refine List.filter_congr fun definition _ => decide_eq_decide.mpr ?_
  simp only [IsUnused, hcss.excludes_eq, hmove.excludes_eq, hfront.excludes_eq,
    hclasses.excludesClass_eq]

theorem relocationSuggestions_congr (isFile : String → Bool)
    (hmove : Agree (.paths .move) first second) (hfront : Agree (.paths .front) first second)
    (hclasses : Agree .classes first second) :
    (pairwiseJoin first definitions uses).relocationSuggestions isFile
      = (pairwiseJoin second definitions uses).relocationSuggestions isFile := by
  have hsuggestion : (pairwiseJoin first definitions uses).relocation? isFile
      = (pairwiseJoin second definitions uses).relocation? isFile := by
    funext definition
    simp only [Ledger.relocation?, pairwiseJoin, hmove.excludes_eq, hclasses.excludesClass_eq]
    rfl
  rw [Ledger.relocationSuggestions, Ledger.relocationSuggestions, hsuggestion]
  simp only [pairwiseJoin, matchingUses_congr uses hfront hclasses]

theorem missingDefinitions_congr (hfront : Agree (.paths .front) first second)
    (hclasses : Agree .classes first second) :
    (pairwiseJoin first definitions uses).missingDefinitions
      = (pairwiseJoin second definitions uses).missingDefinitions := by
  rw [missingDefinitions_pairwiseJoin, missingDefinitions_pairwiseJoin, missingPlaces,
    missingPlaces]
  congr 2
  refine List.filter_congr fun use _ => decide_eq_decide.mpr ?_
  simp only [IsMissing, hfront.excludes_eq, hclasses.excludesClass_eq]

theorem expressions_congr (hfront : Agree (.paths .front) first second) :
    (pairwiseJoin first definitions uses).expressions
      = (pairwiseJoin second definitions uses).expressions := by
  rw [expressions_pairwiseJoin, expressions_pairwiseJoin, expressionPlaces, expressionPlaces,
    hfront.excludes_eq]

theorem duplicateDefinitions_congr (hcss : Agree (.paths .css) first second)
    (hduplicate : Agree (.paths .duplicate) first second)
    (hclasses : Agree .classes first second) :
    (pairwiseJoin first definitions uses).duplicateDefinitions
      = (pairwiseJoin second definitions uses).duplicateDefinitions := by
  rw [duplicateDefinitions_pairwiseJoin, duplicateDefinitions_pairwiseJoin, duplicatePlaces,
    duplicatePlaces, hcss.excludes_eq, hduplicate.excludes_eq, hclasses.excludesClass_eq]

end Congruence

/-- A field of the exclusions changes no findings but its own. For two runs that differ in a single
field, with all categories: the duplicate paths change the duplicate definitions alone; the
stylesheet paths the unused and the duplicate definitions; the move paths the unused definitions
and the relocation suggestions; the front paths leave the duplicate definitions as they are, and
the classes the expressions. The links depend on the front paths and the classes alone. -/
theorem findings_independent (first second : Exclusions) (definitions : List ClassOccurrence)
    (uses : List Occurrence) (isFile : String → Bool) :
    ∃ found other,
      ((Ledger.ofOccurrences first definitions uses).run {} isFile).2 = .ok found
        ∧ ((Ledger.ofOccurrences second definitions uses).run {} isFile).2 = .ok other
        ∧ (DifferOnlyIn (.paths .duplicate) first second →
          { found with duplicateDefinitions := none }
            = { other with duplicateDefinitions := none })
        ∧ (DifferOnlyIn (.paths .css) first second →
          { found with unusedDefinitions := none, duplicateDefinitions := none }
            = { other with unusedDefinitions := none, duplicateDefinitions := none })
        ∧ (DifferOnlyIn (.paths .move) first second →
          { found with unusedDefinitions := none, relocationSuggestions := none }
            = { other with unusedDefinitions := none, relocationSuggestions := none })
        ∧ (DifferOnlyIn (.paths .front) first second →
          found.duplicateDefinitions = other.duplicateDefinitions)
        ∧ (DifferOnlyIn .classes first second → found.expressions = other.expressions)
        ∧ (Agree (.paths .front) first second → Agree .classes first second →
          (Ledger.ofOccurrences first definitions uses).join.1.definitions
              = (Ledger.ofOccurrences second definitions uses).join.1.definitions
            ∧ (Ledger.ofOccurrences first definitions uses).join.1.uses
              = (Ledger.ofOccurrences second definitions uses).join.1.uses) := by
  refine ⟨_, _, by rw [Ledger.run_ofOccurrences], by rw [Ledger.run_ofOccurrences],
    ?_, ?_, ?_, ?_, ?_, ?_⟩
  · intro h
    have hcss := h (.paths .css) (by decide)
    have hmove := h (.paths .move) (by decide)
    have hfront := h (.paths .front) (by decide)
    have hclasses := h .classes (by decide)
    simp only [Ledger.findings, if_true, unusedDefinitions_congr definitions uses hcss hmove hfront
      hclasses, relocationSuggestions_congr definitions uses isFile hmove hfront hclasses,
      missingDefinitions_congr definitions uses hfront hclasses,
      expressions_congr definitions uses hfront]
  · intro h
    have hmove := h (.paths .move) (by decide)
    have hfront := h (.paths .front) (by decide)
    have hclasses := h .classes (by decide)
    simp only [Ledger.findings, if_true,
      relocationSuggestions_congr definitions uses isFile hmove hfront hclasses,
      missingDefinitions_congr definitions uses hfront hclasses,
      expressions_congr definitions uses hfront]
  · intro h
    have hcss := h (.paths .css) (by decide)
    have hfront := h (.paths .front) (by decide)
    have hduplicate := h (.paths .duplicate) (by decide)
    have hclasses := h .classes (by decide)
    simp only [Ledger.findings, if_true,
      missingDefinitions_congr definitions uses hfront hclasses,
      expressions_congr definitions uses hfront,
      duplicateDefinitions_congr definitions uses hcss hduplicate hclasses]
  · intro h
    exact congrArg some (duplicateDefinitions_congr definitions uses (h (.paths .css) (by decide))
      (h (.paths .duplicate) (by decide)) (h .classes (by decide)))
  · intro h
    exact congrArg some (expressions_congr definitions uses (h (.paths .front) (by decide)))
  · intro hfront hclasses
    rw [Ledger.join_ofOccurrences, Ledger.join_ofOccurrences]
    simp only [pairwiseJoin, matchingUses_congr uses hfront hclasses,
      matchingDefinitions_congr definitions hfront hclasses, and_self]

/-- A class defined in two stylesheets, one of which may be left out of the duplicates. -/
def twiceDefined : List ClassOccurrence := [⟨"a", 1, "lib/x.css"⟩, ⟨"a", 2, "y.css"⟩]

/-- Excluding a directory from the duplicates takes the duplicate away, and nothing else. -/
theorem findings_independent_twiceDefined :
    DifferOnlyIn (.paths .duplicate) {} { duplicatePaths := ["lib"] }
      ∧ ∃ found other,
        ((Ledger.ofOccurrences {} twiceDefined []).run {} fun _ => true).2 = .ok found
          ∧ ((Ledger.ofOccurrences { duplicatePaths := ["lib"] } twiceDefined []).run {}
            fun _ => true).2 = .ok other
          ∧ found.duplicateDefinitions
            = some [⟨"a", [⟨"lib/x.css", [1]⟩, ⟨"y.css", [2]⟩]⟩]
          ∧ other.duplicateDefinitions = some []
          ∧ { found with duplicateDefinitions := none }
            = { other with duplicateDefinitions := none } := by
  have hdiffer : DifferOnlyIn (.paths .duplicate) {} { duplicatePaths := ["lib"] } := by
    intro field hfield entry
    match field with
    | .paths .duplicate => exact absurd rfl hfield
    | .paths .css | .paths .move | .paths .front | .classes => exact Iff.rfl
  obtain ⟨found, other, hfound, hother, hsame, -⟩ :=
    findings_independent {} { duplicatePaths := ["lib"] } twiceDefined [] fun _ => true
  refine ⟨hdiffer, found, other, hfound, hother, ?_, ?_, hsame hdiffer⟩
  · cases hfound
    rfl
  · cases hother
    rfl

end StyleAudit
