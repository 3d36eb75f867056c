import StyleAudit.Analysis
import StyleAudit.Proofs.Ledger.Pairwise

/-!
# What the findings of a joined ledger are about

A run asks a ledger for its findings only once it is joined. Here the findings of a joined ledger
are given from the occurrences alone, without the links between them
(`unusedDefinitions_pairwiseJoin` and its siblings).
-/

namespace StyleAudit

/-- The class name that an occurrence is. -/
def Occurrence.named? : Occurrence → Option ClassOccurrence
  | named occurrence => some occurrence
  | dynamic _ => none

/-- The dynamic expression that an occurrence is. -/
def Occurrence.dynamic? : Occurrence → Option DynamicOccurrence
  | named _ => none
  | dynamic occurrence => some occurrence

theorem Occurrence.named?_eq_some_iff {use : Occurrence} {occurrence : ClassOccurrence} :
    use.named? = some occurrence ↔ use = .named occurrence := by
  cases use <;> simp [named?]

theorem Occurrence.dynamic?_eq_some_iff {use : Occurrence} {occurrence : DynamicOccurrence} :
    use.dynamic? = some occurrence ↔ use = .dynamic occurrence := by
  cases use <;> simp [dynamic?]

/-- The place of a dynamic expression; its text is the name. -/
def DynamicOccurrence.place (occurrence : DynamicOccurrence) : NamedPlace :=
  ⟨occurrence.text, occurrence.path, occurrence.line⟩

theorem ClassOccurrence.mem_map_place_iff {occurrences : List ClassOccurrence}
    {name path : String} {line : Int} :
    ⟨name, path, line⟩ ∈ occurrences.map (·.place) ↔ ⟨name, line, path⟩ ∈ occurrences := by
  constructor
  · intro h
    obtain ⟨⟨_, _, _⟩, hmem, hplace⟩ := List.mem_map.mp h
    obtain ⟨rfl, rfl, rfl⟩ := NamedPlace.mk.inj hplace
    exact hmem
  · intro h
    exact List.mem_map_of_mem h

theorem DynamicOccurrence.mem_map_place_iff {occurrences : List DynamicOccurrence}
    {text path : String} {line : Int} :
    ⟨text, path, line⟩ ∈ occurrences.map (·.place) ↔ ⟨text, line, path⟩ ∈ occurrences := by
  constructor
  · intro h
    obtain ⟨⟨_, _, _⟩, hmem, hplace⟩ := List.mem_map.mp h
    obtain ⟨rfl, rfl, rfl⟩ := NamedPlace.mk.inj hplace
    exact hmem
  · intro h
    exact List.mem_map_of_mem h

section Qualifying

variable (exclusions : Exclusions) (definitions : List ClassOccurrence) (uses : List Occurrence)

/-- A definition that is to be found unused: neither its stylesheet nor its class is excluded, and
its class is named in excluded files at most. -/
def IsUnused (definition : ClassOccurrence) : Prop :=
  exclusions.excludes .css definition.path = false
    ∧ exclusions.excludes .move definition.path = false
    ∧ exclusions.excludesClass definition.name = false
    ∧ ∀ use, .named use ∈ uses → use.name = definition.name →
      exclusions.excludes .front use.path = true

/-- A use that is to be found without a definition: it names a class, neither its file nor the class
is excluded, and nothing defines the class. -/
def IsMissing (use : ClassOccurrence) : Prop :=
  use.name ≠ "" ∧ exclusions.excludesClass use.name = false
    ∧ exclusions.excludes .front use.path = false
    ∧ ∀ definition ∈ definitions, definition.name ≠ use.name

theorem countsFor_eq_true_iff {exclusions : Exclusions} {name : String} {occurrence : Occurrence} :
    countsFor exclusions name occurrence = true ↔ ∃ use, occurrence = .named use
      ∧ use.name = name ∧ exclusions.excludes .front use.path = false := by
  cases occurrence with
  | named use => simp [countsFor]
  | dynamic _ => simp [countsFor]

/-- A class is named in excluded files at most if no use counts for it. -/
theorem filter_countsFor_eq_nil_iff {exclusions : Exclusions} {uses : List Occurrence}
    {name : String} :
    uses.filter (countsFor exclusions name) = []
      ↔ ∀ use, .named use ∈ uses → use.name = name →
        exclusions.excludes .front use.path = true := by
  rw [List.filter_eq_nil_iff]
  simp only [countsFor_eq_true_iff]
  constructor
  · intro h use huse hname
    by_contra hfront
    exact h _ huse ⟨use, rfl, hname, by simpa using hfront⟩
  · rintro h _ huse ⟨use, rfl, hname, hfront⟩
    simp [h use huse hname] at hfront

instance : DecidablePred (IsUnused exclusions uses) := fun definition =>
  decidable_of_iff (exclusions.excludes .css definition.path = false
    ∧ exclusions.excludes .move definition.path = false
    ∧ exclusions.excludesClass definition.name = false
    ∧ uses.filter (countsFor exclusions definition.name) = [])
    (by rw [IsUnused, filter_countsFor_eq_nil_iff])

instance : DecidablePred (IsMissing exclusions definitions) := fun use =>
  inferInstanceAs (Decidable (use.name ≠ "" ∧ exclusions.excludesClass use.name = false
    ∧ exclusions.excludes .front use.path = false
    ∧ ∀ definition ∈ definitions, definition.name ≠ use.name))

/-- The places of the definitions that are to be found unused. -/
def unusedPlaces : List NamedPlace :=
  (definitions.filter fun definition => IsUnused exclusions uses definition).map (·.place)

/-- The places of the uses that are to be found without a definition. -/
def missingPlaces : List NamedPlace :=
  ((uses.filterMap Occurrence.named?).filter fun use => IsMissing exclusions definitions use).map
    (·.place)

/-- The places of the dynamic expressions outside the excluded files. -/
def expressionPlaces : List NamedPlace :=
  ((uses.filterMap Occurrence.dynamic?).filter fun found =>
    !exclusions.excludes .front found.path).map (·.place)

/-- The places of the definitions that may be found duplicate. -/
def duplicatePlaces : List NamedPlace :=
  (definitions.filter fun definition =>
    !exclusions.excludes .css definition.path
      && !exclusions.excludes .duplicate definition.path
      && !exclusions.excludesClass definition.name).map (·.place)

theorem mem_unusedPlaces_iff {name path : String} {line : Int} :
    ⟨name, path, line⟩ ∈ unusedPlaces exclusions definitions uses
      ↔ ⟨name, line, path⟩ ∈ definitions ∧ IsUnused exclusions uses ⟨name, line, path⟩ := by
  rw [unusedPlaces, ClassOccurrence.mem_map_place_iff, List.mem_filter, decide_eq_true_iff]

theorem mem_missingPlaces_iff {name path : String} {line : Int} :
    ⟨name, path, line⟩ ∈ missingPlaces exclusions definitions uses
      ↔ .named ⟨name, line, path⟩ ∈ uses
        ∧ IsMissing exclusions definitions ⟨name, line, path⟩ := by
  rw [missingPlaces, ClassOccurrence.mem_map_place_iff, List.mem_filter, decide_eq_true_iff]
  simp only [List.mem_filterMap, Occurrence.named?_eq_some_iff, exists_eq_right]

theorem mem_expressionPlaces_iff {text path : String} {line : Int} :
    ⟨text, path, line⟩ ∈ expressionPlaces exclusions uses
      ↔ .dynamic ⟨text, line, path⟩ ∈ uses ∧ exclusions.excludes .front path = false := by
  rw [expressionPlaces, DynamicOccurrence.mem_map_place_iff, List.mem_filter, Bool.not_eq_true']
  simp only [List.mem_filterMap, Occurrence.dynamic?_eq_some_iff, exists_eq_right]

end Qualifying

/-- What a ledger shows as duplicate depends on its exclusions and its definitions, and not on what
has been linked. -/
theorem Ledger.duplicateDefinitions_eq (ledger : Ledger) :
    ledger.duplicateDefinitions
      = ((placesByName (duplicatePlaces ledger.exclusions
          (ledger.definitions.map (·.occurrence)))).filter fun entry =>
            2 ≤ entry.2.length).map fun entry => ⟨entry.1, fileLines entry.2⟩ := by
  rw [Ledger.duplicateDefinitions, duplicatePlaces, List.filter_map, List.map_map]
  rfl

/-! ## Findings of a joined ledger -/

section Joined

variable (exclusions : Exclusions) (definitions : List ClassOccurrence) (uses : List Occurrence)

theorem matchingUses_eq_nil_iff {definition : ClassOccurrence} :
    matchingUses exclusions uses definition = []
      ↔ exclusions.excludesClass definition.name = true
        ∨ uses.filter (countsFor exclusions definition.name) = [] := by
  unfold matchingUses
  split <;> simp_all

theorem matchingDefinitions_eq_nil_iff {use : ClassOccurrence} :
    matchingDefinitions exclusions definitions (.named use) = []
      ↔ exclusions.excludes .front use.path = true ∨ exclusions.excludesClass use.name = true
        ∨ ∀ definition ∈ definitions, definition.name ≠ use.name := by
  cases hfront : exclusions.excludes .front use.path <;>
    cases hclass : exclusions.excludesClass use.name <;>
    simp [matchingDefinitions, hfront, hclass]

/-- A definition is found unused in a joined ledger if it is linked to nothing and not excluded. -/
theorem isUnused_iff {definition : ClassOccurrence} :
    IsUnused exclusions uses definition ↔ matchingUses exclusions uses definition = []
      ∧ exclusions.excludes .css definition.path = false
      ∧ exclusions.excludes .move definition.path = false
      ∧ exclusions.excludesClass definition.name = false := by
  rw [IsUnused, ← filter_countsFor_eq_nil_iff, matchingUses_eq_nil_iff]
  cases exclusions.excludesClass definition.name with
  | true => simp
  | false =>
    simp only [Bool.false_eq_true, false_or, true_and, and_true]
    tauto

theorem isMissing_iff {use : ClassOccurrence} :
    IsMissing exclusions definitions use ↔ use.name ≠ ""
      ∧ matchingDefinitions exclusions definitions (.named use) = []
      ∧ exclusions.excludes .front use.path = false
      ∧ exclusions.excludesClass use.name = false := by
  rw [IsMissing, matchingDefinitions_eq_nil_iff]
  cases exclusions.excludesClass use.name with
  | true => simp
  | false =>
    cases exclusions.excludes .front use.path with
    | true => simp
    | false => simp

/-- A run of a new ledger gives the findings of the joined ledger. -/
theorem Ledger.run_ofOccurrences (options : AnalysisOptions) (isFile : String → Bool) :
    (Ledger.ofOccurrences exclusions definitions uses).run options isFile
      = (pairwiseJoin exclusions definitions uses,
        .ok ((pairwiseJoin exclusions definitions uses).findings options isFile)) := by
  rw [run, join_ofOccurrences]

theorem unusedDefinitions_pairwiseJoin :
    (pairwiseJoin exclusions definitions uses).unusedDefinitions
      = classFindings (unusedPlaces exclusions definitions uses) := by
  rw [Ledger.unusedDefinitions, unusedPlaces, pairwiseJoin, List.filter_map, List.map_map]
  congr 2
  refine List.filter_congr fun definition _ => ?_
  rw [Bool.eq_iff_iff, decide_eq_true_iff, isUnused_iff]
  simp [Record.files, and_assoc]

theorem missingDefinitions_pairwiseJoin :
    (pairwiseJoin exclusions definitions uses).missingDefinitions
      = classFindings (missingPlaces exclusions definitions uses) := by
  rw [Ledger.missingDefinitions, missingPlaces, List.filter_filterMap, List.map_filterMap]
  rw [pairwiseJoin, List.filterMap_map]
  congr 2
  funext use
  cases use with
  | dynamic found => rfl
  | named use =>
    have hplace : (pairwiseJoin exclusions definitions uses).missingPlace?
        ⟨.named use, some (matchingDefinitions exclusions definitions (.named use))⟩
        = if IsMissing exclusions definitions use then some use.place else none := by
      simp only [Ledger.missingPlace?, Record.files, Option.getD_some, pairwiseJoin]
      congr 1
      rw [isMissing_iff]
      simp [and_assoc]
    rw [pairwiseJoin] at hplace
    by_cases hmissing : IsMissing exclusions definitions use <;>
      simp [Occurrence.named?, Option.filter_some, hplace, hmissing]

theorem expressions_pairwiseJoin :
    (pairwiseJoin exclusions definitions uses).expressions
      = (placesByName (expressionPlaces exclusions uses)).map fun entry =>
          ⟨entry.1, fileLines entry.2⟩ := by
  rw [Ledger.expressions, expressionPlaces, List.filter_filterMap, List.map_filterMap]
  rw [pairwiseJoin, List.filterMap_map]
  congr 3
  funext use
  cases use with
  | named found => rfl
  | dynamic found =>
    cases hfront : exclusions.excludes .front found.path <;>
      simp [Ledger.expressionPlace?, Occurrence.dynamic?, DynamicOccurrence.place,
        Option.filter_some, hfront]

theorem map_occurrence_pairwiseJoin :
    (pairwiseJoin exclusions definitions uses).definitions.map (·.occurrence) = definitions := by
  simp [pairwiseJoin, Function.comp_def]

theorem duplicateDefinitions_pairwiseJoin :
    (pairwiseJoin exclusions definitions uses).duplicateDefinitions
      = ((placesByName (duplicatePlaces exclusions definitions)).filter fun entry =>
          2 ≤ entry.2.length).map fun entry => ⟨entry.1, fileLines entry.2⟩ := by
  rw [Ledger.duplicateDefinitions_eq, map_occurrence_pairwiseJoin]
  rfl

end Joined

end StyleAudit
