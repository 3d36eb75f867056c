import StyleAudit.Ledger
import StyleAudit.Proofs.Groups

/-!
# The join and the comparison of all pairs

`Ledger.join` gathers uses and definitions by class name and never compares two records.
`pairwiseJoin` is the join that compares every definition with every use. The two give the same
ledger, with the same files in the same order and as often (`Ledger.join_of_not_isLinked`).
-/

namespace StyleAudit

/-! ## The pairwise join -/

/-- Whether an occurrence is a use that counts for a class: it names the class, and its file is
not excluded. -/
def countsFor (exclusions : Exclusions) (name : String) : Occurrence → Bool
  | .named use => use.name = name && !exclusions.excludes .front use.path
  | .dynamic _ => false

/-- The files of all uses that count for the class of a definition. Nothing counts for an excluded
class. -/
def matchingUses (exclusions : Exclusions) (uses : List Occurrence)
    (definition : ClassOccurrence) : List String :=
  if exclusions.excludesClass definition.name then []
  else (uses.filter (countsFor exclusions definition.name)).map (·.path)

/-- The stylesheets of all definitions of the class that an occurrence names. There are none for a
dynamic expression, in an excluded file and for an excluded class. -/
def matchingDefinitions (exclusions : Exclusions) (definitions : List ClassOccurrence) :
    Occurrence → List String
  | .named use =>
    if exclusions.excludes .front use.path || exclusions.excludesClass use.name then []
    else (definitions.filter fun definition => definition.name = use.name).map (·.path)
  | .dynamic _ => []

/-- The ledger in which every definition has been compared with every use. -/
def pairwiseJoin (exclusions : Exclusions) (definitions : List ClassOccurrence)
    (uses : List Occurrence) : Ledger where
  exclusions := exclusions
  definitions := definitions.map fun definition =>
    ⟨definition, some (matchingUses exclusions uses definition)⟩
  uses := uses.map fun use => ⟨use, some (matchingDefinitions exclusions definitions use)⟩
  joined := true

/-! ## Linking in order -/

section LinkInOrder

variable {α : Type}

theorem Record.link?_of_not_isLinked {record : Record α} (h : record.isLinked = false)
    (files : List String) : record.link? files = some ⟨record.occurrence, some files⟩ := by
  simp [link?, h]

theorem Record.link?_of_isLinked {record : Record α} (h : record.isLinked = true)
    (files : List String) : record.link? files = none := by
  simp [link?, h]

/-- Records that have not been linked are all linked. -/
theorem linkInOrder_of_forall {links : List (Record α × List String)}
    (h : ∀ entry ∈ links, entry.1.isLinked = false) :
    linkInOrder links = (links.map fun entry => ⟨entry.1.occurrence, some entry.2⟩, none) := by
  induction links with
  | nil => rfl
  | cons entry rest ih =>
    obtain ⟨hentry, hrest⟩ := List.forall_mem_cons.mp h
    rw [linkInOrder, Record.link?_of_not_isLinked hentry]
    simp only [ih hrest, List.map_cons]

end LinkInOrder

/-! ## The buckets -/

namespace Ledger

/-- The bucket of a class holds the files of the uses that count for it. -/
theorem group_usesByClass (ledger : Ledger) (name : String) :
    group ledger.usesByClass name
      = ((ledger.uses.map (·.occurrence)).filter (countsFor ledger.exclusions name)).map
          (·.path) := by
  rw [usesByClass, group_collect]
  induction ledger.uses with
  | nil => rfl
  | cons use uses ih =>
    obtain ⟨occurrence, links⟩ := use
    cases occurrence with
    | dynamic _ => simpa [countedName?, countsFor] using ih
    | named use =>
      cases hfront : ledger.exclusions.excludes .front use.path with
      | true => simpa [countedName?, countsFor, hfront] using ih
      | false =>
        by_cases hname : use.name = name
        · simpa [countedName?, countsFor, valuesAt, hfront, hname, Occurrence.path] using ih
        · simpa [countedName?, countsFor, valuesAt, hfront, hname] using ih

/-- The bucket of a class holds the stylesheets of its definitions, and nothing if the class is
excluded. -/
theorem group_definitionsByClass (ledger : Ledger) (name : String) :
    group ledger.definitionsByClass name
      = if ledger.exclusions.excludesClass name then []
        else ((ledger.definitions.map (·.occurrence)).filter fun definition =>
          definition.name = name).map (·.path) := by
  rw [definitionsByClass, group_collect]
  induction ledger.definitions with
  | nil => simp [valuesAt]
  | cons definition definitions ih =>
    by_cases hname : definition.occurrence.name = name
    · subst hname
      cases hclass : ledger.exclusions.excludesClass definition.occurrence.name with
      | true => simpa [valuesAt, hclass] using ih
      | false => simpa [valuesAt, hclass] using ih
    · cases hclass : ledger.exclusions.excludesClass definition.occurrence.name with
      | true => simpa [valuesAt, hclass, hname] using ih
      | false => simpa [valuesAt, hclass, hname] using ih

theorem definitionLinks_eq (ledger : Ledger) :
    ledger.definitionLinks = ledger.definitions.map fun record =>
      (record, matchingUses ledger.exclusions (ledger.uses.map (·.occurrence))
        record.occurrence) := by
  simp only [definitionLinks, matchingUses, group_usesByClass]

theorem useLinks_eq (ledger : Ledger) :
    ledger.useLinks = ledger.uses.map fun record =>
      (record, matchingDefinitions ledger.exclusions (ledger.definitions.map (·.occurrence))
        record.occurrence) := by
  refine List.map_congr_left fun record _ => congrArg (record, ·) ?_
  cases record.occurrence with
  | dynamic _ => rfl
  | named use =>
    cases hfront : ledger.exclusions.excludes .front use.path <;>
      simp [countedName?, matchingDefinitions, group_definitionsByClass, hfront]

/-! ## The join -/

/-- Where no record has been linked, joining links all of them, each to the files it matches. -/
theorem join_of_not_isLinked (ledger : Ledger) (hjoined : ledger.joined = false)
    (hdefinitions : ∀ record ∈ ledger.definitions, record.isLinked = false)
    (huses : ∀ record ∈ ledger.uses, record.isLinked = false) :
    ledger.join = (pairwiseJoin ledger.exclusions (ledger.definitions.map (·.occurrence))
      (ledger.uses.map (·.occurrence)), .ok ()) := by
  have hdefinitionLinks : ∀ entry ∈ ledger.definitionLinks, entry.1.isLinked = false := by
    simpa [definitionLinks_eq] using hdefinitions
  have huseLinks : ∀ entry ∈ ledger.useLinks, entry.1.isLinked = false := by
    simpa [useLinks_eq] using huses
  simp only [join, hjoined, linkInOrder_of_forall hdefinitionLinks,
    linkInOrder_of_forall huseLinks]
  simp [definitionLinks_eq, useLinks_eq, pairwiseJoin]

theorem join_ofOccurrences (exclusions : Exclusions) (definitions : List ClassOccurrence)
    (uses : List Occurrence) :
    (ofOccurrences exclusions definitions uses).join
      = (pairwiseJoin exclusions definitions uses, .ok ()) := by
  have hjoin := join_of_not_isLinked (ofOccurrences exclusions definitions uses) rfl
    (by simp [ofOccurrences, Record.isLinked]) (by simp [ofOccurrences, Record.isLinked])
  simpa [ofOccurrences, Function.comp_def] using hjoin

/-- The join of a new ledger is the comparison of all pairs. It succeeds; it links each definition
to the files of the uses that count for its class, in the order of the uses and with repetitions,
and each use to the stylesheets that define its class, in the order of the definitions and with
repetitions. -/
theorem join_eq_pairwise (exclusions : Exclusions) (definitions : List ClassOccurrence)
    (uses : List Occurrence) :
    ∃ ledger, (ofOccurrences exclusions definitions uses).join = (ledger, .ok ())
      ∧ (ledger.definitions.map fun record => (record.occurrence, record.files))
        = (definitions.map fun definition =>
          (definition, matchingUses exclusions uses definition))
      ∧ (ledger.uses.map fun record => (record.occurrence, record.files))
        = uses.map fun use => (use, matchingDefinitions exclusions definitions use) := by
  refine ⟨_, join_ofOccurrences exclusions definitions uses, ?_, ?_⟩
  · rw [pairwiseJoin, List.map_map]
    rfl
  · rw [pairwiseJoin, List.map_map]
    rfl

end Ledger

end StyleAudit
