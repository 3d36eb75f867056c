import Mathlib.Data.List.Perm.Basic
import StyleAudit.Proofs.Analysis.Grouping
import StyleAudit.Proofs.Ledger.LinkOnce

/-!
# Duplicates and pairs

Duplicate definitions are found by gathering the definitions of each class and counting them. What
they stand for are pairs: two definitions of one class, at different indexes and neither of them
excluded (`ArePair`). Counting finds the members of pairs and nothing else
(`two_le_length_filter_iff`), so the findings list exactly these, in one group for each class
(`duplicates_eq_pairs`). The uses of the classes have no part in it, nor has the join.
-/

namespace StyleAudit

/-! ## Pairs -/

section Pairs

variable (exclusions : Exclusions) (definitions : List ClassOccurrence)

/-- Whether a definition may be found duplicate: neither its stylesheet nor its class is excluded. -/
def IsCandidate (definition : ClassOccurrence) : Prop :=
  exclusions.excludes .css definition.path = false
    ∧ exclusions.excludes .duplicate definition.path = false
    ∧ exclusions.excludesClass definition.name = false

instance : DecidablePred (IsCandidate exclusions) := fun definition =>
  inferInstanceAs (Decidable (exclusions.excludes .css definition.path = false
    ∧ exclusions.excludes .duplicate definition.path = false
    ∧ exclusions.excludesClass definition.name = false))

/-- Whether the definitions at two different indexes define the same class and both may be found
duplicate. -/
def ArePair (i j : Nat) : Prop :=
  i ≠ j ∧ ∃ first second, definitions[i]? = some first ∧ definitions[j]? = some second
    ∧ first.name = second.name ∧ IsCandidate exclusions first ∧ IsCandidate exclusions second

theorem duplicatePlaces_eq : duplicatePlaces exclusions definitions
    = (definitions.filter fun definition => IsCandidate exclusions definition).map (·.place) := by
  rw [duplicatePlaces]
  congr 2
  funext definition
  rw [Bool.eq_iff_iff, decide_eq_true_iff, IsCandidate]
  simp [and_assoc]

end Pairs

/-- Values that are counted are two at least if each of them is one of two: there is another at a
different index. -/
theorem two_le_length_filter_iff {α : Type} {p : α → Bool} {values : List α} {i : Nat} {value : α}
    (hvalue : values[i]? = some value) (hp : p value = true) :
    2 ≤ (values.filter p).length ↔ ∃ j other, j ≠ i ∧ values[j]? = some other ∧ p other = true := by
  obtain ⟨hi, rfl⟩ := List.getElem?_eq_some_iff.mp hvalue
  -- the value at the index in front, the others behind it
  have hperm := (List.getElem_cons_eraseIdx_perm hi).filter p
  have hlength : (values.filter p).length = ((values.eraseIdx i).filter p).length + 1 := by
    rw [← hperm.length_eq, List.filter_cons_of_pos hp, List.length_cons]
  have hother : 0 < ((values.eraseIdx i).filter p).length ↔ ∃ other ∈ values.eraseIdx i, p other :=
    List.length_filter_pos_iff
  rw [hlength, Nat.succ_le_succ_iff, Nat.one_le_iff_ne_zero, ← Nat.pos_iff_ne_zero, hother]
  simp only [List.mem_eraseIdx_iff_getElem?]
  constructor
  · intro h
    obtain ⟨other, ⟨j, hj, hat⟩, hp'⟩ := h
    exact ⟨j, other, hj, hat, hp'⟩
  · intro h
    obtain ⟨j, other, hj, hat, hp'⟩ := h
    exact ⟨other, ⟨j, hj, hat⟩, hp'⟩

/-- A definition is in a pair if it may be found duplicate and is not alone in that in its class. -/
theorem exists_arePair_iff (exclusions : Exclusions) (definitions : List ClassOccurrence)
    (definition : ClassOccurrence) :
    (∃ i j, ArePair exclusions definitions i j ∧ definitions[i]? = some definition)
      ↔ definition.place ∈ duplicatePlaces exclusions definitions
        ∧ 2 ≤ ((duplicatePlaces exclusions definitions).filter fun place =>
          place.name = definition.name).length := by
  have hmem : definition.place ∈ duplicatePlaces exclusions definitions
      ↔ definition ∈ definitions ∧ IsCandidate exclusions definition := by
    obtain ⟨name, line, path⟩ := definition
    rw [duplicatePlaces_eq, ClassOccurrence.place, ClassOccurrence.mem_map_place_iff,
      List.mem_filter, decide_eq_true_iff]
  -- the places under the name are those of the candidates that define the class
  have hcount : ((duplicatePlaces exclusions definitions).filter fun place =>
        place.name = definition.name).length
      = (definitions.filter fun other =>
          IsCandidate exclusions other ∧ definition.name = other.name).length := by
    rw [duplicatePlaces_eq, List.filter_map, List.length_map, List.filter_filter]
    congr 2
    funext other
    rw [Bool.eq_iff_iff, Bool.and_eq_true, decide_eq_true_iff, decide_eq_true_iff, and_comm]
    exact and_congr_right fun _ => (decide_eq_true_iff.trans eq_comm)
  rw [hmem, hcount]
  constructor
  · intro h
    obtain ⟨i, j, ⟨hne, first, second, hfirst, hsecond, hname, hcandidate, hother⟩, hat⟩ := h
    obtain rfl := Option.some.inj (hat.symm.trans hfirst)
    refine ⟨⟨List.mem_of_getElem? hat, hcandidate⟩, ?_⟩
    refine (two_le_length_filter_iff hat ?_).mpr ⟨j, second, hne.symm, hsecond, ?_⟩
    · exact decide_eq_true ⟨hcandidate, rfl⟩
    · exact decide_eq_true ⟨hother, hname⟩
  · intro h
    obtain ⟨⟨hmem, hcandidate⟩, htwo⟩ := h
    obtain ⟨i, hat⟩ := List.mem_iff_getElem?.mp hmem
    obtain ⟨j, other, hne, hother, hpair⟩ :=
      (two_le_length_filter_iff hat (decide_eq_true ⟨hcandidate, rfl⟩)).mp htwo
    obtain ⟨hcandidate', hname⟩ := of_decide_eq_true hpair
    exact ⟨i, j, ⟨hne.symm, definition, other, hat, hother, hname, hcandidate, hcandidate'⟩, hat⟩

/-! ## Groups of several places -/

/-- The order that groups are in which hold some of the names of places: the names, each once, as
they first appear among all places; in each group all files of its name, each once and as they first
appear; for each file its lines in strictly ascending order. Nothing is empty. -/
structure OrderedAmong (places : List NamedPlace) (groups : List (String × List FileLines)) :
    Prop where
  nodup : (groups.map (·.1)).Nodup
  ordered : (groups.map (·.1)).Pairwise fun name other =>
    (places.map (·.name)).idxOf name < (places.map (·.name)).idxOf other
  files : ∀ group ∈ groups,
    InFirstOrder ((places.filter fun place => place.name = group.1).map (·.path))
      (group.2.map (·.path))
  locations_ne_nil : ∀ group ∈ groups, group.2 ≠ []
  lines_ne_nil : ∀ group ∈ groups, ∀ file ∈ group.2, file.lines ≠ []
  lines_ascending : ∀ group ∈ groups, ∀ file ∈ group.2, file.lines.Pairwise (· < ·)

/-- Leaving out groups leaves the others in order. -/
theorem Ordered.among {places : List NamedPlace} {groups kept : List (String × List FileLines)}
    (h : Ordered places groups) (hkept : kept.Sublist groups) : OrderedAmong places kept where
  nodup := h.names.nodup.sublist (hkept.map _)
  ordered := h.names.ordered.sublist (hkept.map _)
  files group hgroup := h.files group (hkept.subset hgroup)
  locations_ne_nil group hgroup := h.locations_ne_nil group (hkept.subset hgroup)
  lines_ne_nil group hgroup := h.lines_ne_nil group (hkept.subset hgroup)
  lines_ascending group hgroup := h.lines_ascending group (hkept.subset hgroup)

/-- The groups of the names with several places. -/
def severalGroups (places : List NamedPlace) : List (String × List FileLines) :=
  ((placesByName places).filter fun entry => 2 ≤ entry.2.length).map fun entry =>
    (entry.1, fileLines entry.2)

theorem severalGroups_sublist (places : List NamedPlace) :
    (severalGroups places).Sublist (groupsOf places) :=
  List.filter_sublist.map _

/-- Grouping the names with several places neither loses nor invents a place of these. -/
theorem severalGroups_lists_iff {places : List NamedPlace} {place : NamedPlace} :
    Lists (severalGroups places) place ↔ place ∈ places
      ∧ 2 ≤ (places.filter fun other => other.name = place.name).length := by
  have hmem {locations : List FileLines} : (place.name, locations) ∈ severalGroups places
      ↔ (place.name, locations) ∈ groupsOf places
        ∧ 2 ≤ (places.filter fun other => other.name = place.name).length := by
    simp only [severalGroups, groupsOf, List.mem_map, List.mem_filter, Prod.exists, Prod.mk.injEq,
      decide_eq_true_eq]
    constructor
    · intro h
      obtain ⟨name, here, ⟨hentry, htwo⟩, rfl, hlocations⟩ := h
      obtain ⟨-, hhere⟩ := mem_placesByName_iff.mp hentry
      exact ⟨⟨_, here, hentry, rfl, hlocations⟩, hhere ▸ htwo⟩
    · intro h
      obtain ⟨⟨name, here, hentry, rfl, hlocations⟩, htwo⟩ := h
      obtain ⟨-, hhere⟩ := mem_placesByName_iff.mp hentry
      exact ⟨_, here, ⟨hentry, hhere ▸ htwo⟩, rfl, hlocations⟩
  rw [← groupsOf_lists_iff]
  simp only [Lists, hmem]
  constructor
  · intro h
    obtain ⟨locations, ⟨hgroup, htwo⟩, hlisted⟩ := h
    exact ⟨⟨locations, hgroup, hlisted⟩, htwo⟩
  · intro h
    obtain ⟨⟨locations, hgroup, hlisted⟩, htwo⟩ := h
    exact ⟨locations, ⟨hgroup, htwo⟩, hlisted⟩

/-! ## The duplicates of a ledger -/

namespace Ledger

theorem map_group_duplicateDefinitions (ledger : Ledger) :
    ledger.duplicateDefinitions.map ClassFinding.group
      = severalGroups (duplicatePlaces ledger.exclusions
          (ledger.definitions.map (·.occurrence))) := by
  rw [duplicateDefinitions_eq, List.map_map]
  rfl

theorem map_occurrence_ofOccurrences (exclusions : Exclusions) (definitions : List ClassOccurrence)
    (uses : List Occurrence) :
    (ofOccurrences exclusions definitions uses).definitions.map (·.occurrence) = definitions := by
  simp [ofOccurrences, Function.comp_def]

/-- Nothing that is done with a ledger changes what it shows as duplicate. -/
theorem duplicateDefinitions_after (ledger : Ledger) (steps : List LedgerStep) :
    (ledger.after steps).duplicateDefinitions = ledger.duplicateDefinitions := by
  have hle := le_after ledger steps
  rw [duplicateDefinitions_eq, duplicateDefinitions_eq, hle.exclusions_eq,
    hle.definitions.map_occurrence]

end Ledger

/-- The duplicate definitions are the members of pairs. They are the same whatever the uses and the
excluded front and move paths are, and whatever has been done with the ledger: whether it has been
joined, and what has been linked by hand. A definition is listed exactly if it is in a pair. The
groups, one for each class, follow the first candidates of their classes. -/
theorem duplicates_eq_pairs (exclusions : Exclusions) (definitions : List ClassOccurrence) :
    ∃ duplicates,
      (∀ (frontPaths movePaths : List String) (uses : List Occurrence) (steps : List LedgerStep),
        ((Ledger.ofOccurrences { exclusions with frontPaths, movePaths } definitions uses).after
          steps).duplicateDefinitions = duplicates)
        ∧ (∀ name path line, Lists (duplicates.map ClassFinding.group) ⟨name, path, line⟩ ↔
          ∃ i j, ArePair exclusions definitions i j
            ∧ definitions[i]? = some ⟨name, line, path⟩)
        ∧ OrderedAmong
          ((definitions.filter fun definition => IsCandidate exclusions definition).map (·.place))
          (duplicates.map ClassFinding.group) := by
  refine ⟨(Ledger.ofOccurrences exclusions definitions []).duplicateDefinitions, ?_, ?_⟩
  · intro frontPaths movePaths uses steps
    rw [Ledger.duplicateDefinitions_after, Ledger.duplicateDefinitions_eq,
      Ledger.duplicateDefinitions_eq, Ledger.map_occurrence_ofOccurrences,
      Ledger.map_occurrence_ofOccurrences]
    rfl
  · rw [Ledger.map_group_duplicateDefinitions, Ledger.map_occurrence_ofOccurrences,
      ← duplicatePlaces_eq]
    refine ⟨?_, (groupsOf_ordered _).among (severalGroups_sublist _)⟩
    intro name path line
    rw [severalGroups_lists_iff]
    exact (exists_arePair_iff exclusions definitions ⟨name, line, path⟩).symm

/-- One definition that is listed twice is a pair; one in an excluded directory is in none. -/
example : (Ledger.ofOccurrences { duplicatePaths := ["lib"] }
    [⟨"a", 3, "x.css"⟩, ⟨"a", 1, "lib/y.css"⟩, ⟨"b", 1, "x.css"⟩, ⟨"a", 3, "x.css"⟩]
    []).duplicateDefinitions = [⟨"a", [⟨"x.css", [3]⟩]⟩] := by
  decide

end StyleAudit
