import StyleAudit.Proofs.Analysis.Grouping

/-!
# Acting on the findings

Findings can be acted on without doing harm. Once the definitions that are listed as unused are
taken out, no definition is unused; once the classes that are listed as missing are defined, none is
missing. Either way the findings that have nothing to do with it stay as they were
(`findings_after_remedies`).

A definition that is unused has no use that counts, so it defines nothing that could be missing
without it and is no reason for a suggestion. A class that is missing has a use that counts and no
definition, so its new definition is neither unused nor a duplicate.
-/

namespace StyleAudit

/-! ## Taking out what is unused -/

instance (groups : List (String × List FileLines)) : DecidablePred (Lists groups) := fun place =>
  decidable_of_iff (groups.any fun group => group.1 = place.name
      && group.2.any fun file => file.path = place.path && file.lines.contains place.line) <| by
    simp only [List.any_eq_true, Bool.and_eq_true, decide_eq_true_eq, List.contains_iff_mem, Lists]
    constructor
    · rintro ⟨⟨name, locations⟩, hgroup, rfl, ⟨path, lines⟩, hfile, rfl, hline⟩
      exact ⟨locations, hgroup, lines, hfile, hline⟩
    · rintro ⟨locations, hgroup, lines, hfile, hline⟩
      exact ⟨_, hgroup, rfl, _, hfile, rfl, hline⟩

/-- The definitions that groups do not list. -/
def unlisted (groups : List (String × List FileLines)) (definitions : List ClassOccurrence) :
    List ClassOccurrence :=
  definitions.filter fun definition => ¬ Lists groups definition.place

section Unused

variable (exclusions : Exclusions) (definitions : List ClassOccurrence) (uses : List Occurrence)

/-- The definitions that are in use, or are not looked at. -/
def keptDefinitions : List ClassOccurrence :=
  definitions.filter fun definition => ¬ IsUnused exclusions uses definition

/-- What is not listed as unused is what is kept. -/
theorem unlisted_unusedPlaces :
    unlisted (groupsOf (unusedPlaces exclusions definitions uses)) definitions
      = keptDefinitions exclusions definitions uses := by
  refine List.filter_congr fun definition hmem => decide_eq_decide.mpr (not_congr ?_)
  rw [groupsOf_lists_iff, ClassOccurrence.place, mem_unusedPlaces_iff]
  exact and_iff_right hmem

theorem unusedPlaces_kept :
    unusedPlaces exclusions (keptDefinitions exclusions definitions uses) uses = [] := by
  rw [unusedPlaces, keptDefinitions, List.filter_filter, List.map_eq_nil_iff,
    List.filter_eq_nil_iff]
  simp

/-- A use that counts keeps the definitions of its class, so no class is missing for what was taken
out. -/
theorem isMissing_kept {use : ClassOccurrence} (huse : .named use ∈ uses) :
    IsMissing exclusions (keptDefinitions exclusions definitions uses) use
      ↔ IsMissing exclusions definitions use := by
  refine and_congr_right fun _ => and_congr_right fun _ => and_congr_right fun hfront => ?_
  constructor
  · intro h definition hmem hname
    have hused : ¬ IsUnused exclusions uses definition := by
      rintro ⟨-, -, -, hunused⟩
      simp [hunused use huse hname.symm] at hfront
    exact h definition (List.mem_filter.mpr ⟨hmem, by simpa using hused⟩) hname
  · intro h definition hmem
    exact h definition (List.mem_of_mem_filter hmem)

theorem missingPlaces_kept :
    missingPlaces exclusions (keptDefinitions exclusions definitions uses) uses
      = missingPlaces exclusions definitions uses := by
  rw [missingPlaces, missingPlaces]
  congr 1
  refine List.filter_congr fun use hmem => decide_eq_decide.mpr ?_
  obtain ⟨occurrence, hoccurrence, hnamed⟩ := List.mem_filterMap.mp hmem
  obtain rfl := Occurrence.named?_eq_some_iff.mp hnamed
  exact isMissing_kept exclusions definitions uses hoccurrence

/-- Nothing uses a definition that is unused, so there is no place to move it to. -/
theorem relocationSuggestions_kept (isFile : String → Bool) :
    (pairwiseJoin exclusions (keptDefinitions exclusions definitions uses)
        uses).relocationSuggestions isFile
      = (pairwiseJoin exclusions definitions uses).relocationSuggestions isFile := by
  simp only [Ledger.relocationSuggestions, pairwiseJoin, keptDefinitions, List.filterMap_map,
    List.filterMap_filter]
  congr 2
  funext definition
  by_cases h : IsUnused exclusions uses definition
  · have hfiles := ((isUnused_iff exclusions uses).mp h).1
    simp [h, Ledger.relocation?, Record.files, hfiles]
  · simp [h, Ledger.relocation?]

end Unused

/-! ## Defining what is missing -/

section Missing

variable {exclusions : Exclusions} {definitions added : List ClassOccurrence}
  {uses : List Occurrence}

/-- A class that is listed as missing has a use that is missing it. -/
theorem exists_isMissing_of_mem {name : String}
    (h : name ∈ (missingPlaces exclusions definitions uses).map (·.name)) :
    ∃ use, .named use ∈ uses ∧ use.name = name ∧ IsMissing exclusions definitions use := by
  obtain ⟨⟨name, path, line⟩, hplace, rfl⟩ := List.mem_map.mp h
  obtain ⟨huse, hmissing⟩ := (mem_missingPlaces_iff exclusions definitions uses).mp hplace
  exact ⟨_, huse, rfl, hmissing⟩

variable (hadded : ∀ name, name ∈ added.map (·.name)
  ↔ name ∈ (missingPlaces exclusions definitions uses).map (·.name))
include hadded

theorem missingPlaces_append : missingPlaces exclusions (definitions ++ added) uses = [] := by
  refine List.eq_nil_iff_forall_not_mem.mpr ?_
  rintro ⟨name, path, line⟩ hplace
  obtain ⟨huse, hname, hclass, hfront, hundefined⟩ :=
    (mem_missingPlaces_iff exclusions (definitions ++ added) uses).mp hplace
  have hbefore : ⟨name, path, line⟩ ∈ missingPlaces exclusions definitions uses := by
    refine (mem_missingPlaces_iff exclusions definitions uses).mpr
      ⟨huse, hname, hclass, hfront, fun definition hmem => ?_⟩
    exact hundefined definition (List.mem_append_left _ hmem)
  obtain ⟨definition, hmem, hsame⟩ :=
    List.mem_map.mp ((hadded name).mpr (List.mem_map_of_mem hbefore))
  exact hundefined definition (List.mem_append_right _ hmem) hsame

/-- The use that a class was missing for uses its new definition. -/
theorem unusedPlaces_append :
    unusedPlaces exclusions (definitions ++ added) uses
      = unusedPlaces exclusions definitions uses := by
  rw [unusedPlaces, unusedPlaces, List.filter_append]
  have hnone : added.filter (fun definition => IsUnused exclusions uses definition) = [] := by
    refine List.filter_eq_nil_iff.mpr fun definition hmem => ?_
    obtain ⟨use, huse, hname, -, -, hfront, -⟩ :=
      exists_isMissing_of_mem ((hadded definition.name).mp (List.mem_map_of_mem hmem))
    simp only [decide_eq_true_eq]
    rintro ⟨-, -, -, hunused⟩
    simp [hunused use huse hname] at hfront
  rw [hnone, List.append_nil]

/-- No class that gets a definition has one already. -/
theorem disjoint_added : ∀ definition ∈ added, ∀ other ∈ definitions,
    other.name ≠ definition.name := by
  intro definition hmem other hother
  obtain ⟨use, -, hname, -, -, -, hundefined⟩ :=
    exists_isMissing_of_mem ((hadded definition.name).mp (List.mem_map_of_mem hmem))
  exact hname ▸ hundefined other hother

end Missing

/-! ### Groups of several places -/

theorem placesByName_concat {places : List NamedPlace} {place : NamedPlace}
    (h : ∀ other ∈ places, other.name ≠ place.name) :
    placesByName (places ++ [place]) = placesByName places ++ [(place.name, [place])] := by
  have hnew : place.name ∉ (placesByName places).map (·.1) := by
    intro hmem
    rw [← map_fst_groupsOf, (groupsOf_ordered places).names.mem_iff] at hmem
    obtain ⟨other, hother, hname⟩ := List.mem_map.mp hmem
    exact h other hother hname
  rw [← addTo_of_not_mem place hnew]
  simp [placesByName, collect]

/-- Names that are new and have one place each make no group of several places. -/
theorem severalPlaces_append {places added : List NamedPlace}
    (hadded : (added.map (·.name)).Nodup)
    (hnew : ∀ place ∈ added, ∀ other ∈ places, other.name ≠ place.name) :
    ((placesByName (places ++ added)).filter fun entry => 2 ≤ entry.2.length)
      = (placesByName places).filter fun entry => 2 ≤ entry.2.length := by
  induction added generalizing places with
  | nil => rw [List.append_nil]
  | cons place added ih =>
    obtain ⟨hfirst, hadded⟩ := List.nodup_cons.mp hadded
    -- the first new place makes a group of its own, and is an old place for the others
    have hrest : ∀ next ∈ added, ∀ other ∈ places ++ [place], other.name ≠ next.name := by
      intro next hnext other hother
      rcases List.mem_append.mp hother with hother | hother
      · exact hnew next (List.mem_cons_of_mem _ hnext) other hother
      · obtain rfl := List.mem_singleton.mp hother
        exact fun hname => hfirst (List.mem_map.mpr ⟨next, hnext, hname.symm⟩)
    rw [List.append_cons, ih hadded hrest,
      placesByName_concat (hnew place List.mem_cons_self), List.filter_append]
    simp

/-- One new definition for each of some classes without a definition makes no duplicate. -/
theorem duplicateDefinitions_append {exclusions : Exclusions}
    {definitions added : List ClassOccurrence} (uses : List Occurrence)
    (hadded : (added.map (·.name)).Nodup)
    (hnew : ∀ definition ∈ added, ∀ other ∈ definitions, other.name ≠ definition.name) :
    (pairwiseJoin exclusions (definitions ++ added) uses).duplicateDefinitions
      = (pairwiseJoin exclusions definitions uses).duplicateDefinitions := by
  have hplaces : duplicatePlaces exclusions (definitions ++ added)
      = duplicatePlaces exclusions definitions ++ duplicatePlaces exclusions added := by
    simp only [duplicatePlaces, List.filter_append, List.map_append]
  have honce : ((duplicatePlaces exclusions added).map (·.name)).Nodup := by
    rw [duplicatePlaces, List.map_map]
    exact hadded.sublist (List.filter_sublist.map _)
  rw [duplicateDefinitions_pairwiseJoin, duplicateDefinitions_pairwiseJoin, hplaces,
    severalPlaces_append honce]
  intro place hplace other hother
  obtain ⟨definition, hdefinition, rfl⟩ := List.mem_map.mp hplace
  obtain ⟨before, hbefore, rfl⟩ := List.mem_map.mp hother
  exact hnew definition (List.mem_of_mem_filter hdefinition) before
    (List.mem_of_mem_filter hbefore)

/-! ## The remedies -/

/-- Acting on a report is safe, whatever is excluded. In a run over the definitions that the report
does not list as unused, none is unused, and the missing definitions, suggestions and expressions
are the same. In a run with one more definition for each class that the report lists as missing,
wherever that definition stands, none is missing, and the unused definitions, expressions and
duplicates are the same. -/
theorem findings_after_remedies (exclusions : Exclusions) (definitions : List ClassOccurrence)
    (uses : List Occurrence) (isFile : String → Bool) :
    ∃ findings unused missing,
      ((Ledger.ofOccurrences exclusions definitions uses).run {} isFile).2 = .ok findings
        ∧ findings.unusedDefinitions = some unused
        ∧ findings.missingDefinitions = some missing
        ∧ (∃ after,
          ((Ledger.ofOccurrences exclusions (unlisted (unused.map ClassFinding.group) definitions)
              uses).run {} isFile).2 = .ok after
            ∧ after.unusedDefinitions = some []
            ∧ after.missingDefinitions = findings.missingDefinitions
            ∧ after.relocationSuggestions = findings.relocationSuggestions
            ∧ after.expressions = findings.expressions)
        ∧ ∀ added : List ClassOccurrence,
          (added.map (·.name)).Perm (missing.map (·.name)) → ∃ after,
            ((Ledger.ofOccurrences exclusions (definitions ++ added) uses).run {} isFile).2
                = .ok after
              ∧ after.missingDefinitions = some []
              ∧ after.unusedDefinitions = findings.unusedDefinitions
              ∧ after.expressions = findings.expressions
              ∧ after.duplicateDefinitions = findings.duplicateDefinitions := by
  refine ⟨_, _, _, by rw [Ledger.run_ofOccurrences], rfl, rfl, ?_, ?_⟩
  · have hlisted : (pairwiseJoin exclusions definitions uses).unusedDefinitions.map
        ClassFinding.group = groupsOf (unusedPlaces exclusions definitions uses) := by
      rw [unusedDefinitions_pairwiseJoin, map_group_classFindings]
    rw [hlisted, unlisted_unusedPlaces]
    refine ⟨_, by rw [Ledger.run_ofOccurrences], ?_, ?_, ?_, ?_⟩
    · exact congrArg some (by rw [unusedDefinitions_pairwiseJoin, unusedPlaces_kept]; rfl)
    · exact congrArg some (by
        rw [missingDefinitions_pairwiseJoin, missingDefinitions_pairwiseJoin, missingPlaces_kept])
    · exact congrArg some (relocationSuggestions_kept exclusions definitions uses isFile)
    · exact congrArg some (by rw [expressions_pairwiseJoin, expressions_pairwiseJoin])
  · intro added hperm
    rw [missingDefinitions_pairwiseJoin] at hperm
    have hnames := inFirstOrder_classFindings (missingPlaces exclusions definitions uses)
    have hadded (name : String) : name ∈ added.map (·.name)
        ↔ name ∈ (missingPlaces exclusions definitions uses).map (·.name) :=
      hperm.mem_iff.trans (hnames.mem_iff name)
    refine ⟨_, by rw [Ledger.run_ofOccurrences], ?_, ?_, ?_, ?_⟩
    · exact congrArg some (by
        rw [missingDefinitions_pairwiseJoin, missingPlaces_append hadded]; rfl)
    · exact congrArg some (by
        rw [unusedDefinitions_pairwiseJoin, unusedDefinitions_pairwiseJoin,
          unusedPlaces_append hadded])
    · exact congrArg some (by rw [expressions_pairwiseJoin, expressions_pairwiseJoin])
    · exact congrArg some (duplicateDefinitions_append uses (hperm.nodup_iff.mpr hnames.nodup)
        (disjoint_added hadded))

/-- A class in use, one that is not, and one in a stylesheet that is excluded. -/
def remediedDefinitions : List ClassOccurrence :=
  [⟨"a", 1, "x.css"⟩, ⟨"b", 2, "x.css"⟩, ⟨"d", 1, "lib/y.css"⟩]

/-- Uses of a class with a definition and, twice, of one without. -/
def remediedUses : List Occurrence :=
  [.named ⟨"a", 1, "pages/p.html"⟩, .named ⟨"c", 3, "pages/p.html"⟩, .named ⟨"c", 5, "q.html"⟩]

/-- One definition of the class without a definition settles what is missing. -/
theorem findings_after_remedies_definedOnce :
    ∃ findings after,
      ((Ledger.ofOccurrences { cssPaths := ["lib"] } remediedDefinitions remediedUses).run {}
          fun _ => false).2 = .ok findings
        ∧ findings.missingDefinitions
          = some [⟨"c", [⟨"pages/p.html", [3]⟩, ⟨"q.html", [5]⟩]⟩]
        ∧ ([⟨"c", 9, "lib/new.css"⟩].map fun definition : ClassOccurrence => definition.name).Perm
          ["c"]
        ∧ ((Ledger.ofOccurrences { cssPaths := ["lib"] }
            (remediedDefinitions ++ [⟨"c", 9, "lib/new.css"⟩]) remediedUses).run {}
              fun _ => false).2 = .ok after
        ∧ after.missingDefinitions = some []
        ∧ after.unusedDefinitions = some [⟨"b", [⟨"x.css", [2]⟩]⟩] := by
  obtain ⟨findings, unused, missing, hrun, hunused, hmissing, -, hadded⟩ :=
    findings_after_remedies { cssPaths := ["lib"] } remediedDefinitions remediedUses fun _ => false
  cases hrun
  cases hunused
  cases hmissing
  obtain ⟨after, hafter, hnone, hsame, -, -⟩ := hadded [⟨"c", 9, "lib/new.css"⟩] (.refl ["c"])
  exact ⟨_, after, rfl, rfl, .refl _, hafter, hnone, hsame⟩

end StyleAudit
