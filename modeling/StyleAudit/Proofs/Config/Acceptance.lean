import StyleAudit.Config
import StyleAudit.Proofs.Json.Checked

/-!
# Which configurations are accepted

A configuration is accepted exactly if each of its fields has an admissible value and the list of
exclusions is an object in which every name is a spelling of a field, no field is spelled twice, and
every value is a list of texts (`Config.exists_isRead_iff`). Each field then reads as its own entry
says, or is its default (`Config.isRead_iff`). If it is not accepted, the problems are the faults of
the fields and the names that no field is read from (`Config.mem_problems_iff`).
-/

namespace StyleAudit

/-! ## Exclusions -/

namespace ExclusionLists

/-- Whether no field is read from an entry: its name is no spelling of a field, or another spelling
of the field comes first. -/
def IsExtra (entries : List (String × Json)) (name : String) : Prop :=
  ∀ spelled ∈ spellings, ∀ value, ¬ FieldEntry entries spelled name value

/-- Whether listed exclusions are what an object reads as. -/
structure IsRead (entries : List (String × Json)) (lists : ExclusionLists) : Prop where
  cssPaths : FieldReads entries ["cssPaths", "css", "css_paths"] [] (IsList IsText) lists.cssPaths
  movePaths : FieldReads entries ["moveCssPaths", "notUsedCss", "move_css_paths"] []
    (IsList IsText) lists.movePaths
  frontPaths : FieldReads entries ["frontPaths", "front", "front_paths"] [] (IsList IsText)
    lists.frontPaths
  duplicatePaths : FieldReads entries ["duplicateCssPaths", "duplicateCss", "duplicate_css_paths"]
    [] (IsList IsText) lists.duplicatePaths
  classes : FieldReads entries ["cssClasses", "css_classes"] [] (IsList IsText) lists.classes
  noExtra : ∀ name ∈ entries.map Prod.fst, ¬ IsExtra entries name

/-- Whether listed exclusions are what a JSON value reads as. -/
def IsExclusions (json : Json) (lists : ExclusionLists) : Prop :=
  ∃ entries, json = .obj entries ∧ IsRead entries lists

/-- What is wrong with a JSON value that does not list exclusions: it is no object, or a field of it
has a fault, or no field is read from an entry. -/
inductive Fault : Json → Problem → Prop
  | type {json : Json} (h : ∀ entries, json ≠ .obj entries) :
    Fault json ⟨[], .modelType "BlacklistConfig"⟩
  | field {entries : List (String × Json)} {spelled : List String} {problem : Problem}
    (hspelled : spelled ∈ spellings)
    (h : FieldFault entries spelled (ListFault TextFault) problem) : Fault (.obj entries) problem
  | extra {entries : List (String × Json)} {name : String} (hmem : name ∈ entries.map Prod.fst)
    (h : IsExtra entries name) : Fault (.obj entries) ⟨[name], .extraForbidden⟩

/-- Whether an object has only spellings of fields for names, each field spelled once, and lists of
texts for values. -/
structure Admissible (entries : List (String × Json)) : Prop where
  known : ∀ name ∈ entries.map Prod.fst, ∃ spelled ∈ spellings, name ∈ spelled
  once : ∀ spelled ∈ spellings, ∀ name ∈ entries.map Prod.fst, ∀ other ∈ entries.map Prod.fst,
    name ∈ spelled → other ∈ spelled → name = other
  texts : ∀ name json, entries.lookup name = some json →
    ∃ texts : List String, json = .arr (texts.map .str)

section Object

variable {entries : List (String × Json)}

theorem decides_texts : Decides (checkItems checkText) (IsList IsText) (ListFault TextFault) :=
  decides_text.items

/-- The problems of an object are those of its fields and those of the names that are left over. -/
theorem problems_check_obj (entries : List (String × Json)) :
    (check (.obj entries)).problems
      = (spellings.flatMap fun spelled =>
          (checkField entries spelled [] (checkItems checkText)).problems)
        ++ extraProblems entries := by
  simp [check, spellings]

theorem isExtra_iff {name : String} :
    IsExtra entries name ↔ name ∉ spellings.flatMap (usedNames entries) := by
  simp only [IsExtra, List.mem_flatMap, mem_usedNames_iff, not_exists, not_and]

theorem extraProblems_eq (entries : List (String × Json)) :
    extraProblems entries
      = ((entries.map Prod.fst).filter fun name =>
          !(spellings.flatMap (usedNames entries)).contains name).map fun name =>
            ⟨[name], .extraForbidden⟩ := by
  have hused : spellings.filterMap
        (fun names => (spelling? entries names).map (JsonText.ofString ·.1))
      = spellings.flatMap (usedNames entries) := by
    rw [List.filterMap_eq_flatMap_toList]
    rfl
  rw [extraProblems, hused, List.filter_map, List.map_map]
  rfl

theorem mem_extraProblems_iff {problem : Problem} :
    problem ∈ extraProblems entries ↔ ∃ name ∈ entries.map Prod.fst, IsExtra entries name
      ∧ problem = ⟨[name], .extraForbidden⟩ := by
  rw [extraProblems_eq, List.mem_map]
  constructor
  · rintro ⟨name, hmem, rfl⟩
    obtain ⟨hmem, hextra⟩ := List.mem_filter.mp hmem
    exact ⟨name, hmem, isExtra_iff.mpr (by simpa using hextra), rfl⟩
  · rintro ⟨name, hmem, hextra, rfl⟩
    exact ⟨name, List.mem_filter.mpr ⟨hmem, by simpa using isExtra_iff.mp hextra⟩, rfl⟩

theorem locatedIn_extraProblems (hnames : (entries.map Prod.fst).Nodup) :
    LocatedIn ((entries.map Prod.fst).filter fun name =>
      !(spellings.flatMap (usedNames entries)).contains name) (extraProblems entries) := by
  rw [extraProblems_eq]
  constructor
  · intro problem hmem
    obtain ⟨name, hname, rfl⟩ := List.mem_map.mp hmem
    exact ⟨name, hname, rfl⟩
  · rw [List.map_map]
    exact (hnames.filter _).map fun name other h => (List.cons.inj h).1

theorem pairwise_spellings :
    spellings.Pairwise fun spelled other => ∀ name ∈ spelled, name ∉ other := by
  decide

theorem extraProblems_eq_nil_iff :
    extraProblems entries = [] ↔ ∀ name ∈ entries.map Prod.fst, ¬ IsExtra entries name := by
  simp only [List.eq_nil_iff_forall_not_mem, mem_extraProblems_iff]
  constructor
  · intro h name hmem hextra
    exact h _ ⟨name, hmem, hextra, rfl⟩
  · rintro h _ ⟨name, hmem, hextra, -⟩
    exact h name hmem hextra

/-- The fields are read from an object one by one. -/
theorem isRead_iff {lists : ExclusionLists} : IsRead entries lists
    ↔ (check (.obj entries)).problems = [] ∧ (check (.obj entries)).value = lists := by
  obtain ⟨css, move, front, duplicate, classes⟩ := lists
  constructor
  · rintro ⟨hcss, hmove, hfront, hduplicate, hclasses, hextra⟩
    rw [decides_texts.fieldReads_iff] at hcss hmove hfront hduplicate hclasses
    rw [problems_check_obj, extraProblems_eq_nil_iff.mpr hextra]
    simp [spellings, hcss, hmove, hfront, hduplicate, hclasses, check]
  · rw [problems_check_obj, List.append_eq_nil_iff, extraProblems_eq_nil_iff]
    rintro ⟨⟨hproblems, hextra⟩, hvalue⟩
    simp only [spellings, List.flatMap_cons, List.flatMap_nil, List.append_eq_nil_iff,
      and_true] at hproblems
    simp only [check, mk.injEq] at hvalue
    obtain ⟨hcss, hmove, hfront, hduplicate, hclasses⟩ := hproblems
    obtain ⟨vcss, vmove, vfront, vduplicate, vclasses⟩ := hvalue
    exact ⟨decides_texts.fieldReads_iff.mpr ⟨hcss, vcss⟩,
      decides_texts.fieldReads_iff.mpr ⟨hmove, vmove⟩,
      decides_texts.fieldReads_iff.mpr ⟨hfront, vfront⟩,
      decides_texts.fieldReads_iff.mpr ⟨hduplicate, vduplicate⟩,
      decides_texts.fieldReads_iff.mpr ⟨hclasses, vclasses⟩, hextra⟩

theorem decides : Decides check IsExclusions Fault where
  reads json lists := by
    cases json with
    | obj entries => simp [IsExclusions, isRead_iff]
    | _ => simp [IsExclusions, check, Checked.problem]
  faults json problem := by
    cases json with
    | obj entries =>
      rw [problems_check_obj, List.mem_append, List.mem_flatMap, mem_extraProblems_iff]
      simp only [← decides_texts.fieldFault_iff]
      constructor
      · intro h
        cases h with
        | type h => exact absurd rfl (h entries)
        | field hspelled h => exact .inl ⟨_, hspelled, h⟩
        | extra hmem h => exact .inr ⟨_, hmem, h, rfl⟩
      · rintro (⟨spelled, hspelled, h⟩ | ⟨name, hmem, h, rfl⟩)
        · exact .field hspelled h
        · exact .extra hmem h
    | _ =>
      simp only [check, Checked.problem, List.mem_singleton]
      refine ⟨fun h => by cases h; rfl, ?_⟩
      rintro rfl
      exact .type (by simp)
  once json hjson := by
    cases json with
    | obj entries =>
      rw [problems_check_obj]
      have hfields := LocatedIn.flatMap (fun spelled (_ : spelled ∈ spellings) =>
        decides_texts.locatedIn_field [] hjson) (fun _ => usedNames_subset) pairwise_spellings
      have hextra := locatedIn_extraProblems (Json.isReadable_obj.mp hjson).1
      refine (hfields.append hextra fun name hused hmem => ?_).once
      simpa [hused] using List.of_mem_filter hmem
    | _ => simp [check, Checked.problem]

theorem isList_isText_iff {json : Json} {texts : List String} :
    IsList IsText json texts ↔ json = .arr (texts.map .str) := by
  have hitems {items : List Json} : List.Forall₂ IsText items texts ↔ items = texts.map .str := by
    have hmap : List.Forall₂ Eq items (texts.map .str) ↔ List.Forall₂ IsText items texts :=
      List.forall₂_map_right_iff
    rw [← hmap, List.forall₂_eq_eq_eq]
  constructor
  · rintro ⟨items, rfl, h⟩
    rw [hitems.mp h]
  · rintro rfl
    exact ⟨_, rfl, hitems.mpr rfl⟩

theorem not_isExtra_iff {name : String} : ¬ IsExtra entries name
    ↔ ∃ spelled ∈ spellings, ∃ value, FieldEntry entries spelled name value := by
  simp [IsExtra]

/-- All names are used exactly if they are spellings of fields and no field is spelled twice. -/
theorem forall_not_isExtra_iff : (∀ name ∈ entries.map Prod.fst, ¬ IsExtra entries name)
    ↔ (∀ name ∈ entries.map Prod.fst, ∃ spelled ∈ spellings, name ∈ spelled)
      ∧ ∀ spelled ∈ spellings, ∀ name ∈ entries.map Prod.fst, ∀ other ∈ entries.map Prod.fst,
        name ∈ spelled → other ∈ spelled → name = other := by
  simp only [not_isExtra_iff]
  constructor
  · intro h
    refine ⟨fun name hmem => ?_, fun spelled hspelled name hmem other hother hname hname' => ?_⟩
    · obtain ⟨spelled, hspelled, value, hentry⟩ := h name hmem
      exact ⟨spelled, hspelled, hentry.mem⟩
    · -- both names are the one that the field is read from
      obtain ⟨spelled₁, hspelled₁, value₁, hentry₁⟩ := h name hmem
      obtain ⟨spelled₂, hspelled₂, value₂, hentry₂⟩ := h other hother
      obtain rfl := spelled_unique pairwise_spellings hspelled hspelled₁ hname hentry₁.mem
      obtain rfl := spelled_unique pairwise_spellings hspelled hspelled₂ hname' hentry₂.mem
      exact (hentry₁.unique hentry₂).1
  · rintro ⟨hknown, honce⟩ name hmem
    obtain ⟨spelled, hspelled, hname⟩ := hknown name hmem
    obtain ⟨used, value, hentry⟩ | habsent := fieldEntry_or_absent entries spelled
    · have hused := List.mem_map_of_mem (f := Prod.fst) (mem_of_lookup_eq_some hentry.lookup)
      obtain rfl := honce spelled hspelled used hused name hmem hentry.mem hname
      exact ⟨spelled, hspelled, value, hentry⟩
    · exact absurd hmem (not_mem_of_lookup_eq_none (habsent name hname))

theorem IsRead.exists_field {lists : ExclusionLists} (h : IsRead entries lists) :
    ∀ spelled ∈ spellings, ∃ texts, FieldReads entries spelled [] (IsList IsText) texts := by
  simp only [spellings, List.forall_mem_cons, List.not_mem_nil, false_imp_iff, implies_true,
    and_true]
  exact ⟨⟨_, h.cssPaths⟩, ⟨_, h.movePaths⟩, ⟨_, h.frontPaths⟩, ⟨_, h.duplicatePaths⟩,
    ⟨_, h.classes⟩⟩

/-- An object can be read exactly if it is admissible. -/
theorem exists_isRead_iff : (∃ lists, IsRead entries lists) ↔ Admissible entries := by
  constructor
  · rintro ⟨lists, hread⟩
    obtain ⟨hknown, honce⟩ := forall_not_isExtra_iff.mp hread.noExtra
    refine ⟨hknown, honce, fun name json hlookup => ?_⟩
    have hmem := List.mem_map_of_mem (f := Prod.fst) (mem_of_lookup_eq_some hlookup)
    obtain ⟨spelled, hspelled, value, hentry⟩ := not_isExtra_iff.mp (hread.noExtra name hmem)
    obtain ⟨texts, htexts⟩ :=
      exists_fieldReads_iff.mp (hread.exists_field spelled hspelled) name value hentry
    rw [hentry.lookup, Option.some.injEq] at hlookup
    exact ⟨texts, hlookup ▸ isList_isText_iff.mp htexts⟩
  · intro h
    have hfields : ∀ spelled ∈ spellings,
        ∃ texts, FieldReads entries spelled [] (IsList IsText) texts := by
      refine fun spelled _ => exists_fieldReads_iff.mpr fun name json hentry => ?_
      obtain ⟨texts, htexts⟩ := h.texts name json hentry.lookup
      exact ⟨texts, isList_isText_iff.mpr htexts⟩
    simp only [spellings, List.forall_mem_cons] at hfields
    obtain ⟨⟨css, hcss⟩, ⟨move, hmove⟩, ⟨front, hfront⟩, ⟨duplicate, hduplicate⟩,
      ⟨classes, hclasses⟩, -⟩ := hfields
    exact ⟨⟨css, move, front, duplicate, classes⟩, hcss, hmove, hfront, hduplicate, hclasses,
      forall_not_isExtra_iff.mpr ⟨h.known, h.once⟩⟩

end Object

end ExclusionLists

/-! ## Fields of a configuration -/

namespace Config

/-- The spellings of the fields that are yes or no. -/
def flagSpellings : List (List String) :=
  [["checkDeclarations", "check_declarations"], ["checkDefinitionPaths", "check_definition_paths"],
    ["checkDefinitions", "check_definitions"], ["listExpressions", "list_expressions"],
    ["duplicateDefinitions", "duplicate_definitions"]]

/-- The spellings of the fields that are lists of texts. -/
def listSpellings : List (List String) :=
  [["cssFiles", "css_files"], ["frontFiles", "front_files"]]

/-- The spellings of the field that is a text. -/
def logSpellings : List String := ["outputLog", "output_log"]

/-- The spellings of all fields. -/
def spellings : List (List String) :=
  flagSpellings ++ listSpellings ++ [logSpellings, ["blacklist"]]

/-- Whether a configuration is what an object reads as. Each field is read from an entry of its own
or is its default. -/
structure IsRead (entries : List (String × Json)) (config : Config) : Prop where
  checkDeclarations : FieldReads entries ["checkDeclarations", "check_declarations"] true IsFlag
    config.checkDeclarations
  checkDefinitionPaths : FieldReads entries ["checkDefinitionPaths", "check_definition_paths"] true
    IsFlag config.checkDefinitionPaths
  checkDefinitions : FieldReads entries ["checkDefinitions", "check_definitions"] true IsFlag
    config.checkDefinitions
  listExpressions : FieldReads entries ["listExpressions", "list_expressions"] true IsFlag
    config.listExpressions
  duplicateDefinitions : FieldReads entries ["duplicateDefinitions", "duplicate_definitions"] true
    IsFlag config.duplicateDefinitions
  cssFiles : FieldReads entries ["cssFiles", "css_files"] [".css", ".scss"] (IsList IsText)
    config.cssFiles
  frontFiles : FieldReads entries ["frontFiles", "front_files"] [".tsx", ".jsx", ".html"]
    (IsList IsText) config.frontFiles
  outputLog : FieldReads entries ["outputLog", "output_log"] "./logs.txt" IsText config.outputLog
  exclusions : FieldReads entries ["blacklist"] {} ExclusionLists.IsExclusions config.exclusions

/-- What is wrong with an object that is no configuration: a fault of one of its fields. -/
inductive Fault (entries : List (String × Json)) : Problem → Prop
  | flag {spelled : List String} {problem : Problem} (hspelled : spelled ∈ flagSpellings)
    (h : FieldFault entries spelled FlagFault problem) : Fault entries problem
  | list {spelled : List String} {problem : Problem} (hspelled : spelled ∈ listSpellings)
    (h : FieldFault entries spelled (ListFault TextFault) problem) : Fault entries problem
  | log {problem : Problem} (h : FieldFault entries logSpellings TextFault problem) :
    Fault entries problem
  | exclusions {problem : Problem}
    (h : FieldFault entries ["blacklist"] ExclusionLists.Fault problem) : Fault entries problem

/-- Whether each field that an object has an entry for has an admissible value. -/
structure Admissible (entries : List (String × Json)) : Prop where
  flags : ∀ spelled ∈ flagSpellings, ∀ name json, FieldEntry entries spelled name json →
    ∃ flag, IsFlag json flag
  lists : ∀ spelled ∈ listSpellings, ∀ name json, FieldEntry entries spelled name json →
    ∃ texts : List String, json = .arr (texts.map .str)
  log : ∀ name json, FieldEntry entries logSpellings name json → ∃ text, json = .str text
  exclusions : ∀ json, entries.lookup "blacklist" = some json →
    ∃ excluded, json = .obj excluded ∧ ExclusionLists.Admissible excluded

section Object

variable {entries : List (String × Json)}

theorem problems_check (entries : List (String × Json)) :
    (check entries).problems
      = (flagSpellings.flatMap fun spelled => (checkField entries spelled true checkFlag).problems)
        ++ (listSpellings.flatMap fun spelled =>
          (checkField entries spelled [] (checkItems checkText)).problems)
        ++ (checkField entries logSpellings "" checkText).problems
        ++ (checkField entries ["blacklist"] {} ExclusionLists.check).problems := by
  have hcss := problems_checkField entries ["cssFiles", "css_files"] (checkItems checkText)
    ({} : Config).cssFiles []
  have hfront := problems_checkField entries ["frontFiles", "front_files"] (checkItems checkText)
    ({} : Config).frontFiles []
  have hlog := problems_checkField entries ["outputLog", "output_log"] checkText
    ({} : Config).outputLog ""
  simp only [check, flagSpellings, listSpellings, logSpellings, List.flatMap_cons, List.flatMap_nil,
    List.append_nil, List.append_assoc, hcss, hfront, hlog]

theorem mem_problems_iff {problem : Problem} :
    problem ∈ (check entries).problems ↔ Fault entries problem := by
  rw [problems_check]
  simp only [List.mem_append, List.mem_flatMap, ← decides_flag.fieldFault_iff,
    ← ExclusionLists.decides_texts.fieldFault_iff, ← decides_text.fieldFault_iff,
    ← ExclusionLists.decides.fieldFault_iff]
  constructor
  · rintro (((⟨spelled, hspelled, h⟩ | ⟨spelled, hspelled, h⟩) | h) | h)
    · exact .flag hspelled h
    · exact .list hspelled h
    · exact .log h
    · exact .exclusions h
  · intro h
    cases h with
    | flag hspelled h => exact .inl (.inl (.inl ⟨_, hspelled, h⟩))
    | list hspelled h => exact .inl (.inl (.inr ⟨_, hspelled, h⟩))
    | log h => exact .inl (.inr h)
    | exclusions h => exact .inr h

theorem flatMap_usedNames_subset (groups : List (List String)) :
    groups.flatMap (usedNames entries) ⊆ groups.flatten := by
  intro name hmem
  obtain ⟨spelled, hspelled, hname⟩ := List.mem_flatMap.mp hmem
  exact List.mem_flatten.mpr ⟨spelled, hspelled, usedNames_subset hname⟩

/-- The problems of a configuration are at different places. -/
theorem nodup_problems (hentries : (Json.obj entries).isReadable none = true) :
    ((check entries).problems.map (·.location)).Nodup := by
  rw [problems_check]
  have hflags := LocatedIn.flatMap (fun spelled (_ : spelled ∈ flagSpellings) =>
    decides_flag.locatedIn_field true hentries) (fun _ => usedNames_subset) (by decide)
  have hlists := LocatedIn.flatMap (fun spelled (_ : spelled ∈ listSpellings) =>
    ExclusionLists.decides_texts.locatedIn_field [] hentries) (fun _ => usedNames_subset)
    (by decide)
  have hlog : LocatedIn logSpellings (checkField entries logSpellings "" checkText).problems :=
    (decides_text.locatedIn_field "" hentries).mono usedNames_subset
  have hexclusions : LocatedIn ["blacklist"]
      (checkField entries ["blacklist"] {} ExclusionLists.check).problems :=
    (ExclusionLists.decides.locatedIn_field {} hentries).mono usedNames_subset
  -- no field has a spelling of another one
  refine ((((hflags.mono (flatMap_usedNames_subset _)).append
    (hlists.mono (flatMap_usedNames_subset _)) ?_).append hlog ?_).append hexclusions ?_).once <;>
  decide

/-- The fields are read from an object one by one. -/
theorem isRead_iff {config : Config} :
    IsRead entries config ↔ (check entries).problems = [] ∧ (check entries).value = config := by
  obtain ⟨declarations, paths, definitions, expressions, duplicates, css, front, log, exclusions⟩ :=
    config
  constructor
  · rintro ⟨hdeclarations, hpaths, hdefinitions, hexpressions, hduplicates, hcss, hfront, hlog,
      hexclusions⟩
    rw [decides_flag.fieldReads_iff] at hdeclarations hpaths hdefinitions hexpressions hduplicates
    rw [ExclusionLists.decides_texts.fieldReads_iff] at hcss hfront
    rw [decides_text.fieldReads_iff] at hlog
    rw [ExclusionLists.decides.fieldReads_iff] at hexclusions
    simp [check, hdeclarations, hpaths, hdefinitions, hexpressions, hduplicates, hcss, hfront, hlog,
      hexclusions]
  · rintro ⟨hproblems, hvalue⟩
    simp only [check, List.append_eq_nil_iff] at hproblems
    simp only [check, mk.injEq] at hvalue
    obtain ⟨⟨⟨⟨⟨⟨⟨⟨hdeclarations, hpaths⟩, hdefinitions⟩, hexpressions⟩, hduplicates⟩, hcss⟩,
      hfront⟩, hlog⟩, hexclusions⟩ := hproblems
    obtain ⟨vdeclarations, vpaths, vdefinitions, vexpressions, vduplicates, vcss, vfront, vlog,
      vexclusions⟩ := hvalue
    exact ⟨decides_flag.fieldReads_iff.mpr ⟨hdeclarations, vdeclarations⟩,
      decides_flag.fieldReads_iff.mpr ⟨hpaths, vpaths⟩,
      decides_flag.fieldReads_iff.mpr ⟨hdefinitions, vdefinitions⟩,
      decides_flag.fieldReads_iff.mpr ⟨hexpressions, vexpressions⟩,
      decides_flag.fieldReads_iff.mpr ⟨hduplicates, vduplicates⟩,
      ExclusionLists.decides_texts.fieldReads_iff.mpr ⟨hcss, vcss⟩,
      ExclusionLists.decides_texts.fieldReads_iff.mpr ⟨hfront, vfront⟩,
      decides_text.fieldReads_iff.mpr ⟨hlog, vlog⟩,
      ExclusionLists.decides.fieldReads_iff.mpr ⟨hexclusions, vexclusions⟩⟩

theorem ofJson_eq (entries : List (String × Json)) :
    ofJson (.obj entries) = if (check entries).problems = [] then .ok (check entries).value
      else .error (.invalid (check entries).problems) := by
  rw [ofJson, Checked.toExcept]
  cases (check entries).problems with
  | nil => rfl
  | cons problem problems => rfl

theorem ofJson_eq_ok_iff {config : Config} :
    ofJson (.obj entries) = .ok config ↔ IsRead entries config := by
  rw [isRead_iff, ofJson_eq]
  split
  · next h => simp [h]
  · next h => simp [h]

theorem ofJson_eq_error_iff {error : ConfigError} :
    ofJson (.obj entries) = .error error
      ↔ (check entries).problems ≠ [] ∧ error = .invalid (check entries).problems := by
  rw [ofJson_eq]
  split
  · next h => simp [h]
  · next h => simp [h, eq_comm]

theorem IsRead.admissible {config : Config} (h : IsRead entries config) : Admissible entries where
  flags := by
    simp only [flagSpellings, List.forall_mem_cons, List.not_mem_nil, false_imp_iff,
      implies_true, and_true]
    exact ⟨exists_fieldReads_iff.mp ⟨_, h.checkDeclarations⟩,
      exists_fieldReads_iff.mp ⟨_, h.checkDefinitionPaths⟩,
      exists_fieldReads_iff.mp ⟨_, h.checkDefinitions⟩,
      exists_fieldReads_iff.mp ⟨_, h.listExpressions⟩,
      exists_fieldReads_iff.mp ⟨_, h.duplicateDefinitions⟩⟩
  lists := by
    simp only [← ExclusionLists.isList_isText_iff, listSpellings, List.forall_mem_cons,
      List.not_mem_nil, false_imp_iff, implies_true, and_true]
    exact ⟨exists_fieldReads_iff.mp ⟨_, h.cssFiles⟩, exists_fieldReads_iff.mp ⟨_, h.frontFiles⟩⟩
  log := exists_fieldReads_iff.mp ⟨_, h.outputLog⟩
  exclusions := by
    intro json hlookup
    have hentry := fieldEntry_singleton_iff.mpr ⟨rfl, hlookup⟩
    obtain ⟨lists, excluded, rfl, hread⟩ :=
      exists_fieldReads_iff.mp ⟨_, h.exclusions⟩ _ json hentry
    exact ⟨excluded, rfl, ExclusionLists.exists_isRead_iff.mp ⟨lists, hread⟩⟩

theorem Admissible.exists_isRead (h : Admissible entries) : ∃ config, IsRead entries config := by
  have hflag : ∀ spelled ∈ flagSpellings, ∃ flag, FieldReads entries spelled true IsFlag flag :=
    fun spelled hspelled => exists_fieldReads_iff.mpr (h.flags spelled hspelled)
  have hlist (default : List String) : ∀ spelled ∈ listSpellings,
      ∃ texts, FieldReads entries spelled default (IsList IsText) texts := by
    refine fun spelled hspelled => exists_fieldReads_iff.mpr ?_
    simpa only [ExclusionLists.isList_isText_iff] using h.lists spelled hspelled
  obtain ⟨log, hlog⟩ := exists_fieldReads_iff.mpr h.log
  obtain ⟨exclusions, hexclusions⟩ : ∃ lists,
      FieldReads entries ["blacklist"] {} ExclusionLists.IsExclusions lists := by
    refine exists_fieldReads_iff.mpr fun name json hentry => ?_
    obtain ⟨rfl, hlookup⟩ := fieldEntry_singleton_iff.mp hentry
    obtain ⟨excluded, rfl, hadmissible⟩ := h.exclusions json hlookup
    obtain ⟨lists, hread⟩ := ExclusionLists.exists_isRead_iff.mpr hadmissible
    exact ⟨lists, excluded, rfl, hread⟩
  simp only [flagSpellings, List.forall_mem_cons] at hflag
  obtain ⟨⟨declarations, hdeclarations⟩, ⟨paths, hpaths⟩, ⟨definitions, hdefinitions⟩,
    ⟨expressions, hexpressions⟩, ⟨duplicates, hduplicates⟩, -⟩ := hflag
  obtain ⟨css, hcss⟩ := hlist [".css", ".scss"] ["cssFiles", "css_files"] (by decide)
  obtain ⟨front, hfront⟩ := hlist [".tsx", ".jsx", ".html"] ["frontFiles", "front_files"]
    (by decide)
  exact ⟨⟨declarations, paths, definitions, expressions, duplicates, css, front, log, exclusions⟩,
    hdeclarations, hpaths, hdefinitions, hexpressions, hduplicates, hcss, hfront, hlog,
    hexclusions⟩

/-- An object can be read exactly if each field that it has has an admissible value. -/
theorem exists_isRead_iff : (∃ config, IsRead entries config) ↔ Admissible entries :=
  ⟨fun ⟨_, h⟩ => h.admissible, Admissible.exists_isRead⟩

end Object

end Config

end StyleAudit
