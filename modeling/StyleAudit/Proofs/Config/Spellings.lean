import StyleAudit.Proofs.Config.Acceptance

/-!
# Spellings in a configuration

A field may be spelled in another way without any effect on the configuration that is read, as long
as no two spellings of it are present (`Config.IsRead.renameEntry`,
`ExclusionLists.IsRead.renameEntry`). Entries that no field is read from have no effect at all
(`Config.check_congr`). With what configurations are accepted, this is `Config.acceptance_exact`.
-/

namespace StyleAudit

/-! ## Entries under another name -/

/-- An entry with another name if it has a certain one. -/
def renamed (name other : String) (entry : String × Json) : String × Json :=
  if entry.1 = name then (other, entry.2) else entry

/-- The entries with another name for one of them. -/
def renameEntry (name other : String) (entries : List (String × Json)) : List (String × Json) :=
  entries.map (renamed name other)

section Rename

variable {name other : String} {entries : List (String × Json)}

theorem lookup_eq_none_iff_not_mem :
    entries.lookup name = none ↔ name ∉ entries.map Prod.fst := by
  refine ⟨not_mem_of_lookup_eq_none, fun h => ?_⟩
  by_contra hsome
  obtain ⟨json, hlookup⟩ := Option.ne_none_iff_exists'.mp hsome
  exact h (List.mem_map_of_mem (mem_of_lookup_eq_some hlookup))

theorem renameEntry_of_not_mem (h : name ∉ entries.map Prod.fst) :
    renameEntry name other entries = entries := by
  have hid : ∀ entry ∈ entries, renamed name other entry = id entry := by
    intro entry hmem
    refine if_neg ?_
    rintro rfl
    exact h (List.mem_map_of_mem hmem)
  rw [renameEntry, List.map_congr_left hid, List.map_id]

theorem renameEntry_self (name : String) (entries : List (String × Json)) :
    renameEntry name name entries = entries := by
  have hid : ∀ entry ∈ entries, renamed name name entry = id entry := by
    intro entry _
    unfold renamed
    split
    · next h => rw [← h, id]
    · rfl
  rw [renameEntry, List.map_congr_left hid, List.map_id]

/-- Other names keep their values. -/
theorem lookup_renameEntry_of_ne {found : String} (hname : found ≠ name) (hother : found ≠ other) :
    (renameEntry name other entries).lookup found = entries.lookup found := by
  induction entries with
  | nil => rfl
  | cons entry entries ih =>
    rw [renameEntry] at ih ⊢
    rw [List.map_cons, renamed]
    by_cases h : entry.1 = name
    · rw [if_pos h, List.lookup_cons, List.lookup_cons, ih, beq_false_of_ne hother,
        beq_false_of_ne fun heq => hname (heq.trans h)]
    · rw [if_neg h, List.lookup_cons, List.lookup_cons, ih]

/-- The new name has the value of the old one. -/
theorem lookup_renameEntry_other (h : other ∉ entries.map Prod.fst) :
    (renameEntry name other entries).lookup other = entries.lookup name := by
  induction entries with
  | nil => rfl
  | cons entry entries ih =>
    rw [List.map_cons, List.mem_cons, not_or] at h
    have ih := ih h.2
    rw [renameEntry] at ih ⊢
    rw [List.map_cons, renamed]
    by_cases hentry : entry.1 = name
    · rw [if_pos hentry, List.lookup_cons, List.lookup_cons, hentry, beq_self_eq_true,
        beq_self_eq_true]
    · rw [if_neg hentry, List.lookup_cons, List.lookup_cons, ih, beq_false_of_ne h.1,
        beq_false_of_ne (Ne.symm hentry)]

theorem lookup_renameEntry_self (h : name ≠ other) :
    (renameEntry name other entries).lookup name = none := by
  rw [List.lookup_eq_none_iff]
  intro entry hmem
  obtain ⟨found, -, rfl⟩ := List.mem_map.mp hmem
  unfold renamed
  split
  · simpa using h
  · next hne => simpa using Ne.symm hne

theorem of_mem_renameEntry {found : String}
    (h : found ∈ (renameEntry name other entries).map Prod.fst) :
    found = other ∨ found ≠ name ∧ found ∈ entries.map Prod.fst := by
  obtain ⟨_, hmem, rfl⟩ := List.mem_map.mp h
  obtain ⟨entry, hentry, rfl⟩ := List.mem_map.mp hmem
  unfold renamed
  split
  · exact .inl rfl
  · next hne => exact .inr ⟨hne, List.mem_map_of_mem hentry⟩

end Rename

/-! ## Fields under another name -/

section Fields

variable {α : Type} {entries entries' : List (String × Json)} {spelled : List String} {default : α}
  {Reads : Json → α → Prop} {name other : String} {value : α}

/-- Only the spellings of a field matter for its entry. -/
theorem fieldEntry_congr (h : ∀ name ∈ spelled, entries'.lookup name = entries.lookup name)
    {json : Json} :
    FieldEntry entries' spelled name json ↔ FieldEntry entries spelled name json := by
  constructor
  · rintro ⟨before, after, rfl, hbefore, hname⟩
    refine ⟨before, after, rfl, fun found hmem => ?_, ?_⟩
    · rw [← h found (by simp [hmem]), hbefore found hmem]
    · rw [← h name (by simp), hname]
  · rintro ⟨before, after, rfl, hbefore, hname⟩
    refine ⟨before, after, rfl, fun found hmem => ?_, ?_⟩
    · rw [h found (by simp [hmem]), hbefore found hmem]
    · rw [h name (by simp), hname]

/-- If a single spelling of a field is present, the field is read from it. -/
theorem fieldEntry_of_only (hname : name ∈ spelled)
    (honly : ∀ found ∈ spelled, found ≠ name → entries.lookup found = none) {json : Json}
    (hlookup : entries.lookup name = some json) : FieldEntry entries spelled name json := by
  obtain ⟨used, found, hentry⟩ | habsent := fieldEntry_or_absent entries spelled
  · by_cases hused : used = name
    · subst hused
      obtain rfl := Option.some.inj (hentry.lookup.symm.trans hlookup)
      exact hentry
    · have hnone := hentry.lookup
      rw [honly used hentry.mem hused] at hnone
      cases hnone
  · rw [habsent name hname] at hlookup
    cases hlookup

/-- Only the spellings of a field matter for what it reads as. -/
theorem FieldReads.congr (h : FieldReads entries spelled default Reads value)
    (hlookup : ∀ name ∈ spelled, entries'.lookup name = entries.lookup name) :
    FieldReads entries' spelled default Reads value := by
  cases h with
  | entry hentry hreads => exact .entry ((fieldEntry_congr hlookup).mpr hentry) hreads
  | absent habsent => exact .absent fun name hmem => (hlookup name hmem).trans (habsent name hmem)

/-- Another spelling of a field in place of the only one that is present. -/
structure RenamesField (entries : List (String × Json)) (spelled : List String)
    (name other : String) : Prop where
  name_mem : name ∈ spelled
  other_mem : other ∈ spelled
  ne : name ≠ other
  only : ∀ found ∈ spelled, found ≠ name → entries.lookup found = none

theorem RenamesField.fieldEntry (h : RenamesField entries spelled name other) {json : Json}
    (hlookup : entries.lookup name = some json) :
    FieldEntry (renameEntry name other entries) spelled other json := by
  have hnew := not_mem_of_lookup_eq_none (h.only other h.other_mem h.ne.symm)
  refine fieldEntry_of_only h.other_mem (fun found hmem hfound => ?_) ?_
  · by_cases hname : found = name
    · rw [hname, lookup_renameEntry_self h.ne]
    · rw [lookup_renameEntry_of_ne hname hfound, h.only found hmem hname]
  · rw [lookup_renameEntry_other hnew, hlookup]

theorem RenamesField.fieldReads (h : RenamesField entries spelled name other)
    (hreads : FieldReads entries spelled default Reads value) :
    FieldReads (renameEntry name other entries) spelled default Reads value := by
  cases hreads with
  | entry hentry hreads =>
    rename_i used json
    have hused : used = name := by
      by_contra hne
      have hlookup := hentry.lookup
      rw [h.only used hentry.mem hne] at hlookup
      cases hlookup
    exact .entry (h.fieldEntry (hused ▸ hentry.lookup)) hreads
  | absent habsent =>
    rw [renameEntry_of_not_mem (not_mem_of_lookup_eq_none (habsent name h.name_mem))]
    exact .absent habsent

/-- The other fields have other spellings. -/
theorem RenamesField.lookup_eq (h : RenamesField entries spelled name other)
    {groups : List (List String)}
    (hgroups : groups.Pairwise fun spelled other => ∀ name ∈ spelled, name ∉ other)
    (hspelled : spelled ∈ groups) {field : List String} (hfield : field ∈ groups)
    (hne : field ≠ spelled) : ∀ found ∈ field,
      (renameEntry name other entries).lookup found = entries.lookup found := by
  intro found hmem
  refine lookup_renameEntry_of_ne ?_ ?_
  · rintro rfl
    exact hne (spelled_unique hgroups hfield hspelled hmem h.name_mem)
  · rintro rfl
    exact hne (spelled_unique hgroups hfield hspelled hmem h.other_mem)

theorem RenamesField.fieldReads_of_mem (h : RenamesField entries spelled name other)
    {groups : List (List String)}
    (hgroups : groups.Pairwise fun spelled other => ∀ name ∈ spelled, name ∉ other)
    (hspelled : spelled ∈ groups) {field : List String}
    (hreads : FieldReads entries field default Reads value) (hfield : field ∈ groups) :
    FieldReads (renameEntry name other entries) field default Reads value := by
  by_cases hsame : field = spelled
  · subst hsame
    exact h.fieldReads hreads
  · exact hreads.congr (h.lookup_eq hgroups hspelled hfield hsame)

end Fields

/-! ## Exclusions -/

namespace ExclusionLists

variable {entries : List (String × Json)} {lists : ExclusionLists} {spelled : List String}
  {name other : String}

/-- In exclusions that can be read, a field has one spelling at most. -/
theorem IsRead.renamesField (h : IsRead entries lists) (hspelled : spelled ∈ spellings)
    (hname : name ∈ spelled) (hother : other ∈ spelled) (hne : name ≠ other)
    (hmem : name ∈ entries.map Prod.fst) : RenamesField entries spelled name other where
  name_mem := hname
  other_mem := hother
  ne := hne
  only := by
    intro found hfound hdiffer
    refine lookup_eq_none_iff_not_mem.mpr fun hfound' => ?_
    have honce := (forall_not_isExtra_iff.mp h.noExtra).2
    exact hdiffer (honce spelled hspelled found hfound' name hmem hfound hname)

/-- Any spelling of a field will do. -/
theorem IsRead.renameEntry (h : IsRead entries lists) (hspelled : spelled ∈ spellings)
    (hname : name ∈ spelled) (hother : other ∈ spelled) :
    IsRead (renameEntry name other entries) lists := by
  by_cases hne : name = other
  · rwa [hne, renameEntry_self]
  by_cases hmem : name ∈ entries.map Prod.fst
  case neg => rwa [renameEntry_of_not_mem hmem]
  have hrename := h.renamesField hspelled hname hother hne hmem
  have hfield {field : List String} {texts : List String}
      (hreads : FieldReads entries field [] (IsList IsText) texts) (hmem : field ∈ spellings) :=
    hrename.fieldReads_of_mem pairwise_spellings hspelled hreads hmem
  refine ⟨hfield h.cssPaths (by decide), hfield h.movePaths (by decide),
    hfield h.frontPaths (by decide), hfield h.duplicatePaths (by decide),
    hfield h.classes (by decide), fun found hfound => not_isExtra_iff.mpr ?_⟩
  -- the new name is used now, and the others are used for the fields they were used for
  obtain rfl | ⟨hdiffer, hold⟩ := of_mem_renameEntry hfound
  · cases hlookup : entries.lookup name with
    | none => exact absurd hmem (lookup_eq_none_iff_not_mem.mp hlookup)
    | some json => exact ⟨spelled, hspelled, json, hrename.fieldEntry hlookup⟩
  · obtain ⟨field, hfield, json, hentry⟩ := not_isExtra_iff.mp (h.noExtra found hold)
    have hother : field ≠ spelled := by
      rintro rfl
      have hlookup := hentry.lookup
      rw [hrename.only found hentry.mem hdiffer] at hlookup
      cases hlookup
    have hsame := hrename.lookup_eq pairwise_spellings hspelled hfield hother
    exact ⟨field, hfield, json, (fieldEntry_congr hsame).mpr hentry⟩

end ExclusionLists

/-! ## Configurations -/

namespace Config

variable {entries entries' : List (String × Json)} {config : Config}

/-- What is read of an object: the configuration, and the categories of findings it asks for. -/
def outcome (entries : List (String × Json)) : Except ConfigError (Config × AnalysisOptions) :=
  (ofJson (.obj entries)).map fun config => (config, config.analysisOptions)

theorem outcome_eq_of_isRead (h : IsRead entries config) :
    outcome entries = .ok (config, config.analysisOptions) := by
  rw [outcome, ofJson_eq_ok_iff.mpr h]
  rfl

theorem pairwise_spellings :
    spellings.Pairwise fun spelled other => ∀ name ∈ spelled, name ∉ other := by
  decide

/-- A field has two spellings at most. -/
theorem eq_or_eq_of_mem : ∀ spelled ∈ spellings, ∀ name ∈ spelled, ∀ other ∈ spelled,
    name ≠ other → ∀ found ∈ spelled, found = name ∨ found = other := by
  decide

/-- A field may be spelled in the other way, if that is not present. -/
theorem IsRead.renameEntry (h : IsRead entries config) {spelled : List String}
    (hspelled : spelled ∈ spellings) {name other : String} (hname : name ∈ spelled)
    (hother : other ∈ spelled) (habsent : other ∉ entries.map Prod.fst) :
    IsRead (renameEntry name other entries) config := by
  by_cases hne : name = other
  · rwa [hne, renameEntry_self]
  have hrename : RenamesField entries spelled name other := by
    refine ⟨hname, hother, hne, fun found hmem hfound => ?_⟩
    obtain rfl | rfl := eq_or_eq_of_mem spelled hspelled name hname other hother hne found hmem
    · exact absurd rfl hfound
    · exact lookup_eq_none_iff_not_mem.mpr habsent
  have hfield {α : Type} {Reads : Json → α → Prop} {default value : α} {field : List String}
      (hreads : FieldReads entries field default Reads value) (hmem : field ∈ spellings) :=
    hrename.fieldReads_of_mem pairwise_spellings hspelled hreads hmem
  exact ⟨hfield h.checkDeclarations (by decide), hfield h.checkDefinitionPaths (by decide),
    hfield h.checkDefinitions (by decide), hfield h.listExpressions (by decide),
    hfield h.duplicateDefinitions (by decide), hfield h.cssFiles (by decide),
    hfield h.frontFiles (by decide), hfield h.outputLog (by decide),
    hfield h.exclusions (by decide)⟩

/-- A field of the exclusions may be spelled in any way. -/
theorem IsRead.renameExclusion (h : IsRead entries config) {excluded : List (String × Json)}
    (hexcluded : entries.lookup "blacklist" = some (.obj excluded)) {spelled : List String}
    (hspelled : spelled ∈ ExclusionLists.spellings) {name other : String} (hname : name ∈ spelled)
    (hother : other ∈ spelled) :
    IsRead (setEntry "blacklist" (.obj (StyleAudit.renameEntry name other excluded)) entries)
      config := by
  have hkeep {α : Type} {Reads : Json → α → Prop} {default value : α} {field : List String}
      (hreads : FieldReads entries field default Reads value) (hfield : "blacklist" ∉ field) :
      FieldReads (setEntry "blacklist" (.obj (StyleAudit.renameEntry name other excluded)) entries)
        field default Reads value := by
    refine hreads.congr fun found hmem => lookup_setEntry_of_ne _ _ ?_
    rintro rfl
    exact hfield hmem
  have hentry := fieldEntry_singleton_iff.mpr ⟨rfl, hexcluded⟩
  obtain ⟨other', hsame, hlists⟩ := (fieldReads_of_fieldEntry hentry).mp h.exclusions
  obtain rfl := Json.obj.inj hsame
  have hexclusions : FieldReads
      (setEntry "blacklist" (.obj (StyleAudit.renameEntry name other excluded)) entries)
      ["blacklist"] {} ExclusionLists.IsExclusions config.exclusions :=
    .entry (fieldEntry_singleton_iff.mpr ⟨rfl, lookup_setEntry_self _ _ _⟩)
      ⟨_, rfl, hlists.renameEntry hspelled hname hother⟩
  exact ⟨hkeep h.checkDeclarations (by decide), hkeep h.checkDefinitionPaths (by decide),
    hkeep h.checkDefinitions (by decide), hkeep h.listExpressions (by decide),
    hkeep h.duplicateDefinitions (by decide), hkeep h.cssFiles (by decide),
    hkeep h.frontFiles (by decide), hkeep h.outputLog (by decide), hexclusions⟩

/-- Whether no field is read from a name, whatever its value: it is no spelling of a field, or
another spelling of the field comes first and is present. -/
def IsIdle (entries : List (String × Json)) (name : String) : Prop :=
  (∀ spelled ∈ spellings, name ∉ spelled)
    ∨ ∃ first, [first, name] ∈ spellings ∧ first ∈ entries.map Prod.fst

theorem not_isIdle_first {first : String} {rest : List String} (h : first :: rest ∈ spellings) :
    ¬ IsIdle entries first := by
  have hnodup : ∀ spelled ∈ spellings, spelled.Nodup := by decide
  rintro (hunknown | ⟨before, hbefore, -⟩)
  · exact hunknown _ h List.mem_cons_self
  · have hsame : [before, first] = first :: rest :=
      spelled_unique pairwise_spellings hbefore h (by simp : first ∈ _) (by simp)
    obtain ⟨rfl, -⟩ := List.cons.inj hsame
    simpa using hnodup _ hbefore

/-- The spelling of a field that is used does not depend on idle names. -/
theorem spelling?_congr
    (h : ∀ name, ¬ IsIdle entries name → entries'.lookup name = entries.lookup name) :
    ∀ spelled ∈ spellings, spelling? entries' spelled = spelling? entries spelled := by
  have hlength : ∀ spelled ∈ spellings, spelled.length = 1 ∨ spelled.length = 2 := by decide
  intro spelled hspelled
  obtain hone | htwo := hlength spelled hspelled
  · obtain ⟨name, rfl⟩ := List.length_eq_one_iff.mp hone
    simp [spelling?, Json.entry?, h name (not_isIdle_first hspelled)]
  · obtain ⟨first, second, rfl⟩ := List.length_eq_two.mp htwo
    have hfirst := h first (not_isIdle_first hspelled)
    cases hlookup : entries.lookup first with
    | some json => simp [spelling?, Json.entry?, hfirst, hlookup]
    | none =>
      -- the first spelling is absent, so the second one is not idle
      have hsecond : ¬ IsIdle entries second := by
        rintro (hunknown | ⟨before, hbefore, hpresent⟩)
        · exact hunknown _ hspelled (by simp)
        · have hsame : [before, second] = [first, second] :=
            spelled_unique pairwise_spellings hbefore hspelled (by simp : second ∈ _) (by simp)
          obtain ⟨rfl, -⟩ := List.cons.inj hsame
          exact lookup_eq_none_iff_not_mem.mp hlookup hpresent
      simp [spelling?, Json.entry?, hfirst, hlookup, h second hsecond]

/-- Idle names do not matter. -/
theorem check_congr
    (h : ∀ name, ¬ IsIdle entries name → entries'.lookup name = entries.lookup name) :
    check entries' = check entries := by
  have hused := spelling?_congr h
  simp (disch := decide) only [check, checkField, hused]

theorem outcome_congr
    (h : ∀ name, ¬ IsIdle entries name → entries'.lookup name = entries.lookup name) :
    outcome entries' = outcome entries := by
  rw [outcome, outcome, ofJson_eq, ofJson_eq, check_congr h]

/-- What is accepted as a configuration, what it reads as, and what is said if it is not accepted.

* An object is accepted exactly if each field that it has an entry for has an admissible value, and
  its exclusions have only spellings of fields for names, none of a field twice, and lists of texts.
* Each field then reads as its own entry says, or is its default. An entry may get the other
  spelling of its field, if that is absent, and an entry of the exclusions any other spelling of its
  field: the configuration stays the same, and so do the categories of findings that it asks for.
* Entries of unknown names, and of second spellings where the first one is present, may be added,
  changed and left out.
* If the object is not accepted, each fault is told once and nothing else is, each at a place of its
  own. -/
theorem acceptance_exact (hjson : (Json.obj entries).isReadable none = true) :
    ((∃ config, ofJson (.obj entries) = .ok config) ↔ Admissible entries)
      ∧ (∀ config, ofJson (.obj entries) = .ok config → IsRead entries config
        ∧ outcome entries = .ok (config, config.analysisOptions)
        ∧ (∀ spelled ∈ spellings, ∀ name ∈ spelled, ∀ other ∈ spelled,
          other ∉ entries.map Prod.fst →
          outcome (renameEntry name other entries) = .ok (config, config.analysisOptions))
        ∧ ∀ excluded, entries.lookup "blacklist" = some (.obj excluded) →
          ∀ spelled ∈ ExclusionLists.spellings, ∀ name ∈ spelled, ∀ other ∈ spelled,
          outcome (setEntry "blacklist" (.obj (renameEntry name other excluded)) entries)
            = .ok (config, config.analysisOptions))
      ∧ (∀ entries', (∀ name, ¬ IsIdle entries name →
          entries'.lookup name = entries.lookup name) → outcome entries' = outcome entries)
      ∧ ∀ error, ofJson (.obj entries) = .error error → ∃ problems, error = .invalid problems
        ∧ problems ≠ [] ∧ (∀ problem, problem ∈ problems ↔ Fault entries problem)
        ∧ (problems.map (·.location)).Nodup := by
  simp only [ofJson_eq_ok_iff, ofJson_eq_error_iff]
  refine ⟨exists_isRead_iff, fun config h => ⟨h, outcome_eq_of_isRead h, ?_, ?_⟩,
    fun _ => outcome_congr, ?_⟩
  · intro spelled hspelled name hname other hother habsent
    exact outcome_eq_of_isRead (h.renameEntry hspelled hname hother habsent)
  · intro excluded hexcluded spelled hspelled name hname other hother
    exact outcome_eq_of_isRead (h.renameExclusion hexcluded hspelled hname hother)
  · rintro error ⟨hproblems, rfl⟩
    exact ⟨_, rfl, hproblems, fun _ => mem_problems_iff, nodup_problems hjson⟩

/-- Exclusions under an older spelling. -/
def vendorEntries : List (String × Json) := [("css", .arr [.str "vendor"])]

/-- An object with a second spelling, an unknown name and exclusions. -/
def themeEntries : List (String × Json) :=
  [("check_declarations", .str "off"), ("theme", .null), ("blacklist", .obj vendorEntries)]

/-- The configuration in it. -/
def themeConfig : Config where
  checkDeclarations := false
  exclusions := { cssPaths := ["vendor"] }

/-- An object with a list that is not all texts, and with exclusions that spell a field twice. -/
def faultyEntries : List (String × Json) :=
  [("cssFiles", .arr [.str ".css", .null]),
    ("blacklist", .obj [("css", .null), ("cssPaths", .arr [])])]

/-- The problems in it. -/
def faultyProblems : List Problem :=
  [⟨["cssFiles", "1"], .stringType⟩, ⟨["blacklist", "css"], .extraForbidden⟩]

theorem acceptance_exact_themeEntries :
    (Json.obj themeEntries).isReadable none = true
      ∧ ofJson (.obj themeEntries) = .ok themeConfig ∧ Admissible themeEntries
      ∧ outcome (renameEntry "check_declarations" "checkDeclarations" themeEntries)
        = .ok (themeConfig, themeConfig.analysisOptions)
      ∧ outcome (setEntry "blacklist" (.obj (renameEntry "css" "cssPaths" vendorEntries))
        themeEntries) = .ok (themeConfig, themeConfig.analysisOptions)
      ∧ (Json.obj faultyEntries).isReadable none = true
      ∧ ofJson (.obj faultyEntries) = .error (.invalid faultyProblems)
      ∧ ∀ problem, Fault faultyEntries problem → problem ∈ faultyProblems := by
  have htheme : (Json.obj themeEntries).isReadable none = true := by decide
  have hfaulty : (Json.obj faultyEntries).isReadable none = true := by decide
  have hconfig : ofJson (.obj themeEntries) = .ok themeConfig := by decide +kernel
  have herror : ofJson (.obj faultyEntries) = .error (.invalid faultyProblems) := by decide +kernel
  obtain ⟨haccepted, hread, -, -⟩ := acceptance_exact htheme
  obtain ⟨-, -, hrename, hexclusion⟩ := hread themeConfig hconfig
  obtain ⟨problems, hproblems, -, hfaults, -⟩ := (acceptance_exact hfaulty).2.2.2 _ herror
  obtain rfl := ConfigError.invalid.inj hproblems
  refine ⟨htheme, hconfig, haccepted.mp ⟨_, hconfig⟩, ?_, ?_, hfaulty, herror,
    fun problem => (hfaults problem).mpr⟩
  · exact hrename ["checkDeclarations", "check_declarations"] (by decide) _ (by decide) _
      (by decide) (by decide)
  · exact hexclusion vendorEntries rfl ["cssPaths", "css", "css_paths"] (by decide) _ (by decide) _
      (by decide)

end Config

end StyleAudit
