import StyleAudit.Proofs.Json.RoundTrip
import StyleAudit.Report.Json

/-!
# Reports in JSON are read back

What is written for a part of the findings is checked without a problem and gives that part again
(`Recovers`), from line numbers up to all findings. A report reads back as the JSON value it was
written for, since its objects have distinct names and its numbers are whole numbers
(`readWithin_jsonReport`). Together the report loses nothing (`jsonReport_lossless`).
-/

namespace StyleAudit

/-! ## Checking what was written -/

/-- Whether what is written for a value is checked without a problem and gives the value. -/
def Recovers {α : Type} (toJson : α → Json) (check : Json → Checked α) : Prop :=
  ∀ value, check (toJson value) = ⟨value, []⟩

section Checks

variable {α : Type} {toJson : α → Json} {check : Json → Checked α}

theorem recovers_text : Recovers .str checkText :=
  fun _ => rfl

theorem recovers_whole : Recovers .int checkWhole :=
  fun _ => rfl

theorem Recovers.items (h : Recovers toJson check) :
    Recovers (fun values => .arr (values.map toJson)) (checkItems check) := by
  intro values
  have hitems : (values.map toJson).zipIdx.map
      (fun entry => (check entry.1).under (toString entry.2)) = values.map (⟨·, []⟩) := by
    have hitem (entry : α × Nat) :
        (check (toJson entry.1)).under (toString entry.2) = ⟨entry.1, []⟩ := by
      rw [h entry.1]
      rfl
    rw [List.zipIdx_map, List.map_map]
    calc values.zipIdx.map _
        = values.zipIdx.map (fun entry => (⟨entry.1, []⟩ : Checked α)) :=
          List.map_congr_left fun entry _ => hitem entry
      _ = (values.zipIdx.map Prod.fst).map (⟨·, []⟩) := by rw [List.map_map]; rfl
      _ = values.map (⟨·, []⟩) := by rw [List.zipIdx_map_fst]
  rw [checkItems, hitems]
  simp [Function.comp_def]

/-- A category that is switched off comes back as one, and so does an empty one. -/
theorem Recovers.category (h : Recovers toJson check) :
    Recovers (categoryJson toJson) (checkOptional (checkItems check)) := by
  intro category
  cases category with
  | none => rfl
  | some findings =>
    have hitems : checkItems check (.arr (findings.map toJson)) = ⟨findings, []⟩ := h.items findings
    rw [categoryJson, checkOptional, hitems]
    rintro ⟨⟩

variable {entries : List (String × Json)} {name : String} {value : α}

theorem spelling?_of_lookup {found : Json} (others : List String)
    (h : entries.lookup name = some found) :
    spelling? entries (name :: others) = some (name, found) := by
  rw [spelling?, List.findSome?_cons, Json.entry?, JsonText.ofString_string, h]
  rfl

theorem Recovers.field (h : Recovers toJson check) (others : List String) (default : α)
    (hentry : entries.lookup name = some (toJson value)) :
    checkField entries (name :: others) default check = ⟨value, []⟩ := by
  rw [checkField, spelling?_of_lookup others hentry]
  simp only [h value]
  rfl

theorem Recovers.required (h : Recovers toJson check) (others : List String) (default : α)
    (hentry : entries.lookup name = some (toJson value)) :
    checkRequired entries (name :: others) default check = ⟨value, []⟩ := by
  rw [checkRequired, spelling?_of_lookup others hentry]
  simp only [h value]
  rfl

end Checks

theorem FileLines.recovers : Recovers toJson check := by
  intro location
  rw [toJson, check, checkObject, recovers_text.required [] "" rfl,
    recovers_whole.items.field [] [] rfl]
  rfl

theorem ClassFinding.recovers : Recovers toJson check := by
  intro finding
  rw [toJson, check, checkObject, recovers_text.required ["class_name"] "" rfl,
    FileLines.recovers.items.field [] [] rfl]
  rfl

theorem ExpressionFinding.recovers : Recovers toJson check := by
  intro finding
  rw [toJson, check, checkObject, recovers_text.required [] "" rfl,
    FileLines.recovers.items.field [] [] rfl]
  rfl

theorem RelocationFinding.recovers : Recovers toJson check := by
  intro finding
  rw [toJson, check, checkObject, recovers_text.required ["class_name"] "" rfl,
    recovers_text.required ["move_from"] "" rfl, recovers_text.required ["move_to"] "" rfl,
    recovers_text.items.field [] [] rfl]
  rfl

theorem Findings.recovers : Recovers toJson check := by
  intro findings
  simp only [toJson, check, checkObject]
  rw [ClassFinding.recovers.category.field ["unused_definitions"] none rfl,
    RelocationFinding.recovers.category.field ["relocation_suggestions"] none rfl,
    ClassFinding.recovers.category.field ["missing_definitions"] none rfl,
    ExpressionFinding.recovers.category.field [] none rfl,
    ClassFinding.recovers.category.field ["duplicate_definitions"] none rfl]
  rfl

theorem Findings.ofJson_toJson (findings : Findings) : ofJson findings.toJson = .ok findings := by
  rw [ofJson, recovers findings]
  rfl

/-! ## Values in a report -/

/-- The line numbers of the places of a finding. -/
def lineNumbers (locations : List FileLines) : List Int :=
  locations.flatMap (·.lines)

/-- All line numbers of a category. -/
def numbersOf {α : Type} (locations : α → List FileLines) (category : Option (List α)) : List Int :=
  (category.getD []).flatMap fun finding => lineNumbers (locations finding)

/-- All line numbers of a report. -/
def Findings.numbers (findings : Findings) : List Int :=
  numbersOf (·.locations) findings.unusedDefinitions
    ++ numbersOf (·.locations) findings.missingDefinitions
    ++ numbersOf (·.locations) findings.expressions
    ++ numbersOf (·.locations) findings.duplicateDefinitions

/-- Whether only whole numbers can break a condition on the values of a report. -/
structure BrokenByNumbers (p : Json → Bool) : Prop where
  null : p .null = true
  str : ∀ text, p (.str text) = true
  arr : ∀ items, p (.arr items) = true
  obj : ∀ entries, (entries.map Prod.fst).Nodup → p (.obj entries) = true

theorem brokenByNumbers_isAllowed (limit : Option Nat) :
    BrokenByNumbers (Json.isAllowed limit) where
  null := rfl
  str _ := rfl
  arr _ := rfl
  obj _ hnames := decide_eq_true hnames

theorem brokenByNumbers_not_isFloat : BrokenByNumbers fun value => !value.isFloat where
  null := rfl
  str _ := rfl
  arr _ := rfl
  obj _ _ := rfl

namespace BrokenByNumbers

variable {p : Json → Bool} (hp : BrokenByNumbers p)
include hp

theorem items {α : Type} {toJson : α → Json} {values : List α}
    (h : ∀ value ∈ values, (toJson value).every p = true) :
    (Json.arr (values.map toJson)).every p = true := by
  rw [Json.every_arr, List.forall_mem_map]
  exact ⟨hp.arr _, h⟩

theorem category {α : Type} {toJson : α → Json} {category : Option (List α)}
    (h : ∀ value ∈ category.getD [], (toJson value).every p = true) :
    (categoryJson toJson category).every p = true := by
  cases category with
  | none => exact hp.null
  | some findings => exact hp.items h

theorem numbered {α : Type} {toJson : α → Json} {locations : α → List FileLines}
    {category : Option (List α)}
    (hfinding : ∀ finding, (∀ n ∈ lineNumbers (locations finding), p (.int n) = true) →
      (toJson finding).every p = true)
    (h : ∀ n ∈ numbersOf locations category, p (.int n) = true) :
    (categoryJson toJson category).every p = true := by
  apply hp.category
  intro finding hmem
  exact hfinding finding fun n hn => h n (List.mem_flatMap.mpr ⟨finding, hmem, hn⟩)

theorem text (value : String) : (Json.str value).every p = true :=
  hp.str value

theorem entries {entries : List (String × Json)} (hnames : (entries.map Prod.fst).Nodup)
    (h : ∀ entry ∈ entries, entry.2.every p = true) : (Json.obj entries).every p = true :=
  Json.every_obj.mpr ⟨hp.obj entries hnames, h⟩

theorem fileLines {location : FileLines} (h : ∀ n ∈ location.lines, p (.int n) = true) :
    location.toJson.every p = true := by
  have hlines : (Json.arr (location.lines.map .int)).every p = true := hp.items h
  apply hp.entries (by simp)
  simp [hp.text, hlines]

theorem locations {locations : List FileLines}
    (h : ∀ n ∈ lineNumbers locations, p (.int n) = true) :
    (Json.arr (locations.map FileLines.toJson)).every p = true := by
  apply hp.items
  intro location hlocation
  exact hp.fileLines fun n hn => h n (List.mem_flatMap.mpr ⟨location, hlocation, hn⟩)

theorem classFinding (finding : ClassFinding)
    (h : ∀ n ∈ lineNumbers finding.locations, p (.int n) = true) :
    finding.toJson.every p = true := by
  apply hp.entries (by simp)
  simp [hp.text, hp.locations h]

theorem expressionFinding (finding : ExpressionFinding)
    (h : ∀ n ∈ lineNumbers finding.locations, p (.int n) = true) :
    finding.toJson.every p = true := by
  apply hp.entries (by simp)
  simp [hp.text, hp.locations h]

theorem relocationFinding (finding : RelocationFinding) : finding.toJson.every p = true := by
  have huses : (Json.arr (finding.uses.map .str)).every p = true :=
    hp.items fun use _ => hp.text use
  apply hp.entries (by simp)
  simp [hp.text, huses]

theorem findings {findings : Findings} (h : ∀ n ∈ findings.numbers, p (.int n) = true) :
    findings.toJson.every p = true := by
  simp only [Findings.numbers, List.forall_mem_append] at h
  obtain ⟨⟨⟨hunused, hmissing⟩, hexpressions⟩, hduplicates⟩ := h
  have hrelocations :
      (categoryJson RelocationFinding.toJson findings.relocationSuggestions).every p = true :=
    hp.category fun finding _ => hp.relocationFinding finding
  apply hp.entries (by simp)
  simp [hp.numbered hp.classFinding hunused, hrelocations, hp.numbered hp.classFinding hmissing,
    hp.numbered hp.expressionFinding hexpressions, hp.numbered hp.classFinding hduplicates]

end BrokenByNumbers

/-! ## Reports -/

/-- A report is read back as the value it was written for, by a reader that allows the digits of its
line numbers. -/
theorem readWithin_jsonReport {limit : Option Nat} {findings : Findings}
    (h : ∀ n ∈ findings.numbers, Json.allowsDigits limit (Json.digits n.natAbs).length = true) :
    Json.readWithin limit (jsonReport findings) = .ok findings.toJson :=
  Json.readWithin_write ((brokenByNumbers_isAllowed limit).findings h)
    (brokenByNumbers_not_isFloat.findings fun _ _ => rfl)

/-- The categories of a report in its order, each with whether it is switched off. -/
def Findings.switchedOff (findings : Findings) : List (String × Bool) :=
  [("unusedDefinitions", findings.unusedDefinitions.isNone),
    ("relocationSuggestions", findings.relocationSuggestions.isNone),
    ("missingDefinitions", findings.missingDefinitions.isNone),
    ("expressions", findings.expressions.isNone),
    ("duplicateDefinitions", findings.duplicateDefinitions.isNone)]

/-- Whether a value is null. -/
def Json.isNull : Json → Bool
  | .null => true
  | _ => false

theorem isNull_categoryJson {α : Type} (toJson : α → Json) (category : Option (List α)) :
    (categoryJson toJson category).isNull = category.isNone := by
  cases category with
  | none => rfl
  | some findings => rfl

theorem map_isNull_toJson (findings : Findings) :
    ∃ entries, findings.toJson = .obj entries
      ∧ entries.map (fun entry => (entry.1, entry.2.isNull)) = findings.switchedOff := by
  refine ⟨_, rfl, ?_⟩
  simp only [List.map_cons, List.map_nil, isNull_categoryJson, Findings.switchedOff]

/-- A JSON report loses nothing. Read as JSON it is an object in which exactly the categories that
are switched off are null. The object is checked without a problem, which gives the findings again,
and their report is the same text. A reader with a limit to the digits of a whole number reads the
same object, if the line numbers are within the limit. -/
theorem jsonReport_lossless (findings : Findings) :
    ∃ entries, Json.readWithin none (jsonReport findings) = .ok (.obj entries)
      ∧ entries.map (fun entry => (entry.1, entry.2.isNull)) = findings.switchedOff
      ∧ Findings.ofJson (.obj entries) = .ok findings
      ∧ (Findings.ofJson (.obj entries)).map jsonReport = .ok (jsonReport findings)
      ∧ ∀ limit, (∀ n ∈ findings.numbers, (Json.digits n.natAbs).length ≤ limit) →
        Json.readWithin (some limit) (jsonReport findings) = .ok (.obj entries) := by
  obtain ⟨entries, hentries, hnull⟩ := map_isNull_toJson findings
  have hcheck := findings.ofJson_toJson
  have hread : Json.readWithin none (jsonReport findings) = .ok findings.toJson :=
    readWithin_jsonReport fun n _ => Json.allowsDigits_none _
  rw [hentries] at hcheck hread
  refine ⟨entries, hread, hnull, hcheck, ?_, ?_⟩
  · rw [hcheck]
    rfl
  · intro limit hlimit
    rw [← hentries]
    exact readWithin_jsonReport fun n hn => decide_eq_true (hlimit n hn)

end StyleAudit
