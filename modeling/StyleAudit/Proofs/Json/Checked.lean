import Mathlib.Data.List.Forall2
import Mathlib.Data.List.Nodup
import Mathlib.Data.List.Sigma
import Mathlib.Tactic.Tauto
import StyleAudit.Proofs.Json.Readable
import StyleAudit.Validation

/-!
# What a check decides

What a JSON value reads as and what is wrong with it are relations of their own: for yes or no, for
texts, for lists, and for a field with several spellings. A check decides them (`Decides`): its
value is the one that the JSON value reads as if there is no problem, and the problems are the
faults, each at a place of its own. Lists keep this (`Decides.items`), and for a field see
`Decides.fieldReads_iff`, `Decides.fieldFault_iff` and `Decides.locatedIn_field`.
-/

namespace StyleAudit

/-! ## Plain values -/

/-- The words for no. -/
def noWords : List String := ["0", "off", "f", "false", "n", "no"]

/-- The words for yes. -/
def yesWords : List String := ["1", "on", "t", "true", "y", "yes"]

/-- What a JSON value reads as if yes or no is wanted. -/
inductive IsFlag : Json → Bool → Prop
  | bool (flag : Bool) : IsFlag (.bool flag) flag
  | zero : IsFlag (.int 0) false
  | one : IsFlag (.int 1) true
  | floatZero {value : Binary64} (h : value.whole? = some 0) : IsFlag (.float value) false
  | floatOne {value : Binary64} (h : value.whole? = some 1) : IsFlag (.float value) true
  | no {text : String} (h : text.toLower ∈ noWords) : IsFlag (.str text) false
  | yes {text : String} (h : text.toLower ∈ yesWords) : IsFlag (.str text) true

/-- What is wrong with a JSON value that is neither yes nor no. A text, and a whole number that fits
into 64 bits, is of the right type and cannot be interpreted. -/
inductive FlagFault : Json → Problem → Prop
  | null : FlagFault .null ⟨[], .boolType⟩
  | arr (items : List Json) : FlagFault (.arr items) ⟨[], .boolType⟩
  | obj (entries : List (String × Json)) : FlagFault (.obj entries) ⟨[], .boolType⟩
  | word {text : String} (hno : text.toLower ∉ noWords) (hyes : text.toLower ∉ yesWords) :
    FlagFault (.str text) ⟨[], .boolParsing⟩
  | int {n : Int} (hno : n ≠ 0) (hyes : n ≠ 1) (hword : -wordBound ≤ n ∧ n < wordBound) :
    FlagFault (.int n) ⟨[], .boolParsing⟩
  | bigInt {n : Int} (hword : ¬ (-wordBound ≤ n ∧ n < wordBound)) :
    FlagFault (.int n) ⟨[], .boolType⟩
  | float {value : Binary64} {n : Int} (h : value.whole? = some n) (hno : n ≠ 0) (hyes : n ≠ 1)
    (hword : -wordBound < n ∧ n < wordBound) : FlagFault (.float value) ⟨[], .boolParsing⟩
  | bigFloat {value : Binary64} {n : Int} (h : value.whole? = some n)
    (hword : ¬ (-wordBound < n ∧ n < wordBound)) : FlagFault (.float value) ⟨[], .boolType⟩
  | fraction {value : Binary64} (h : value.whole? = none) : FlagFault (.float value) ⟨[], .boolType⟩

/-- A JSON value that is a text reads as the text. -/
def IsText (json : Json) (text : String) : Prop := json = .str text

/-- What is wrong with a JSON value that is not a text. -/
def TextFault (json : Json) (problem : Problem) : Prop :=
  (∀ text, json ≠ .str text) ∧ problem = ⟨[], .stringType⟩

/-! ## Lists and fields -/

section Relations

variable {α : Type}

/-- What a JSON list reads as, if it is known what its items read as. -/
def IsList (Reads : Json → α → Prop) (json : Json) (values : List α) : Prop :=
  ∃ items, json = .arr items ∧ List.Forall₂ Reads items values

/-- What is wrong with a JSON value that is not a list of what is wanted. A fault of an item is
found at the item's index. -/
inductive ListFault (Fault : Json → Problem → Prop) : Json → Problem → Prop
  | type {json : Json} (h : ∀ items, json ≠ .arr items) : ListFault Fault json ⟨[], .listType⟩
  | item {items : List Json} {index : Nat} {item : Json} {problem : Problem}
    (hitem : items[index]? = some item) (h : Fault item problem) :
    ListFault Fault (.arr items) ⟨toString index :: problem.location, problem.kind⟩

/-- The entry that a field is read from: the one of its first spelling that has an entry. -/
def FieldEntry (entries : List (String × Json)) (spellings : List String) (name : String)
    (value : Json) : Prop :=
  ∃ before after, spellings = before ++ name :: after
    ∧ (∀ other ∈ before, entries.lookup other = none) ∧ entries.lookup name = some value

/-- What a field reads as: what its entry reads as, or its default if it has none. -/
inductive FieldReads (entries : List (String × Json)) (spellings : List String) (default : α)
    (Reads : Json → α → Prop) : α → Prop
  | entry {name : String} {json : Json} {value : α}
    (hentry : FieldEntry entries spellings name json) (h : Reads json value) :
    FieldReads entries spellings default Reads value
  | absent (h : ∀ name ∈ spellings, entries.lookup name = none) :
    FieldReads entries spellings default Reads default

/-- What is wrong with a field, found at the spelling that is used. -/
inductive FieldFault (entries : List (String × Json)) (spellings : List String)
    (Fault : Json → Problem → Prop) : Problem → Prop
  | entry {name : String} {json : Json} {problem : Problem}
    (hentry : FieldEntry entries spellings name json) (h : Fault json problem) :
    FieldFault entries spellings Fault ⟨name :: problem.location, problem.kind⟩

end Relations

/-! ## Checks -/

/-- Whether problems are at different places, each below one of the names. -/
structure LocatedIn (names : List String) (problems : List Problem) : Prop where
  heads : ∀ problem ∈ problems, ∃ name ∈ names, problem.location.head? = some name
  once : (problems.map (·.location)).Nodup

/-- Whether a check decides what a JSON value reads as and what is wrong with it. -/
structure Decides {α : Type} (check : Json → Checked α) (Reads : Json → α → Prop)
    (Fault : Json → Problem → Prop) : Prop where
  reads : ∀ json value, Reads json value ↔ (check json).problems = [] ∧ (check json).value = value
  faults : ∀ json problem, Fault json problem ↔ problem ∈ (check json).problems
  once : ∀ json, json.isReadable none = true → ((check json).problems.map (·.location)).Nodup

section Decides

variable {α : Type} {check : Json → Checked α} {Reads : Json → α → Prop}
  {Fault : Json → Problem → Prop}

/-- A check with one problem at most decides relations that it follows and that leave no value
out. -/
theorem Decides.of_total (hreads : ∀ {json value}, Reads json value → check json = ⟨value, []⟩)
    (hfaults : ∀ {json problem}, Fault json problem → ∃ value, check json = ⟨value, [problem]⟩)
    (htotal : ∀ json, (∃ value, Reads json value) ∨ ∃ problem, Fault json problem) :
    Decides check Reads Fault where
  reads json value := by
    refine ⟨fun h => by simp [hreads h], fun ⟨hproblems, hvalue⟩ => ?_⟩
    obtain ⟨other, h⟩ | ⟨problem, h⟩ := htotal json
    · rw [hreads h] at hvalue
      exact hvalue ▸ h
    · obtain ⟨other, heq⟩ := hfaults h
      simp [heq] at hproblems
  faults json problem := by
    constructor
    · intro h
      obtain ⟨value, heq⟩ := hfaults h
      simp [heq]
    · intro hmem
      obtain ⟨value, h⟩ | ⟨other, h⟩ := htotal json
      · simp [hreads h] at hmem
      · obtain ⟨value, heq⟩ := hfaults h
        rw [heq, List.mem_singleton] at hmem
        exact hmem ▸ h
  once json _ := by
    obtain ⟨value, h⟩ | ⟨problem, h⟩ := htotal json
    · simp [hreads h]
    · obtain ⟨value, heq⟩ := hfaults h
      simp [heq]

end Decides

theorem decides_text : Decides checkText IsText TextFault := by
  refine Decides.of_total ?_ ?_ fun json => ?_
  · rintro json text rfl
    rfl
  · rintro json problem ⟨hjson, rfl⟩
    cases json with
    | str text => exact absurd rfl (hjson text)
    | _ => exact ⟨"", rfl⟩
  · cases json with
    | str text => exact .inl ⟨text, rfl⟩
    | _ => exact .inr ⟨_, by simp, rfl⟩

theorem flagWord?_of_yes {text : String} (h : text.toLower ∈ yesWords) :
    flagWord? text = some true := by
  simp only [flagWord?, List.contains_iff_mem]
  exact if_pos h

theorem flagWord?_of_no {text : String} (h : text.toLower ∈ noWords) :
    flagWord? text = some false := by
  have hdisjoint : ∀ word ∈ noWords, word ∉ yesWords := by decide
  simp only [flagWord?, List.contains_iff_mem]
  exact (if_neg (hdisjoint _ h)).trans (if_pos h)

theorem flagWord?_eq_none {text : String} (hno : text.toLower ∉ noWords)
    (hyes : text.toLower ∉ yesWords) : flagWord? text = none := by
  simp only [flagWord?, List.contains_iff_mem]
  exact (if_neg hyes).trans (if_neg hno)

theorem IsFlag.check_eq {json : Json} {flag : Bool} (h : IsFlag json flag) :
    checkFlag json = ⟨flag, []⟩ := by
  cases h with
  | bool flag => rfl
  | zero => rfl
  | one => rfl
  | floatZero h => simp [checkFlag, h]
  | floatOne h => simp [checkFlag, h]
  | no h => simp [checkFlag, flagWord?_of_no h]
  | yes h => simp [checkFlag, flagWord?_of_yes h]

theorem checkFlag_float {value : Binary64} {n : Int} (h : value.whole? = some n) (hno : n ≠ 0)
    (hyes : n ≠ 1) : checkFlag (.float value)
      = .problem false (if -wordBound < n ∧ n < wordBound then .boolParsing else .boolType) := by
  simp only [checkFlag, h]

theorem FlagFault.check_eq {json : Json} {problem : Problem} (h : FlagFault json problem) :
    ∃ flag, checkFlag json = ⟨flag, [problem]⟩ := by
  have hbound : wordBound = 0x8000000000000000 := rfl
  cases h with
  | null => exact ⟨false, rfl⟩
  | arr items => exact ⟨false, rfl⟩
  | obj entries => exact ⟨false, rfl⟩
  | word hno hyes => exact ⟨false, by simp [checkFlag, flagWord?_eq_none hno hyes, Checked.problem]⟩
  | int hno hyes hword =>
    exact ⟨false, by rw [checkFlag, if_neg hno, if_neg hyes, if_pos hword]; rfl⟩
  | @bigInt n hword =>
    have hno : n ≠ 0 := by omega
    have hyes : n ≠ 1 := by omega
    exact ⟨false, by rw [checkFlag, if_neg hno, if_neg hyes, if_neg hword]; rfl⟩
  | float h hno hyes hword =>
    exact ⟨false, by rw [checkFlag_float h hno hyes, if_pos hword]; rfl⟩
  | @bigFloat value n h hword =>
    have hno : n ≠ 0 := by omega
    have hyes : n ≠ 1 := by omega
    exact ⟨false, by rw [checkFlag_float h hno hyes, if_neg hword]; rfl⟩
  | fraction h => exact ⟨false, by simp [checkFlag, h, Checked.problem]⟩

/-- Every JSON value reads as yes or no, or has a fault. -/
theorem isFlag_or_flagFault (json : Json) :
    (∃ flag, IsFlag json flag) ∨ ∃ problem, FlagFault json problem := by
  cases json with
  | null => exact .inr ⟨_, .null⟩
  | bool flag => exact .inl ⟨flag, .bool flag⟩
  | arr items => exact .inr ⟨_, .arr items⟩
  | obj entries => exact .inr ⟨_, .obj entries⟩
  | str text =>
    by_cases hno : text.toLower ∈ noWords
    · exact .inl ⟨false, .no hno⟩
    by_cases hyes : text.toLower ∈ yesWords
    · exact .inl ⟨true, .yes hyes⟩
    exact .inr ⟨_, .word hno hyes⟩
  | int n =>
    by_cases hno : n = 0
    · exact .inl ⟨false, hno ▸ .zero⟩
    by_cases hyes : n = 1
    · exact .inl ⟨true, hyes ▸ .one⟩
    by_cases hword : -wordBound ≤ n ∧ n < wordBound
    · exact .inr ⟨_, .int hno hyes hword⟩
    · exact .inr ⟨_, .bigInt hword⟩
  | float value =>
    cases hvalue : value.whole? with
    | none => exact .inr ⟨_, .fraction hvalue⟩
    | some n =>
      by_cases hno : n = 0
      · exact .inl ⟨false, .floatZero (hno ▸ hvalue)⟩
      by_cases hyes : n = 1
      · exact .inl ⟨true, .floatOne (hyes ▸ hvalue)⟩
      by_cases hword : -wordBound < n ∧ n < wordBound
      · exact .inr ⟨_, .float hvalue hno hyes hword⟩
      · exact .inr ⟨_, .bigFloat hvalue hword⟩

theorem decides_flag : Decides checkFlag IsFlag FlagFault :=
  .of_total IsFlag.check_eq FlagFault.check_eq isFlag_or_flagFault

/-! ## Lists -/

theorem toString_inj {n m : Nat} (h : toString n = toString m) : n = m := by
  have hdigits (n : Nat) : (toString n).toList = Json.digits n := by
    simp [Json.digits, toString, Nat.repr]
  have hsame : Json.digits n = Json.digits m := by rw [← hdigits, h, hdigits]
  rw [← Json.decimal_digits n, hsame, Json.decimal_digits]

/-- Values are read one by one exactly if each item has no problem and its value is the one read. -/
theorem forall₂_reads_iff {α : Type} {check : Json → Checked α} {Reads : Json → α → Prop}
    (h : ∀ json value, Reads json value ↔ (check json).problems = [] ∧ (check json).value = value)
    {items : List Json} {values : List α} :
    List.Forall₂ Reads items values
      ↔ (∀ item ∈ items, (check item).problems = []) ∧ items.map (fun item => (check item).value)
        = values := by
  induction items generalizing values with
  | nil => simp [eq_comm]
  | cons item items ih =>
    cases values with
    | nil => simp
    | cons value values =>
      rw [List.forall₂_cons, h, ih]
      simp only [List.forall_mem_cons, List.map_cons, List.cons.injEq]
      tauto

namespace Checked

variable {α : Type}

@[simp] theorem under_value (step : String) (checked : Checked α) :
    (checked.under step).value = checked.value := rfl

theorem mem_under {step : String} {checked : Checked α} {problem : Problem} :
    problem ∈ (checked.under step).problems
      ↔ ∃ found ∈ checked.problems, problem = ⟨step :: found.location, found.kind⟩ := by
  simp [under, eq_comm]

@[simp] theorem under_problems_eq_nil {step : String} {checked : Checked α} :
    (checked.under step).problems = [] ↔ checked.problems = [] := by
  simp [under]

theorem map_location_under (step : String) (checked : Checked α) :
    (checked.under step).problems.map (·.location)
      = (checked.problems.map (·.location)).map (step :: ·) := by
  simp [under, Function.comp_def]

theorem nodup_under {step : String} {checked : Checked α}
    (h : (checked.problems.map (·.location)).Nodup) :
    ((checked.under step).problems.map (·.location)).Nodup := by
  rw [map_location_under]
  exact h.map List.cons_injective

end Checked

section Lists

variable {α : Type} {check : Json → Checked α} {Reads : Json → α → Prop}
  {Fault : Json → Problem → Prop}

theorem checkItems_arr (check : Json → Checked α) (items : List Json) :
    checkItems check (.arr items) = ⟨items.map fun item => (check item).value,
      items.zipIdx.flatMap fun entry => ((check entry.1).under (toString entry.2)).problems⟩ := by
  have hvalues : items.zipIdx.map (fun entry => (check entry.1).value)
      = items.map fun item => (check item).value := by
    have hfst := congrArg (List.map fun item => (check item).value) (List.zipIdx_map_fst 0 items)
    rwa [List.map_map] at hfst
  simp only [checkItems, List.map_map, List.flatMap_map, ← hvalues]
  rfl

theorem mem_problems_checkItems {items : List Json} {problem : Problem} :
    problem ∈ (checkItems check (.arr items)).problems
      ↔ ∃ (index : Nat) (item : Json), items[index]? = some item
        ∧ problem ∈ ((check item).under (toString index)).problems := by
  rw [checkItems_arr, List.mem_flatMap]
  constructor
  · rintro ⟨⟨item, index⟩, hentry, hmem⟩
    exact ⟨index, item, List.mem_zipIdx_iff_getElem?.mp hentry, hmem⟩
  · rintro ⟨index, item, hitem, hmem⟩
    exact ⟨(item, index), List.mem_zipIdx_iff_getElem?.mpr hitem, hmem⟩

/-- The problems of different items are at different indices. -/
theorem nodup_problems_checkItems {items : List Json}
    (h : ∀ item ∈ items, ((check item).problems.map (·.location)).Nodup) :
    ((checkItems check (.arr items)).problems.map (·.location)).Nodup := by
  rw [checkItems_arr, List.map_flatMap, List.nodup_flatMap]
  constructor
  · rintro ⟨item, index⟩ hentry
    have hmem := List.mem_of_getElem? (List.mem_zipIdx_iff_getElem?.mp hentry)
    exact Checked.nodup_under (h item hmem)
  · -- an index is the first step of all places below it
    have hindices : items.zipIdx.Pairwise fun entry other => entry.2 ≠ other.2 :=
      List.pairwise_map.mp (List.nodup_zipIdx_map_snd items)
    refine hindices.imp fun {entry other} hne location hmem hother => ?_
    simp only [Checked.map_location_under, List.mem_map] at hmem hother
    obtain ⟨place, -, rfl⟩ := hmem
    obtain ⟨place', -, heq⟩ := hother
    exact hne (toString_inj (List.cons.inj heq).1).symm

/-- Lists are decided item by item. -/
theorem Decides.items (h : Decides check Reads Fault) :
    Decides (checkItems check) (IsList Reads) (ListFault Fault) where
  reads json values := by
    cases json with
    | arr items =>
      have hproblems : (checkItems check (.arr items)).problems = []
          ↔ ∀ item ∈ items, (check item).problems = [] := by
        rw [checkItems_arr, List.flatMap_eq_nil_iff]
        simp only [Checked.under_problems_eq_nil]
        conv_rhs => rw [← List.zipIdx_map_fst 0 items, List.forall_mem_map]
      rw [hproblems, checkItems_arr]
      simp only [IsList, Json.arr.injEq, exists_eq_left']
      exact forall₂_reads_iff h.reads
    | _ => simp [IsList, checkItems, Checked.problem]
  faults json problem := by
    cases json with
    | arr items =>
      rw [mem_problems_checkItems]
      constructor
      · intro hfault
        cases hfault with
        | type hjson => exact absurd rfl (hjson items)
        | item hitem hfault =>
          exact ⟨_, _, hitem, Checked.mem_under.mpr ⟨_, (h.faults _ _).mp hfault, rfl⟩⟩
      · rintro ⟨index, item, hitem, hmem⟩
        obtain ⟨found, hfound, rfl⟩ := Checked.mem_under.mp hmem
        exact .item hitem ((h.faults _ _).mpr hfound)
    | _ =>
      simp only [checkItems, Checked.problem, List.mem_singleton]
      refine ⟨fun hfault => by cases hfault; rfl, ?_⟩
      rintro rfl
      exact .type (by simp)
  once json hjson := by
    cases json with
    | arr items =>
      rw [Json.isReadable_arr] at hjson
      exact nodup_problems_checkItems fun item hmem => h.once item (hjson item hmem)
    | _ => simp [checkItems, Checked.problem]

end Lists

/-! ## Fields -/

section Fields

variable {entries : List (String × Json)} {spellings : List String}

theorem spelling?_eq_some_iff {name : String} {value : Json} :
    spelling? entries spellings = some (name, value) ↔ FieldEntry entries spellings name value := by
  simp only [spelling?, List.findSome?_eq_some_iff, Json.entry?, Option.map_eq_some_iff,
    Option.map_eq_none_iff, Prod.mk.injEq, FieldEntry]
  constructor
  · rintro ⟨before, other, after, hspellings, ⟨found, hfound, rfl, rfl⟩, hbefore⟩
    exact ⟨before, after, hspellings, hbefore, hfound⟩
  · rintro ⟨before, after, hspellings, hbefore, hfound⟩
    exact ⟨before, name, after, hspellings, ⟨value, hfound, rfl, rfl⟩, hbefore⟩

theorem spelling?_eq_none_iff :
    spelling? entries spellings = none ↔ ∀ name ∈ spellings, entries.lookup name = none := by
  simp [spelling?, List.findSome?_eq_none_iff, Json.entry?]

/-- If no two fields share a spelling, a name is a spelling of one field only. -/
theorem spelled_unique {groups : List (List String)}
    (h : groups.Pairwise fun spelled other => ∀ name ∈ spelled, name ∉ other)
    {spelled other : List String} {name : String} (hspelled : spelled ∈ groups)
    (hother : other ∈ groups) (hname : name ∈ spelled) (hname' : name ∈ other) :
    spelled = other := by
  induction h with
  | nil => cases hspelled
  | cons hfirst _ ih =>
    rw [List.mem_cons] at hspelled hother
    rcases hspelled with rfl | hspelled
    · rcases hother with rfl | hother
      · rfl
      · exact absurd hname' (hfirst other hother name hname)
    · rcases hother with rfl | hother
      · exact absurd hname (hfirst spelled hspelled name hname')
      · exact ih hspelled hother

/-- A field has an entry, or none of its spellings has one. -/
theorem fieldEntry_or_absent (entries : List (String × Json)) (spellings : List String) :
    (∃ name value, FieldEntry entries spellings name value)
      ∨ ∀ name ∈ spellings, entries.lookup name = none := by
  cases hused : spelling? entries spellings with
  | none => exact .inr (spelling?_eq_none_iff.mp hused)
  | some entry => exact .inl ⟨entry.1, entry.2, spelling?_eq_some_iff.mp hused⟩

theorem FieldEntry.mem {name : String} {value : Json}
    (h : FieldEntry entries spellings name value) : name ∈ spellings := by
  obtain ⟨before, after, rfl, -⟩ := h
  simp

theorem FieldEntry.lookup {name : String} {value : Json}
    (h : FieldEntry entries spellings name value) : entries.lookup name = some value := by
  obtain ⟨-, -, -, -, h⟩ := h
  exact h

theorem FieldEntry.unique {name name' : String} {value value' : Json}
    (h : FieldEntry entries spellings name value) (h' : FieldEntry entries spellings name' value') :
    name = name' ∧ value = value' := by
  rw [← spelling?_eq_some_iff] at h h'
  simpa using h.symm.trans h'

theorem fieldEntry_singleton_iff {spelling name : String} {value : Json} :
    FieldEntry entries [spelling] name value
      ↔ name = spelling ∧ entries.lookup spelling = some value := by
  constructor
  · intro h
    obtain rfl := List.mem_singleton.mp h.mem
    exact ⟨rfl, h.lookup⟩
  · rintro ⟨rfl, h⟩
    exact ⟨[], [], rfl, by simp, h⟩

theorem FieldEntry.not_absent {name : String} {value : Json}
    (h : FieldEntry entries spellings name value) :
    ¬ ∀ name ∈ spellings, entries.lookup name = none := by
  intro habsent
  have hlookup := h.lookup
  rw [habsent name h.mem] at hlookup
  cases hlookup

variable {α : Type} {check : Json → Checked α} {Reads : Json → α → Prop}
  {Fault : Json → Problem → Prop} {default : α}

theorem checkField_of_fieldEntry {name : String} {value : Json}
    (h : FieldEntry entries spellings name value) :
    checkField entries spellings default check = (check value).under name := by
  rw [checkField, spelling?_eq_some_iff.mpr h]

theorem checkField_of_absent (h : ∀ name ∈ spellings, entries.lookup name = none) :
    checkField entries spellings default check = ⟨default, []⟩ := by
  rw [checkField, spelling?_eq_none_iff.mpr h]

/-- The default is no problem. -/
theorem problems_checkField (entries : List (String × Json)) (spellings : List String)
    (check : Json → Checked α) (default other : α) :
    (checkField entries spellings default check).problems
      = (checkField entries spellings other check).problems := by
  unfold checkField
  split <;> rfl

theorem fieldReads_of_fieldEntry {name : String} {json : Json} {value : α}
    (h : FieldEntry entries spellings name json) :
    FieldReads entries spellings default Reads value ↔ Reads json value := by
  refine ⟨fun hreads => ?_, .entry h⟩
  cases hreads with
  | entry hentry hreads =>
    obtain ⟨-, rfl⟩ := h.unique hentry
    exact hreads
  | absent habsent => exact absurd habsent h.not_absent

theorem fieldReads_of_absent (h : ∀ name ∈ spellings, entries.lookup name = none) {value : α} :
    FieldReads entries spellings default Reads value ↔ default = value := by
  refine ⟨fun hreads => ?_, fun heq => heq ▸ .absent h⟩
  cases hreads with
  | entry hentry _ => exact absurd h hentry.not_absent
  | absent => rfl

theorem fieldFault_of_fieldEntry {name : String} {json : Json}
    (h : FieldEntry entries spellings name json) {problem : Problem} :
    FieldFault entries spellings Fault problem
      ↔ ∃ found, Fault json found ∧ problem = ⟨name :: found.location, found.kind⟩ := by
  constructor
  · rintro ⟨hentry, hfault⟩
    obtain ⟨rfl, rfl⟩ := h.unique hentry
    exact ⟨_, hfault, rfl⟩
  · rintro ⟨found, hfault, rfl⟩
    exact .entry h hfault

/-- A field can be read exactly if its entry can. -/
theorem exists_fieldReads_iff :
    (∃ value, FieldReads entries spellings default Reads value)
      ↔ ∀ name json, FieldEntry entries spellings name json → ∃ value, Reads json value := by
  obtain ⟨name, json, hentry⟩ | habsent := fieldEntry_or_absent entries spellings
  · simp only [fieldReads_of_fieldEntry hentry]
    refine ⟨fun h other found hother => ?_, fun h => h name json hentry⟩
    obtain ⟨-, rfl⟩ := hentry.unique hother
    exact h
  · refine ⟨fun _ name json hentry => absurd habsent hentry.not_absent, fun _ => ?_⟩
    exact ⟨default, .absent habsent⟩

theorem Decides.fieldReads_iff (h : Decides check Reads Fault) {value : α} :
    FieldReads entries spellings default Reads value
      ↔ (checkField entries spellings default check).problems = []
        ∧ (checkField entries spellings default check).value = value := by
  obtain ⟨name, json, hentry⟩ | habsent := fieldEntry_or_absent entries spellings
  · rw [fieldReads_of_fieldEntry hentry, checkField_of_fieldEntry hentry, h.reads]
    simp
  · rw [fieldReads_of_absent habsent, checkField_of_absent habsent]
    simp

theorem Decides.fieldFault_iff (h : Decides check Reads Fault) (default : α) {problem : Problem} :
    FieldFault entries spellings Fault problem
      ↔ problem ∈ (checkField entries spellings default check).problems := by
  obtain ⟨name, json, hentry⟩ | habsent := fieldEntry_or_absent entries spellings
  · rw [fieldFault_of_fieldEntry hentry, checkField_of_fieldEntry hentry, Checked.mem_under]
    simp only [h.faults]
  · rw [checkField_of_absent habsent]
    refine ⟨fun hfault => ?_, fun hmem => by cases hmem⟩
    obtain ⟨hentry, -⟩ := hfault
    exact absurd habsent hentry.not_absent

/-- The spelling of a field that is used, if there is one. -/
def usedNames (entries : List (String × Json)) (spellings : List String) : List String :=
  ((spelling? entries spellings).map (·.1)).toList

theorem mem_usedNames_iff {name : String} :
    name ∈ usedNames entries spellings ↔ ∃ value, FieldEntry entries spellings name value := by
  simp [usedNames, ← spelling?_eq_some_iff]

theorem usedNames_subset : usedNames entries spellings ⊆ spellings := by
  intro name hmem
  obtain ⟨value, hentry⟩ := mem_usedNames_iff.mp hmem
  exact hentry.mem

/-- The problems of a field are at different places, below the spelling that is used. -/
theorem Decides.locatedIn_field (h : Decides check Reads Fault) (default : α)
    (hentries : (Json.obj entries).isReadable none = true) :
    LocatedIn (usedNames entries spellings)
      (checkField entries spellings default check).problems := by
  obtain ⟨name, json, hentry⟩ | habsent := fieldEntry_or_absent entries spellings
  · rw [checkField_of_fieldEntry hentry]
    constructor
    · intro problem hmem
      obtain ⟨found, -, rfl⟩ := Checked.mem_under.mp hmem
      exact ⟨name, mem_usedNames_iff.mpr ⟨json, hentry⟩, rfl⟩
    · exact Checked.nodup_under (h.once json (Json.every_of_lookup hentries hentry.lookup))
  · rw [checkField_of_absent habsent]
    exact ⟨by simp, by simp⟩

end Fields

/-! ## Places -/

namespace LocatedIn

variable {names more : List String} {problems others : List Problem}

theorem mono (h : LocatedIn names problems) (hsubset : names ⊆ more) : LocatedIn more problems where
  heads problem hmem := by
    obtain ⟨name, hname, hhead⟩ := h.heads problem hmem
    exact ⟨name, hsubset hname, hhead⟩
  once := h.once

/-- Problems below different names are at different places. -/
theorem append (h : LocatedIn names problems) (hothers : LocatedIn more others)
    (hdisjoint : ∀ name ∈ names, name ∉ more) :
    LocatedIn (names ++ more) (problems ++ others) where
  heads problem hmem := by
    obtain hmem | hmem := List.mem_append.mp hmem
    · obtain ⟨name, hname, hhead⟩ := h.heads problem hmem
      exact ⟨name, List.mem_append_left _ hname, hhead⟩
    · obtain ⟨name, hname, hhead⟩ := hothers.heads problem hmem
      exact ⟨name, List.mem_append_right _ hname, hhead⟩
  once := by
    rw [List.map_append, List.nodup_append]
    refine ⟨h.once, hothers.once, ?_⟩
    rintro _ hmem _ hmem' rfl
    obtain ⟨problem, hproblem, rfl⟩ := List.mem_map.mp hmem
    obtain ⟨other, hother, hsame⟩ := List.mem_map.mp hmem'
    obtain ⟨name, hname, hhead⟩ := h.heads problem hproblem
    obtain ⟨name', hname', hhead'⟩ := hothers.heads other hother
    rw [hsame, hhead, Option.some.injEq] at hhead'
    exact hdisjoint name hname (hhead' ▸ hname')

theorem flatMap {groups : List (List String)} {used : List String → List String}
    {problems : List String → List Problem}
    (h : ∀ group ∈ groups, LocatedIn (used group) (problems group))
    (hused : ∀ group, used group ⊆ group)
    (hdisjoint : groups.Pairwise fun group other => ∀ name ∈ group, name ∉ other) :
    LocatedIn (groups.flatMap used) (groups.flatMap problems) := by
  induction hdisjoint with
  | nil => exact ⟨by simp, by simp⟩
  | cons hfirst _ ih =>
    obtain ⟨hgroup, hgroups⟩ := List.forall_mem_cons.mp h
    refine hgroup.append (ih hgroups) fun name hname hmem => ?_
    obtain ⟨other, hother, hname'⟩ := List.mem_flatMap.mp hmem
    exact hfirst other hother name (hused _ hname) (hused _ hname')

end LocatedIn

end StyleAudit
