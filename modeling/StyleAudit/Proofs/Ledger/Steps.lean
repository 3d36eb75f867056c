import Mathlib.Data.List.Forall2
import StyleAudit.Analysis
import StyleAudit.Proofs.Ledger.Pairwise

/-!
# What a step does to a ledger

A ledger is joined, run, asked for findings and linked by hand, in any order. No step takes
anything back: a record keeps its occurrence, and its files once it has been linked
(`Ledger.perform_le`).

A join that fails has still linked the records in front of the one that stopped it, so it leaves
the ledger *blocked*: the first record that a join comes to has been linked. A blocked ledger stays
blocked (`Ledger.Blocked.perform`), and every join of it fails at once
(`Ledger.Blocked.join_eq`).
-/

namespace StyleAudit

/-! ## Steps -/

/-- A category of findings. -/
inductive FindingCategory where
  | unusedDefinitions
  | relocationSuggestions
  | missingDefinitions
  | expressions
  | duplicateDefinitions
deriving DecidableEq, Repr

/-- The options that switch on a single category. -/
def FindingCategory.only : FindingCategory → AnalysisOptions
  | unusedDefinitions => ⟨true, false, false, false, false⟩
  | relocationSuggestions => ⟨false, true, false, false, false⟩
  | missingDefinitions => ⟨false, false, true, false, false⟩
  | expressions => ⟨false, false, false, true, false⟩
  | duplicateDefinitions => ⟨false, false, false, false, true⟩

/-- What can be done with a ledger. `isFile` is how the file tree looks at the time. -/
inductive LedgerStep where
  | join
  | run (options : AnalysisOptions) (isFile : String → Bool)
  | query (category : FindingCategory) (isFile : String → Bool)
  | linkDefinition (index : Nat) (files : List String)
  | linkUse (index : Nat) (files : List String)

/-- Whether a step joins the ledger. -/
def LedgerStep.joins : LedgerStep → Bool
  | join | run .. => true
  | query .. | linkDefinition .. | linkUse .. => false

/-! ## Records -/

section Records

variable {α : Type}

/-- What becomes of a record: it keeps its occurrence, and nothing about it changes once it has been
linked. -/
def Record.Le (record later : Record α) : Prop :=
  later.occurrence = record.occurrence ∧ (record.isLinked = true → later = record)

theorem Record.Le.refl (record : Record α) : record.Le record := ⟨rfl, fun _ => rfl⟩

theorem Record.Le.trans {record later last : Record α} (h : record.Le later)
    (h' : later.Le last) : record.Le last := by
  refine ⟨h'.1.trans h.1, fun hlinked => ?_⟩
  obtain rfl := h.2 hlinked
  exact h'.2 hlinked

/-- A record that has not been linked may be linked to any files. -/
theorem Record.Le.of_not_isLinked {record : Record α} (h : record.isLinked = false)
    (files : List String) : record.Le ⟨record.occurrence, some files⟩ :=
  ⟨rfl, fun hlinked => by simp [h] at hlinked⟩

/-- What becomes of some records, one by one. -/
abbrev RecordsLe (records later : List (Record α)) : Prop := List.Forall₂ Record.Le records later

theorem RecordsLe.refl (records : List (Record α)) : RecordsLe records records :=
  List.forall₂_same.mpr fun record _ => Record.Le.refl record

theorem RecordsLe.trans {records later last : List (Record α)} (h : RecordsLe records later)
    (h' : RecordsLe later last) : RecordsLe records last := by
  induction h generalizing last with
  | nil => exact h'
  | cons hrecord _ ih =>
    cases h' with
    | cons hrecord' hrest' => exact .cons (hrecord.trans hrecord') (ih hrest')

theorem RecordsLe.map_occurrence {records later : List (Record α)} (h : RecordsLe records later) :
    later.map (·.occurrence) = records.map (·.occurrence) := by
  induction h with
  | nil => rfl
  | cons hrecord _ ih => rw [List.map_cons, List.map_cons, hrecord.1, ih]

theorem linkInOrder_cons_of_isLinked {record : Record α} (h : record.isLinked = true)
    (files : List String) (rest : List (Record α × List String)) :
    linkInOrder ((record, files) :: rest) = (record :: rest.map (·.1), some record.occurrence) := by
  rw [linkInOrder, Record.link?_of_isLinked h]

theorem linkInOrder_cons_of_not_isLinked {record : Record α} (h : record.isLinked = false)
    (files : List String) (rest : List (Record α × List String)) :
    linkInOrder ((record, files) :: rest)
      = (⟨record.occurrence, some files⟩ :: (linkInOrder rest).1, (linkInOrder rest).2) := by
  rw [linkInOrder, Record.link?_of_not_isLinked h]

theorem linkInOrder_le (links : List (Record α × List String)) :
    RecordsLe (links.map (·.1)) (linkInOrder links).1 := by
  induction links with
  | nil => exact .nil
  | cons entry rest ih =>
    obtain ⟨record, files⟩ := entry
    cases hlinked : record.isLinked with
    | true =>
      rw [linkInOrder_cons_of_isLinked hlinked]
      exact RecordsLe.refl _
    | false =>
      rw [linkInOrder_cons_of_not_isLinked hlinked]
      exact .cons (Record.Le.of_not_isLinked hlinked files) ih

/-- The linking goes through if no record has been linked before. -/
theorem linkInOrder_eq_none_iff {links : List (Record α × List String)} :
    (linkInOrder links).2 = none ↔ ∀ record ∈ links.map (·.1), record.isLinked = false := by
  constructor
  · intro h
    induction links with
    | nil => simp
    | cons entry rest ih =>
      obtain ⟨record, files⟩ := entry
      cases hlinked : record.isLinked with
      | true => simp [linkInOrder_cons_of_isLinked hlinked] at h
      | false =>
        rw [linkInOrder_cons_of_not_isLinked hlinked] at h
        exact List.forall_mem_cons.mpr ⟨hlinked, ih h⟩
  · intro h
    rw [linkInOrder_of_forall fun entry hentry => h entry.1 (List.mem_map_of_mem hentry)]

/-- Some records of which the first has been linked. -/
def HeadLinked (records : List (Record α)) : Prop :=
  ∃ first rest, records = first :: rest ∧ first.isLinked = true

/-- Where the first record has been linked, the linking stops there. -/
theorem HeadLinked.linkInOrder_eq {links : List (Record α × List String)}
    (h : HeadLinked (links.map (·.1))) :
    ∃ failed, linkInOrder links = (links.map (·.1), some failed) := by
  obtain ⟨first, rest, hlinks, hlinked⟩ := h
  cases links with
  | nil => simp at hlinks
  | cons entry links =>
    obtain rfl : entry.1 = first := (List.cons.inj hlinks).1
    exact ⟨_, linkInOrder_cons_of_isLinked hlinked entry.2 links⟩

/-- Whether the linking goes through or stops, the first record has been linked after it. -/
theorem linkInOrder_head (links : List (Record α × List String)) :
    linkInOrder links = ([], none) ∨ HeadLinked (linkInOrder links).1 := by
  cases links with
  | nil => exact .inl rfl
  | cons entry rest =>
    obtain ⟨record, files⟩ := entry
    cases hlinked : record.isLinked with
    | true =>
      rw [linkInOrder_cons_of_isLinked hlinked]
      exact .inr ⟨record, _, rfl, hlinked⟩
    | false =>
      rw [linkInOrder_cons_of_not_isLinked hlinked]
      exact .inr ⟨_, _, rfl, rfl⟩

theorem HeadLinked.mono {records later : List (Record α)} (h : HeadLinked records)
    (hle : RecordsLe records later) : HeadLinked later := by
  obtain ⟨first, rest, rfl, hlinked⟩ := h
  cases hle with
  | cons hfirst hrest =>
    obtain rfl := hfirst.2 hlinked
    exact ⟨_, _, rfl, hlinked⟩

end Records

/-! ## Linking by hand -/

namespace Ledger

section LinkAt

variable {α : Type} {records : List (Record α)} {index : Nat} {record : Record α}

theorem linkAt_le (records : List (Record α)) (index : Nat) (files : List String) :
    RecordsLe records (linkAt records index files).1 := by
  induction records generalizing index with
  | nil => exact .nil
  | cons first rest ih =>
    cases index with
    | zero =>
      rw [linkAt]
      cases hlinked : first.isLinked with
      | true =>
        rw [Record.link?_of_isLinked hlinked]
        exact RecordsLe.refl _
      | false =>
        rw [Record.link?_of_not_isLinked hlinked]
        exact .cons (Record.Le.of_not_isLinked hlinked files) (RecordsLe.refl rest)
    | succ index => exact .cons (Record.Le.refl first) (ih index)

end LinkAt

section LinkByHand

variable {ledger : Ledger} {index : Nat}

end LinkByHand

/-! ## Ledgers -/

/-- Takes a step. The answer of a step that asks for findings is these findings. -/
def perform (ledger : Ledger) : LedgerStep → Ledger × Except LinkError (Option Findings)
  | .join => (ledger.join.1, ledger.join.2.map fun _ => none)
  | .run options isFile => ((ledger.run options isFile).1, (ledger.run options isFile).2.map some)
  | .query category isFile => (ledger, .ok (some (ledger.findings category.only isFile)))
  | .linkDefinition index files =>
    ((ledger.linkDefinition index files).1, (ledger.linkDefinition index files).2.map fun _ => none)
  | .linkUse index files =>
    ((ledger.linkUse index files).1, (ledger.linkUse index files).2.map fun _ => none)

/-- No record of a ledger has been linked. -/
def Unlinked (ledger : Ledger) : Prop :=
  (∀ record ∈ ledger.definitions, record.isLinked = false)
    ∧ ∀ record ∈ ledger.uses, record.isLinked = false

/-- What becomes of a ledger: its exclusions stay, no record comes or goes, and a record that has
been linked does not change. -/
structure Le (ledger later : Ledger) : Prop where
  exclusions_eq : later.exclusions = ledger.exclusions
  definitions : RecordsLe ledger.definitions later.definitions
  uses : RecordsLe ledger.uses later.uses

theorem Le.refl (ledger : Ledger) : ledger.Le ledger :=
  ⟨rfl, RecordsLe.refl _, RecordsLe.refl _⟩

theorem Le.trans {ledger later last : Ledger} (h : ledger.Le later) (h' : later.Le last) :
    ledger.Le last :=
  ⟨h'.exclusions_eq.trans h.exclusions_eq, h.definitions.trans h'.definitions,
    h.uses.trans h'.uses⟩

/-- The first record that a join comes to has been linked, and the ledger is not joined. -/
def Blocked (ledger : Ledger) : Prop :=
  ledger.joined = false
    ∧ (HeadLinked ledger.definitions ∨ ledger.definitions = [] ∧ HeadLinked ledger.uses)

/-! ### Joins -/

theorem join_of_joined {ledger : Ledger} (h : ledger.joined = true) :
    ledger.join = (ledger, .ok ()) := by
  rw [join, if_pos h]

theorem map_definitionLinks (ledger : Ledger) :
    ledger.definitionLinks.map (·.1) = ledger.definitions := by
  rw [definitionLinks_eq, List.map_map]
  exact List.map_id _

theorem map_useLinks (ledger : Ledger) : ledger.useLinks.map (·.1) = ledger.uses := by
  rw [useLinks_eq, List.map_map]
  exact List.map_id _

section Stops

variable {ledger : Ledger} {definitions : List Definition} {uses : List Use}

theorem join_of_definitions_stop {failed : ClassOccurrence} (hjoined : ledger.joined = false)
    (hstop : linkInOrder ledger.definitionLinks = (definitions, some failed)) :
    ledger.join
      = ({ ledger with definitions }, .error (.definition failed.path failed.line)) := by
  rw [join, if_neg (by simp [hjoined]), hstop]

theorem join_of_uses_stop {failed : Occurrence} (hjoined : ledger.joined = false)
    (hgo : linkInOrder ledger.definitionLinks = (definitions, none))
    (hstop : linkInOrder ledger.useLinks = (uses, some failed)) :
    ledger.join = ({ ledger with definitions, uses }, .error (.use failed.path failed.line)) := by
  rw [join, if_neg (by simp [hjoined]), hgo]
  simp only [hstop]

end Stops

/-- What a join can do to a ledger that is not joined: link everything if nothing has been linked,
or else stop and leave the ledger blocked. -/
theorem join_cases {ledger : Ledger} (hjoined : ledger.joined = false) :
    (ledger.Unlinked
      ∧ ledger.join = (pairwiseJoin ledger.exclusions (ledger.definitions.map (·.occurrence))
        (ledger.uses.map (·.occurrence)), .ok ()))
    ∨ (¬ ledger.Unlinked
      ∧ ∃ later fault, ledger.join = (later, .error fault) ∧ ledger.Le later ∧ later.Blocked) := by
  have hdefinitions := linkInOrder_le ledger.definitionLinks
  have hfree := @linkInOrder_eq_none_iff _ ledger.definitionLinks
  have huses := linkInOrder_le ledger.useLinks
  have hfreeUses := @linkInOrder_eq_none_iff _ ledger.useLinks
  rw [map_definitionLinks] at hdefinitions hfree
  rw [map_useLinks] at huses hfreeUses
  have hhead := linkInOrder_head ledger.definitionLinks
  have hheadUses := linkInOrder_head ledger.useLinks
  rcases hfirst : linkInOrder ledger.definitionLinks with ⟨definitions, _ | failed⟩
  · rw [hfirst] at hdefinitions hfree hhead
    rcases hsecond : linkInOrder ledger.useLinks with ⟨uses, _ | failed⟩
    · rw [hsecond] at hfreeUses
      have hunlinked : ledger.Unlinked := ⟨hfree.mp rfl, hfreeUses.mp rfl⟩
      exact .inl ⟨hunlinked, join_of_not_isLinked ledger hjoined hunlinked.1 hunlinked.2⟩
    · rw [hsecond] at huses hfreeUses hheadUses
      have hlinked : ¬ ledger.Unlinked := fun h => by simpa using hfreeUses.mpr h.2
      refine .inr ⟨hlinked, _, _, join_of_uses_stop hjoined hfirst hsecond,
        ⟨rfl, hdefinitions, huses⟩, hjoined, ?_⟩
      have hheadUses : HeadLinked uses := by simpa using hheadUses
      obtain hnil | hhead := hhead
      · exact .inr ⟨congrArg Prod.fst hnil, hheadUses⟩
      · exact .inl hhead
  · rw [hfirst] at hdefinitions hfree hhead
    have hlinked : ¬ ledger.Unlinked := fun h => by simpa using hfree.mpr h.1
    exact .inr ⟨hlinked, _, _, join_of_definitions_stop hjoined hfirst,
      ⟨rfl, hdefinitions, RecordsLe.refl _⟩, hjoined, .inl (by simpa using hhead)⟩

theorem Blocked.join_eq {ledger : Ledger} (h : ledger.Blocked) :
    ∃ fault, ledger.join = (ledger, .error fault) := by
  obtain ⟨hjoined, hhead | ⟨hnil, hhead⟩⟩ := h
  · rw [← map_definitionLinks] at hhead
    obtain ⟨failed, hstop⟩ := hhead.linkInOrder_eq
    rw [map_definitionLinks] at hstop
    exact ⟨_, join_of_definitions_stop hjoined hstop⟩
  · have hgo : linkInOrder ledger.definitionLinks = (ledger.definitions, none) := by
      rw [definitionLinks_eq, hnil]
      rfl
    rw [← map_useLinks] at hhead
    obtain ⟨failed, hstop⟩ := hhead.linkInOrder_eq
    rw [map_useLinks] at hstop
    exact ⟨_, join_of_uses_stop hjoined hgo hstop⟩

theorem join_le (ledger : Ledger) : ledger.Le ledger.join.1 := by
  cases hjoined : ledger.joined with
  | true =>
    rw [join_of_joined hjoined]
    exact Le.refl ledger
  | false =>
    obtain ⟨hunlinked, hjoin⟩ | ⟨-, later, fault, hjoin, hle, -⟩ := join_cases hjoined
    · rw [hjoin]
      refine ⟨rfl, ?_, ?_⟩
      · simp only [pairwiseJoin, RecordsLe, List.map_map, List.forall₂_map_right_iff]
        exact List.forall₂_same.mpr fun record hrecord =>
          Record.Le.of_not_isLinked (hunlinked.1 record hrecord) _
      · simp only [pairwiseJoin, RecordsLe, List.map_map, List.forall₂_map_right_iff]
        exact List.forall₂_same.mpr fun record hrecord =>
          Record.Le.of_not_isLinked (hunlinked.2 record hrecord) _
    · rw [hjoin]
      exact hle

theorem linkDefinition_le (ledger : Ledger) (index : Nat) (files : List String) :
    ledger.Le (ledger.linkDefinition index files).1 := by
  have hle := linkAt_le ledger.definitions index files
  unfold linkDefinition
  split
  · rename_i hlink
    rw [hlink] at hle
    exact ⟨rfl, hle, RecordsLe.refl _⟩
  · exact Le.refl ledger

theorem linkUse_le (ledger : Ledger) (index : Nat) (files : List String) :
    ledger.Le (ledger.linkUse index files).1 := by
  have hle := linkAt_le ledger.uses index files
  unfold linkUse
  split
  · rename_i hlink
    rw [hlink] at hle
    exact ⟨rfl, RecordsLe.refl _, hle⟩
  · exact Le.refl ledger

/-! ### Any step -/

theorem run_fst (ledger : Ledger) (options : AnalysisOptions) (isFile : String → Bool) :
    (ledger.run options isFile).1 = ledger.join.1 := by
  unfold run
  split
  · rename_i hjoin
    rw [hjoin]
  · rename_i hjoin
    rw [hjoin]

section Perform

variable {ledger later : Ledger} {step : LedgerStep}

theorem perform_of_join_error {fault : LinkError} (hstep : step.joins = true)
    (h : ledger.join = (later, .error fault)) : ledger.perform step = (later, .error fault) := by
  cases step with
  | join => simp [perform, h, Except.map]
  | run options isFile => simp [perform, run, h, Except.map]
  | query | linkDefinition | linkUse => simp [LedgerStep.joins] at hstep

/-- No step takes anything back. -/
theorem perform_le (ledger : Ledger) (step : LedgerStep) : ledger.Le (ledger.perform step).1 := by
  cases step with
  | join => exact join_le ledger
  | run options isFile =>
    rw [perform, run_fst]
    exact join_le ledger
  | query category isFile => exact Le.refl ledger
  | linkDefinition index files => exact linkDefinition_le ledger index files
  | linkUse index files => exact linkUse_le ledger index files

/-- Only a join makes a ledger joined. -/
theorem joined_perform (hstep : step.joins = false) :
    (ledger.perform step).1.joined = ledger.joined := by
  cases step with
  | join | run => simp [LedgerStep.joins] at hstep
  | query category isFile => rfl
  | linkDefinition index files =>
    simp only [perform, linkDefinition]
    split <;> rfl
  | linkUse index files =>
    simp only [perform, linkUse]
    split <;> rfl

theorem Blocked.mono (h : ledger.Blocked) (hle : ledger.Le later)
    (hjoined : later.joined = ledger.joined) : later.Blocked := by
  obtain ⟨hfalse, hhead | ⟨hnil, hhead⟩⟩ := h
  · exact ⟨hjoined.trans hfalse, .inl (hhead.mono hle.definitions)⟩
  · have hstill : later.definitions = [] := by
      have hdefinitions := hle.definitions
      rw [hnil] at hdefinitions
      exact List.forall₂_nil_left_iff.mp hdefinitions
    exact ⟨hjoined.trans hfalse, .inr ⟨hstill, hhead.mono hle.uses⟩⟩

/-- A blocked ledger stays blocked, whatever is done with it. -/
theorem Blocked.perform (h : ledger.Blocked) (step : LedgerStep) :
    (ledger.perform step).1.Blocked := by
  cases hstep : step.joins with
  | true =>
    obtain ⟨fault, hjoin⟩ := h.join_eq
    rw [perform_of_join_error hstep hjoin]
    exact h
  | false => exact h.mono (perform_le ledger step) (joined_perform hstep)

end Perform

end Ledger

end StyleAudit
