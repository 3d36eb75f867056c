import Mathlib.Data.Nat.Basic
import StyleAudit.Proofs.Stylesheet.Selectors

/-!
# Selectors around `@import`

An `@import` statement runs from its `@import` to the next semicolon, and the names in it are parts
of file names. What is looked at for a selector is only its own line: it is passed over if an
`@import` stands in front of it there, whether or not the statement has ended
(`stylesheetOccurrences_around_imports`).
-/

namespace StyleAudit

/-- A place lies in an `@import` statement: no semicolon stands between the `@import` and the
place. -/
def InImport (text : List Char) (place : Nat) : Prop :=
  ∃ start ≤ place, importMark <+: text.drop start ∧ ';' ∉ text.extract start place

instance (text : List Char) (place : Nat) : Decidable (InImport text place) :=
  inferInstanceAs (Decidable (∃ start, start ≤ place ∧ _))

/-- A text has a selector of a class at a place. -/
def IsSelectorOf (text : List Char) (place : Nat) (name : String) : Prop :=
  IsSelector text place ∧ String.ofList (selectorName text place) = name

/-- A class is defined on some line of a stylesheet. -/
def IsDefined (text : List Char) (path : String) (name : String) : Prop :=
  ∃ line, ⟨name, line, path⟩ ∈ stylesheetOccurrences text path

theorem isDefined_iff {text : List Char} {path name : String} :
    IsDefined text path name
      ↔ ∃ place, IsSelectorOf text place name ∧ ¬ BehindImport text place := by
  constructor
  · rintro ⟨line, hmem⟩
    obtain ⟨place, hcounts, hname⟩ := exists_counts_of_mem hmem
    exact ⟨place, ⟨hcounts.1, hname.symm⟩, hcounts.2⟩
  · rintro ⟨place, ⟨hselector, rfl⟩, hahead⟩
    exact ⟨_, mem_of_counts ⟨hselector, hahead⟩⟩

/-- `@import` hides the selectors behind it on its line, also where its statement has ended. Where a
class is defined, one of its selectors has no `@import` in front of it on its line; and where such a
selector lies in no `@import` statement either, the class is defined. In a text in which no
`@import` statement goes on to a later line with a selector, these are the same selectors. -/
theorem stylesheetOccurrences_around_imports (text : List Char) (path name : String) :
    (IsDefined text path name →
      ∃ place, IsSelectorOf text place name ∧ ¬ BehindImport text place)
    ∧ ((∃ place, IsSelectorOf text place name ∧ ¬ BehindImport text place ∧ ¬ InImport text place) →
      IsDefined text path name)
    ∧ ((∀ place, IsSelector text place → InImport text place → BehindImport text place) →
      (IsDefined text path name ↔ ∃ place, IsSelectorOf text place name
        ∧ ¬ BehindImport text place ∧ ¬ InImport text place)) := by
  have hahead : (∃ place, IsSelectorOf text place name ∧ ¬ BehindImport text place
      ∧ ¬ InImport text place) → IsDefined text path name := by
    rintro ⟨place, hselector, hahead, -⟩
    exact isDefined_iff.mpr ⟨place, hselector, hahead⟩
  refine ⟨isDefined_iff.mp, hahead, fun honeLine => ⟨fun hdefined => ?_, hahead⟩⟩
  obtain ⟨place, hselector, hplace⟩ := isDefined_iff.mp hdefined
  exact ⟨place, hselector, hplace, fun himport => hplace (honeLine place hselector.1 himport)⟩

/-- A stylesheet with a file name in an `@import` and a rule on the next line. -/
def importingSheet : List Char := "@import 'a.b';\n.c\x7b\x7d".toList

theorem stylesheetOccurrences_around_imports_importingSheet :
    (∀ place, IsSelector importingSheet place → InImport importingSheet place →
        BehindImport importingSheet place)
      ∧ IsDefined importingSheet "p" "c"
      ∧ ∃ place, IsSelectorOf importingSheet place "c" ∧ ¬ BehindImport importingSheet place
        ∧ ¬ InImport importingSheet place := by
  have honeLine : ∀ place, IsSelector importingSheet place → InImport importingSheet place →
      BehindImport importingSheet place := by
    have hplaces : ∀ place < importingSheet.length, IsSelector importingSheet place →
        InImport importingSheet place → BehindImport importingSheet place := by
      decide +kernel
    intro place hselector
    exact hplaces place (List.getElem?_eq_some_iff.mp hselector.1).1 hselector
  have hdefined : IsDefined importingSheet "p" "c" := ⟨2, by decide +kernel⟩
  exact ⟨honeLine, hdefined,
    ((stylesheetOccurrences_around_imports importingSheet "p" "c").2.2 honeLine).mp hdefined⟩

/-- A rule behind an `@import` statement on one line. -/
def minifiedSheet : List Char := "@import 'a';.b\x7b\x7d".toList

/-- The selector lies outside the statement, and its class is not defined. -/
theorem minifiedSheet_hidden :
    IsSelectorOf minifiedSheet 12 "b" ∧ ¬ InImport minifiedSheet 12
      ∧ stylesheetOccurrences minifiedSheet "p" = [] := by
  refine ⟨⟨by decide +kernel, by decide +kernel⟩, by decide +kernel, by decide +kernel⟩

end StyleAudit
