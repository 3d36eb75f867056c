import StyleAudit.Path.Project

/-!
# Exclusions

What the audit leaves out of its findings: paths, in four categories that do not affect each
other, and class names. A path is excluded if its text starts with a listed one; that takes in
the files of a listed directory, and those of any directory whose name merely starts like it.
-/

namespace StyleAudit

/-- What a path can be excluded from. -/
inductive ExclusionCategory where
  /-- Findings of unused and duplicate definitions. -/
  | css
  /-- Suggestions to move a definition, and findings of unused definitions. -/
  | move
  /-- Everything, for a markup or component file. -/
  | front
  /-- Findings of duplicate definitions. -/
  | duplicate
deriving DecidableEq, Repr

/-- The exclusions as somebody lists them. -/
structure ExclusionLists (τ : Type := String) where
  cssPaths : List τ := []
  movePaths : List τ := []
  frontPaths : List τ := []
  duplicatePaths : List τ := []
  classes : List τ := []
deriving DecidableEq, Repr

/-- The exclusions in normal form: project paths and bare class names. -/
structure Exclusions where
  cssPaths : List String := []
  movePaths : List String := []
  frontPaths : List String := []
  duplicatePaths : List String := []
  classes : List String := []
deriving DecidableEq, Repr

/-- A class name without the dots in front of it. -/
def bareClass (name : String) : String :=
  String.ofList (name.toList.dropWhile (· == '.'))

/-- Brings listed exclusions to their normal form. `root` holds the segments of the project's
root; each entry is kept once. -/
def ExclusionLists.normalize (lists : ExclusionLists) (root : List String) : Exclusions where
  cssPaths := (lists.cssPaths.map (projectPath root)).eraseDups
  movePaths := (lists.movePaths.map (projectPath root)).eraseDups
  frontPaths := (lists.frontPaths.map (projectPath root)).eraseDups
  duplicatePaths := (lists.duplicatePaths.map (projectPath root)).eraseDups
  classes := (lists.classes.map bareClass).eraseDups

namespace Exclusions

/-- The excluded paths of a category. -/
def paths (exclusions : Exclusions) : ExclusionCategory → List String
  | .css => exclusions.cssPaths
  | .move => exclusions.movePaths
  | .front => exclusions.frontPaths
  | .duplicate => exclusions.duplicatePaths

/-- Whether a path is excluded in a category. -/
def excludes (exclusions : Exclusions) (category : ExclusionCategory) (path : String) : Bool :=
  (exclusions.paths category).any fun listed => listed.toList.isPrefixOf path.toList

/-- Whether a class name is excluded. -/
def excludesClass (exclusions : Exclusions) (name : String) : Bool :=
  exclusions.classes.contains name

end Exclusions

end StyleAudit
