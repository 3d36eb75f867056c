import StyleAudit.Exclusion
import StyleAudit.Groups
import StyleAudit.Occurrence

/-!
# The ledger of definitions and uses

The ledger holds one record for each class definition and one for each use, and links them: a
definition to the files that use its class, a use to the stylesheets that define it. A file that
uses a class several times is linked several times, since the number of uses is evidence later.

A record is linked once. `Ledger.join` links all of them; it does nothing on a ledger that is
joined, and it stops at the first record that has been linked by hand before, leaving the records
before it linked.
-/

namespace StyleAudit

/-- An occurrence and the files it is linked to; `none` before it is linked. -/
structure Record (α : Type) where
  occurrence : α
  links : Option (List String) := none
deriving DecidableEq, Repr

namespace Record

variable {α : Type}

/-- The files the record is linked to. -/
def files (record : Record α) : List String := record.links.getD []

/-- Whether the record has been linked. -/
def isLinked (record : Record α) : Bool := record.links.isSome

/-- Links a record that has not been linked. -/
def link? (record : Record α) (files : List String) : Option (Record α) :=
  if record.isLinked then none else some { record with links := some files }

end Record

/-- The definition of a class, linked to the files that use it. -/
abbrev Definition := Record ClassOccurrence

/-- A use of a class, or a dynamic expression, linked to the stylesheets that define the class. -/
abbrev Use := Record Occurrence

/-- A record that was to be linked a second time. -/
inductive LinkError where
  | definition (path : String) (line : Int)
  | use (path : String) (line : Int)
deriving DecidableEq, Repr

/-- The report of a second link. -/
def LinkError.message : LinkError → String
  | .definition path line => "CssRecord already linked: " ++ path ++ ":" ++ toString line
  | .use path line => "FrontRecord already linked: " ++ path ++ ":" ++ toString line

/-- The definitions and uses of a project, with the exclusions that apply. -/
structure Ledger where
  exclusions : Exclusions
  definitions : List Definition
  uses : List Use
  joined : Bool := false
deriving DecidableEq, Repr

/-- Links records to files in order, up to the first record that has been linked before. -/
def linkInOrder {α : Type} : List (Record α × List String) → List (Record α) × Option α
  | [] => ([], none)
  | (record, files) :: rest =>
    match record.link? files with
    | none => (record :: rest.map (·.1), some record.occurrence)
    | some linked =>
      let (records, failed) := linkInOrder rest
      (linked :: records, failed)

namespace Ledger

/-- A ledger of occurrences, nothing linked. -/
def ofOccurrences (exclusions : Exclusions) (definitions : List ClassOccurrence)
    (uses : List Occurrence) : Ledger where
  exclusions := exclusions
  definitions := definitions.map fun occurrence => { occurrence := occurrence }
  uses := uses.map fun occurrence => { occurrence := occurrence }

/-- The class name that a use counts for: none for a dynamic expression and for a use in an
excluded file. -/
def countedName? (exclusions : Exclusions) : Occurrence → Option String
  | .named use => if exclusions.excludes .front use.path then none else some use.name
  | .dynamic _ => none

/-- The files of the counted uses, gathered under their class names. -/
def usesByClass (ledger : Ledger) : List (String × List String) :=
  collect (ledger.uses.filterMap fun use =>
    (countedName? ledger.exclusions use.occurrence).map fun name => (name, use.occurrence.path))

/-- The stylesheets of the definitions, gathered under their class names, without the excluded
classes. -/
def definitionsByClass (ledger : Ledger) : List (String × List String) :=
  collect ((ledger.definitions.filter fun definition =>
    !ledger.exclusions.excludesClass definition.occurrence.name).map fun definition =>
      (definition.occurrence.name, definition.occurrence.path))

/-- The files each definition is to be linked to. -/
def definitionLinks (ledger : Ledger) : List (Definition × List String) :=
  let groups := ledger.usesByClass
  ledger.definitions.map fun definition =>
    (definition,
      if ledger.exclusions.excludesClass definition.occurrence.name then []
      else group groups definition.occurrence.name)

/-- The stylesheets each use is to be linked to: those of the definitions of its class, each time
the class is defined. Gathered by class name here; filling a table keyed by the records themselves,
definition by definition, gives each record the same stylesheets in the same order. -/
def useLinks (ledger : Ledger) : List (Use × List String) :=
  let groups := ledger.definitionsByClass
  ledger.uses.map fun use =>
    (use, ((countedName? ledger.exclusions use.occurrence).map (group groups)).getD [])

/-- Links all records: the definitions in order, then the uses in order. -/
def join (ledger : Ledger) : Ledger × Except LinkError Unit :=
  if ledger.joined then (ledger, .ok ())
  else
    match linkInOrder ledger.definitionLinks with
    | (definitions, some failed) =>
      ({ ledger with definitions }, .error (.definition failed.path failed.line))
    | (definitions, none) =>
      match linkInOrder ledger.useLinks with
      | (uses, some failed) =>
        ({ ledger with definitions, uses }, .error (.use failed.path failed.line))
      | (uses, none) => ({ ledger with definitions, uses, joined := true }, .ok ())

/-- Links one record of a list by hand. -/
def linkAt {α : Type} (records : List (Record α)) (index : Nat) (files : List String) :
    List (Record α) × Option α :=
  match records, index with
  | [], _ => ([], none)
  | record :: rest, 0 =>
    match record.link? files with
    | none => (record :: rest, some record.occurrence)
    | some linked => (linked :: rest, none)
  | record :: rest, index + 1 =>
    let (records, failed) := linkAt rest index files
    (record :: records, failed)

/-- Links a definition by hand. -/
def linkDefinition (ledger : Ledger) (index : Nat) (files : List String) :
    Ledger × Except LinkError Unit :=
  match linkAt ledger.definitions index files with
  | (definitions, none) => ({ ledger with definitions }, .ok ())
  | (_, some failed) => (ledger, .error (.definition failed.path failed.line))

/-- Links a use by hand. -/
def linkUse (ledger : Ledger) (index : Nat) (files : List String) :
    Ledger × Except LinkError Unit :=
  match linkAt ledger.uses index files with
  | (uses, none) => ({ ledger with uses }, .ok ())
  | (_, some failed) => (ledger, .error (.use failed.path failed.line))

/-- How many definitions are linked to a file. -/
def linkedCount (ledger : Ledger) : Nat :=
  (ledger.definitions.filter fun definition => !definition.files.isEmpty).length

end Ledger

end StyleAudit
