import StyleAudit.Store.Basic
import StyleAudit.Text.Lowercase

/-!
# Scanning a directory

The files of a directory tree that have one of some suffixes. Directories with an ignored name are
not entered. The paths found are relative to the directory the scan starts in, and they come in
order: the entries of each directory by name, and everything in a directory at the place of its
name. Suffixes are compared in lower case.
-/

namespace StyleAudit

/-- What a scan looks for. -/
structure ScanRule where
  /-- The wanted suffixes, with their dot. -/
  suffixes : List String
  /-- The names of directories that are not entered. -/
  ignored : List String

/-- Whether a file of this name is wanted. -/
def ScanRule.wants (rule : ScanRule) (name : String) : Bool :=
  (rule.suffixes.map lower).contains (lower (nameSuffix name))

/-- Adds a named value to a list that is in the order of names. -/
def insertByName {α : Type} (named : String × α) : List (String × α) → List (String × α)
  | [] => [named]
  | first :: rest =>
    if named.1 ≤ first.1 then named :: first :: rest else first :: insertByName named rest

/-- The finds of all entries, the entries in the order of their names. -/
def inNameOrder (found : List (String × List (List String))) : List (List String) :=
  (found.foldr insertByName []).flatMap (·.2)

mutual

/-- The places of the wanted files in an entry of a directory. -/
def scanEntry (rule : ScanRule) (name : String) : Tree → List (List String)
  | .file _ => if rule.wants name then [[name]] else []
  | .dir entries =>
    if rule.ignored.contains name then []
    else (inNameOrder (scanEntries rule entries)).map (name :: ·)

/-- The places of the wanted files in each entry of a directory. -/
def scanEntries (rule : ScanRule) : List (String × Tree) → List (String × List (List String))
  | [] => []
  | (name, tree) :: entries => (name, scanEntry rule name tree) :: scanEntries rule entries

end

/-- The paths of the wanted files below a directory. -/
def Store.scan (store : Store) (rule : ScanRule) (directory : Path) :
    Except StoreError (List String) :=
  (store.entries directory).map fun entries =>
    (inNameOrder (scanEntries rule entries)).map "/".intercalate

end StyleAudit
