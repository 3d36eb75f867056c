import StyleAudit.Path.Basic
import StyleAudit.Store.Tree
import StyleAudit.Text.Escapes

/-!
# The file store

The store is a file tree together with the directory that relative paths start from. A path is
followed segment by segment: each segment but the last must lead to a directory that is there, also
one that a double dot behind it leaves again. `Store.locate` gives the place that a path leads to;
all other operations start from it.
-/

namespace StyleAudit

/-- A file tree and the place that relative paths start from. -/
structure Store where
  tree : Tree
  here : List String

/-- Why a path cannot be used. -/
inductive StoreProblem where
  | notFound
  | alreadyExists
  | notADirectory
  | isADirectory
  /-- There is a null character in the path, so it can name nothing. -/
  | nullCharacter
deriving DecidableEq, Repr

/-- A path that cannot be used, and why. -/
structure StoreError where
  problem : StoreProblem
  path : String
deriving DecidableEq, Repr

/-- The report of a path that cannot be used. -/
def StoreError.message (error : StoreError) : String :=
  let numbered (number : Nat) (what : String) : String :=
    "[Errno " ++ toString number ++ "] " ++ what ++ ": " ++ quoted error.path
  match error.problem with
  | .notFound => numbered 2 "No such file or directory"
  | .alreadyExists => numbered 17 "File exists"
  | .notADirectory => numbered 20 "Not a directory"
  | .isADirectory => numbered 21 "Is a directory"
  | .nullCharacter => "embedded null byte"

namespace Store

/-- Follows segments from a place. -/
def follow (tree : Tree) : List String → List String → Except StoreProblem (List String)
  | place, [] => .ok place
  | place, segment :: rest =>
    match tree.at? place with
    | none => .error .notFound
    | some (.file _) => .error .notADirectory
    | some (.dir _) =>
      follow tree (if segment = ".." then place.dropLast else place ++ [segment]) rest

/-- The place that a path leads to. There may be nothing there, but there is a directory for it. -/
def locate (store : Store) (path : Path) : Except StoreProblem (List String) :=
  if path.segments.any fun segment => segment.toList.contains (Char.ofNat 0) then
    .error .nullCharacter
  else follow store.tree (if path.isAbsolute then [] else store.here) path.segments

/-- What a path leads to. -/
def find (store : Store) (path : Path) : Except StoreProblem Tree :=
  match store.locate path with
  | .error problem => .error problem
  | .ok place =>
    match store.tree.at? place with
    | some tree => .ok tree
    | none => .error .notFound

/-- Whether a path leads to a file. -/
def isFile (store : Store) (path : Path) : Bool :=
  match store.find path with
  | .ok (.file _) => true
  | _ => false

/-- Whether a path leads to a directory. -/
def isDir (store : Store) (path : Path) : Bool :=
  match store.find path with
  | .ok (.dir _) => true
  | _ => false

/-- The bytes of a file. -/
def read (store : Store) (path : Path) : Except StoreError ByteArray :=
  match store.find path with
  | .ok (.file bytes) => .ok bytes
  | .ok (.dir _) => .error ⟨.isADirectory, path.toString⟩
  | .error problem => .error ⟨problem, path.toString⟩

/-- The entries of a directory. -/
def entries (store : Store) (path : Path) : Except StoreError (List (String × Tree)) :=
  match store.find path with
  | .ok (.dir entries) => .ok entries
  | .ok (.file _) => .error ⟨.notADirectory, path.toString⟩
  | .error problem => .error ⟨problem, path.toString⟩

/-- Puts something at a place. -/
def put (store : Store) (place : List String) (new : Tree) : Store :=
  { store with tree := store.tree.put place new }

/-- Makes an empty directory where there is nothing. -/
def makeDir (store : Store) (path : Path) : Except StoreProblem Store :=
  match store.locate path with
  | .error problem => .error problem
  | .ok place =>
    match store.tree.at? place with
    | some _ => .error .alreadyExists
    | none => .ok (store.put place (.dir []))

/-- Makes a directory, or leaves it if it is there. -/
def ensureDir (store : Store) (path : Path) : Except StoreProblem Store :=
  match store.makeDir path with
  | .ok store => .ok store
  | .error problem => if store.isDir path then .ok store else .error problem

/-- Makes a directory and those above it that are missing. If that fails on the way, the
directories made so far stay. -/
def ensureDirs (store : Store) (path : Path) : Store × Except StoreError Unit :=
  match store.ensureDir path with
  | .ok store => (store, .ok ())
  | .error .notFound =>
    if _h : path.segments = [] then (store, .error ⟨.notFound, path.toString⟩)
    else
      match store.ensureDirs path.parent with
      | (store, .error error) => (store, .error error)
      | (store, .ok ()) =>
        match store.ensureDir path with
        | .ok store => (store, .ok ())
        | .error problem => (store, .error ⟨problem, path.toString⟩)
  | .error problem => (store, .error ⟨problem, path.toString⟩)
termination_by path.segments.length
decreasing_by
  have := List.length_pos_iff.2 ‹_›
  simp [Path.parent]
  omega

/-- Writes a file, in place of the file that is there. -/
def write (store : Store) (path : Path) (bytes : ByteArray) : Except StoreError Store :=
  match store.locate path with
  | .error problem => .error ⟨problem, path.toString⟩
  | .ok place =>
    match store.tree.at? place with
    | some (.dir _) => .error ⟨.isADirectory, path.toString⟩
    | _ => .ok (store.put place (.file bytes))

end Store

end StyleAudit
