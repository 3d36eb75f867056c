import StyleAudit.Path.Basic

/-!
# Project paths

Paths in a configuration may be written in several ways: absolute or relative, with slashes or
backslashes, with dots in them. `projectPath` brings them to the one form that the audit's own
paths have: relative to the project's root, segments joined by single slashes, no dots but a
leading run of double dots. The root itself is the empty text. An absolute path outside the root
stays as it is.

`parentDir` is the directory that a file lies in, and `commonPath` the deepest directory that a list
of files has in common.
-/

namespace StyleAudit

/-- The last segment is taken away by a double dot unless it is a double dot itself. -/
def normalStep (absolute : Bool) (done : List String) (segment : String) : List String :=
  if segment = "" ∨ segment = "." then done
  else if segment = ".." then
    match done.getLast? with
    | none => if absolute then done else done ++ [segment]
    | some last => if last = ".." then done ++ [segment] else done.dropLast
  else done ++ [segment]

/-- The normal form of a path with slashes; the directory itself is the empty text. -/
def normalPath (text : String) : String :=
  let path := Path.ofString text
  let segments := (slashSegments text).foldl (normalStep path.isAbsolute) []
  String.ofList (List.replicate path.slashes '/') ++ "/".intercalate segments

/-- A text with each backslash turned into a slash. -/
def slashed (text : String) : String :=
  String.ofList (text.toList.map fun c => if c = '\\' then '/' else c)

/-- What follows `root` in a list of segments that starts with it. -/
def below? (root segments : List String) : Option (List String) :=
  if root.isPrefixOf segments then some (segments.drop root.length) else none

/-- A path as a project path, where `root` holds the segments of the project's root. No file
has a name with a null character in it, so an absolute path with one lies outside the root. -/
def projectPath (root : List String) (text : String) : String :=
  let path := Path.ofString text
  if path.isAbsolute then
    if text.toList.contains (Char.ofNat 0) then path.toString
    else
      match below? root (path.resolve []) with
      | some segments => normalPath (slashed (Path.toString ⟨0, segments⟩))
      | none => path.toString
  else normalPath (slashed path.toString)

/-! ## Directories -/

/-- The directory of a project path: what comes before its last slash, without slashes at its
end unless it is made of slashes alone. A path without a slash lies in the root, the empty
text. -/
def parentDir (path : String) : String :=
  let front := (path.toList.reverse.dropWhile (· != '/'))
  let bare := front.dropWhile (· == '/')
  String.ofList (if bare.isEmpty then front else bare).reverse

/-- The longest list that both lists start with. -/
def sharedStart : List String → List String → List String
  | a :: as, b :: bs => if a = b then a :: sharedStart as bs else []
  | _, _ => []

/-- The deepest directory that all the paths lie in, or nothing if there are no paths or their
first segments differ. Where what the paths share names a file, the directory of that file is
meant; `isFile` tells. -/
def commonPath (isFile : String → Bool) : List String → Option String
  | [] => none
  | path :: paths =>
    let shared := (paths.map slashSegments).foldl sharedStart (slashSegments path)
    if shared = [] then none
    else
      let joined := "/".intercalate shared
      some (if isFile joined then "/".intercalate shared.dropLast else joined)

end StyleAudit
