/-!
# File paths

A path is a list of segments and says whether it starts at the root. Empty segments and single
dots are dropped when a path is read, two dots are kept: whether they can be resolved is up to
the file tree. Two slashes at the front, and no more, are kept apart from one.
-/

namespace StyleAudit

/-- The segments of a text between its slashes, empty ones included. -/
def slashSegments (text : String) : List String :=
  (text.toList.splitOn '/').map String.ofList

/-- A file path. -/
structure Path where
  /-- How many slashes stand in front: none, one or two. -/
  slashes : Nat
  /-- The segments, none of them empty or a single dot. -/
  segments : List String
deriving DecidableEq, Repr

namespace Path

/-- Reads a path. -/
def ofString (text : String) : Path :=
  let count := (text.toList.takeWhile (· == '/')).length
  { slashes := if count ≤ 2 then count else 1
    segments := (slashSegments text).filter fun segment => segment != "" && segment != "." }

/-- The text of a path; the path without segments that does not start at the root is a dot. -/
def toString (path : Path) : String :=
  if path.slashes = 0 ∧ path.segments = [] then "."
  else String.ofList (List.replicate path.slashes '/') ++ "/".intercalate path.segments

/-- Whether the path starts at the root. -/
def isAbsolute (path : Path) : Bool := path.slashes != 0

/-- The path `next` as seen from `path`. -/
def join (path next : Path) : Path :=
  if next.isAbsolute then next else { path with segments := path.segments ++ next.segments }

/-- The path of the directory that the path's last segment is in. -/
def parent (path : Path) : Path := { path with segments := path.segments.dropLast }

/-- The last segment, or nothing. -/
def name (path : Path) : String := path.segments.getLast?.getD ""

/-- Adds a segment to resolved segments: two dots take the last one away. -/
def resolveStep (done : List String) (segment : String) : List String :=
  if segment = ".." then done.dropLast else done ++ [segment]

/-- The segments from the root, without two dots among them, of a path seen from the directory
`here`. Resolving goes by the text alone; nothing above the root is the root. -/
def resolve (here : List String) (path : Path) : List String :=
  path.segments.foldl resolveStep (if path.isAbsolute then [] else here)

/-- The path that starts at the root and has the given segments. -/
def fromRoot (segments : List String) : Path := ⟨1, segments⟩

end Path

/-- The suffix of a file name: its last dot and what follows, unless the dot is the first or the
last character. -/
def nameSuffix (name : String) : String :=
  let chars := name.toList
  let ending := (chars.reverse.takeWhile (· != '.')).reverse
  if ending.length + 1 < chars.length ∧ ending ≠ [] then String.ofList ('.' :: ending) else ""

end StyleAudit
