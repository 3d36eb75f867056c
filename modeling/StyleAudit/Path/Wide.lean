import StyleAudit.Path.Project
import StyleAudit.Text.Encoding
import StyleAudit.Text.Wide

/-!
# Paths in wide texts

The name of a file is made of bytes, which are UTF-8 as a rule. In a wide text the surrogates from
U+DC80 to U+DCFF, where they stand alone, are the bytes from 80 to FF, so that it can hold any name;
a text with another surrogate alone names no file.

A name that is not UTF-8 is no string. Each of its bytes that belongs to no character is shown as a
slash and two hexadecimal digits, which is no part of any other name.
-/

namespace StyleAudit

/-- The bytes that a code point stands for in the name of a file. -/
def pointBytes? (point : Nat) : Option (List UInt8) :=
  if !isSurrogate point then some (String.utf8EncodeChar (pointChar point))
  else if 0xdc80 ≤ point ∧ point ≤ 0xdcff then some [UInt8.ofNat (point - 0xdc00)]
  else none

/-- The character that some bytes start with in UTF-8, and how many bytes it takes. -/
def leadingChar? (bytes : List UInt8) : Option (Char × Nat) :=
  [1, 2, 3, 4].findSome? fun length =>
    match decodeUtf8 none (bytes.take length) with
    | .ok [c] => some (c, length)
    | _ => none

/-- The name that bytes make. The first `skip` bytes belong to a character that is dealt with. -/
def byteName (skip : Nat) : List UInt8 → List Char
  | [] => []
  | b :: rest =>
    match skip with
    | skip + 1 => byteName skip rest
    | 0 =>
      match leadingChar? (b :: rest) with
      | some (c, length) => c :: byteName (length - 1) rest
      | none => '/' :: (hexDigits 2 b.toNat ++ byteName 0 rest)

namespace WideText

/-- The name of the file that a text without slashes names. -/
def fileName? (text : WideText) : Option String :=
  match text.toString? with
  | some plain => some plain
  | none =>
    ((points text.units).mapM pointBytes?).map fun bytes =>
      String.ofList (byteName 0 bytes.flatten)

/-- The code unit of a slash. -/
def slash : UInt16 := 0x2f

/-- How many slashes stand in front of a path. -/
def slashes (text : WideText) : Nat :=
  let count := (text.units.takeWhile (· == slash)).length
  if count ≤ 2 then count else 1

/-- The segments of a path, none of them empty or a single dot. -/
def segments (text : WideText) : List WideText :=
  ((text.units.splitOn slash).map WideText.mk).filter fun segment =>
    segment != ofString "" && segment != ofString "."

/-- The path whose segments are given. -/
def pathOf? (text : WideText) (segments : List WideText) : Option Path :=
  (segments.mapM fileName?).map fun names => ⟨text.slashes, names⟩

/-- The path that a text writes, if there can be a file of that name. -/
def path? (text : WideText) : Option Path :=
  match text.toString? with
  | some plain => some (Path.ofString plain)
  | none => text.pathOf? text.segments

/-- The path of the directory that a path's last segment is in, if there can be one of that name. -/
def parent? (text : WideText) : Option Path := text.pathOf? text.segments.dropLast

/-- Why a path, as seen from `root`, has no bytes: its first surrogate that is no byte, and those
right behind it. -/
def pathFlaw (root : Path) (text : WideText) : EncodeFlaw :=
  let front := (root.join ⟨text.slashes, ["-"]⟩).toString.length - 1
  let shown := [slash.toNat].intercalate (text.segments.map (points ·.units))
  let run := shown.dropWhile fun point => (pointBytes? point).isSome
  { encoding := .utf8
    code := run.headD 0
    position := front + (shown.length - run.length)
    length := (run.takeWhile isSurrogate).length }

/-- A path that somebody lists, as a string. No file has a null character in its name, so null
characters stand for surrogates. An absolute path whose surrogates are bytes can be resolved, and
one with null characters cannot, so it is resolved before. -/
def listedPath (text : WideText) : String :=
  match text.toString? with
  | some plain => plain
  | none =>
    let char (point : Nat) : Char := if isSurrogate point then Char.ofNat 0 else pointChar point
    let shown := String.ofList ((points text.units).map char)
    let path := Path.ofString shown
    if path.isAbsolute ∧ text.path?.isSome ∧ 0 ∉ text.units then
      (Path.fromRoot (path.resolve [])).toString
    else shown

end WideText

end StyleAudit
