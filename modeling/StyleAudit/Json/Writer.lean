import StyleAudit.Json.Value
import StyleAudit.Text.Escapes

/-!
# Writing JSON

A value is written over several lines: each item and each entry on a line of its own, two spaces
further in than the bracket before it. An empty array or object takes no line of its own.

The two styles differ in the characters they escape. Both escape quotes, backslashes and
controls; `Style.ascii` also escapes everything outside the printable ASCII characters, as code
units of UTF-16, and `Style.plain` leaves it as it is. A surrogate that stands alone is no
character, so it is an escape in both styles.
-/

namespace StyleAudit

namespace Json

/-- Which characters a text is written with. -/
inductive Style where
  | ascii
  | plain
deriving DecidableEq, Repr

/-- A code unit as an escape. -/
def unitEscape (code : Nat) : List Char :=
  '\\' :: 'u' :: hexDigits 4 code

/-- A character as one or two escapes. -/
def charEscape (c : Char) : List Char :=
  if c.toNat < 0x10000 then unitEscape c.toNat
  else
    let code := c.toNat - 0x10000
    unitEscape (0xd800 + code / 0x400) ++ unitEscape (0xdc00 + code % 0x400)

/-- A character of a text as it is written. -/
def writeChar (style : Style) (c : Char) : List Char :=
  if c = '"' ∨ c = '\\' then ['\\', c]
  else if c = '\n' then ['\\', 'n']
  else if c = '\r' then ['\\', 'r']
  else if c = '\t' then ['\\', 't']
  else if c.toNat = 8 then ['\\', 'b']
  else if c.toNat = 12 then ['\\', 'f']
  else if c.toNat < 0x20 then unitEscape c.toNat
  else if style = .ascii ∧ 0x7e < c.toNat then charEscape c
  else [c]

/-- A code point of a text as it is written. -/
def writePoint (style : Style) (point : Nat) : List Char :=
  if isSurrogate point then unitEscape point else writeChar style (pointChar point)

variable {τ : Type} [JsonText τ]

/-- A text in quotes. -/
def writeText (style : Style) (text : τ) : List Char :=
  '"' :: ((points (JsonText.units text)).flatMap (writePoint style) ++ ['"'])

/-- The decimal digits of a number. -/
def digits (n : Nat) : List Char := Nat.toDigits 10 n

/-- A whole number. -/
def writeInt (n : Int) : List Char :=
  if n < 0 then '-' :: digits n.natAbs else digits n.natAbs

/-- A positive decimal number: plainly while its point stands after at most 16 digits and before
at most three zeros, otherwise with an exponent of a sign and at least two digits. A whole number
keeps one zero after the point. -/
def writeDecimal (number : Nat) (power : Int) : List Char :=
  let shown := digits number
  let point := shown.length + power
  if -4 < point ∧ point ≤ 16 then
    if point ≤ 0 then '0' :: '.' :: (List.replicate (-point).toNat '0' ++ shown)
    else if point < shown.length then
      shown.take point.toNat ++ '.' :: shown.drop point.toNat
    else shown ++ List.replicate (point - shown.length).toNat '0' ++ ['.', '0']
  else
    let size := point - 1
    let exponent := digits size.natAbs
    let padded := if exponent.length < 2 then '0' :: exponent else exponent
    let mantissa := match shown with
      | [] => []
      | [digit] => [digit]
      | digit :: rest => digit :: '.' :: rest
    mantissa ++ 'e' :: (if size < 0 then '-' else '+') :: padded

/-- A number with a fraction, in the fewest digits that read back as the same number. -/
def writeFloat : Binary64 → List Char
  | .notANumber => "NaN".toList
  | .infinite negative => (if negative then "-Infinity" else "Infinity").toList
  | .finite negative mantissa exponent =>
    let size :=
      if mantissa = 0 then "0.0".toList
      else
        let (number, power) := Binary64.shortest mantissa exponent
        writeDecimal number power
    if negative then '-' :: size else size

/-- A new line, `level` steps in. -/
def newLine (level : Nat) : List Char := '\n' :: List.replicate (2 * level) ' '

mutual

/-- A value whose first line starts `level` steps in. -/
def write (style : Style) (level : Nat) : Json τ → List Char
  | .null => "null".toList
  | .bool value => (if value then "true" else "false").toList
  | .int value => writeInt value
  | .float value => writeFloat value
  | .str value => writeText style value
  | .arr [] => ['[', ']']
  | .arr (item :: items) =>
    '[' :: (newLine (level + 1) ++ write style (level + 1) item
      ++ writeItems style (level + 1) items ++ newLine level ++ [']'])
  | .obj [] => ['\x7b', '\x7d']
  | .obj ((name, value) :: entries) =>
    '\x7b' :: (newLine (level + 1) ++ writeText style name ++ ':' :: ' '
      :: write style (level + 1) value ++ writeEntries style (level + 1) entries
      ++ newLine level ++ ['\x7d'])

/-- The items of an array after the first. -/
def writeItems (style : Style) (level : Nat) : List (Json τ) → List Char
  | [] => []
  | item :: items =>
    ',' :: (newLine level ++ write style level item ++ writeItems style level items)

/-- The entries of an object after the first. -/
def writeEntries (style : Style) (level : Nat) : List (τ × Json τ) → List Char
  | [] => []
  | (name, value) :: entries =>
    ',' :: (newLine level ++ writeText style name ++ ':' :: ' ' :: write style level value
      ++ writeEntries style level entries)

end

end Json

end StyleAudit
