import StyleAudit.Expression
import StyleAudit.Path.Basic
import StyleAudit.Text.Lowercase

/-!
# Class attributes in markup

Markup and component files are scanned for class attributes in one pass, and everything else in
them is skipped. An attribute is its name, not preceded by a word character or a hyphen, an
equals sign and a value; blanks may stand around the equals sign. A value is

* a class list in single or double quotes, up to the next quote of that kind;
* a template alone in braces;
* any other expression in braces.

Anything else after the equals sign is no value, nor is a quote or brace that nothing closes: the
scan then goes on behind the equals sign or the mark. Where a value ends the scan goes on behind
it, so no text is read twice.

The class attribute goes by one name in plain markup and by another in component files; the suffix
of a file tells which it is.
-/

namespace StyleAudit

/-! ## Dialects -/

/-- The name that the class attribute goes by. -/
inductive Dialect where
  /-- Plain markup: `class`. -/
  | html
  /-- Components: `className`, as the property of a page element is called. -/
  | jsx
deriving DecidableEq, Repr

/-- The attribute's name. -/
def Dialect.attribute : Dialect → String
  | .html => "class"
  | .jsx => "className"

/-- The dialect of a file. -/
def Dialect.ofPath (path : String) : Dialect :=
  if [".tsx", ".jsx"].contains (lower (nameSuffix (Path.ofString path).name)) then .jsx else .html

/-! ## Attributes -/

/-- Whether an attribute name may start after a character; `none` is the start of the text. -/
def startsName (before : Option Char) : Bool :=
  !before.any fun c => isWordChar c || c == '-'

/-- The text without `word` at its front, if it starts with that word. -/
def dropWord? (word text : List Char) : Option (List Char) :=
  if word.isPrefixOf text then some (text.drop word.length) else none

/-- What follows the equals sign of a class attribute that starts the text, blanks left out. -/
def valueText? (dialect : Dialect) (before : Option Char) (text : List Char) :
    Option (List Char) :=
  if startsName before then
    match (dropWord? dialect.attribute.toList text).map (·.dropWhile isBlank) with
    | some ('=' :: value) => some (value.dropWhile isBlank)
    | _ => none
  else none

/-- The occurrences in a template that is the whole value of an attribute; `line` is the line of
the attribute. Each class name counts for its own line, counted from the opening backtick, and so
does each expression. -/
def templateOccurrences (line : Int) (path : String) (parts : List Part) : List Occurrence :=
  let text := partsText parts
  (spans 0 [] parts).flatMap fun
    | .text chars start => classListFrom (line + lineFeeds (text.take start)) path chars
    | .hole code start => occurrencesIn (line + lineFeeds (text.take start)) path code

/-- The parts of a template that stands alone in code, blanks aside. -/
def soleTemplate? (code : Code) : Option (List Part) :=
  match code.trim with
  | [.template parts] => some parts
  | _ => none

/-- The occurrences in the code of a value that the bracket `closer` ends. -/
def bracedOccurrences (line : Int) (path : String) (code : Code) (closer : Char) :
    List Occurrence :=
  match soleTemplate? code with
  | some parts =>
    if closer = '\x7d' then templateOccurrences line path parts else occurrencesIn line path code
  | none => occurrencesIn line path code

/-- Reads the value of an attribute on a line: its occurrences and the text to go on with. The
error is the text from a quote that is never closed. -/
def readValue (line : Int) (path : String) (value : List Char) :
    Except (List Char) (List Occurrence × List Char) :=
  match value with
  | [] => .ok ([], [])
  | mark :: rest =>
    if mark = '"' ∨ mark = '\'' then
      match rest.dropWhile (· != mark) with
      | [] => .ok ([], rest)
      | _ :: behind => .ok (classListAt line path (rest.takeWhile (· != mark)), behind)
    else if mark = '\x7b' then
      match read (.code ⟨.bracket 1, []⟩ []) rest with
      | .closed code closer behind => .ok (bracedOccurrences line path code closer, behind)
      | .ended _ => .ok ([], rest)
      | .openQuote quote => .error quote
    else .ok ([], value)

/-- Scans text that comes after the character `before`, starting on a line. The first `skip`
characters belong to an attribute that is dealt with. -/
def scanMarkup (dialect : Dialect) (path : String) (line : Nat) (before : Option Char)
    (skip : Nat) : List Char → Except MalformedExpression (List Occurrence)
  | [] => .ok []
  | c :: rest =>
    let nextLine := if c = '\n' then line + 1 else line
    match skip with
    | skip + 1 => scanMarkup dialect path nextLine (some c) skip rest
    | 0 =>
      match valueText? dialect before (c :: rest) with
      | none => scanMarkup dialect path nextLine (some c) 0 rest
      | some value =>
        match readValue line path value with
        | .error quote =>
          let before := (c :: rest).take ((c :: rest).length - quote.length)
          .error ⟨.attribute, line + lineFeeds before, path⟩
        | .ok (found, behind) => do
          let more ← scanMarkup dialect path nextLine (some c) (rest.length - behind.length) rest
          pure (found ++ more)

/-- The class names and dynamic expressions in the class attributes of a file, in source order.
It fails on a quote that is never closed inside a value in braces. -/
def markupOccurrences? (dialect : Dialect) (text : List Char) (path : String) :
    Except MalformedExpression (List Occurrence) :=
  scanMarkup dialect path 1 none 0 text

end StyleAudit
