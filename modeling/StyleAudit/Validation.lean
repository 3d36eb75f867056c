import StyleAudit.Json.Value
import StyleAudit.Text.Blank

/-!
# Checking JSON values

A value from outside is checked field by field, and all problems are reported, not only the
first. `Checked` is a value together with the problems found on the way; where there are
problems the value only fills a place.

A field can have several spellings. The first one present counts, and problems name it as it is
spelled.
-/

namespace StyleAudit

/-- What is wrong with a value. -/
inductive ProblemKind where
  | boolType
  | boolParsing
  | stringType
  | listType
  /-- An object was wanted, for a value of the named type. -/
  | modelType (model : String)
  | extraForbidden
  | missing
  | intType
  | intParsing
  | intFromFloat
  | intParsingSize
  | finiteNumber
deriving DecidableEq, Repr

namespace ProblemKind

/-- The short name of a kind of problem. -/
def name : ProblemKind → String
  | boolType => "bool_type"
  | boolParsing => "bool_parsing"
  | stringType => "string_type"
  | listType => "list_type"
  | modelType _ => "model_type"
  | extraForbidden => "extra_forbidden"
  | missing => "missing"
  | intType => "int_type"
  | intParsing => "int_parsing"
  | intFromFloat => "int_from_float"
  | intParsingSize => "int_parsing_size"
  | finiteNumber => "finite_number"

/-- The report of a kind of problem. -/
def message : ProblemKind → String
  | boolType => "Input should be a valid boolean"
  | boolParsing => "Input should be a valid boolean, unable to interpret input"
  | stringType => "Input should be a valid string"
  | listType => "Input should be a valid list"
  | modelType model => "Input should be a valid dictionary or instance of " ++ model
  | extraForbidden => "Extra inputs are not permitted"
  | missing => "Field required"
  | intType => "Input should be a valid integer"
  | intParsing => "Input should be a valid integer, unable to parse string as an integer"
  | intFromFloat => "Input should be a valid integer, got a number with a fractional part"
  | intParsingSize => "Unable to parse input string as an integer, exceeded maximum size"
  | finiteNumber => "Input should be a finite number"

end ProblemKind

/-- A problem and the names and indices that lead to its place. -/
structure Problem where
  location : List String
  kind : ProblemKind
deriving DecidableEq, Repr

/-- The number of problems in a value of the named type, in words. -/
def problemCount (model : String) (problems : List Problem) : String :=
  toString problems.length ++ " validation error" ++ (if problems.length = 1 then "" else "s")
    ++ " for " ++ model

/-- A checked value and its problems. -/
structure Checked (α : Type) where
  value : α
  problems : List Problem := []

namespace Checked

variable {α β : Type}

/-- A value with a single problem, which is the value's own. -/
def problem (value : α) (kind : ProblemKind) : Checked α := ⟨value, [⟨[], kind⟩]⟩

/-- The same value seen from one level further out. -/
def under (step : String) (checked : Checked α) : Checked α :=
  { checked with
    problems := checked.problems.map fun found =>
      { found with location := step :: found.location } }

/-- The value, if it has no problem. -/
def toExcept (checked : Checked α) : Except (List Problem) α :=
  if checked.problems.isEmpty then .ok checked.value else .error checked.problems

end Checked

/-! ## Plain values -/

/-- The whole number that a binary number is, if it is one. -/
def Binary64.whole? : Binary64 → Option Int
  | .finite negative mantissa exponent =>
    let size : Option Nat :=
      let unit := Nat.pow 2 exponent.natAbs
      if 0 ≤ exponent then some (mantissa * unit)
      else if mantissa % unit = 0 then some (mantissa / unit)
      else none
    size.map fun size => if negative then -(size : Int) else size
  | _ => none

/-- The bound of the numbers that fit into 64 bits with a sign, 2 to the power of 63. -/
def wordBound : Int := 0x8000000000000000

/-- The words for yes and no. -/
def flagWord? (text : String) : Option Bool :=
  let word := text.toLower
  if ["1", "on", "t", "true", "y", "yes"].contains word then some true
  else if ["0", "off", "f", "false", "n", "no"].contains word then some false
  else none

variable {τ : Type} [JsonText τ]

/-- Reads yes or no: a boolean, the numbers 0 and 1, or a word for yes or no in any case. -/
def checkFlag : Json τ → Checked Bool
  | .bool value => ⟨value, []⟩
  | .int value =>
    if value = 0 then ⟨false, []⟩
    else if value = 1 then ⟨true, []⟩
    else .problem false (if -wordBound ≤ value ∧ value < wordBound then .boolParsing else .boolType)
  | .float value =>
    match value.whole? with
    | some 0 => ⟨false, []⟩
    | some 1 => ⟨true, []⟩
    | some value =>
      .problem false (if -wordBound < value ∧ value < wordBound then .boolParsing else .boolType)
    | none => .problem false .boolType
  | .str text =>
    match (JsonText.toString? text).bind flagWord? with
    | some value => ⟨value, []⟩
    | none => .problem false .boolParsing
  | _ => .problem false .boolType

/-- Reads a text. -/
def checkText : Json τ → Checked τ
  | .str text => ⟨text, []⟩
  | _ => .problem (JsonText.ofString "") .stringType

/-- Reads a list, item by item; a problem of an item names its index. -/
def checkItems {α : Type} (check : Json τ → Checked α) : Json τ → Checked (List α)
  | .arr items =>
    let checked := items.zipIdx.map fun entry => (check entry.1).under (toString entry.2)
    ⟨checked.map (·.value), checked.flatMap (·.problems)⟩
  | _ => .problem [] .listType

/-- Reads null as an absent value. -/
def checkOptional {α : Type} (check : Json τ → Checked α) : Json τ → Checked (Option α)
  | .null => ⟨none, []⟩
  | value =>
    let checked := check value
    ⟨some checked.value, checked.problems⟩

/-- The digits of a text with single low lines between them, or nothing. -/
def plainDigits? (text : List Char) : Option (List Char) :=
  let runs := text.splitOn '_'
  if runs.all fun run => !run.isEmpty && run.all Char.isDigit then some runs.flatten else none

/-- Whether a character counts as blank around a written number. -/
def isNumberBlank (c : Char) : Bool := isBlank c && !(0x1c ≤ c.toNat && c.toNat ≤ 0x1f)

/-- The whole number that a text writes: a sign, digits, and a point with zeros behind it. -/
def wholeOfText? (text : String) : Option Int :=
  let trimmed := ((text.toList.dropWhile isNumberBlank).reverse.dropWhile isNumberBlank).reverse
  let (negative, body) := match trimmed with
    | '-' :: body => (true, body)
    | '+' :: body => (false, body)
    | body => (false, body)
  let whole := body.takeWhile (· != '.')
  if (body.drop (whole.length + 1)).all (· == '0') then
    (plainDigits? whole).map fun digits =>
      let size : Int := digits.foldl (fun n c => n * 10 + (c.toNat - '0'.toNat)) 0
      if negative then -size else size
  else none

/-- Reads a whole number: an integer, a boolean as 0 or 1, a number without a fraction, or the
text of one. -/
def checkWhole : Json τ → Checked Int
  | .int value => ⟨value, []⟩
  | .bool value => ⟨if value then 1 else 0, []⟩
  | .float value =>
    match value with
    | .finite .. =>
      match value.whole? with
      | some value =>
        if -wordBound < value ∧ value < wordBound then ⟨value, []⟩ else .problem 0 .intParsingSize
      | none => .problem 0 .intFromFloat
    | _ => .problem 0 .finiteNumber
  | .str text =>
    match (JsonText.toString? text).bind wholeOfText? with
    | some value => ⟨value, []⟩
    | none => .problem 0 .intParsing
  | _ => .problem 0 .intType

/-! ## Fields -/

variable [DecidableEq τ]

/-- The spelling of a field that an object uses: the first of its spellings with an entry. -/
def spelling? (entries : List (τ × Json τ)) (spellings : List String) :
    Option (String × Json τ) :=
  spellings.findSome? fun name => (Json.entry? entries name).map fun value => (name, value)

/-- Reads a field that may be absent. -/
def checkField {α : Type} (entries : List (τ × Json τ)) (spellings : List String) (default : α)
    (check : Json τ → Checked α) : Checked α :=
  match spelling? entries spellings with
  | some (name, value) => (check value).under name
  | none => ⟨default, []⟩

/-- Reads a field that must be there. If it is not, the first spelling names it. -/
def checkRequired {α : Type} (entries : List (τ × Json τ)) (spellings : List String)
    (default : α) (check : Json τ → Checked α) : Checked α :=
  match spelling? entries spellings with
  | some (name, value) => (check value).under name
  | none => (Checked.problem default .missing).under (spellings.head?.getD "")

end StyleAudit
