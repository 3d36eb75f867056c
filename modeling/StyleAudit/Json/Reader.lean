import StyleAudit.Json.Value

/-!
# Reading JSON

A text is first cut into tokens, then a machine with a stack of open arrays and objects puts the
tokens together. Reading stops at the first fault. A token that is itself faulty ends the token
list and is reported only if a value or a name is wanted where it stands, since the machine may
refuse the place first.

Beyond the standard, `NaN`, `Infinity` and `-Infinity` are numbers. A name that appears twice in
an object keeps its first place and its last value. Each escape of four digits is one code unit of
its text, so two of them can make a surrogate pair and one of them can be half of a pair. The
standard sets no limit to the digits of a whole number, so a reader may have a limit or none; `read`
allows 4300.
-/

namespace StyleAudit

namespace Json

/-- What can be wrong with a JSON text. -/
inductive Flaw where
  | byteOrderMark
  | expectingValue
  | expectingName
  | expectingColon
  | expectingComma
  | extraData
  | unterminatedString
  | controlCharacter
  | badEscape
  | badUnicodeEscape
deriving DecidableEq, Repr

/-- The report of a flaw. -/
def Flaw.message : Flaw → String
  | .byteOrderMark => "Unexpected UTF-8 BOM (decode using utf-8-sig)"
  | .expectingValue => "Expecting value"
  | .expectingName => "Expecting property name enclosed in double quotes"
  | .expectingColon => "Expecting ':' delimiter"
  | .expectingComma => "Expecting ',' delimiter"
  | .extraData => "Extra data"
  | .unterminatedString => "Unterminated string starting at"
  | .controlCharacter => "Invalid control character at"
  | .badEscape => "Invalid \\escape"
  | .badUnicodeEscape => "Invalid \\uXXXX escape"

/-- Why a text is no JSON value. -/
inductive ReadError where
  /-- There is a flaw at a position of the text. -/
  | flaw (flaw : Flaw) (index : Nat)
  /-- A whole number has too many digits. -/
  | tooManyDigits (count : Nat)
deriving DecidableEq, Repr

/-- The most digits that `read` allows a whole number. -/
def maxDigits : Nat := 4300

/-- The report of a flaw in a text, with line and column. -/
def flawMessage (text : List Char) (flaw : Flaw) (index : Nat) : String :=
  let before := text.take index
  let line := before.count '\n' + 1
  let column := (before.reverse.takeWhile (· != '\n')).length + 1
  flaw.message ++ ": line " ++ toString line ++ " column " ++ toString column
    ++ " (char " ++ toString index ++ ")"

/-! ## Tokens -/

/-- A token. -/
inductive Token (τ : Type) where
  /-- A bracket, a comma or a colon. -/
  | mark (c : Char)
  | text (value : τ)
  /-- A number or one of the named constants. -/
  | atom (value : Json τ)
  /-- Something that is no token; it ends the list of tokens. -/
  | faulty (error : ReadError)

variable {τ : Type}

/-- Whether a character may stand between tokens. -/
def isSpace (c : Char) : Bool := c == ' ' || c == '\t' || c == '\n' || c == '\r'

/-- The value of a hexadecimal digit. -/
def hexDigit? (c : Char) : Option Nat :=
  if c.isDigit then some (c.toNat - '0'.toNat)
  else if 'a' ≤ c && c ≤ 'f' then some (c.toNat - 'a'.toNat + 10)
  else if 'A' ≤ c && c ≤ 'F' then some (c.toNat - 'A'.toNat + 10)
  else none

/-- The code unit that four hexadecimal digits at the front of a text make, if one more character
follows them. -/
def hexUnit? : List Char → Option UInt16
  | a :: b :: c :: d :: _ :: _ => do
    let a ← hexDigit? a
    let b ← hexDigit? b
    let c ← hexDigit? c
    let d ← hexDigit? d
    pure (UInt16.ofNat (((a * 16 + b) * 16 + c) * 16 + d))
  | _ => none

/-- What an escape with a single character after the backslash stands for. -/
def shortEscape? (c : Char) : Option Char :=
  if c = '"' ∨ c = '\\' ∨ c = '/' then some c
  else if c = 'b' then some (Char.ofNat 8)
  else if c = 'f' then some (Char.ofNat 12)
  else if c = 'n' then some '\n'
  else if c = 'r' then some '\r'
  else if c = 't' then some '\t'
  else none

/-- Reads what follows a backslash at a position: the code units that the escape stands for and
how many characters were read. `start` is the position of the string. -/
def escape (start index : Nat) : List Char → Except ReadError (List UInt16 × Nat)
  | [] => .error (.flaw .unterminatedString start)
  | 'u' :: rest =>
    match hexUnit? rest with
    | some unit => .ok ([unit], 5)
    | none => .error (.flaw .badUnicodeEscape (index + 1))
  | c :: _ =>
    match shortEscape? c with
    | some c => .ok (pointUnits c.toNat, 1)
    | none => .error (.flaw .badEscape index)

/-- Reads a string from behind its opening quote at position `start`: the code units and the
position behind the closing quote. `done` holds the code units so far, last unit first; the next
`skip` characters belong to an escape that is dealt with. -/
def stringBody (start index : Nat) (done : List UInt16) (skip : Nat) :
    List Char → Except ReadError (List UInt16 × Nat)
  | [] => .error (.flaw .unterminatedString start)
  | c :: rest =>
    match skip with
    | skip + 1 => stringBody start (index + 1) done skip rest
    | 0 =>
      if c = '"' then .ok (done.reverse, index + 1)
      else if c = '\\' then
        match escape start index rest with
        | .error error => .error error
        | .ok (escaped, length) =>
          stringBody start (index + 1) (escaped.reverse ++ done) length rest
      else if c.toNat < 0x20 then .error (.flaw .controlCharacter index)
      else stringBody start (index + 1) ((pointUnits c.toNat).reverse ++ done) 0 rest

/-- The number that decimal digits make. -/
def decimal (digits : List Char) : Nat :=
  digits.foldl (fun n c => n * 10 + (c.toNat - '0'.toNat)) 0

/-- The digits of the whole part at the front of a text: a zero stands alone. -/
def wholeDigits (text : List Char) : List Char :=
  match text with
  | '0' :: _ => ['0']
  | text => text.takeWhile Char.isDigit

/-- The digits after a decimal point at the front of a text. -/
def fractionDigits : List Char → List Char
  | '.' :: text => text.takeWhile Char.isDigit
  | _ => []

/-- The exponent at the front of a text and how many characters it takes. -/
def exponent? : List Char → Option (Int × Nat)
  | e :: text =>
    if e = 'e' ∨ e = 'E' then
      let (negative, signs, text) := match text with
        | '-' :: text => (true, 1, text)
        | '+' :: text => (false, 1, text)
        | text => (false, 0, text)
      let digits := text.takeWhile Char.isDigit
      if digits.isEmpty then none
      else
        let size : Int := decimal digits
        some (if negative then -size else size, 1 + signs + digits.length)
    else none
  | [] => none

/-- Whether a whole number may have a number of digits, if there is a limit to them. -/
def allowsDigits (limit : Option Nat) (count : Nat) : Bool := limit.all (count ≤ ·)

/-- The number at the front of a text and how many characters it takes. A whole number has at most
`limit` digits. -/
def number? (limit : Option Nat) (text : List Char) : Option (Token τ × Nat) :=
  let (negative, body) := match text with
    | '-' :: body => (true, body)
    | body => (false, body)
  let whole := wholeDigits body
  if whole.isEmpty then none
  else
    let fraction := fractionDigits (body.drop whole.length)
    let pointLength := if fraction.isEmpty then 0 else 1
    let front := whole.length + pointLength + fraction.length
    let exponent := exponent? (body.drop front)
    let signLength := if negative then 1 else 0
    if fraction.isEmpty ∧ exponent.isNone then
      let size : Int := decimal whole
      if allowsDigits limit whole.length then
        some (.atom (.int (if negative then -size else size)), signLength + front)
      else some (.faulty (.tooManyDigits whole.length), 1)
    else
      let (power, length) := exponent.getD (0, 0)
      some (.atom (.float (Binary64.ofDecimal negative (decimal (whole ++ fraction))
        (power - fraction.length))), signLength + front + length)

/-- The constants that have a name. -/
def constants : List (String × Json τ) :=
  [("null", .null), ("true", .bool true), ("false", .bool false), ("NaN", .float .notANumber),
    ("Infinity", .float (.infinite false)), ("-Infinity", .float (.infinite true))]

/-- The token at the front of a text at a position, and how many characters it takes. -/
def token [JsonText τ] (limit : Option Nat) (index : Nat) (text : List Char) : Token τ × Nat :=
  match text with
  | [] => (.faulty (.flaw .expectingValue index), 1)
  | c :: rest =>
    if c ∈ ['\x7b', '\x7d', '[', ']', ',', ':'] then (.mark c, 1)
    else if c = '"' then
      match stringBody index (index + 1) [] 0 rest with
      | .ok (units, stop) => (.text (JsonText.ofUnits units), stop - index)
      | .error error => (.faulty error, 1)
    else
      match constants.find? fun constant => constant.1.toList.isPrefixOf text with
      | some constant => (.atom constant.2, constant.1.length)
      | none => (number? limit text).getD (.faulty (.flaw .expectingValue index), 1)

/-- The tokens of a text with their positions. The first `skip` characters belong to a token that
is dealt with. -/
def tokens [JsonText τ] (limit : Option Nat) (index skip : Nat) :
    List Char → List (Nat × Token τ)
  | [] => []
  | c :: rest =>
    match skip with
    | skip + 1 => tokens limit (index + 1) skip rest
    | 0 =>
      if isSpace c then tokens limit (index + 1) 0 rest
      else
        match token limit index (c :: rest) with
        | (.faulty error, _) => [(index, .faulty error)]
        | (next, length) => (index, next) :: tokens limit (index + 1) (length - 1) rest

/-! ## Values -/

/-- An array or object that is being read. -/
inductive Frame (τ : Type) where
  /-- An array with the items so far, last item first. -/
  | array (items : List (Json τ))
  /-- An object with the entries so far, in the middle of the entry `name`. -/
  | object (entries : List (τ × Json τ)) (name : τ)

/-- What is wanted next. -/
inductive Want (τ : Type) where
  /-- A value, or the end of an array that is still empty if `mayClose`. -/
  | value (mayClose : Bool)
  /-- The name of an entry, or the end of an object that is still empty if `mayClose`. -/
  | name (entries : List (τ × Json τ)) (mayClose : Bool)
  /-- The colon behind a name. -/
  | colon (entries : List (τ × Json τ)) (name : τ)
  /-- What may follow a complete value. -/
  | after (value : Json τ)

/-- The error where something else is wanted. -/
def Want.error (want : Want τ) (stack : List (Frame τ)) (index : Nat) : ReadError :=
  match want with
  | .value _ => .flaw .expectingValue index
  | .name _ _ => .flaw .expectingName index
  | .colon _ _ => .flaw .expectingColon index
  | .after _ => .flaw (if stack.isEmpty then .extraData else .expectingComma) index

/-- Puts tokens together. `stop` is the position of the end of the text. -/
def assemble [DecidableEq τ] (stop : Nat) :
    Want τ → List (Frame τ) → List (Nat × Token τ) → Except ReadError (Json τ)
  | .after value, [], [] => .ok value
  | want, stack, [] => .error (want.error stack stop)
  | .value mayClose, stack, (index, next) :: rest =>
    match next, stack with
    | .atom value, stack => assemble stop (.after value) stack rest
    | .text value, stack => assemble stop (.after (.str value)) stack rest
    | .mark '[', stack => assemble stop (.value true) (.array [] :: stack) rest
    | .mark '\x7b', stack => assemble stop (.name [] true) stack rest
    | .mark ']', .array items :: stack =>
      if mayClose then assemble stop (.after (.arr items.reverse)) stack rest
      else .error (.flaw .expectingValue index)
    | .faulty error, _ => .error error
    | _, _ => .error (.flaw .expectingValue index)
  | .name entries mayClose, stack, (index, next) :: rest =>
    match next with
    | .text name => assemble stop (.colon entries name) stack rest
    | .mark '\x7d' =>
      if mayClose then assemble stop (.after (.obj entries)) stack rest
      else .error (.flaw .expectingName index)
    | .faulty (.flaw .expectingValue _) => .error (.flaw .expectingName index)
    | .faulty (.tooManyDigits _) => .error (.flaw .expectingName index)
    | .faulty error => .error error
    | _ => .error (.flaw .expectingName index)
  | .colon entries name, stack, (index, next) :: rest =>
    match next with
    | .mark ':' => assemble stop (.value false) (.object entries name :: stack) rest
    | _ => .error (.flaw .expectingColon index)
  | .after value, stack, (index, next) :: rest =>
    match stack, next with
    | [], _ => .error (.flaw .extraData index)
    | .array items :: stack, .mark ',' =>
      assemble stop (.value false) (.array (value :: items) :: stack) rest
    | .array items :: stack, .mark ']' =>
      assemble stop (.after (.arr (value :: items).reverse)) stack rest
    | .object entries name :: stack, .mark ',' =>
      assemble stop (.name (setEntry name value entries) false) stack rest
    | .object entries name :: stack, .mark '\x7d' =>
      assemble stop (.after (.obj (setEntry name value entries))) stack rest
    | _, _ => .error (.flaw .expectingComma index)

/-- Reads a JSON text whose whole numbers have at most `limit` digits. -/
def readWithin [DecidableEq τ] [JsonText τ] (limit : Option Nat) (text : List Char) :
    Except ReadError (Json τ) :=
  if text.head? = some (Char.ofNat 0xfeff) then .error (.flaw .byteOrderMark 0)
  else assemble text.length (.value false) [] (tokens limit 0 0 text)

/-- Reads a JSON text. -/
def read [DecidableEq τ] [JsonText τ] (text : List Char) : Except ReadError (Json τ) :=
  readWithin (some maxDigits) text

end Json

end StyleAudit
