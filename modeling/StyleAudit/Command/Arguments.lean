import StyleAudit.Report.Format

/-!
# Command line arguments

The arguments are classified one by one, and then read from left to right. An argument that starts
with a hyphen is an option, unless it looks like a negative number or has a space in it and is no
option's name; everything behind a lone double hyphen is plain. The name of an option may be cut
short as long as one option alone starts like it, and a value may be joined to it by an equals sign.
There are no plain arguments, so each one that is no value of an option is refused at the end.

An ambiguous name is refused while the arguments are classified, before any other fault counts.
-/

namespace StyleAudit

namespace Command

/-- An option. -/
inductive Switch where
  | help
  | root
  | manifest
  | format
  | output
  | failOnFindings
  | init
deriving DecidableEq, Repr

namespace Switch

/-- The options by name, in the order in which they are explained. -/
def names : List (String × Switch) :=
  [("-h", help), ("--help", help), ("--root", root), ("--manifest", manifest),
    ("--format", format), ("--output", output), ("--fail-on-findings", failOnFindings),
    ("--init", init)]

/-- How messages name an option: by all its names. -/
def shown (switch : Switch) : String :=
  "/".intercalate ((names.filter fun entry => entry.2 = switch).map (·.1))

end Switch

/-- What is wrong with the arguments. -/
inductive UsageError where
  /-- The names of several options start with the word. -/
  | ambiguous (word : String) (candidates : List String)
  /-- The option takes no value. -/
  | ignoredValue (switch : Switch) (value : String)
  | missingValue (switch : Switch)
  | invalidFormat (name : String)
  | unrecognized (words : List String)
deriving DecidableEq, Repr

/-- The report of faulty arguments. -/
def UsageError.message : UsageError → String
  | ambiguous word candidates =>
    "ambiguous option: " ++ word ++ " could match " ++ ", ".intercalate candidates
  | ignoredValue switch value =>
    "argument " ++ switch.shown ++ ": ignored explicit argument " ++ quoted value
  | missingValue switch => "argument " ++ switch.shown ++ ": expected one argument"
  | invalidFormat name =>
    "argument " ++ Switch.format.shown ++ ": invalid choice: " ++ quoted name
      ++ " (choose from 'json', 'text')"
  | unrecognized words => "unrecognized arguments: " ++ " ".intercalate words

/-- What the arguments ask for, but for help. -/
structure Arguments where
  root : String := "."
  manifest : Option String := none
  format : ReportFormat := .text
  output : Option String := none
  failOnFindings : Bool := false
  init : Bool := false
deriving DecidableEq, Repr

/-- What the program is to do. -/
inductive Request where
  | help
  | run (arguments : Arguments)
deriving DecidableEq, Repr

/-! ## Classifying -/

/-- A classified argument. -/
inductive Word where
  | plain
  /-- The double hyphen in front of plain arguments. -/
  | separator
  /-- An option with the value that is joined to it, if any. -/
  | switch (switch : Switch) (value : Option String)
  /-- The name of no option. -/
  | unknown
deriving DecidableEq, Repr

/-- The value that is joined to the short help option, where `rest` is what follows its letter. The
letter may be repeated, and a letter that is no option stops the reading without a fault. -/
def clusterValue? : (rest : List Char) → Option String
  | 'h' :: [] => none
  | 'h' :: '=' :: value => some (String.ofList value)
  | 'h' :: rest => clusterValue? rest
  | '-' :: rest => some (String.ofList ('-' :: rest))
  | _ => none

/-- Whether a text is a negative number: a hyphen and digits, with a point before the last of them
perhaps. -/
def isNegativeNumber (word : List Char) : Bool :=
  match word with
  | '-' :: number =>
    match number.splitOn '.' with
    | [digits] => !digits.isEmpty && digits.all Char.isDigit
    | [digits, fraction] =>
      digits.all Char.isDigit && !fraction.isEmpty && fraction.all Char.isDigit
    | _ => false
  | _ => false

/-- Splits a word at its first equals sign. -/
def splitValue (word : String) : String × Option String :=
  let chars := word.toList
  let name := String.ofList (chars.takeWhile (· != '='))
  match chars.dropWhile (· != '=') with
  | [] => (name, none)
  | _ :: value => (name, some (String.ofList value))

/-- The options that a word without an option's full name can stand for. -/
def candidates (word : String) : List (String × Switch × Option String) :=
  match word.toList with
  | '-' :: '-' :: _ =>
    let (name, value) := splitValue word
    (Switch.names.filter fun entry => name.toList.isPrefixOf entry.1.toList).map fun entry =>
      (entry.1, entry.2, value)
  | '-' :: 'h' :: rest => [("-h", .help, clusterValue? rest)]
  | _ => []

/-- Classifies an argument that starts with a hyphen, has more than that one character and is not
the double hyphen. -/
def classifyOption (word : String) : Except UsageError Word :=
  let (name, value) := splitValue word
  match Switch.names.lookup name with
  | some switch => .ok (.switch switch value)
  | none =>
    match candidates word with
    | [(_, switch, value)] => .ok (.switch switch value)
    | [] =>
      .ok (if isNegativeNumber word.toList || word.toList.contains ' ' then .plain else .unknown)
    | several => .error (.ambiguous word (several.map (·.1)))

/-- Classifies arguments. -/
def classify : List String → Except UsageError (List (String × Word))
  | [] => .ok []
  | "--" :: words => .ok (("--", .separator) :: words.map fun word => (word, .plain))
  | word :: words => do
    let kind ←
      if word.toList.head? = some '-' && word != "-" then classifyOption word else pure .plain
    pure ((word, kind) :: (← classify words))

/-! ## Reading -/

/-- Sets an option that takes no value. -/
def Arguments.turnOn (arguments : Arguments) : Switch → Option Arguments
  | .failOnFindings => some { arguments with failOnFindings := true }
  | .init => some { arguments with init := true }
  | _ => none

/-- Sets an option that takes a value; `none` for one that does not. -/
def Arguments.give (arguments : Arguments) (value : String) :
    Switch → Option (Except UsageError Arguments)
  | .root => some (.ok { arguments with root := value })
  | .manifest => some (.ok { arguments with manifest := some value })
  | .output => some (.ok { arguments with output := some value })
  | .format =>
    some <| match ReportFormat.ofName? value with
      | some format => .ok { arguments with format }
      | none => .error (.invalidFormat value)
  | _ => none

/-- Reads classified arguments; `extras` are the ones so far that have no place. -/
def readWords (arguments : Arguments) (extras : List String) :
    List (String × Word) → Except UsageError Request
  | [] => if extras.isEmpty then .ok (.run arguments) else .error (.unrecognized extras)
  | (_, .switch switch (some value)) :: words =>
    match arguments.give value switch with
    | none => .error (.ignoredValue switch value)
    | some (.error error) => .error error
    | some (.ok arguments) => readWords arguments extras words
  | (_, .switch .help none) :: _ => .ok .help
  | (_, .switch switch none) :: words =>
    match arguments.turnOn switch with
    | some arguments => readWords arguments extras words
    | none =>
      match words with
      | (value, .plain) :: words =>
        match arguments.give value switch with
        | some (.ok arguments) => readWords arguments extras words
        | some (.error error) => .error error
        | none => .error (.missingValue switch)
      | _ => .error (.missingValue switch)
  | (word, _) :: words => readWords arguments (extras ++ [word]) words

/-- Reads the arguments of a command line. -/
def Request.ofWords (words : List String) : Except UsageError Request := do
  readWords {} [] (← classify words)

end Command

end StyleAudit
