import StyleAudit.Proofs.Expression.Padding

/-!
# Expressions as trees

The grammar of the expressions that name classes: conditionals, sums, literals, templates with
holes, words that stand for unknown classes, and parentheses. A tree keeps the blanks it is
written with, so that `text` is a function of it; `code` is the tree as units of code, and
`occurrences` what it means: the class names of its literals and of its templates, and its words.
-/

namespace StyleAudit

/-- Whether a character may stand in a word: it is no quote, no bracket and no part of an operator,
a comment or an escape. -/
def isPlain (c : Char) : Bool :=
  !(isQuote c || isOpener c || isCloser c || ['+', '?', ':', '/', '\\'].contains c)

namespace Tree

/-- Any number of blanks. -/
structure Blanks where
  text : List Char
  blank : ∀ c ∈ text, isBlank c = true

/-- At least one blank. -/
structure Gap extends Blanks where
  nonempty : text ≠ []

/-- A literal: plain quotes around a text without quotes, backslashes and line feeds. -/
structure Literal where
  quote : Char
  body : List Char
  isPlainQuote : IsPlainQuote quote
  plain : ∀ c ∈ body, isQuote c = false ∧ c ≠ '\\' ∧ c ≠ '\n'

/-- A text that names no class: a condition, or an expression that nobody can tell without running
it. There can be blanks in it, but not only blanks. -/
structure Word where
  text : List Char
  plain : ∀ c ∈ text, isPlain c = true
  visible : ∃ c ∈ text, isBlank c = false

/-- Text of a template between two holes. -/
structure Chunk where
  text : List Char
  plain : ∀ c ∈ text, c ≠ backtick ∧ c ≠ '\\' ∧ c ≠ '$'

mutual

/-- An operand of a sum. -/
inductive Operand where
  | literal (literal : Literal)
  | template (template : Template)
  | word (word : Word)
  | group (before : Blanks) (inner : Expression) (after : Blanks)

/-- A branch of a conditional; a conditional can stand there without parentheses. -/
inductive Branch where
  | operand (operand : Operand)
  | choice (choice : Choice)

/-- A conditional, with the gaps around its question mark and around its colon. -/
inductive Choice where
  | mk (condition : Word) (beforeMark afterMark : Gap) (yes : Branch)
    (beforeColon afterColon : Gap) (no : Branch)

/-- A sum of one or more operands, with the gaps around each plus sign. -/
inductive Sum where
  | one (operand : Operand)
  | plus (operand : Operand) (before after : Gap) (rest : Sum)

/-- An expression. -/
inductive Expression where
  | choice (choice : Choice)
  | sum (sum : Sum)

/-- The inside of a template. -/
inductive Template where
  | chunk (chunk : Chunk)
  | hole (chunk : Chunk) (before : Blanks) (inner : Expression) (after : Blanks) (rest : Template)
  | emptyHole (chunk : Chunk) (blanks : Blanks) (rest : Template)

end

/-! ## How trees are written -/

mutual

/-- The text of an operand. -/
def Operand.text : Operand → List Char
  | .literal literal => literal.quote :: (literal.body ++ [literal.quote])
  | .template template => backtick :: (template.text ++ [backtick])
  | .word word => word.text
  | .group before inner after => '(' :: (before.text ++ inner.text ++ after.text ++ [')'])

/-- The text of a branch. -/
def Branch.text : Branch → List Char
  | .operand operand => operand.text
  | .choice choice => choice.text

/-- The text of a conditional. -/
def Choice.text : Choice → List Char
  | .mk condition beforeMark afterMark yes beforeColon afterColon no =>
    condition.text ++ beforeMark.text ++ '?' :: (afterMark.text ++ yes.text ++ beforeColon.text
      ++ ':' :: (afterColon.text ++ no.text))

/-- The text of a sum. -/
def Sum.text : Sum → List Char
  | .one operand => operand.text
  | .plus operand before after rest =>
    operand.text ++ before.text ++ '+' :: (after.text ++ rest.text)

/-- The text of an expression. -/
def Expression.text : Expression → List Char
  | .choice choice => choice.text
  | .sum sum => sum.text

/-- The text between the backticks of a template. -/
def Template.text : Template → List Char
  | .chunk chunk => chunk.text
  | .hole chunk before inner after rest =>
    chunk.text ++ '$' :: '\x7b' :: (before.text ++ inner.text ++ after.text ++ '\x7d' :: rest.text)
  | .emptyHole chunk blanks rest =>
    chunk.text ++ '$' :: '\x7b' :: (blanks.text ++ '\x7d' :: rest.text)

end

/-! ## What trees mean -/

mutual

/-- The occurrences in an operand whose text starts on the line `here`, in an expression that
starts on `line`. A class name counts for `line`, a word for the line of its first character that
is no blank. -/
def Operand.occurrences (line : Int) (path : String) : Operand → (here : Int) → List Occurrence
  | .literal literal, _ => classListAt line path literal.body
  | .template template, here => template.occurrences line path here
  | .word word, here =>
    [.dynamic ⟨String.ofList (collapse word.text),
      here + lineFeeds (word.text.takeWhile isBlank), path⟩]
  | .group before inner _, here => inner.occurrences line path (here + lineFeeds before.text)

/-- The occurrences in a branch. -/
def Branch.occurrences (line : Int) (path : String) : Branch → (here : Int) → List Occurrence
  | .operand operand, here => operand.occurrences line path here
  | .choice choice, here => choice.occurrences line path here

/-- The occurrences in the two branches of a conditional. -/
def Choice.occurrences (line : Int) (path : String) : Choice → (here : Int) → List Occurrence
  | .mk condition beforeMark afterMark yes beforeColon afterColon no, here =>
    let atYes := here + lineFeeds (condition.text ++ beforeMark.text ++ afterMark.text)
    let atNo := atYes + lineFeeds (yes.text ++ beforeColon.text ++ afterColon.text)
    yes.occurrences line path atYes ++ no.occurrences line path atNo

/-- The occurrences in the operands of a sum. -/
def Sum.occurrences (line : Int) (path : String) : Sum → (here : Int) → List Occurrence
  | .one operand, here => operand.occurrences line path here
  | .plus operand before after rest, here =>
    operand.occurrences line path here
      ++ rest.occurrences line path (here + lineFeeds (operand.text ++ before.text ++ after.text))

/-- The occurrences in an expression. -/
def Expression.occurrences (line : Int) (path : String) :
    Expression → (here : Int) → List Occurrence
  | .choice choice, here => choice.occurrences line path here
  | .sum sum, here => sum.occurrences line path here

/-- The occurrences in a template: the class names of its own text and what its holes hold. -/
def Template.occurrences (line : Int) (path : String) : Template → (here : Int) → List Occurrence
  | .chunk chunk, _ => classListAt line path chunk.text
  | .hole chunk before inner after rest, here =>
    let atInner := here + lineFeeds (chunk.text ++ before.text)
    classListAt line path chunk.text ++ inner.occurrences line path atInner
      ++ rest.occurrences line path (atInner + lineFeeds (inner.text ++ after.text))
  | .emptyHole chunk blanks rest, here =>
    classListAt line path chunk.text
      ++ rest.occurrences line path (here + lineFeeds (chunk.text ++ blanks.text))

end

/-! ## Trees as code -/

/-- Characters as parts of a template. -/
def asParts (text : List Char) : List Part := text.map .char

mutual

/-- The lexemes of an operand. -/
def Operand.code : Operand → Code
  | .literal literal => [.literal literal.quote literal.body]
  | .template template => [.template template.parts]
  | .word word => asCode word.text
  | .group before inner after =>
    .char '(' :: (asCode before.text ++ inner.code ++ asCode after.text ++ [.char ')'])

/-- The lexemes of a branch. -/
def Branch.code : Branch → Code
  | .operand operand => operand.code
  | .choice choice => choice.code

/-- The lexemes of a conditional. -/
def Choice.code : Choice → Code
  | .mk condition beforeMark afterMark yes beforeColon afterColon no =>
    (asCode condition.text ++ asCode beforeMark.text) ++ .char '?' ::
      ((asCode afterMark.text ++ yes.code ++ asCode beforeColon.text)
        ++ .char ':' :: (asCode afterColon.text ++ no.code))

/-- The lexemes of a sum. -/
def Sum.code : Sum → Code
  | .one operand => operand.code
  | .plus operand before after rest =>
    (operand.code ++ asCode before.text) ++ .char '+' :: (asCode after.text ++ rest.code)

/-- The lexemes of an expression. -/
def Expression.code : Expression → Code
  | .choice choice => choice.code
  | .sum sum => sum.code

/-- The parts of a template. -/
def Template.parts : Template → List Part
  | .chunk chunk => asParts chunk.text
  | .hole chunk before inner after rest =>
    asParts chunk.text
      ++ .hole (asCode before.text ++ inner.code ++ asCode after.text) '\x7d' :: rest.parts
  | .emptyHole chunk blanks rest =>
    asParts chunk.text ++ .hole (asCode blanks.text) '\x7d' :: rest.parts

end

end Tree

end StyleAudit
