/-!
# Lexemes of attribute code

A class attribute can hold code instead of a plain class list. The audit does not parse that
code; it only has to know which of its characters are code, which belong to a quoted literal and
which to a comment. This file holds the units it distinguishes:

* `Lexeme`, one unit of code: a character, a comment, a literal in single or double quotes, or a
  template in backticks;
* `Part`, one unit of a template: a character or a hole that holds code again;
* `Code.text`, the source text of a list of lexemes, and `Code.width`, its length.

Brackets are plain characters: whether they match is a matter of counting, see
`StyleAudit.Code.Reader`.
-/

namespace StyleAudit

/-- The mark that delimits a template. -/
def backtick : Char := Char.ofNat 0x60

/-- Whether a character opens a quoted unit. -/
def isQuote (c : Char) : Bool := c == '"' || c == '\'' || c == backtick

/-- Whether a character is an opening bracket. -/
def isOpener (c : Char) : Bool := c == '(' || c == '[' || c == '\x7b'

/-- Whether a character is a closing bracket. -/
def isCloser (c : Char) : Bool := c == ')' || c == ']' || c == '\x7d'

mutual

/-- A unit of code. -/
inductive Lexeme where
  /-- A character outside literals, templates and comments. -/
  | char (c : Char)
  /-- A comment, its marks included. -/
  | comment (text : List Char)
  /-- A literal between two copies of `quote`; a backslash and the character after it belong
  together. -/
  | literal (quote : Char) (body : List Char)
  /-- A template between two backticks. -/
  | template (parts : List Part)

/-- A unit of a template. -/
inductive Part where
  /-- A character of the template's own text. -/
  | char (c : Char)
  /-- Code between a dollar sign with an opening brace and the bracket `closer`. -/
  | hole (code : List Lexeme) (closer : Char)

end

/-- A stretch of code. -/
abbrev Code := List Lexeme

mutual

/-- The source text of a lexeme. -/
def Lexeme.text : Lexeme → List Char
  | .char c => [c]
  | .comment text => text
  | .literal quote body => quote :: (body ++ [quote])
  | .template parts => backtick :: (partsText parts ++ [backtick])

/-- The source text of a unit of a template. -/
def Part.text : Part → List Char
  | .char c => [c]
  | .hole code closer => '$' :: '\x7b' :: (codeText code ++ [closer])

/-- The source text of code. -/
def codeText : List Lexeme → List Char
  | [] => []
  | lexeme :: code => lexeme.text ++ codeText code

/-- The source text between the backticks of a template. -/
def partsText : List Part → List Char
  | [] => []
  | part :: parts => part.text ++ partsText parts

end

namespace Code

/-- The source text of code. -/
abbrev text (code : Code) : List Char := codeText code

/-- How many characters of source text code takes. -/
def width (code : Code) : Nat := (codeText code).length

end Code

theorem codeText_append (a b : Code) : codeText (a ++ b) = codeText a ++ codeText b := by
  induction a with
  | nil => rfl
  | cons lexeme code ih => simp [codeText, ih]

theorem partsText_append (a b : List Part) : partsText (a ++ b) = partsText a ++ partsText b := by
  induction a with
  | nil => rfl
  | cons part parts ih => simp [partsText, ih]

theorem Code.width_append (a b : Code) : width (a ++ b) = width a + width b := by
  simp [width, codeText_append]

@[simp] theorem Code.width_nil : width [] = 0 := rfl

@[simp] theorem Code.width_cons (lexeme : Lexeme) (code : Code) :
    width (lexeme :: code) = lexeme.text.length + width code := by
  simp [width, codeText]

@[simp] theorem Code.width_char (c : Char) (code : Code) :
    width (.char c :: code) = 1 + width code := by
  simp [Lexeme.text]

/-- A hole is narrower than the text of the template it stands in. -/
theorem Code.width_lt_of_hole_mem {code : Code} {closer : Char} {parts : List Part}
    (h : Part.hole code closer ∈ parts) : width code < (partsText parts).length := by
  obtain ⟨before, after, rfl⟩ := List.append_of_mem h
  simp only [width, partsText_append, partsText, Part.text]
  simp only [List.length_append, List.length_cons]
  omega

/-- A template's text is narrower than the template. -/
theorem Code.length_partsText_lt (parts : List Part) :
    (partsText parts).length < width [.template parts] := by
  simp [Lexeme.text]

end StyleAudit
