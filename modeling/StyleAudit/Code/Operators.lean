import StyleAudit.Code.Lexeme
import StyleAudit.Text.Blank

/-!
# Operators on the top level of code

What an expression is made of shows in a few characters that stand outside quoted units, comments
and brackets: the question mark and colon of a conditional and the plus signs between operands.
This file finds them and cuts code there. Nothing is evaluated and no name is resolved.

`flagged` marks the effective operators once; `conditional?` and `operands` then cut the marked
list. Some two-character operators begin like one of these: `?.` and `??` are no conditional, and
`++` and `+=` do not separate operands. Each hides both of its characters.
-/

namespace StyleAudit

namespace Lexeme

/-- Whether a lexeme is a blank character. -/
def isBlank : Lexeme → Bool
  | .char c => StyleAudit.isBlank c
  | _ => false

/-- Whether a lexeme is a literal or a template. -/
def isQuoted : Lexeme → Bool
  | .literal .. | .template _ => true
  | _ => false

/-- A comment as blanks: a line feed stays, any other character becomes a space. Other lexemes
stay as they are. -/
def blanked : Lexeme → Code
  | .comment text => text.map fun c => .char (if c = '\n' then c else ' ')
  | lexeme => [lexeme]

end Lexeme

namespace Code

/-- The code with its comments turned into blanks, position for position. -/
def blanked (code : Code) : Code := code.flatMap Lexeme.blanked

/-- The blanks at the front of code. -/
def lead (code : Code) : Code := code.takeWhile Lexeme.isBlank

/-- The code without the blanks at its front and at its back. -/
def trim (code : Code) : Code :=
  ((code.dropWhile Lexeme.isBlank).reverse.dropWhile Lexeme.isBlank).reverse

/-- Whether two characters in a row are an operator of their own that begins like a conditional
or a sum. -/
def isLongOperator (first second : Char) : Bool :=
  (first == '?' && (second == '.' || second == '?'))
    || (first == '+' && (second == '+' || second == '='))

/-- The code with a mark on each effective operator among `operators`: those where the number of
open brackets, `depth` at the start, is zero. -/
def flagged (operators : List Char) (depth : Int) : Code → List (Lexeme × Bool)
  | [] => []
  | .char c :: rest =>
    if isOpener c then (.char c, false) :: flagged operators (depth + 1) rest
    else if isCloser c then (.char c, false) :: flagged operators (depth - 1) rest
    else if depth = 0 ∧ c ∈ operators then
      match rest with
      | .char d :: rest' =>
        if isLongOperator c d then
          (.char c, false) :: (.char d, false) :: flagged operators depth rest'
        else (.char c, true) :: flagged operators depth (.char d :: rest')
      | rest => (.char c, true) :: flagged operators depth rest
    else (.char c, false) :: flagged operators depth rest
  | lexeme :: rest => (lexeme, false) :: flagged operators depth rest

/-- A conditional, cut at its question mark and its colon. -/
structure Conditional where
  condition : Code
  yes : Code
  no : Code

/-- Cuts a marked list at the colon that belongs to the question mark before it: question marks
in between have colons of their own, `pending` of them still to come. -/
def cutAtColon (pending : Nat) : List (Lexeme × Bool) → Option (Code × Code)
  | [] => none
  | (.char c, true) :: rest =>
    if c = ':' then
      match pending with
      | 0 => some ([], rest.map (·.1))
      | pending + 1 => (cutAtColon pending rest).map fun cut => (.char c :: cut.1, cut.2)
    else (cutAtColon (pending + 1) rest).map fun cut => (.char c :: cut.1, cut.2)
  | (lexeme, _) :: rest => (cutAtColon pending rest).map fun cut => (lexeme :: cut.1, cut.2)

/-- Cuts a marked list at its first marked question mark and the colon that belongs to it. -/
def cutConditional : List (Lexeme × Bool) → Option Conditional
  | [] => none
  | (.char '?', true) :: rest => (cutAtColon 0 rest).map fun cut => ⟨[], cut.1, cut.2⟩
  | (lexeme, _) :: rest =>
    (cutConditional rest).map fun cut => { cut with condition := lexeme :: cut.condition }

/-- The conditional that code is, if it has a question mark and its colon on the top level. -/
def conditional? (code : Code) : Option Conditional :=
  cutConditional (code.flagged ['?', ':'] 0)

/-- Cuts a marked list at every mark. -/
def cutAtMarks : List (Lexeme × Bool) → List Code
  | [] => [[]]
  | (_, true) :: rest => [] :: cutAtMarks rest
  | (lexeme, false) :: rest =>
    match cutAtMarks rest with
    | [] => [[lexeme]]
    | operand :: operands => (lexeme :: operand) :: operands

/-- The operands of the sum that code is; code without a plus sign is its own only operand. -/
def operands (code : Code) : List Code :=
  cutAtMarks (code.flagged ['+'] 0)

/-- What follows the closing bracket that brings `depth` open brackets to zero. -/
def afterCloser (depth : Int) : Code → Option Code
  | [] => none
  | .char c :: rest =>
    if isOpener c then afterCloser (depth + 1) rest
    else if isCloser c then
      if depth = 1 then some rest else afterCloser (depth - 1) rest
    else afterCloser depth rest
  | _ :: rest => afterCloser depth rest

/-- The code inside, if the whole of it stands in one pair of parentheses. The last bracket may
be of another kind. -/
def unwrap? : Code → Option Code
  | .char '(' :: rest =>
    match afterCloser 1 rest with
    | some [] => some rest.dropLast
    | _ => none
  | _ => none

/-! ## Widths

Cutting never makes code wider. These bounds end the recursion over expressions. -/

theorem width_map_char (text : List Char) (f : Char → Char) :
    width (text.map fun c => .char (f c)) = text.length := by
  induction text with
  | nil => rfl
  | cons c text ih =>
    rw [List.map_cons, width_char, ih, List.length_cons, Nat.add_comm]

theorem width_blanked (code : Code) : width code.blanked = width code := by
  induction code with
  | nil => rfl
  | cons lexeme code ih =>
    rw [blanked, List.flatMap_cons, width_append, ← blanked, ih]
    cases lexeme <;> simp [Lexeme.blanked, Lexeme.text, width_map_char, -List.map_map]

theorem width_reverse (code : Code) : width code.reverse = width code := by
  induction code with
  | nil => rfl
  | cons lexeme code ih => simp [width_append, ih, Nat.add_comm]

theorem width_dropWhile_le (p : Lexeme → Bool) (code : Code) :
    width (code.dropWhile p) ≤ width code := by
  induction code with
  | nil => simp
  | cons lexeme code ih =>
    rw [List.dropWhile_cons]
    split
    · simp; omega
    · exact Nat.le_refl _

theorem width_trim_le (code : Code) : width code.trim ≤ width code := by
  rw [trim, width_reverse]
  refine Nat.le_trans (width_dropWhile_le _ _) ?_
  rw [width_reverse]
  exact width_dropWhile_le _ _

theorem width_dropLast_le (code : Code) : width code.dropLast ≤ width code := by
  rcases List.eq_nil_or_concat code with rfl | ⟨code, lexeme, rfl⟩
  · simp
  · simp [width_append]

/-- Marking leaves the lexemes as they are. -/
theorem map_flagged (operators : List Char) (depth : Int) (code : Code) :
    (code.flagged operators depth).map (·.1) = code := by
  fun_induction flagged operators depth code <;> simp_all

end Code

end StyleAudit
