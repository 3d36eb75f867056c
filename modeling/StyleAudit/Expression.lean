import StyleAudit.Occurrence
import StyleAudit.Code.Operators
import StyleAudit.Code.Reader

/-!
# Class expressions

The code in a class attribute can name classes in literals: in the branches of a conditional, in
the operands of a sum, in the text of a template. `pieces` takes such an expression apart into
the texts that name classes (`Piece.literal`) and the expressions that only a person can judge
(`Piece.dynamic`), each with its position. `occurrencesIn` and `interpret?` turn the pieces into
occurrences.

The rules, from the outside in:

* comments count as blanks, and blanks around an expression do not matter;
* a conditional gives the pieces of its two branches; its condition is left out;
* anything else is a sum of one or more operands;
* parentheses around a branch or an operand are looked through, and a template gives its text
  and the pieces of its holes;
* a branch that is one literal is literal, and so is an operand with a quote anywhere in it, read
  without its quotes; any other branch or operand is dynamic.
-/

namespace StyleAudit

/-- A part of an expression and the position it starts at. -/
inductive Piece where
  /-- A text that lists class names. -/
  | literal (text : List Char) (start : Nat)
  /-- An expression whose classes are unknown. -/
  | dynamic (text : List Char) (start : Nat)
deriving DecidableEq, Repr

/-- A stretch of a template: text of its own, or the code of a hole. -/
inductive Span where
  | text (chars : List Char) (start : Nat)
  | hole (code : Code) (start : Nat)

/-- The stretches of a template in source order: its own text, cut at the holes, and the holes.
`start` is the position of the first part, and `done` the text since the last hole, last
character first. -/
def spans (start : Nat) (done : List Char) : List Part → List Span
  | [] => [.text done.reverse (start - done.length)]
  | .char c :: parts => spans (start + 1) (c :: done) parts
  | .hole code closer :: parts =>
    .text done.reverse (start - done.length) :: .hole code (start + 2)
      :: spans (start + (Part.hole code closer).text.length) [] parts

/-- The holes among the stretches are the holes among the parts. -/
theorem hole_mem_of_mem_spans {code : Code} {n start : Nat} {done : List Char} {parts : List Part}
    (h : Span.hole code n ∈ spans start done parts) : ∃ closer, Part.hole code closer ∈ parts := by
  fun_induction spans start done parts with
  | case1 => simp at h
  | case2 start done c parts ih =>
    obtain ⟨closer, h⟩ := ih h
    exact ⟨closer, List.mem_cons_of_mem _ h⟩
  | case3 start done code' closer parts ih =>
    rcases List.mem_cons.1 h with h | h
    · cases h
    · rcases List.mem_cons.1 h with h | h
      · cases h
        exact ⟨closer, List.mem_cons_self⟩
      · obtain ⟨closer', h⟩ := ih h
        exact ⟨closer', List.mem_cons_of_mem _ h⟩

/-- Pairs the operands of a sum with the positions they start at; one plus sign stands between
neighbours. -/
def placed (start : Nat) : List Code → List (Nat × Code)
  | [] => []
  | operand :: operands => (start, operand) :: placed (start + operand.width + 1) operands

namespace Code

theorem width_cutAtColon {pending : Nat} {marked : List (Lexeme × Bool)} {cut : Code × Code}
    (h : cutAtColon pending marked = some cut) :
    width cut.1 + width cut.2 ≤ width (marked.map (·.1)) := by
  induction marked generalizing pending cut with
  | nil => simp [cutAtColon] at h
  | cons entry marked ih =>
    have step : ∀ {pending' : Nat},
        ((cutAtColon pending' marked).map fun rest => (entry.1 :: rest.1, rest.2)) = some cut →
        width cut.1 + width cut.2 ≤ width ((entry :: marked).map (·.1)) := by
      intro pending' h
      obtain ⟨rest, hrest, rfl⟩ := Option.map_eq_some_iff.1 h
      have := ih hrest
      simp only [width_cons, List.map_cons]
      omega
    unfold cutAtColon at h
    split at h
    · cases h
    · next heq =>
      cases heq
      split at h
      · split at h
        · cases h
          simp
        · exact step h
      · exact step h
    · next heq =>
      cases heq
      exact step h

theorem width_cutConditional {marked : List (Lexeme × Bool)} {cut : Conditional}
    (h : cutConditional marked = some cut) :
    width cut.condition + width cut.yes + width cut.no < width (marked.map (·.1)) := by
  induction marked generalizing cut with
  | nil => simp [cutConditional] at h
  | cons entry marked ih =>
    unfold cutConditional at h
    split at h
    · cases h
    · next heq =>
      cases heq
      obtain ⟨rest, hrest, rfl⟩ := Option.map_eq_some_iff.1 h
      have := width_cutAtColon hrest
      simp only [List.map_cons, width_char, width_nil]
      omega
    · next heq =>
      cases heq
      obtain ⟨rest, hrest, rfl⟩ := Option.map_eq_some_iff.1 h
      have := ih hrest
      simp only [width_cons, List.map_cons]
      omega

theorem width_conditional? {code : Code} {cut : Conditional} (h : code.conditional? = some cut) :
    width cut.yes < width code ∧ width cut.no < width code := by
  have := width_cutConditional h
  rw [map_flagged] at this
  omega

theorem width_cutAtMarks {marked : List (Lexeme × Bool)} {operand : Code}
    (h : operand ∈ cutAtMarks marked) : width operand ≤ width (marked.map (·.1)) := by
  have first : ∀ {marked : List (Lexeme × Bool)} {operand : Code} {operands : List Code},
      cutAtMarks marked = operand :: operands → width operand ≤ width (marked.map (·.1)) := by
    intro marked operand operands h
    induction marked generalizing operand operands with
    | nil => cases h; simp
    | cons entry marked ih =>
      unfold cutAtMarks at h
      split at h
      · cases h; simp
      · cases h; simp
      · next heq =>
        cases heq
        split at h
        · next hnil => cases h; simp
        · next hcons =>
          cases h
          have := ih hcons
          simp only [width_cons, List.map_cons]
          omega
  induction marked generalizing operand with
  | nil => simp [cutAtMarks] at h; subst h; simp
  | cons entry marked ih =>
    unfold cutAtMarks at h
    split at h
    · next heq => cases heq
    · next heq =>
      cases heq
      rcases List.mem_cons.1 h with rfl | h
      · simp
      · have := ih h
        simp only [width_cons, List.map_cons]
        omega
    · next heq =>
      cases heq
      split at h
      · simp at h; subst h; simp
      · next operand' operands hcons =>
        rcases List.mem_cons.1 h with rfl | h
        · have := first hcons
          simp only [width_cons, List.map_cons]
          omega
        · have := ih (hcons ▸ List.mem_cons_of_mem _ h)
          simp only [width_cons, List.map_cons]
          omega

theorem width_operands {code operand : Code} (h : operand ∈ code.operands) :
    width operand ≤ width code := by
  have := width_cutAtMarks h
  rwa [map_flagged] at this

theorem width_unwrap? {code inner : Code} (h : code.unwrap? = some inner) :
    width inner < width code := by
  unfold unwrap? at h
  split at h
  · split at h
    · cases h
      have := width_dropLast_le ‹_›
      simp only [width_char]
      omega
    · cases h
  · cases h

theorem mem_of_mem_placed {start n : Nat} {operands : List Code} {operand : Code}
    (h : (n, operand) ∈ placed start operands) : operand ∈ operands := by
  induction operands generalizing start with
  | nil => simp [placed] at h
  | cons first operands ih =>
    rcases List.mem_cons.1 h with h | h
    · cases h; exact List.mem_cons_self
    · exact List.mem_cons_of_mem _ (ih h)

end Code

mutual

/-- The pieces of an expression that starts at a position. -/
def pieces (start : Nat) (code : Code) : List Piece :=
  let shown := code.blanked
  let body := shown.trim
  let start := start + shown.lead.width
  match _cut : body.conditional? with
  | some cut =>
    branchPieces (start + cut.condition.width + 1) cut.yes
      ++ branchPieces (start + cut.condition.width + cut.yes.width + 2) cut.no
  | none =>
    (placed start body.operands).attach.flatMap fun ⟨(place, operand), _⟩ =>
      operandPieces place operand
termination_by (code.width, 1)
decreasing_by
  all_goals
    have hbody : body.width ≤ code.width :=
      Nat.le_trans (Code.width_trim_le _) (Nat.le_of_eq (Code.width_blanked code))
  · have := (Code.width_conditional? _cut).1
    exact Prod.Lex.left _ _ (by omega)
  · have := (Code.width_conditional? _cut).2
    exact Prod.Lex.left _ _ (by omega)
  · have := Code.width_operands (Code.mem_of_mem_placed ‹_›)
    rcases Nat.lt_or_eq_of_le (Nat.le_trans this hbody) with h' | h'
    · exact Prod.Lex.left _ _ h'
    · rw [h']; exact Prod.Lex.right _ (by omega)

/-- The pieces of a branch of a conditional. -/
def branchPieces (start : Nat) (code : Code) : List Piece :=
  let start := start + code.lead.width
  let body := code.trim
  match hb : body with
  | [] => []
  | [.template parts] => templatePieces (start + 1) parts
  | [.literal _ text] => [.literal text (start + 1)]
  | _ =>
    match hu : body.unwrap? with
    | some inner => pieces (start + 1) inner
    | none =>
      if body.conditional?.isSome then pieces start body
      else [.dynamic body.text start]
termination_by (code.width, 2)
decreasing_by
  all_goals have hbody : body.width ≤ code.width := Code.width_trim_le code
  · have := Code.length_partsText_lt parts
    rw [hb] at hbody
    exact Prod.Lex.left _ _ (by omega)
  · have := Code.width_unwrap? hu
    exact Prod.Lex.left _ _ (by omega)
  · rcases Nat.lt_or_eq_of_le hbody with h' | h'
    · exact Prod.Lex.left _ _ h'
    · rw [h']; exact Prod.Lex.right _ (by omega)

/-- The pieces of an operand of a sum. -/
def operandPieces (start : Nat) (code : Code) : List Piece :=
  let start := start + code.lead.width
  let body := code.trim
  match hb : body with
  | [] => []
  | [.template parts] => templatePieces (start + 1) parts
  | _ =>
    match hu : body.unwrap? with
    | some inner => pieces (start + 1) inner
    | none =>
      if body.any Lexeme.isQuoted then
        [.literal (body.text.filter fun c => !isQuote c) start]
      else [.dynamic body.text start]
termination_by (code.width, 0)
decreasing_by
  all_goals have hbody : body.width ≤ code.width := Code.width_trim_le code
  · have := Code.length_partsText_lt parts
    rw [hb] at hbody
    exact Prod.Lex.left _ _ (by omega)
  · have := Code.width_unwrap? hu
    exact Prod.Lex.left _ _ (by omega)

/-- The pieces of a template whose first part starts at a position. -/
def templatePieces (start : Nat) (parts : List Part) : List Piece :=
  (spans start [] parts).attach.flatMap fun
    | ⟨.text chars start, _⟩ => [.literal chars start]
    | ⟨.hole code start, _⟩ => pieces start code
termination_by ((partsText parts).length, 0)
decreasing_by
  obtain ⟨closer, hole⟩ := hole_mem_of_mem_spans ‹_›
  exact Prod.Lex.left _ _ (Code.width_lt_of_hole_mem hole)

end

/-! ## Occurrences -/

/-- What kind of text an unclosed quote was found in. -/
inductive QuotePlace where
  | expression
  | attribute
deriving DecidableEq, Repr

/-- A quote that is never closed, on a line of a file. -/
structure MalformedExpression where
  place : QuotePlace
  line : Int
  path : String
deriving DecidableEq, Repr

/-- The report of an unclosed quote. Without a path it names the line alone. -/
def MalformedExpression.message (fault : MalformedExpression) : String :=
  let kind := match fault.place with
    | .expression => "class expression"
    | .attribute => "class attribute"
  let spot :=
    if fault.path.isEmpty then "line " ++ toString fault.line
    else fault.path ++ ":" ++ toString fault.line
  "Unclosed quote in " ++ kind ++ " (" ++ spot ++ ")"

/-- The occurrences of a piece, where `text` is the whole expression and `line` the line it
starts on. Class names count for that line, wherever they stand; a dynamic expression counts for
the line it starts on itself and is shown with single spaces. -/
def Piece.occurrences (line : Int) (path : String) (text : List Char) : Piece → List Occurrence
  | .literal chars _ => classListAt line path chars
  | .dynamic chars start =>
    [.dynamic ⟨String.ofList (collapse chars), line + lineFeeds (text.take start), path⟩]

/-- The occurrences in the code of an expression that starts on a line. -/
def occurrencesIn (line : Int) (path : String) (code : Code) : List Occurrence :=
  (pieces 0 code).flatMap (Piece.occurrences line path code.text)

/-- The occurrences in the text of an expression that starts on a line. It fails on a quote that
is never closed, and only then; the line reported is that of the quote. -/
def interpret? (expression : List Char) (line : Int) (path : String) :
    Except MalformedExpression (List Occurrence) :=
  match Code.ofText? expression with
  | .ok code => .ok (occurrencesIn line path code)
  | .error quote =>
    let before := expression.take (expression.length - quote.length)
    .error ⟨.expression, line + lineFeeds before, path⟩

end StyleAudit
