import StyleAudit.Proofs.Expression.Interpretation

/-!
# A quoted unit in an expression

A literal or a template can be a whole expression, stand in parentheses, or stand beside words, as
the last operand of a sum or as the first branch of a conditional. A `Slot` is such a place. The
unit is read as an operand or as a branch there, and the words around it are expressions of their
own (`Slot.occurrencesIn_code`).
-/

namespace StyleAudit

/-- The expression that a word is, where the word starts on the line `here`. -/
def Tree.Word.occurrence (path : String) (here : Int) (word : Word) : DynamicOccurrence :=
  ⟨String.ofList (collapse word.text), here + lineFeeds (word.text.takeWhile isBlank), path⟩

/-- A word with text in front of it and behind it. -/
theorem Tree.Word.flatMap_operandPieces (line : Int) (path : String) (word : Word)
    (front back : List Char) :
    (operandPieces front.length (asCode word.text)).flatMap
        (Piece.occurrences line path (front ++ word.text ++ back))
      = [.dynamic (word.occurrence path (line + lineFeeds front))] :=
  word.yields front back

/-- A word of one character. -/
def singleWord : Tree.Word where
  text := ['v']
  plain := List.forall_mem_singleton.mpr (by decide)
  visible := ⟨'v', List.mem_singleton_self 'v', by decide⟩

/-! ## Code around code -/

section Around

variable {inner : Code} {text : List Char}

/-- Code without marks is a sum of one operand. -/
theorem pieces_of_unmarked (hblanked : inner.blanked = inner)
    (hchoice : Unmarked choiceMarks inner) (hsum : Unmarked sumMarks inner) (start : Nat) :
    pieces start inner = operandPieces start inner := by
  rw [pieces_eq_untrimmed, hblanked, conditional?_of_unmarked hchoice, operands_of_unmarked hsum]
  exact List.append_nil _

theorem pieces_of_group (hinner : Prints inner text) (start : Nat) :
    pieces start (.char '(' :: (inner ++ [.char ')'])) = pieces (start + 1) inner := by
  have hopen : isOpener '(' = true := by decide
  have hclose : isCloser ')' = true := by decide
  have hunmarked {operators : List Char} :
      Unmarked operators (.char '(' :: (inner ++ [.char ')'])) :=
    .group hopen hclose hinner.holds hinner.rise
  rw [pieces_of_unmarked (hinner.group hopen hclose).blanked hunmarked hunmarked,
    Tree.group_operandPieces hinner]

/-- A word and one more operand. -/
theorem Tree.Word.pieces_plus (first : Word) (hinner : Prints inner text)
    (hchoice : Unmarked choiceMarks inner) (hsum : Unmarked sumMarks inner)
    (hnext : ∀ d, inner.head? = some (.char d) → Code.isLongOperator '+' d = false) :
    pieces 0 (asCode first.text ++ .char '+' :: inner)
      = operandPieces 0 (asCode first.text)
        ++ operandPieces (first.text ++ ['+']).length inner := by
  have hplus : Prints [.char '+'] ['+'] := printed_mark (by decide)
  have hprints := (Prints.plain first.plain).append (hplus.append hinner)
  have hunmarked : Unmarked choiceMarks (asCode first.text ++ .char '+' :: inner) :=
    .append (.plain choiceMarks_not_plain first.plain)
      (.append (.char (by decide) (by decide) (by decide)) hchoice)
  have hoperands := operands_of_sum (.plain sumMarks_not_plain first.plain) hnext
  have hblanked : Code.blanked (asCode first.text ++ .char '+' :: inner)
      = asCode first.text ++ .char '+' :: inner := hprints.blanked
  rw [pieces_eq_untrimmed, hblanked, conditional?_of_unmarked hunmarked, hoperands]
  show sumPieces 0 _ = _
  rw [sumPieces_cons, operands_of_unmarked hsum, sumPieces_cons, sumPieces_nil, List.append_nil,
    width_asCode, Nat.zero_add, List.length_append]
  rfl

/-- A condition and two branches, the second of them a word. -/
theorem Tree.Word.pieces_choice (condition other : Word) (hinner : Prints inner text)
    (hchoice : Unmarked choiceMarks inner) (hne : inner ≠ [])
    (hnext : ∀ d, inner.head? = some (.char d) → Code.isLongOperator '?' d = false) :
    pieces 0 (asCode condition.text ++ .char '?' :: (inner ++ .char ':' :: asCode other.text))
      = branchPieces (condition.text ++ ['?']).length inner
        ++ branchPieces (condition.text ++ ['?'] ++ text ++ [':']).length (asCode other.text) := by
  have hmark : Prints [.char '?'] ['?'] := printed_mark (by decide)
  have hcolon : Prints [.char ':'] [':'] := printed_mark (by decide)
  have hprints := (Prints.plain condition.plain).append
    (hmark.append (hinner.append (hcolon.append (.plain other.plain))))
  have hblanked : Code.blanked
        (asCode condition.text ++ .char '?' :: (inner ++ .char ':' :: asCode other.text))
      = asCode condition.text ++ .char '?' :: (inner ++ .char ':' :: asCode other.text) :=
    hprints.blanked
  have hcut : Code.conditional?
        (asCode condition.text ++ .char '?' :: (inner ++ .char ':' :: asCode other.text))
      = some ⟨asCode condition.text, inner, asCode other.text⟩ :=
    conditional?_of_choice (.plain choiceMarks_not_plain condition.plain) hnext hne hchoice.paired
  rw [pieces_eq_untrimmed, hblanked, hcut]
  show choicePieces 0 _ = _
  rw [choicePieces, hinner.width_eq, width_asCode, Nat.zero_add]
  -- the branches start where the texts in front of them end
  simp only [List.length_append, List.length_cons, List.length_nil]
  congr 2
  omega

end Around

/-! ## Slots -/

/-- A place for a quoted unit in an expression. -/
inductive Slot where
  /-- The unit is the whole expression. -/
  | sole
  /-- The unit stands in parentheses. -/
  | group
  /-- The unit is added to a word. -/
  | operand (first : Tree.Word)
  /-- The unit is the first branch of a conditional; the other branch is a word. -/
  | branch (condition other : Tree.Word)

namespace Slot

/-- The text in front of the unit and the blanks around it. -/
def front : Slot → List Char
  | sole => []
  | group => ['(']
  | operand first => first.text ++ ['+']
  | branch condition _ => condition.text ++ ['?']

/-- The text behind the unit and the blanks around it. -/
def back : Slot → List Char
  | sole => []
  | group => [')']
  | operand _ => []
  | branch _ other => ':' :: other.text

/-- The words in front of the unit that are expressions of their own, where the text starts on the
line `here`. -/
def ahead (path : String) (here : Int) : Slot → List DynamicOccurrence
  | operand first => [first.occurrence path here]
  | _ => []

/-- The words behind the unit that are expressions of their own, where the text behind the unit
starts on the line `here`. -/
def behind (path : String) (here : Int) : Slot → List DynamicOccurrence
  | branch _ other => [other.occurrence path here]
  | _ => []

/-- The pieces of the unit, which starts at a position. -/
def unitPieces (start : Nat) (unit : Lexeme) : Slot → List Piece
  | branch _ _ => branchPieces start [unit]
  | _ => operandPieces start [unit]

/-- The pieces of the words in front of the unit. -/
def aheadPieces : Slot → List Piece
  | operand first => operandPieces 0 (asCode first.text)
  | _ => []

/-- The pieces of the words behind the unit, which start at a position. -/
def behindPieces (start : Nat) : Slot → List Piece
  | branch _ other => branchPieces start (asCode other.text)
  | _ => []

section Filled

variable (slot : Slot) (before after : Tree.Blanks)

/-- The text of the expression with a unit in the slot and blanks around it. -/
def text (unit : List Char) : List Char :=
  slot.front ++ (before.text ++ unit ++ after.text) ++ slot.back

/-- The code of the expression. -/
def code (unit : Lexeme) : Code :=
  asCode slot.front ++ (asCode before.text ++ [unit] ++ asCode after.text) ++ asCode slot.back

/-- What an expression that starts on a line gives if `found` is what the unit gives: the words in
front of the unit, what is found in it, and the words behind it. -/
def withWords (line : Int) (path : String) (unit : List Char) (found : List Occurrence) :
    List Occurrence :=
  let here := line + lineFeeds (slot.front ++ (before.text ++ unit ++ after.text))
  (slot.ahead path line).map .dynamic ++ found ++ (slot.behind path here).map .dynamic

end Filled

section Units

variable {unit : Lexeme} (slot : Slot) (before after : Tree.Blanks)

theorem prints (hunit : Prints [unit] unit.text) :
    Prints (slot.code before after unit) (slot.text before after unit.text) := by
  have hinner := hunit.padded before after
  rw [code, text]
  cases slot with
  | sole => exact (Prints.nil.append hinner).append .nil
  | group =>
    have hgroup := hinner.group (show isOpener '(' = true by decide)
      (show isCloser ')' = true by decide)
    simpa [front, back] using hgroup
  | operand first =>
    have hfront := (Prints.plain first.plain).append (Tree.printed_mark (c := '+') (by decide))
    have hsum := (hfront.append hinner).append .nil
    simpa [front, back] using hsum
  | branch condition other =>
    have hfront := (Prints.plain condition.plain).append (Tree.printed_mark (c := '?') (by decide))
    have hback := (Tree.printed_mark (c := ':') (by decide)).append (.plain other.plain)
    have hchoice := (hfront.append hinner).append hback
    simpa [front, back] using hchoice

/-- What stands between the words, blanks included, gets no marks. -/
theorem unmarked_inner {operators : List Char} (hoperators : ∀ c ∈ operators, isPlain c = false)
    (hunit : ∀ c, unit ≠ .char c) :
    Unmarked operators (asCode before.text ++ [unit] ++ asCode after.text) :=
  ((before.unmarked hoperators).append (.unit hunit)).append (after.unmarked hoperators)

/-- Nor does it make a longer operator of the one in front of it. -/
theorem not_isLongOperator_inner (hunit : ∀ c, unit ≠ .char c) (operator : Char) :
    ∀ d, (asCode before.text ++ [unit] ++ asCode after.text).head? = some (.char d) →
      Code.isLongOperator operator d = false := by
  intro d hd
  obtain ⟨text, hblank⟩ := before
  cases text with
  | nil => exact absurd (by simpa using hd) (hunit d)
  | cons c text =>
    obtain rfl : c = d := by simpa using hd
    exact (plain_of_isBlank (hblank c List.mem_cons_self)).2.2 operator

/-- The words around a unit have their pieces, and the unit those of an operand or a branch. -/
theorem pieces_code (hprints : Prints [unit] unit.text) (hunit : ∀ c, unit ≠ .char c) :
    pieces 0 (slot.code before after unit)
      = slot.aheadPieces ++ slot.unitPieces (slot.front ++ before.text).length unit
        ++ slot.behindPieces
          (slot.front ++ (before.text ++ unit.text ++ after.text) ++ [':']).length := by
  have hinner := hprints.padded before after
  have hchoice := unmarked_inner before after Tree.choiceMarks_not_plain hunit
  have hsum := unmarked_inner before after Tree.sumMarks_not_plain hunit
  have hnext := not_isLongOperator_inner before after hunit
  have hoperand (start : Nat) := operandPieces_padded start [unit] before.blank after.blank
  have hbranch (start : Nat) := branchPieces_padded start [unit] before.blank after.blank
  cases slot with
  | sole =>
    have hpieces := pieces_of_unmarked hinner.blanked hchoice hsum 0
    rw [hoperand] at hpieces
    simpa [code, aheadPieces, behindPieces, unitPieces, front, back] using hpieces
  | group =>
    have hpieces := pieces_of_group hinner 0
    rw [pieces_of_unmarked hinner.blanked hchoice hsum, hoperand] at hpieces
    simpa [code, aheadPieces, behindPieces, unitPieces, front, back, Nat.add_comm] using hpieces
  | operand first =>
    have hpieces := first.pieces_plus hinner hchoice hsum (hnext '+')
    rw [hoperand, ← List.length_append] at hpieces
    simpa [code, aheadPieces, behindPieces, unitPieces, front, back] using hpieces
  | branch condition other =>
    have hpieces := condition.pieces_choice other hinner hchoice (by simp) (hnext '?')
    rw [hbranch, ← List.length_append] at hpieces
    simpa [code, aheadPieces, behindPieces, unitPieces, front, back] using hpieces

/-- The occurrences in the expression: those in the pieces of the unit, and the words around it. -/
theorem occurrencesIn_code (hprints : Prints [unit] unit.text) (hunit : ∀ c, unit ≠ .char c)
    (line : Int) (path : String) :
    occurrencesIn line path (slot.code before after unit)
      = slot.withWords before after line path unit.text
        ((slot.unitPieces (slot.front ++ before.text).length unit).flatMap
          (Piece.occurrences line path (slot.text before after unit.text))) := by
  have htext : (slot.code before after unit).text = slot.text before after unit.text :=
    (slot.prints before after hprints).text_eq
  rw [occurrencesIn, pieces_code slot before after hprints hunit, htext, List.flatMap_append,
    List.flatMap_append, withWords]
  congr 2
  · cases slot with
    | operand first =>
      have hfirst := first.flatMap_operandPieces line path []
        ('+' :: (before.text ++ unit.text ++ after.text))
      rw [lineFeeds_nil, Int.natCast_zero, Int.add_zero] at hfirst
      simpa [aheadPieces, ahead, text, front, back] using hfirst
    | sole => rfl
    | group => rfl
    | branch condition other => rfl
  · cases slot with
    | branch condition other =>
      have hother := other.flatMap_operandPieces line path
        ((branch condition other).front ++ (before.text ++ unit.text ++ after.text) ++ [':']) []
      rw [other.operandPieces_eq, ← other.branchPieces_eq, lineFeeds_append,
        show lineFeeds [':'] = 0 from rfl, Nat.add_zero] at hother
      simpa [behindPieces, behind, text, back] using hother
    | sole => rfl
    | group => rfl
    | operand first => rfl

end Units

end Slot

end StyleAudit
