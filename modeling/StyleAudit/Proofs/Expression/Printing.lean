import StyleAudit.Proofs.Expression.Tree

/-!
# The code of a tree

The lexemes of a tree have the tree's text, balanced brackets and no comments, and they read back
wherever they stand (`Prints`). A mark on an operator comes from the tree's own conditionals and
sums: operands get none (`Operand.unmarked`), and in a branch every question mark has its colon
(`Branch.paired`).
-/

namespace StyleAudit

/-- Code that stands for a text on its own, whatever follows it. -/
structure Prints (code : Code) (text : List Char) : Prop where
  text_eq : codeText code = text
  rise : code.rise = 0
  holds : (Extent.bracket 1).Holds code
  faithful : ∀ next, Faithful (.code code next)
  blanked : code.blanked = code

namespace Prints

theorem width_eq {code : Code} {text : List Char} (h : Prints code text) :
    code.width = text.length := by
  rw [Code.width, h.text_eq]

theorem nil : Prints [] [] := ⟨rfl, rfl, rfl, fun _ => .nil _, rfl⟩

theorem append {a b : Code} {s t : List Char} (ha : Prints a s) (hb : Prints b t) :
    Prints (a ++ b) (s ++ t) where
  text_eq := by rw [codeText_append, ha.text_eq, hb.text_eq]
  rise := by rw [Code.rise_append, ha.rise, hb.rise, Int.add_zero]
  holds := by
    rw [Extent.holds_append, ha.rise, Extent.raise_zero]
    exact ⟨ha.holds, hb.holds⟩
  faithful := fun next => faithful_append.2 ⟨ha.faithful _, hb.faithful next⟩
  blanked := by
    have hsplit : Code.blanked (a ++ b) = a.blanked ++ b.blanked := List.flatMap_append
    rw [hsplit, ha.blanked, hb.blanked]

/-- A lexeme that reads back wherever it stands. -/
theorem unit {lexeme : Lexeme} (hrise : lexeme.rise = 0)
    (hfaithful : ∀ next, lexeme.FaithfulBefore next) (hblanked : lexeme.blanked = [lexeme]) :
    Prints [lexeme] lexeme.text where
  text_eq := by simp [codeText]
  rise := by rw [Code.rise_cons, hrise]; rfl
  holds := by
    rw [Extent.bracket_holds_singleton_iff]
    omega
  faithful := fun next => faithful_cons.2 ⟨hfaithful _, .nil next⟩
  blanked := by rw [blanked_cons, hblanked]; rfl

theorem char {c : Char} (hquote : isQuote c = false) (hopen : isOpener c = false)
    (hclose : isCloser c = false) (hslash : c ≠ '/') : Prints [.char c] [c] := by
  refine unit ?_ ?_ rfl
  · simp [Lexeme.rise, hopen, hclose]
  · intro next
    exact ⟨hquote, fun hopens => hslash hopens.1⟩

/-- A template reads back if its parts do up to the backtick behind them, whatever follows that. -/
theorem template {parts : List Part} (h : Faithful (.template parts (some backtick))) :
    Prints [.template parts] (Lexeme.template parts).text :=
  .unit rfl (fun _ => h) rfl

/-- Code in brackets. -/
theorem group {inner : Code} {text : List Char} {opener closer : Char}
    (hopen : isOpener opener = true) (hclose : isCloser closer = true) (h : Prints inner text) :
    Prints (.char opener :: (inner ++ [.char closer])) (opener :: (text ++ [closer])) where
  text_eq := by
    rw [codeText, codeText_append, h.text_eq]
    rfl
  rise := by
    simp [Lexeme.rise_of_isOpener hopen, Lexeme.rise_of_isCloser hclose, h.rise]
  holds := by
    have hopener : Lexeme.rise (.char opener) = 1 := Lexeme.rise_of_isOpener hopen
    rw [Extent.holds_cons, Extent.holds_append, hopener]
    refine ⟨?_, Extent.holds_of_deeper (by decide) h.holds, ?_⟩
    · rw [Extent.bracket_holds_singleton_iff, hopener]
      decide
    · -- one bracket is still open behind the inner code
      show (Extent.bracket (1 + 1 + inner.rise)).Holds [.char closer]
      rw [Extent.bracket_holds_singleton_iff, h.rise]
      omega
  faithful := by
    intro next
    rw [faithful_cons, faithful_append, faithful_cons]
    exact ⟨Lexeme.opener_faithful hopen _, h.faithful _, Lexeme.closer_faithful hclose _,
      .nil next⟩
  blanked := by
    have hsplit : Code.blanked (inner ++ [.char closer]) = inner.blanked ++ [.char closer] :=
      List.flatMap_append
    rw [blanked_cons, hsplit, h.blanked]
    rfl

end Prints

/-! ## Plain characters -/

theorem isPlain_iff {c : Char} : isPlain c = true ↔ isQuote c = false ∧ isOpener c = false
    ∧ isCloser c = false ∧ c ∉ ['+', '?', ':', '/', '\\'] := by
  simp [isPlain, and_assoc]

theorem isPlain_of_isBlank {c : Char} (h : isBlank c = true) : isPlain c = true := by
  have hne := ne_of_isBlank h
  obtain ⟨hopen, hclose, -⟩ := plain_of_isBlank h
  have hquote : isQuote c = false := by
    simp [isQuote, hne '"' (by decide), hne '\'' (by decide), hne backtick (by decide)]
  rw [isPlain_iff]
  refine ⟨hquote, hopen, hclose, ?_⟩
  intro hmem
  have hnot : ∀ d ∈ ['+', '?', ':', '/', '\\'], isBlank d = false := by simp [isBlank]
  exact hne c (hnot c hmem) rfl

theorem Prints.plain {text : List Char} (h : ∀ c ∈ text, isPlain c = true) :
    Prints (asCode text) text := by
  induction text with
  | nil => exact .nil
  | cons c text ih =>
    obtain ⟨hquote, hopen, hclose, hmem⟩ := isPlain_iff.1 (h c List.mem_cons_self)
    have hslash : c ≠ '/' := by
      intro hc
      simp [hc] at hmem
    have hrest : ∀ d ∈ text, isPlain d = true := fun d hd => h d (List.mem_cons_of_mem _ hd)
    exact .append (.char hquote hopen hclose hslash) (ih hrest)

theorem Prints.blanks (blanks : Tree.Blanks) : Prints (asCode blanks.text) blanks.text :=
  .plain fun c hc => isPlain_of_isBlank (blanks.blank c hc)

theorem Prints.padded {inner : Code} {text : List Char} (h : Prints inner text)
    (before after : Tree.Blanks) :
    Prints (asCode before.text ++ inner ++ asCode after.text)
      (before.text ++ text ++ after.text) :=
  ((Prints.blanks before).append h).append (.blanks after)

/-- Plain characters are not marked as operators. -/
theorem Unmarked.plain {operators text : List Char}
    (hoperators : ∀ c ∈ operators, isPlain c = false) (h : ∀ c ∈ text, isPlain c = true) :
    Unmarked operators (asCode text) := by
  apply Unmarked.chars
  intro c hc
  obtain ⟨-, hopen, hclose, -⟩ := isPlain_iff.1 (h c hc)
  refine ⟨hopen, hclose, ?_⟩
  intro hmem
  exact absurd (h c hc) (by simp [hoperators c hmem])

/-! ## Trees -/

namespace Tree

theorem Literal.literalBody (literal : Literal) : LiteralBody literal.quote literal.body := by
  obtain ⟨quote, body, hquote, hplain⟩ := literal
  show LiteralBody quote body
  induction body with
  | nil => exact .nil
  | cons c body ih =>
    obtain ⟨hc, hslash, hline⟩ := hplain c List.mem_cons_self
    have hne : c ≠ quote := by
      intro hcq
      simp [hcq, hquote.isQuote] at hc
    exact .char hslash hne hline (ih fun d hd => hplain d (List.mem_cons_of_mem _ hd))

theorem partsText_asParts (text : List Char) : partsText (asParts text) = text := by
  induction text with
  | nil => rfl
  | cons c text ih =>
    show [c] ++ partsText (asParts text) = c :: text
    rw [ih, List.singleton_append]

/-- The text of a template in front of faithful parts. -/
theorem Chunk.faithful (chunk : Chunk) {parts : List Part} {next : Option Char}
    (h : Faithful (.template parts next)) :
    Faithful (.template (asParts chunk.text ++ parts) next) := by
  obtain ⟨text, hplain⟩ := chunk
  show Faithful (.template (asParts text ++ parts) next)
  induction text with
  | nil => exact h
  | cons c text ih =>
    obtain ⟨htick, hslash, hdollar⟩ := hplain c List.mem_cons_self
    exact .part hslash htick (fun hhole => hdollar hhole.1)
      (ih fun d hd => hplain d (List.mem_cons_of_mem _ hd))

/-- A hole behind the text of a template. -/
theorem Chunk.hole_faithful (chunk : Chunk) {code : Code} {text : List Char} {parts : List Part}
    (hcode : Prints code text) (hparts : Faithful (.template parts (some backtick))) :
    partsText (asParts chunk.text ++ .hole code '\x7d' :: parts)
        = chunk.text ++ '$' :: '\x7b' :: (text ++ '\x7d' :: partsText parts)
      ∧ Faithful
        (.template (asParts chunk.text ++ .hole code '\x7d' :: parts) (some backtick)) := by
  refine ⟨?_, chunk.faithful (.hole (by decide) hcode.holds hcode.rise (hcode.faithful _) hparts)⟩
  rw [partsText_append, partsText_asParts, partsText, Part.text, hcode.text_eq]
  simp

theorem printed_gap (gap : Gap) : Prints (asCode gap.text) gap.text := .blanks gap.toBlanks

theorem printed_mark {c : Char} (h : c ∈ ['+', '?', ':']) : Prints [.char c] [c] := by
  simp only [List.mem_cons, List.not_mem_nil, or_false] at h
  rcases h with rfl | rfl | rfl <;>
    exact .char (by decide) (by decide) (by decide) (by decide)

mutual

theorem Operand.prints (operand : Operand) : Prints operand.code operand.text := by
  cases operand with
  | literal literal =>
    exact .unit rfl (fun _ => ⟨literal.isPlainQuote, literal.literalBody⟩) rfl
  | template template =>
    obtain ⟨htext, hfaithful⟩ := template.prints
    have hunit := Prints.template hfaithful
    rwa [Lexeme.text, htext] at hunit
  | word word => exact .plain word.plain
  | group before inner after =>
    exact .group (by decide) (by decide) (inner.prints.padded before after)

theorem Branch.prints (branch : Branch) : Prints branch.code branch.text := by
  cases branch with
  | operand operand => exact operand.prints
  | choice choice => exact choice.prints

theorem Choice.prints (choice : Choice) : Prints choice.code choice.text := by
  obtain ⟨condition, beforeMark, afterMark, yes, beforeColon, afterColon, no⟩ := choice
  have hcondition := (Prints.plain condition.plain).append (printed_gap beforeMark)
  have hyes := ((printed_gap afterMark).append yes.prints).append (printed_gap beforeColon)
  have hno := (printed_gap afterColon).append no.prints
  have hmark : Prints [.char '?'] ['?'] := printed_mark (by decide)
  have hcolon : Prints [.char ':'] [':'] := printed_mark (by decide)
  exact hcondition.append (hmark.append (hyes.append (hcolon.append hno)))

theorem Sum.prints (sum : Sum) : Prints sum.code sum.text := by
  cases sum with
  | one operand => exact operand.prints
  | plus operand before after rest =>
    have hplus : Prints [.char '+'] ['+'] := printed_mark (by decide)
    have hrest := (printed_gap after).append rest.prints
    exact (operand.prints.append (printed_gap before)).append (hplus.append hrest)

theorem Expression.prints (expression : Expression) : Prints expression.code expression.text := by
  cases expression with
  | choice choice => exact choice.prints
  | sum sum => exact sum.prints

theorem Template.prints (template : Template) : partsText template.parts = template.text
    ∧ Faithful (.template template.parts (some backtick)) := by
  cases template with
  | chunk chunk =>
    refine ⟨partsText_asParts chunk.text, ?_⟩
    have hchunk := chunk.faithful (.noParts (some backtick))
    rwa [List.append_nil] at hchunk
  | hole chunk before inner after rest =>
    obtain ⟨htext, hrest⟩ := rest.prints
    have hinner := inner.prints.padded before after
    have hhole := chunk.hole_faithful hinner hrest
    rwa [htext] at hhole
  | emptyHole chunk blanks rest =>
    obtain ⟨htext, hrest⟩ := rest.prints
    have hhole := chunk.hole_faithful (.blanks blanks) hrest
    rwa [htext] at hhole

end

/-! ## Marks in trees -/

/-- No operand has a marked operator, and one behind it is marked as if it stood alone. -/
theorem Operand.unmarked {operators : List Char} (hoperators : ∀ c ∈ operators, isPlain c = false)
    (operand : Operand) : Unmarked operators operand.code := by
  cases operand with
  | literal literal => exact .unit (by simp)
  | template template => exact .unit (by simp)
  | word word => exact .plain hoperators word.plain
  | group before inner after =>
    have hinner := inner.prints.padded before after
    exact .group (by decide) (by decide) hinner.holds hinner.rise

theorem Blanks.unmarked {operators : List Char} (hoperators : ∀ c ∈ operators, isPlain c = false)
    (blanks : Blanks) : Unmarked operators (asCode blanks.text) :=
  .plain hoperators fun c hc => isPlain_of_isBlank (blanks.blank c hc)

/-- An operator in front of a gap stands for itself. -/
theorem Gap.not_isLongOperator (gap : Gap) (first : Char) (rest : Code) :
    ∀ d, (asCode gap.text ++ rest).head? = some (.char d) →
      Code.isLongOperator first d = false := by
  intro d hd
  obtain ⟨⟨text, hblank⟩, hne⟩ := gap
  cases text with
  | nil => exact absurd rfl hne
  | cons c text =>
    obtain rfl : c = d := by simpa using hd
    exact (plain_of_isBlank (hblank c List.mem_cons_self)).2.2 first

theorem choiceMarks_not_plain : ∀ c ∈ choiceMarks, isPlain c = false := by
  simp [choiceMarks, isPlain]

theorem sumMarks_not_plain : ∀ c ∈ sumMarks, isPlain c = false := by
  simp [sumMarks, isPlain]

theorem Gap.paired (gap : Gap) : Paired (asCode gap.text) :=
  (gap.toBlanks.unmarked choiceMarks_not_plain).paired

theorem asCode_gap_ne_nil (gap : Gap) (rest : Code) : asCode gap.text ++ rest ≠ [] := by
  obtain ⟨⟨text, hblank⟩, hne⟩ := gap
  cases text with
  | nil => exact absurd rfl hne
  | cons c text => simp

/-- A condition and the gap behind it. -/
theorem condition_unmarked (condition : Word) (gap : Gap) :
    Unmarked choiceMarks (asCode condition.text ++ asCode gap.text) :=
  .append (.plain choiceMarks_not_plain condition.plain)
    (gap.toBlanks.unmarked choiceMarks_not_plain)

mutual

theorem Branch.paired (branch : Branch) : Paired branch.code := by
  cases branch with
  | operand operand => exact (operand.unmarked choiceMarks_not_plain).paired
  | choice choice => exact choice.paired

theorem Choice.paired (choice : Choice) : Paired choice.code := by
  obtain ⟨condition, beforeMark, afterMark, yes, beforeColon, afterColon, no⟩ := choice
  apply Paired.choice (condition_unmarked condition beforeMark)
  · -- the gap keeps the question mark from being part of a longer operator
    rw [List.append_assoc]
    exact afterMark.not_isLongOperator '?' _
  · rw [List.append_assoc]
    exact asCode_gap_ne_nil afterMark _
  · exact (afterMark.paired.append yes.paired).append beforeColon.paired
  · exact afterColon.paired.append no.paired

end

/-- The code of a conditional is cut where the tree says. -/
theorem Choice.conditional?_code (condition : Word) (beforeMark afterMark : Gap) (yes : Branch)
    (beforeColon afterColon : Gap) (no : Branch) :
    Code.conditional? (Choice.mk condition beforeMark afterMark yes beforeColon afterColon no).code
      = some ⟨asCode condition.text ++ asCode beforeMark.text,
          asCode afterMark.text ++ yes.code ++ asCode beforeColon.text,
          asCode afterColon.text ++ no.code⟩ := by
  apply conditional?_of_choice (condition_unmarked condition beforeMark)
  · rw [List.append_assoc]
    exact afterMark.not_isLongOperator '?' _
  · rw [List.append_assoc]
    exact asCode_gap_ne_nil afterMark _
  · exact (afterMark.paired.append yes.paired).append beforeColon.paired

/-- A sum has no conditional on its top level. -/
theorem Sum.unmarked (sum : Sum) : Unmarked choiceMarks sum.code := by
  match sum with
  | .one operand => exact operand.unmarked choiceMarks_not_plain
  | .plus operand before after rest =>
    have hplus : Unmarked choiceMarks [.char '+'] :=
      .char (by decide) (by decide) (by decide)
    exact ((operand.unmarked choiceMarks_not_plain).append
      (before.toBlanks.unmarked choiceMarks_not_plain)).append
        (hplus.append ((after.toBlanks.unmarked choiceMarks_not_plain).append rest.unmarked))

/-- The code of a sum is cut at its own plus signs. -/
theorem Sum.operands_plus (operand : Operand) (before after : Gap) (rest : Sum) :
    Code.operands (Sum.plus operand before after rest).code
      = (operand.code ++ asCode before.text) :: Code.operands (asCode after.text ++ rest.code) := by
  apply operands_of_sum
  · exact (operand.unmarked sumMarks_not_plain).append
      (before.toBlanks.unmarked sumMarks_not_plain)
  · exact after.not_isLongOperator '+' rest.code

end Tree

end StyleAudit
