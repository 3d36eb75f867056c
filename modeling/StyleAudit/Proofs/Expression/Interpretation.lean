import StyleAudit.Proofs.Expression.Printing
import StyleAudit.Proofs.Text.Words

/-!
# Interpreting the text of a tree

The interpretation of a tree's text gives the tree's occurrences
(`Tree.Expression.interpret?_eq_ok`). A form of the grammar at a time, `Yields` says that the pieces
found in the text of a tree have the occurrences of the tree, with the line of a word counted from
the line that the text starts on.
-/

namespace StyleAudit

/-! ## Words -/

section Words

theorem trim_asCode (text : List Char) : Code.trim (asCode text) = asCode (strip text) := by
  have hblank : Lexeme.isBlank ∘ Lexeme.char = isBlank := rfl
  simp only [Code.trim, strip, asCode, List.dropWhile_map, ← List.map_reverse, hblank]

theorem lead_asCode (text : List Char) :
    Code.lead (asCode text) = asCode (text.takeWhile isBlank) := by
  have hblank : Lexeme.isBlank ∘ Lexeme.char = isBlank := rfl
  simp only [Code.lead, asCode, List.takeWhile_map, hblank]

theorem collapse_strip (text : List Char) : collapse (strip text) = collapse text := by
  obtain ⟨before, after, hbefore, hafter, -, htext⟩ := exists_padding (asCode text)
  have hsplit := congrArg codeText htext
  rw [trim_asCode, codeText_append, codeText_append, codeText_asCode, codeText_asCode,
    codeText_asCode, codeText_asCode] at hsplit
  have hwords := words_padded hbefore hafter (strip text)
  rw [← hsplit] at hwords
  rw [collapse, collapse, hwords]

end Words

/-! ## Trimmed code -/

/-- Trimming stops at a lexeme that is no blank. -/
theorem exists_trim_cons {lexeme : Lexeme} (h : lexeme.isBlank = false) (code : Code) :
    ∃ rest, Code.trim (lexeme :: code) = lexeme :: rest := by
  unfold Code.trim
  rw [List.dropWhile_cons_of_neg (by simp [h]), List.reverse_cons, List.dropWhile_append]
  split
  · refine ⟨[], ?_⟩
    rw [List.dropWhile_cons_of_neg (by simp [h])]
    rfl
  · exact ⟨_, List.reverse_append⟩

theorem trim_singleton {lexeme : Lexeme} (h : lexeme.isBlank = false) :
    Code.trim [lexeme] = [lexeme] := by
  simp [Code.trim, h]

theorem trim_brackets (inner : Code) :
    Code.trim (.char '(' :: (inner ++ [.char ')'])) = .char '(' :: (inner ++ [.char ')']) := by
  have hopen : Lexeme.isBlank (.char '(') = false := by decide
  have hclose : Lexeme.isBlank (.char ')') = false := by decide
  simp [Code.trim, hopen, hclose]

theorem lead_cons {lexeme : Lexeme} (h : lexeme.isBlank = false) (code : Code) :
    Code.lead (lexeme :: code) = [] := by
  simp [Code.lead, h]

/-- Code that starts with plain characters, not all of them blank, is no code in parentheses. -/
theorem exists_trim_plain {text : List Char} (hplain : ∀ c ∈ text, isPlain c = true)
    (hvisible : ∃ c ∈ text, isBlank c = false) (code : Code) :
    ∃ c rest, Code.trim (asCode text ++ code) = .char c :: rest ∧ c ≠ '(' := by
  induction text with
  | nil => simp at hvisible
  | cons c text ih =>
    by_cases hc : isBlank c = true
    · have hrest : ∃ d ∈ text, isBlank d = false := by
        obtain ⟨d, hd, hblank⟩ := hvisible
        rcases List.mem_cons.1 hd with rfl | hd
        · simp [hc] at hblank
        · exact ⟨d, hd, hblank⟩
      have htrim := trim_blank_append (show ∀ d ∈ [c], isBlank d = true by simpa using hc)
        (asCode text ++ code)
      obtain ⟨d, rest, hd, hne⟩ := ih (fun d hd => hplain d (List.mem_cons_of_mem _ hd)) hrest
      exact ⟨d, rest, htrim.trans hd, hne⟩
    · obtain ⟨rest, hrest⟩ := exists_trim_cons (show Lexeme.isBlank (.char c) = false by
        simpa [Lexeme.isBlank] using hc) (asCode text ++ code)
      refine ⟨c, rest, hrest, ?_⟩
      rintro rfl
      exact absurd (hplain '(' List.mem_cons_self) (by decide)

theorem unwrap?_cons_of_ne {c : Char} (h : c ≠ '(') (code : Code) :
    Code.unwrap? (.char c :: code) = none := by
  simp [Code.unwrap?, h]

theorem isSome_conditional?_trim (code : Code) :
    code.trim.conditional?.isSome = code.conditional?.isSome := by
  obtain ⟨before, after, hbefore, hafter, -, hcode⟩ := exists_padding code
  have hcut := congrArg Code.conditional? hcode
  rw [conditional?_padded hbefore hafter] at hcut
  rw [hcut, Option.isSome_map]

/-- Trimming an expression does not change its pieces, wherever it starts. -/
theorem pieces_trim (start : Nat) (code : Code) :
    pieces (start + code.lead.width) code.trim = pieces start code := by
  obtain ⟨before, after, hbefore, hafter, hlead, hcode⟩ := exists_padding code
  have hpadded := pieces_padded hbefore hafter start code.trim
  rw [← hcode] at hpadded
  rw [hlead, width_asCode, hpadded]

/-! ## Templates -/

section Templates

variable (start : Nat) (text : List Char)

theorem spans_asParts (done : List Char) (parts : List Part) :
    spans start done (Tree.asParts text ++ parts)
      = spans (start + text.length) (text.reverse ++ done) parts := by
  induction text generalizing start done with
  | nil => rfl
  | cons c text ih =>
    show spans (start + 1) (c :: done) (Tree.asParts text ++ parts) = _
    rw [ih, List.length_cons, List.reverse_cons, List.append_assoc, List.singleton_append,
      Nat.add_right_comm, Nat.add_assoc]

theorem templatePieces_chunk :
    templatePieces start (Tree.asParts text) = [.literal text start] := by
  have hspans := spans_asParts start text [] []
  rw [List.append_nil, List.append_nil] at hspans
  simp [templatePieces_eq, hspans, spans]

/-- A template with a hole gives the text in front of the hole, what is in the hole, and what is
behind it. -/
theorem templatePieces_hole (code : Code) (closer : Char) (parts : List Part) :
    templatePieces start (Tree.asParts text ++ .hole code closer :: parts)
      = .literal text start :: (pieces (start + text.length + 2) code
        ++ templatePieces (start + text.length + (code.width + 3)) parts) := by
  have hlength : (Part.hole code closer).text.length = code.width + 3 := by
    simp [Part.text, Code.width]
  rw [templatePieces_eq, templatePieces_eq, spans_asParts, spans, hlength]
  simp

end Templates

/-! ## What a text yields -/

/-- Wherever a text stands in an expression that starts on `line`, the pieces `found` at its
position have the `occurrences` for the line that the text starts on. -/
def Yields (line : Int) (path : String) (found : Nat → List Piece) (text : List Char)
    (occurrences : Int → List Occurrence) : Prop :=
  ∀ front back : List Char,
    (found front.length).flatMap (Piece.occurrences line path (front ++ text ++ back))
      = occurrences (line + lineFeeds front)

namespace Yields

variable {line : Int} {path : String} {found found' : Nat → List Piece} {text text' : List Char}
  {occurrences occurrences' : Int → List Occurrence}

theorem congr (h : Yields line path found text occurrences)
    (hfound : ∀ start, found' start = found start) (htext : text' = text)
    (hoccurrences : ∀ here, occurrences' here = occurrences here) :
    Yields line path found' text' occurrences' := by
  intro front back
  rw [hfound, htext, hoccurrences]
  exact h front back

/-- Two texts next to each other. -/
theorem append (h : Yields line path found text occurrences)
    (h' : Yields line path found' text' occurrences') :
    Yields line path (fun start => found start ++ found' (start + text.length)) (text ++ text')
      (fun here => occurrences here ++ occurrences' (here + lineFeeds text)) := by
  intro front back
  have hfirst := h front (text' ++ back)
  have hsecond := h' (front ++ text) back
  rw [← List.append_assoc, List.append_assoc front] at hfirst
  rw [List.append_assoc front, List.length_append, lineFeeds_append, Int.natCast_add,
    ← Int.add_assoc] at hsecond
  rw [List.flatMap_append, hfirst, hsecond]

/-- A text between two others that yield nothing. -/
theorem within (before after : List Char) (h : Yields line path found text occurrences) :
    Yields line path (fun start => found (start + before.length)) (before ++ text ++ after)
      (fun here => occurrences (here + lineFeeds before)) := by
  intro front back
  have hinner := h (front ++ before) (after ++ back)
  rw [List.length_append, lineFeeds_append, Int.natCast_add, ← Int.add_assoc] at hinner
  show (found (front.length + before.length)).flatMap _
    = occurrences (line + lineFeeds front + lineFeeds before)
  rw [← hinner]
  simp only [List.append_assoc]

/-- A text of class names, the whole of it or a part. -/
theorem literal (chars : List Char) (offset : Nat) (text : List Char) :
    Yields line path (fun start => [.literal chars (start + offset)]) text
      (fun _ => classListAt line path chars) := by
  intro front back
  rw [List.flatMap_singleton]
  rfl

/-- An expression that nobody can tell, with blanks in front of it. -/
theorem dynamic (blanks rest chars : List Char) :
    Yields line path (fun start => [.dynamic chars (start + blanks.length)]) (blanks ++ rest)
      (fun here => [.dynamic ⟨String.ofList (collapse chars), here + lineFeeds blanks, path⟩]) := by
  intro front back
  have hfront : front ++ (blanks ++ rest) ++ back = (front ++ blanks) ++ (rest ++ back) := by
    simp only [List.append_assoc]
  rw [List.flatMap_singleton, Piece.occurrences, hfront, ← List.length_append,
    List.take_left, lineFeeds_append, Int.natCast_add, ← Int.add_assoc]

end Yields

/-! ## Trees -/

namespace Tree

variable {line : Int} {path : String}

theorem Word.exists_trim (word : Word) :
    ∃ c rest, Code.trim (asCode word.text) = .char c :: rest ∧ c ≠ '(' := by
  have htrim := exists_trim_plain word.plain word.visible []
  rwa [List.append_nil] at htrim

theorem Word.trim_ne_nil (word : Word) : Code.trim (asCode word.text) ≠ [] := by
  obtain ⟨c, rest, htrim, -⟩ := word.exists_trim
  simp [htrim]

theorem Word.unwrap?_trim (word : Word) : Code.unwrap? (Code.trim (asCode word.text)) = none := by
  obtain ⟨c, rest, htrim, hne⟩ := word.exists_trim
  rw [htrim, unwrap?_cons_of_ne hne]

theorem Word.isQuoted_trim (word : Word) :
    ∀ lexeme ∈ Code.trim (asCode word.text), lexeme.isQuoted = false := by
  intro lexeme hmem
  rw [trim_asCode, asCode, List.mem_map] at hmem
  obtain ⟨c, -, rfl⟩ := hmem
  rfl

theorem Word.conditional?_trim (word : Word) :
    Code.conditional? (Code.trim (asCode word.text)) = none := by
  have hnone : Code.conditional? (asCode word.text) = none :=
    conditional?_of_unmarked (.plain choiceMarks_not_plain word.plain)
  have hsome := isSome_conditional?_trim (asCode word.text)
  rwa [hnone, Option.isSome_none, Option.isSome_eq_false_iff, Option.isNone_iff_eq_none] at hsome

theorem Word.operandPieces_eq (start : Nat) (word : Word) :
    operandPieces start (asCode word.text) = [.dynamic (Code.trim (asCode word.text)).text
      (start + (Code.lead (asCode word.text)).width)] := by
  have hquoted : ¬ (Code.trim (asCode word.text)).any Lexeme.isQuoted = true := by
    simpa using word.isQuoted_trim
  rw [operandPieces_of_plain start word.trim_ne_nil ?_ word.unwrap?_trim, if_neg hquoted]
  intro parts heq
  rw [heq] at hquoted
  exact hquoted rfl

theorem Word.branchPieces_eq (start : Nat) (word : Word) :
    branchPieces start (asCode word.text) = [.dynamic (Code.trim (asCode word.text)).text
      (start + (Code.lead (asCode word.text)).width)] := by
  apply branchPieces_of_dynamic start word.trim_ne_nil ?_ word.unwrap?_trim word.conditional?_trim
  intro lexeme heq
  exact word.isQuoted_trim lexeme (heq ▸ List.mem_singleton_self lexeme)

/-- A word counts from its first character that is no blank. -/
theorem Word.yields (word : Word) :
    Yields line path (fun start => operandPieces start (asCode word.text)) word.text
      ((Operand.word word).occurrences line path) := by
  have hsplit : word.text = word.text.takeWhile isBlank ++ word.text.dropWhile isBlank :=
    List.takeWhile_append_dropWhile.symm
  apply (Yields.dynamic (word.text.takeWhile isBlank) (word.text.dropWhile isBlank)
    (strip word.text)).congr
  · intro start
    rw [word.operandPieces_eq, trim_asCode, lead_asCode, width_asCode, Code.text, codeText_asCode]
  · exact hsplit
  · intro here
    rw [Operand.occurrences, collapse_strip]

/-- A literal in a sum is read without quotes, those inside it included. -/
theorem literal_operandPieces {quote : Char} (hquote : isQuote quote = true) (start : Nat)
    (body : List Char) :
    operandPieces start [.literal quote body]
      = [.literal (body.filter fun c => !isQuote c) start] := by
  have htrim : Code.trim [.literal quote body] = [.literal quote body] := trim_singleton rfl
  have hlead : Code.lead [.literal quote body] = [] := lead_cons rfl []
  rw [operandPieces_of_plain start (by simp [htrim]) (by simp [htrim]) (by rw [htrim]; rfl), htrim]
  simp [Lexeme.isQuoted, Code.text, codeText, Lexeme.text, hquote, hlead]

/-- In a branch a literal is read from the inside. -/
theorem literal_branchPieces (start : Nat) (quote : Char) (body : List Char) :
    branchPieces start [.literal quote body] = [.literal body (start + 1)] := by
  have htrim : Code.trim [.literal quote body] = [.literal quote body] := trim_singleton rfl
  rw [branchPieces_of_literal start htrim, lead_cons rfl, Code.width_nil, Nat.add_zero]

/-- There are no quotes in the literal of a tree. -/
theorem Literal.operandPieces_eq (start : Nat) (literal : Literal) :
    operandPieces start [.literal literal.quote literal.body] = [.literal literal.body start] := by
  have hfilter : literal.body.filter (fun c => !isQuote c) = literal.body := by
    apply List.filter_eq_self.2
    intro c hc
    simp [(literal.plain c hc).1]
  rw [literal_operandPieces literal.isPlainQuote.isQuote, hfilter]

theorem template_operandPieces (start : Nat) (parts : List Part) :
    operandPieces start [.template parts] = templatePieces (start + 1) parts := by
  rw [operandPieces_of_template start (trim_singleton rfl), lead_cons rfl, Code.width_nil,
    Nat.add_zero]

theorem template_branchPieces (start : Nat) (parts : List Part) :
    branchPieces start [.template parts] = templatePieces (start + 1) parts := by
  rw [branchPieces_of_template start (trim_singleton rfl), lead_cons rfl, Code.width_nil,
    Nat.add_zero]

/-- Parentheses on the outside stay when code is trimmed. -/
theorem unwrap?_group {inner : Code} {text : List Char} (h : Prints inner text) :
    Code.unwrap? (Code.trim (.char '(' :: (inner ++ [.char ')']))) = some inner := by
  rw [trim_brackets]
  exact unwrap?_eq_some_iff.2 ⟨')', rfl, by decide, h.holds, h.rise⟩

theorem group_operandPieces {inner : Code} {text : List Char} (h : Prints inner text)
    (start : Nat) :
    operandPieces start (.char '(' :: (inner ++ [.char ')'])) = pieces (start + 1) inner := by
  rw [operandPieces_of_group start (unwrap?_group h), lead_cons (by decide), Code.width_nil,
    Nat.add_zero]

theorem group_branchPieces {inner : Code} {text : List Char} (h : Prints inner text)
    (start : Nat) :
    branchPieces start (.char '(' :: (inner ++ [.char ')'])) = pieces (start + 1) inner := by
  rw [branchPieces_of_group start (unwrap?_group h), lead_cons (by decide), Code.width_nil,
    Nat.add_zero]

/-- An operand has the same occurrences in a branch. -/
theorem Operand.yields_branch (operand : Operand)
    (h : Yields line path (fun start => operandPieces start operand.code) operand.text
      (operand.occurrences line path)) :
    Yields line path (fun start => branchPieces start operand.code) operand.text
      (operand.occurrences line path) := by
  cases operand with
  | literal literal =>
    -- the one form that is read in two ways
    apply (Yields.literal literal.body 1 _).congr ?_ rfl
    · intro here
      rw [Operand.occurrences]
    · exact fun start => literal_branchPieces start literal.quote literal.body
  | template template =>
    apply h.congr ?_ rfl fun here => rfl
    intro start
    rw [Operand.code, template_branchPieces, template_operandPieces]
  | word word =>
    apply h.congr ?_ rfl fun here => rfl
    intro start
    rw [Operand.code, word.branchPieces_eq, word.operandPieces_eq]
  | group before inner after =>
    have hinner := inner.prints.padded before after
    apply h.congr ?_ rfl fun here => rfl
    intro start
    rw [Operand.code, group_branchPieces hinner, group_operandPieces hinner]

/-- A conditional is looked into where it stands in a branch without parentheses. -/
theorem Choice.branchPieces_eq (start : Nat) (choice : Choice) :
    branchPieces start choice.code = pieces start choice.code := by
  obtain ⟨condition, beforeMark, afterMark, yes, beforeColon, afterColon, no⟩ := choice
  have hcut := Choice.conditional?_code condition beforeMark afterMark yes beforeColon afterColon no
  have hsome := isSome_conditional?_trim
    (Choice.mk condition beforeMark afterMark yes beforeColon afterColon no).code
  rw [hcut] at hsome
  rw [branchPieces_of_conditional start ?_ hsome, pieces_trim]
  -- the condition comes first, so there is no parenthesis around the whole
  obtain ⟨c, rest, htrim, hne⟩ := exists_trim_plain condition.plain condition.visible _
  rw [Choice.code, List.append_assoc, htrim, unwrap?_cons_of_ne hne]

/-- Where the branches of a conditional start. -/
theorem Choice.pieces_eq (start : Nat) (condition : Word) (beforeMark afterMark : Gap)
    (yes : Branch) (beforeColon afterColon : Gap) (no : Branch) :
    pieces start (Choice.mk condition beforeMark afterMark yes beforeColon afterColon no).code
      = branchPieces (start + (condition.text ++ beforeMark.text).length + 1
          + afterMark.text.length) yes.code
        ++ branchPieces (start + (condition.text ++ beforeMark.text).length
          + (afterMark.text ++ yes.text ++ beforeColon.text).length + 2 + afterColon.text.length)
          no.code := by
  have hyes := ((printed_gap afterMark).append yes.prints).append (printed_gap beforeColon)
  have hno (place : Nat) := branchPieces_padded place no.code afterColon.blank nil_blank
  simp only [asCode_nil, List.append_nil] at hno
  rw [pieces_eq_untrimmed, (Choice.prints _).blanked, Choice.conditional?_code]
  show choicePieces start _ = _
  rw [choicePieces, branchPieces_padded _ _ afterMark.blank beforeColon.blank, hno, hyes.width_eq,
    ← asCode_append, width_asCode]

/-- Where the second operand of a sum starts. -/
theorem Sum.sumPieces_plus (start : Nat) (operand : Operand) (before after : Gap) (rest : Sum) :
    sumPieces start (Code.operands (Sum.plus operand before after rest).code)
      = operandPieces start operand.code
        ++ sumPieces (start + (operand.text ++ before.text).length + 1 + after.text.length)
          (Code.operands rest.code) := by
  have hwidth := (operand.prints.append (printed_gap before)).width_eq
  have hoperand := operandPieces_padded start operand.code nil_blank before.blank
  have hrest (place : Nat) := sumPieces_padded after.blank nil_blank place rest.code
  simp only [asCode_nil, List.append_nil, List.nil_append, List.length_nil, Nat.add_zero]
    at hoperand hrest
  rw [Sum.operands_plus, sumPieces_cons, hoperand, hrest, hwidth]

mutual

/-- An operand yields its occurrences where it stands in a sum. -/
theorem Operand.yields (operand : Operand) :
    Yields line path (fun start => operandPieces start operand.code) operand.text
      (operand.occurrences line path) := by
  cases operand with
  | literal literal =>
    apply (Yields.literal literal.body 0 _).congr literal.operandPieces_eq rfl
    intro here
    rw [Operand.occurrences]
  | template template =>
    have hinside := template.yields.within [backtick] [backtick]
    apply hinside.congr
    · intro start
      exact template_operandPieces start template.parts
    · rfl
    · intro here
      rw [Operand.occurrences, lineFeeds_cons_of_ne (by decide), lineFeeds_nil, Int.natCast_zero,
        Int.add_zero]
  | word word => exact word.yields
  | group before inner after =>
    -- the parenthesis and the blanks behind it only move what is inside
    have hinside := inner.yields.within ('(' :: before.text) (after.text ++ [')'])
    apply hinside.congr
    · intro start
      have hprints := inner.prints.padded before after
      rw [Operand.code, group_operandPieces hprints, pieces_padded before.blank after.blank,
        List.length_cons, Nat.add_right_comm, Nat.add_assoc]
    · simp [Operand.text]
    · intro here
      rw [Operand.occurrences, lineFeeds_cons_of_ne (by decide)]

theorem Branch.yields (branch : Branch) :
    Yields line path (fun start => branchPieces start branch.code) branch.text
      (branch.occurrences line path) := by
  cases branch with
  | operand operand => exact operand.yields_branch operand.yields
  | choice choice =>
    exact choice.yields.congr choice.branchPieces_eq rfl fun here => rfl

theorem Choice.yields (choice : Choice) :
    Yields line path (fun start => pieces start choice.code) choice.text
      (choice.occurrences line path) := by
  obtain ⟨condition, beforeMark, afterMark, yes, beforeColon, afterColon, no⟩ := choice
  have hyes := yes.yields.within (condition.text ++ beforeMark.text ++ '?' :: afterMark.text)
    beforeColon.text
  have hno := no.yields.within (':' :: afterColon.text) []
  apply (hyes.append hno).congr
  · intro start
    rw [Choice.pieces_eq]
    -- the branches start where the texts in front of them end
    congr 2
    · simp only [List.length_append, List.length_cons]
      omega
    · simp only [List.length_append, List.length_cons]
      omega
  · simp [Choice.text]
  · intro here
    simp [Choice.occurrences, lineFeeds_cons_of_ne, Int.add_assoc]

theorem Sum.yields (sum : Sum) :
    Yields line path (fun start => sumPieces start (Code.operands sum.code)) sum.text
      (sum.occurrences line path) := by
  cases sum with
  | one operand =>
    apply operand.yields.congr ?_ rfl fun here => rfl
    intro start
    rw [Sum.code, operands_of_unmarked (operand.unmarked sumMarks_not_plain), sumPieces_cons,
      sumPieces_nil, List.append_nil]
  | plus operand before after rest =>
    have hrest := rest.yields.within (before.text ++ '+' :: after.text) []
    apply (operand.yields.append hrest).congr
    · intro start
      rw [Sum.sumPieces_plus]
      congr 2
      simp only [List.length_append, List.length_cons]
      omega
    · simp [Sum.text]
    · intro here
      simp [Sum.occurrences, lineFeeds_cons_of_ne, Int.add_assoc]

theorem Expression.yields (expression : Expression) :
    Yields line path (fun start => pieces start expression.code) expression.text
      (expression.occurrences line path) := by
  cases expression with
  | choice choice => exact choice.yields
  | sum sum =>
    apply sum.yields.congr ?_ rfl fun here => rfl
    intro start
    rw [Expression.code, pieces_eq_untrimmed, sum.prints.blanked,
      conditional?_of_unmarked sum.unmarked]

theorem Template.yields (template : Template) :
    Yields line path (fun start => templatePieces start template.parts) template.text
      (template.occurrences line path) := by
  cases template with
  | chunk chunk =>
    apply (Yields.literal chunk.text 0 _).congr ?_ rfl
    · intro here
      rw [Template.occurrences]
    · exact fun start => templatePieces_chunk start chunk.text
  | hole chunk before inner after rest =>
    have hinner := inner.yields.within ('$' :: '\x7b' :: before.text) (after.text ++ ['\x7d'])
    apply (((Yields.literal chunk.text 0 chunk.text).append hinner).append rest.yields).congr
    · intro start
      have hinside := inner.prints.padded before after
      rw [Template.parts, templatePieces_hole, pieces_padded before.blank after.blank,
        hinside.width_eq]
      show _ = .literal chunk.text start :: (pieces _ inner.code ++ templatePieces _ rest.parts)
      congr 3
      · simp only [List.length_cons]
        omega
      · simp only [List.length_append, List.length_cons, List.length_nil]
        omega
    · simp [Template.text]
    · intro here
      simp [Template.occurrences, lineFeeds_cons_of_ne, Int.add_assoc]
  | emptyHole chunk blanks rest =>
    -- the hole yields nothing, so it counts with the text in front of what follows
    have hrest := rest.yields.within ('$' :: '\x7b' :: (blanks.text ++ ['\x7d'])) []
    apply ((Yields.literal chunk.text 0 chunk.text).append hrest).congr
    · intro start
      rw [Template.parts, templatePieces_hole, pieces_blank blanks.blank, width_asCode,
        List.nil_append]
      show _ = .literal chunk.text start :: templatePieces _ rest.parts
      congr 2
      simp
    · simp [Template.text]
    · intro here
      simp [Template.occurrences, lineFeeds_cons_of_ne, Int.add_assoc]

end

/-- The interpretation of a tree's text succeeds, and gives the occurrences that the tree has, in
source order. -/
theorem Expression.interpret?_eq_ok (tree : Expression) (line : Int) (path : String) :
    interpret? tree.text line path = .ok (tree.occurrences line path line) := by
  have hinterpret := interpret?_text (tree.prints.faithful none) line path
  have hyields : Yields line path (fun start => pieces start tree.code) tree.text
      (tree.occurrences line path) := tree.yields
  -- the whole text: nothing in front of it and nothing behind it
  have hwhole := hyields [] []
  rw [List.nil_append, List.append_nil, lineFeeds_nil, Int.natCast_zero, Int.add_zero] at hwhole
  rw [occurrencesIn, Code.text, tree.prints.text_eq] at hinterpret
  rw [hinterpret]
  exact congrArg Except.ok hwhole

-- class names count for the first line, the word in the hole for its own
example : interpret? "a ? 'b c' : `d\n$\x7be + \"f\"\x7d`".toList 3 "p"
    = .ok [.named ⟨"b", 3, "p"⟩, .named ⟨"c", 3, "p"⟩, .named ⟨"d", 3, "p"⟩,
      .dynamic ⟨"e", 4, "p"⟩, .named ⟨"f", 3, "p"⟩] := by cbv

end Tree

end StyleAudit
