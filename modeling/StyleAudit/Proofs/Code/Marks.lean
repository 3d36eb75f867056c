import StyleAudit.Proofs.Code.Slices

/-!
# Marks on operators

`flagged` marks the operators on the top level of code, and code is cut at the marks. Here is what
marking and cutting do to code that is put together from parts. A part is `Unmarked` if it gets no
mark and leaves the marks behind it alone: blanks, quoted units and code in brackets are.
-/

namespace StyleAudit

/-- The operators of a conditional. -/
def choiceMarks : List Char := ['?', ':']

/-- The operator of a sum. -/
def sumMarks : List Char := ['+']

theorem choiceMarks_not_blank : ∀ c ∈ choiceMarks, isBlank c = false := by
  simp [choiceMarks, isBlank]

theorem sumMarks_not_blank : ∀ c ∈ sumMarks, isBlank c = false := by
  simp [sumMarks, isBlank]

/-! ## Marking one lexeme -/

section Step

variable {operators : List Char} {depth : Int} {c : Char} {rest : Code}

theorem flagged_char :
    Code.flagged operators depth (.char c :: rest) =
      if isOpener c then (.char c, false) :: rest.flagged operators (depth + 1)
      else if isCloser c then (.char c, false) :: rest.flagged operators (depth - 1)
      else if depth = 0 ∧ c ∈ operators then
        match rest with
        | .char d :: rest' =>
          if Code.isLongOperator c d then
            (.char c, false) :: (.char d, false) :: Code.flagged operators depth rest'
          else (.char c, true) :: Code.flagged operators depth (.char d :: rest')
        | rest => (.char c, true) :: Code.flagged operators depth rest
      else (.char c, false) :: rest.flagged operators depth := by
  exact Code.flagged.eq_def operators depth (.char c :: rest)

theorem flagged_unit {lexeme : Lexeme} (h : ∀ c, lexeme ≠ .char c) :
    Code.flagged operators depth (lexeme :: rest)
      = (lexeme, false) :: rest.flagged operators depth := by
  cases lexeme with
  | char c => exact absurd rfl (h c)
  | _ => exact Code.flagged.eq_def operators depth (_ :: rest)

theorem flagged_opener (hopen : isOpener c = true) :
    Code.flagged operators depth (.char c :: rest)
      = (.char c, false) :: rest.flagged operators (depth + 1) := by
  rw [flagged_char, if_pos hopen]

theorem flagged_closer (hclose : isCloser c = true) :
    Code.flagged operators depth (.char c :: rest)
      = (.char c, false) :: rest.flagged operators (depth - 1) := by
  rw [flagged_char, if_neg (by simp [not_isOpener_of_isCloser hclose]), if_pos hclose]

theorem flagged_plain (hopen : isOpener c = false) (hclose : isCloser c = false)
    (h : ¬ (depth = 0 ∧ c ∈ operators)) :
    Code.flagged operators depth (.char c :: rest)
      = (.char c, false) :: rest.flagged operators depth := by
  rw [flagged_char, if_neg (by simp [hopen]), if_neg (by simp [hclose]), if_neg h]

/-- An operator is marked unless it and the next character are an operator of their own. -/
theorem flagged_operator (hopen : isOpener c = false) (hclose : isCloser c = false)
    (hc : c ∈ operators)
    (hnext : ∀ d, rest.head? = some (.char d) → Code.isLongOperator c d = false) :
    Code.flagged operators 0 (.char c :: rest) = (.char c, true) :: rest.flagged operators 0 := by
  rw [flagged_char, if_neg (by simp [hopen]), if_neg (by simp [hclose]), if_pos ⟨rfl, hc⟩]
  split
  · next d rest' => rw [if_neg (by simp [hnext d rfl])]
  · rfl

end Step

/-! ## Code without marks -/

/-- Lexemes of which none is marked. -/
def unmarked (code : Code) : List (Lexeme × Bool) := code.map fun lexeme => (lexeme, false)

@[simp] theorem unmarked_nil : unmarked [] = [] := rfl

@[simp] theorem unmarked_cons (lexeme : Lexeme) (code : Code) :
    unmarked (lexeme :: code) = (lexeme, false) :: unmarked code := rfl

@[simp] theorem unmarked_append (a b : Code) : unmarked (a ++ b) = unmarked a ++ unmarked b :=
  List.map_append

/-- Code that gets no mark and does not change the marks of what follows it. -/
def Unmarked (operators : List Char) (code : Code) : Prop :=
  ∀ rest : Code, (code ++ rest).flagged operators 0 = unmarked code ++ rest.flagged operators 0

section Unmarked

variable {operators : List Char}

theorem Unmarked.nil : Unmarked operators [] := fun _ => rfl

theorem Unmarked.flagged_eq {code : Code} (h : Unmarked operators code) :
    code.flagged operators 0 = unmarked code := by
  have hnil := h []
  rwa [List.append_nil, Code.flagged, List.append_nil] at hnil

theorem Unmarked.append {a b : Code} (ha : Unmarked operators a) (hb : Unmarked operators b) :
    Unmarked operators (a ++ b) := by
  intro rest
  -- behind the first part stand the second part and the rest
  rw [List.append_assoc, ha, hb, unmarked_append, List.append_assoc]

theorem Unmarked.char {c : Char} (hopen : isOpener c = false) (hclose : isCloser c = false)
    (hc : c ∉ operators) : Unmarked operators [.char c] := by
  intro rest
  show Code.flagged operators 0 (.char c :: rest) = _
  rw [flagged_plain hopen hclose fun h => hc h.2]
  rfl

theorem Unmarked.chars {text : List Char}
    (h : ∀ c ∈ text, isOpener c = false ∧ isCloser c = false ∧ c ∉ operators) :
    Unmarked operators (asCode text) := by
  induction text with
  | nil => exact .nil
  | cons c text ih =>
    obtain ⟨hopen, hclose, hc⟩ := h c List.mem_cons_self
    exact .append (.char hopen hclose hc) (ih fun d hd => h d (List.mem_cons_of_mem _ hd))

theorem Unmarked.unit {lexeme : Lexeme} (h : ∀ c, lexeme ≠ .char c) :
    Unmarked operators [lexeme] := by
  intro rest
  show Code.flagged operators 0 (lexeme :: rest) = _
  rw [flagged_unit h]
  rfl

/-- Inside brackets there are no marks. -/
theorem flagged_of_holds {code rest : Code} {depth : Int} (hdepth : 1 ≤ depth)
    (h : (Extent.bracket depth).Holds code) :
    (code ++ rest).flagged operators depth
      = unmarked code ++ rest.flagged operators (depth + code.rise) := by
  induction code generalizing depth with
  | nil => simp
  | cons lexeme code ih =>
    obtain ⟨hfirst, hrest⟩ := Extent.holds_cons.1 h
    rw [Extent.bracket_holds_singleton_iff] at hfirst
    -- the lexeme leaves at least one bracket open
    have hdeep : 1 ≤ depth + lexeme.rise := by
      have hleast := lexeme.neg_one_le_rise
      omega
    have hstep := ih hdeep hrest
    rw [Code.rise_cons, ← Int.add_assoc, unmarked_cons, List.cons_append, List.cons_append,
      ← hstep]
    by_cases hchar : ∃ c, lexeme = .char c
    · obtain ⟨c, rfl⟩ := hchar
      by_cases hopen : isOpener c = true
      · rw [flagged_opener hopen, Lexeme.rise_of_isOpener hopen]
      by_cases hclose : isCloser c = true
      · rw [flagged_closer hclose, Lexeme.rise_of_isCloser hclose]
        rfl
      · rw [flagged_plain (by simpa using hopen) (by simpa using hclose) (by omega),
          show Lexeme.rise (.char c) = 0 by simp [Lexeme.rise, hopen, hclose], Int.add_zero]
    · have hunit : ∀ c, lexeme ≠ .char c := fun c hc => hchar ⟨c, hc⟩
      rw [flagged_unit hunit, Lexeme.rise_of_ne_char hunit, Int.add_zero]

/-- Code in brackets gets no marks, whatever is inside. -/
theorem Unmarked.group {inner : Code} {opener closer : Char} (hopen : isOpener opener = true)
    (hclose : isCloser closer = true) (hholds : (Extent.bracket 1).Holds inner)
    (hrise : inner.rise = 0) : Unmarked operators (.char opener :: (inner ++ [.char closer])) := by
  intro rest
  have hinner : (inner ++ .char closer :: rest).flagged operators 1
      = unmarked inner ++ (.char closer, false) :: rest.flagged operators 0 := by
    rw [flagged_of_holds (by decide) hholds, hrise, flagged_closer hclose]
    rfl
  have happend : .char opener :: (inner ++ [.char closer]) ++ rest
      = .char opener :: (inner ++ .char closer :: rest) := by simp
  rw [happend, flagged_opener hopen, Int.zero_add, hinner]
  simp

/-- A blank is no bracket and no part of an operator. -/
theorem plain_of_isBlank {c : Char} (h : isBlank c = true) :
    isOpener c = false ∧ isCloser c = false ∧ ∀ first, Code.isLongOperator first c = false := by
  have hne := ne_of_isBlank h
  simp [isOpener, isCloser, Code.isLongOperator, hne '(' (by decide), hne '[' (by decide),
    hne '\x7b' (by decide), hne ')' (by decide), hne ']' (by decide), hne '\x7d' (by decide),
    hne '.' (by decide), hne '?' (by decide), hne '+' (by decide), hne '=' (by decide)]

theorem Unmarked.blanks {blanks : List Char} (hblank : ∀ c ∈ blanks, isBlank c = true)
    (hoperators : ∀ c ∈ operators, isBlank c = false) : Unmarked operators (asCode blanks) := by
  apply Unmarked.chars
  intro c hc
  obtain ⟨hopen, hclose, -⟩ := plain_of_isBlank (hblank c hc)
  refine ⟨hopen, hclose, ?_⟩
  intro hmem
  exact absurd (hblank c hc) (by simp [hoperators c hmem])

/-- Blanks are never marked. -/
theorem flagged_blank {blanks : List Char} (hblank : ∀ c ∈ blanks, isBlank c = true)
    (hoperators : ∀ c ∈ operators, isBlank c = false) (depth : Int) :
    (asCode blanks).flagged operators depth = unmarked (asCode blanks) := by
  induction blanks with
  | nil => rfl
  | cons c blanks ih =>
    have hc := hblank c List.mem_cons_self
    obtain ⟨hopen, hclose, -⟩ := plain_of_isBlank hc
    have hplain : ¬ (depth = 0 ∧ c ∈ operators) := fun h => by simp [hoperators c h.2] at hc
    rw [asCode_cons, flagged_plain hopen hclose hplain,
      ih fun d hd => hblank d (List.mem_cons_of_mem _ hd)]
    rfl

/-- Blanks at the back of code get no marks, and no operator joins with them. -/
theorem flagged_append_blank {blanks : List Char} (hblank : ∀ c ∈ blanks, isBlank c = true)
    (hoperators : ∀ c ∈ operators, isBlank c = false) (code : Code) (depth : Int) :
    (code ++ asCode blanks).flagged operators depth
      = code.flagged operators depth ++ unmarked (asCode blanks) := by
  fun_induction Code.flagged operators depth code with
  | case1 depth => exact flagged_blank hblank hoperators depth
  | case2 depth c rest hopen ih =>
    rw [List.cons_append, flagged_opener hopen, ih, List.cons_append]
  | case3 depth c rest hopen hclose ih =>
    rw [List.cons_append, flagged_closer hclose, ih, List.cons_append]
  | case4 depth c hopen hclose hc d rest hlong ih =>
    -- an operator of two characters lies in front of the blanks or behind them, never across
    rw [List.cons_append, flagged_char, if_neg hopen, if_neg hclose, if_pos hc]
    simp [hlong, ih]
  | case5 depth c hopen hclose hc d rest hlong ih =>
    rw [List.cons_append, flagged_char, if_neg hopen, if_neg hclose, if_pos hc]
    simp only [List.cons_append, if_neg hlong] at ih ⊢
    rw [ih]
  | case6 depth c hopen hclose hc rest hrest ih =>
    -- what follows the operator is a blank or a unit of its own
    obtain ⟨rfl, hc⟩ := hc
    rw [List.cons_append, flagged_operator (by simpa using hopen) (by simpa using hclose) hc, ih,
      List.cons_append]
    intro d hd
    cases rest with
    | nil =>
      -- the operator is the last character in front of the blanks
      cases blanks with
      | nil => simp at hd
      | cons e blanks =>
        obtain rfl : e = d := by simpa using hd
        exact (plain_of_isBlank (hblank e List.mem_cons_self)).2.2 c
    | cons lexeme rest => exact (hrest d rest (by simpa using hd)).elim
  | case7 depth c rest hopen hclose hc ih =>
    rw [List.cons_append, flagged_plain (by simpa using hopen) (by simpa using hclose) hc, ih,
      List.cons_append]
  | case8 depth lexeme rest hunit ih =>
    rw [List.cons_append, flagged_unit hunit, ih, List.cons_append]

end Unmarked

/-! ## Cutting at the marks -/

theorem cutAtColon_unmarked (pending : Nat) (code : Code) (marked : List (Lexeme × Bool)) :
    Code.cutAtColon pending (unmarked code ++ marked)
      = (Code.cutAtColon pending marked).map fun cut => (code ++ cut.1, cut.2) := by
  induction code with
  | nil => simp
  | cons lexeme code ih =>
    rw [unmarked_cons, List.cons_append, Code.cutAtColon, ih, Option.map_map]
    · rfl
    · simp

theorem cutConditional_unmarked (code : Code) (marked : List (Lexeme × Bool)) :
    Code.cutConditional (unmarked code ++ marked)
      = (Code.cutConditional marked).map
        fun cut => { cut with condition := code ++ cut.condition } := by
  induction code with
  | nil => simp
  | cons lexeme code ih =>
    rw [unmarked_cons, List.cons_append, Code.cutConditional, ih, Option.map_map]
    · rfl
    · simp

/-- What stands behind a cut does not change it, as long as it has no marks: it goes to the last
branch. -/
theorem cutAtColon_append_unmarked (pending : Nat) (marked : List (Lexeme × Bool)) (code : Code) :
    Code.cutAtColon pending (marked ++ unmarked code)
      = (Code.cutAtColon pending marked).map fun cut => (cut.1, cut.2 ++ code) := by
  fun_induction Code.cutAtColon pending marked with
  | case1 pending =>
    have hnone := cutAtColon_unmarked pending code []
    rwa [List.append_nil, Code.cutAtColon] at hnone
  | case2 rest =>
    -- the colon looked for: what is behind it is the last branch
    simp [Code.cutAtColon, unmarked, Function.comp_def]
  | case3 rest pending ih => simp [Code.cutAtColon, ih, Function.comp_def]
  | case4 pending c rest hc ih => simp [Code.cutAtColon, ih, hc, Function.comp_def]
  | case5 pending lexeme mark rest hmark ih =>
    rw [List.cons_append, Code.cutAtColon, ih, Option.map_map, Option.map_map]
    · rfl
    · exact hmark

theorem cutConditional_append_unmarked (marked : List (Lexeme × Bool)) (code : Code) :
    Code.cutConditional (marked ++ unmarked code)
      = (Code.cutConditional marked).map fun cut => { cut with no := cut.no ++ code } := by
  fun_induction Code.cutConditional marked with
  | case1 =>
    have hnone := cutConditional_unmarked code []
    rwa [List.append_nil, Code.cutConditional] at hnone
  | case2 rest => simp [Code.cutConditional, cutAtColon_append_unmarked, Function.comp_def]
  | case3 lexeme mark rest hmark ih =>
    rw [List.cons_append, Code.cutConditional, ih, Option.map_map, Option.map_map]
    · rfl
    · exact hmark

/-- Blanks around code are no part of where its conditional is cut. -/
theorem conditional?_padded {before after : List Char} (hbefore : ∀ c ∈ before, isBlank c = true)
    (hafter : ∀ c ∈ after, isBlank c = true) (code : Code) :
    Code.conditional? (asCode before ++ code ++ asCode after) = (Code.conditional? code).map
      fun cut => ⟨asCode before ++ cut.condition, cut.yes, cut.no ++ asCode after⟩ := by
  have hlead : Unmarked choiceMarks (asCode before) := .blanks hbefore choiceMarks_not_blank
  show Code.cutConditional (Code.flagged choiceMarks 0 _) = _
  rw [flagged_append_blank hafter choiceMarks_not_blank, hlead code,
    cutConditional_append_unmarked, cutConditional_unmarked, Option.map_map]
  rfl

/-- Cutting at the marks gives at least one operand. -/
theorem exists_cutAtMarks (marked : List (Lexeme × Bool)) :
    ∃ first operands, Code.cutAtMarks marked = first :: operands := by
  fun_cases Code.cutAtMarks marked with
  | _ => exact ⟨_, _, rfl⟩

/-- Lexemes without marks belong to the first operand behind them. -/
theorem cutAtMarks_unmarked (code : Code) {marked : List (Lexeme × Bool)} {first : Code}
    {operands : List Code} (h : Code.cutAtMarks marked = first :: operands) :
    Code.cutAtMarks (unmarked code ++ marked) = (code ++ first) :: operands := by
  induction code with
  | nil => exact h
  | cons lexeme code ih => rw [unmarked_cons, List.cons_append, Code.cutAtMarks, ih]; rfl

/-- Lexemes without marks belong to the last operand in front of them. -/
theorem cutAtMarks_append_unmarked (marked : List (Lexeme × Bool)) (code : Code) :
    ∃ operands last, Code.cutAtMarks marked = operands ++ [last]
      ∧ Code.cutAtMarks (marked ++ unmarked code) = operands ++ [last ++ code] := by
  fun_induction Code.cutAtMarks marked with
  | case1 =>
    have honly := cutAtMarks_unmarked code (show Code.cutAtMarks [] = [[]] from rfl)
    exact ⟨[], [], rfl, by simpa using honly⟩
  | case2 lexeme rest ih =>
    obtain ⟨operands, last, hrest, happend⟩ := ih
    refine ⟨[] :: operands, last, by rw [hrest]; rfl, ?_⟩
    rw [List.cons_append, Code.cutAtMarks, happend, List.cons_append]
  | case3 lexeme rest hnil =>
    obtain ⟨first, operands, hcut⟩ := exists_cutAtMarks rest
    simp [hnil] at hcut
  | case4 lexeme rest first operands hcut ih =>
    obtain ⟨before, last, hrest, happend⟩ := ih
    rw [hcut] at hrest
    -- the lexeme belongs to the last operand if there is only one
    cases before with
    | nil =>
      obtain ⟨rfl, rfl⟩ : first = last ∧ operands = [] := by simpa using hrest
      refine ⟨[], lexeme :: first, rfl, ?_⟩
      rw [List.cons_append, Code.cutAtMarks, happend]
      rfl
    | cons head before =>
      obtain ⟨rfl, rfl⟩ : first = head ∧ operands = before ++ [last] := by simpa using hrest
      refine ⟨(lexeme :: first) :: before, last, rfl, ?_⟩
      rw [List.cons_append, Code.cutAtMarks, happend]
      rfl

/-! ## Conditionals and sums put together -/

/-- Code in which each question mark has its colon: the search for a colon passes over it. -/
def Paired (code : Code) : Prop :=
  ∀ (pending : Nat) (rest : Code),
    Code.cutAtColon pending ((code ++ rest).flagged choiceMarks 0)
      = (Code.cutAtColon pending (rest.flagged choiceMarks 0)).map fun cut => (code ++ cut.1, cut.2)

theorem Unmarked.paired {code : Code} (h : Unmarked choiceMarks code) : Paired code := by
  intro pending rest
  rw [h rest, cutAtColon_unmarked]

theorem Paired.append {a b : Code} (ha : Paired a) (hb : Paired b) : Paired (a ++ b) := by
  intro pending rest
  rw [List.append_assoc, ha, hb, Option.map_map]
  simp [Function.comp_def]

section Choice

variable {condition yes no : Code}

/-- The marks of a conditional. A branch that starts with a blank makes no longer operator of the
question mark. -/
theorem flagged_choice (hcondition : Unmarked choiceMarks condition)
    (hnext : ∀ d, yes.head? = some (.char d) → Code.isLongOperator '?' d = false)
    (hyes : yes ≠ []) (rest : Code) :
    (condition ++ .char '?' :: (yes ++ rest)).flagged choiceMarks 0
      = unmarked condition ++ (.char '?', true) :: (yes ++ rest).flagged choiceMarks 0 := by
  rw [hcondition, flagged_operator (by decide) (by decide) (by decide)]
  intro d hd
  apply hnext
  cases yes with
  | nil => exact absurd rfl hyes
  | cons lexeme yes => exact hd

theorem flagged_colon (rest : Code) :
    Code.flagged choiceMarks 0 (.char ':' :: rest)
      = (.char ':', true) :: rest.flagged choiceMarks 0 := by
  apply flagged_operator (by decide) (by decide) (by decide)
  intro d _
  rfl

theorem Paired.choice (hcondition : Unmarked choiceMarks condition)
    (hnext : ∀ d, yes.head? = some (.char d) → Code.isLongOperator '?' d = false)
    (hne : yes ≠ []) (hyes : Paired yes) (hno : Paired no) :
    Paired (condition ++ .char '?' :: (yes ++ .char ':' :: no)) := by
  intro pending rest
  have happend : condition ++ .char '?' :: (yes ++ .char ':' :: no) ++ rest
      = condition ++ .char '?' :: (yes ++ .char ':' :: (no ++ rest)) := by simp
  rw [happend, flagged_choice hcondition hnext hne, cutAtColon_unmarked]
  -- the question mark waits for one more colon, and the next colon is it
  show (Code.cutAtColon pending ((.char '?', true) :: _)).map _ = _
  rw [Code.cutAtColon.eq_def]
  simp only [if_neg (show '?' ≠ ':' by decide)]
  rw [hyes, flagged_colon, Code.cutAtColon, if_pos rfl, hno]
  simp [Function.comp_def]

theorem conditional?_of_choice (hcondition : Unmarked choiceMarks condition)
    (hnext : ∀ d, yes.head? = some (.char d) → Code.isLongOperator '?' d = false)
    (hne : yes ≠ []) (hyes : Paired yes) :
    Code.conditional? (condition ++ .char '?' :: (yes ++ .char ':' :: no))
      = some ⟨condition, yes, no⟩ := by
  show Code.cutConditional (Code.flagged choiceMarks 0 _) = _
  rw [flagged_choice hcondition hnext hne, cutConditional_unmarked, Code.cutConditional, hyes,
    flagged_colon, Code.cutAtColon, if_pos rfl, Code.map_flagged]
  simp

end Choice

theorem conditional?_of_unmarked {code : Code} (h : Unmarked choiceMarks code) :
    Code.conditional? code = none := by
  have hcut := cutConditional_unmarked code []
  rwa [List.append_nil, ← h.flagged_eq, Code.cutConditional] at hcut

theorem operands_of_unmarked {code : Code} (h : Unmarked sumMarks code) :
    Code.operands code = [code] := by
  have hcut := cutAtMarks_unmarked code (show Code.cutAtMarks [] = [[]] from rfl)
  rwa [List.append_nil, List.append_nil, ← h.flagged_eq] at hcut

/-- A plus sign ends the operand in front of it. -/
theorem operands_of_sum {first rest : Code} (hfirst : Unmarked sumMarks first)
    (hnext : ∀ d, rest.head? = some (.char d) → Code.isLongOperator '+' d = false) :
    Code.operands (first ++ .char '+' :: rest) = first :: Code.operands rest := by
  have hflagged : (first ++ .char '+' :: rest).flagged sumMarks 0
      = unmarked first ++ (.char '+', true) :: rest.flagged sumMarks 0 := by
    rw [hfirst, flagged_operator (by decide) (by decide) (by decide) hnext]
  show Code.cutAtMarks (Code.flagged sumMarks 0 _) = _
  rw [hflagged]
  have hcut := cutAtMarks_unmarked first
    (show Code.cutAtMarks ((.char '+', true) :: rest.flagged sumMarks 0) = _ from rfl)
  rwa [List.append_nil] at hcut

end StyleAudit
