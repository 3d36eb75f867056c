import StyleAudit.Proofs.Code.Endings

/-!
# Slices of faithful code

An expression is taken apart by blanking its comments, trimming it, and cutting it at operators
and parentheses. Each of these gives a slice of the code, or of the code with blanks in place of
its comments, and such slices are faithful again. So reading the text of a slice anew, on its own,
gives the slice.
-/

namespace StyleAudit

theorem Faithful.of_slice {a b : Code} (hslice : a <:+: b) (h : Faithful (.code b none)) :
    Faithful (.code a none) := by
  obtain ⟨before, after, rfl⟩ := hslice
  have hfront := (faithful_append.1 h).1.at_end
  exact (faithful_append.1 hfront).2

/-! ## Plain characters -/

/-- Characters as code, each a lexeme of its own. -/
def asCode (text : List Char) : Code := text.map .char

@[simp] theorem asCode_nil : asCode [] = [] := rfl

@[simp] theorem asCode_cons (c : Char) (text : List Char) :
    asCode (c :: text) = .char c :: asCode text := rfl

@[simp] theorem asCode_append (a b : List Char) : asCode (a ++ b) = asCode a ++ asCode b :=
  List.map_append

@[simp] theorem codeText_asCode (text : List Char) : codeText (asCode text) = text := by
  induction text with
  | nil => rfl
  | cons c text ih => rw [asCode_cons, codeText, ih, Lexeme.text, List.singleton_append]

/-- Characters that open neither a quoted unit nor a comment are faithful wherever they stand. -/
theorem faithful_asCode {text : List Char} {next : Option Char}
    (h : ∀ c ∈ text, isQuote c = false ∧ c ≠ '/') : Faithful (.code (asCode text) next) := by
  induction text with
  | nil => exact .nil _
  | cons c text ih =>
    obtain ⟨hquote, hslash⟩ := h c List.mem_cons_self
    exact .char hquote (fun hopens => hslash hopens.1)
      (ih fun d hd => h d (List.mem_cons_of_mem _ hd))

/-! ## Blanks in place of comments -/

theorem IsComment.blanked_faithful {text : List Char} (next : Option Char) :
    Faithful (.code (Lexeme.comment text).blanked next) := by
  have hmap : (Lexeme.comment text).blanked
      = asCode (text.map fun c => if c = '\n' then c else ' ') := by
    rw [Lexeme.blanked, asCode, List.map_map]
    rfl
  rw [hmap]
  apply faithful_asCode
  intro c hc
  obtain ⟨d, -, rfl⟩ := List.mem_map.1 hc
  split
  · next hd => subst hd; decide
  · decide

theorem blanked_cons (lexeme : Lexeme) (code : Code) :
    Code.blanked (lexeme :: code) = lexeme.blanked ++ code.blanked := by
  rw [Code.blanked, List.flatMap_cons, Code.blanked]

/-- Blanking changes the first character of faithful code only if that is a slash, and then to a
space. -/
theorem head?_blanked {code : Code} {next : Option Char} (h : Faithful (.code code next)) :
    (codeText code.blanked).head? = (codeText code).head?
      ∨ (codeText code).head? = some '/' ∧ (codeText code.blanked).head? = some ' ' := by
  cases code with
  | nil => exact .inl rfl
  | cons lexeme code =>
    obtain ⟨hlexeme, -⟩ := faithful_cons.1 h
    rw [blanked_cons, codeText_append]
    cases lexeme with
    | comment text =>
      right
      have hhead := IsComment.head?_eq hlexeme
      cases text with
      | nil => simp at hhead
      | cons c text =>
        obtain rfl : c = '/' := by simpa using hhead
        exact ⟨rfl, rfl⟩
    | _ => left; simp [Lexeme.blanked, codeText, Lexeme.text]

theorem Faithful.blanked {code : Code} (h : Faithful (.code code none)) :
    Faithful (.code code.blanked none) := by
  induction code with
  | nil => exact .nil _
  | cons lexeme code ih =>
    obtain ⟨hlexeme, hcode⟩ := faithful_cons.1 h
    rw [blanked_cons]
    cases lexeme with
    | comment text => exact faithful_append.2 ⟨IsComment.blanked_faithful _, ih hcode⟩
    | char c =>
      refine faithful_cons.2 ⟨⟨hlexeme.1, ?_⟩, ih hcode⟩
      -- a slash in front of a comment was none of its own, and in front of a space it is
      rcases head?_blanked hcode with hhead | ⟨-, hhead⟩
      · simpa [hhead] using hlexeme.2
      · simp [hhead, OpensComment]
    | literal quote body => exact faithful_cons.2 ⟨hlexeme, ih hcode⟩
    | template parts => exact faithful_cons.2 ⟨hlexeme, ih hcode⟩

/-! ## Trimming and cutting -/

theorem trim_slice (code : Code) : code.trim <:+: code := by
  have hfront : code.dropWhile Lexeme.isBlank <:+ code := List.dropWhile_suffix _
  refine List.IsInfix.trans ?_ hfront.isInfix
  rw [Code.trim, ← List.reverse_infix, List.reverse_reverse]
  exact (List.dropWhile_suffix _).isInfix

/-- A cut at a colon leaves out that colon and nothing else. -/
theorem cutAtColon_eq {pending : Nat} {marked : List (Lexeme × Bool)} {cut : Code × Code}
    (h : Code.cutAtColon pending marked = some cut) :
    marked.map (·.1) = cut.1 ++ .char ':' :: cut.2 := by
  induction marked generalizing pending cut with
  | nil => simp [Code.cutAtColon] at h
  | cons entry marked ih =>
    -- any other entry goes to the first branch, whatever it does to the count
    have step : ∀ {pending' : Nat},
        ((Code.cutAtColon pending' marked).map fun rest => (entry.1 :: rest.1, rest.2)) = some cut →
        (entry :: marked).map (·.1) = cut.1 ++ .char ':' :: cut.2 := by
      intro pending' h
      obtain ⟨rest, hrest, rfl⟩ := Option.map_eq_some_iff.1 h
      rw [List.map_cons, ih hrest, List.cons_append]
    unfold Code.cutAtColon at h
    split at h
    · cases h
    · next heq =>
      cases heq
      split at h
      · next hcolon =>
        subst hcolon
        split at h
        · cases h
          rfl
        · exact step h
      · exact step h
    · next heq =>
      cases heq
      exact step h

theorem cutConditional_eq {marked : List (Lexeme × Bool)} {cut : Code.Conditional}
    (h : Code.cutConditional marked = some cut) :
    marked.map (·.1) = cut.condition ++ .char '?' :: (cut.yes ++ .char ':' :: cut.no) := by
  induction marked generalizing cut with
  | nil => simp [Code.cutConditional] at h
  | cons entry marked ih =>
    unfold Code.cutConditional at h
    split at h
    · cases h
    · next heq =>
      cases heq
      obtain ⟨rest, hrest, rfl⟩ := Option.map_eq_some_iff.1 h
      rw [List.map_cons, cutAtColon_eq hrest, List.nil_append]
    · next heq =>
      cases heq
      obtain ⟨rest, hrest, rfl⟩ := Option.map_eq_some_iff.1 h
      rw [List.map_cons, ih hrest, List.cons_append]

/-- A conditional is its condition, a question mark, a branch, a colon and a branch. -/
theorem conditional?_eq {code : Code} {cut : Code.Conditional} (h : code.conditional? = some cut) :
    code = cut.condition ++ .char '?' :: (cut.yes ++ .char ':' :: cut.no) := by
  rw [← cutConditional_eq h, Code.map_flagged]

/-- The first of the operands starts the list, and every operand is a slice of it. -/
theorem cutAtMarks_slices (marked : List (Lexeme × Bool)) :
    (∀ operand ∈ (Code.cutAtMarks marked).head?, operand <+: marked.map (·.1))
      ∧ ∀ operand ∈ Code.cutAtMarks marked, operand <:+: marked.map (·.1) := by
  induction marked with
  | nil => simp [Code.cutAtMarks]
  | cons entry marked ih =>
    obtain ⟨lexeme, mark⟩ := entry
    have hrest : ∀ operand ∈ Code.cutAtMarks marked,
        operand <:+: ((lexeme, mark) :: marked).map (·.1) := fun operand hmem =>
      (ih.2 operand hmem).trans (List.suffix_cons _ _).isInfix
    cases mark with
    | true =>
      rw [Code.cutAtMarks]
      refine ⟨by simp, fun operand hmem => ?_⟩
      rcases List.mem_cons.1 hmem with rfl | hmem
      · exact List.nil_infix
      · exact hrest operand hmem
    | false =>
      rw [Code.cutAtMarks]
      split
      · exact ⟨by simp, by simpa using (List.prefix_append [lexeme] _).isInfix⟩
      · next first operands heq =>
        have hfirst : lexeme :: first <+: ((lexeme, false) :: marked).map (·.1) :=
          List.cons_prefix_cons.2 ⟨rfl, ih.1 first (by simp [heq])⟩
        refine ⟨by simpa using hfirst, fun operand hmem => ?_⟩
        rcases List.mem_cons.1 hmem with rfl | hmem
        · exact hfirst.isInfix
        · exact hrest operand (heq ▸ List.mem_cons_of_mem _ hmem)

theorem operands_slice {code operand : Code} (h : operand ∈ code.operands) : operand <:+: code := by
  have := (cutAtMarks_slices _).2 operand h
  rwa [Code.map_flagged] at this

/-- The bracket that ends a stretch comes right behind code that the stretch goes on with. -/
theorem afterCloser_eq_some_iff {depth : Int} {code rest : Code} :
    Code.afterCloser depth code = some rest
      ↔ ∃ inner closer, code = inner ++ .char closer :: rest ∧ isCloser closer = true
        ∧ (Extent.bracket depth).Holds inner ∧ depth + inner.rise = 1 := by
  constructor
  · intro h
    induction code generalizing depth with
    | nil => simp [Code.afterCloser] at h
    | cons lexeme code ih =>
      by_cases hfirst : (Extent.bracket depth).Holds [lexeme]
      · have hsplit := Code.afterCloser_append depth [lexeme] code
        rw [show Code.afterCloser depth [lexeme] = none from hfirst, List.singleton_append,
          h] at hsplit
        obtain ⟨inner, closer, rfl, hclose, hholds, hrise⟩ := ih hsplit.symm
        simp only [Code.rise_cons, Code.rise_nil, Int.add_zero] at hholds hrise
        refine ⟨lexeme :: inner, closer, rfl, hclose, Extent.holds_cons.2 ⟨hfirst, hholds⟩, ?_⟩
        rw [Code.rise_cons, ← Int.add_assoc, hrise]
      · -- the first lexeme is the bracket looked for
        rw [Extent.bracket_holds_singleton_iff, Classical.not_imp] at hfirst
        obtain ⟨hrise, hdepth⟩ := hfirst
        obtain rfl : depth = 1 := by omega
        obtain ⟨closer, rfl, hopen, hclose⟩ := exists_closer_of_rise hrise
        simp only [Code.afterCloser, hopen, hclose, if_true] at h
        obtain rfl : code = rest := by simpa using h
        exact ⟨[], closer, rfl, hclose, rfl, rfl⟩
  · rintro ⟨inner, closer, rfl, hclose, hholds, hrise⟩
    rw [Code.afterCloser_append, show Code.afterCloser depth inner = none from hholds]
    simp [Code.afterCloser, not_isOpener_of_isCloser hclose, hclose, hrise]

/-- What parentheses around the whole of some code enclose. -/
theorem unwrap?_eq_some_iff {code inner : Code} :
    code.unwrap? = some inner
      ↔ ∃ closer, code = .char '(' :: (inner ++ [.char closer]) ∧ isCloser closer = true
        ∧ (Extent.bracket 1).Holds inner ∧ inner.rise = 0 := by
  constructor
  · intro h
    unfold Code.unwrap? at h
    split at h
    · next rest =>
      split at h
      · next hafter =>
        obtain ⟨inner', closer, rfl, hclose, hholds, hrise⟩ := afterCloser_eq_some_iff.1 hafter
        obtain rfl : inner' = inner := by simpa using h
        exact ⟨closer, rfl, hclose, hholds, by omega⟩
      · cases h
    · cases h
  · rintro ⟨closer, rfl, hclose, hholds, hrise⟩
    have hafter : Code.afterCloser 1 (inner ++ [.char closer]) = some [] :=
      afterCloser_eq_some_iff.2 ⟨inner, closer, rfl, hclose, hholds, by omega⟩
    simp [Code.unwrap?, hafter]

end StyleAudit
