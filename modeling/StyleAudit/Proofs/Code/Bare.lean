import Mathlib.Data.List.Induction
import StyleAudit.Proofs.Code.Blanked

/-!
# Bare code

Code is *bare* if it has no comments, as what is left of an expression once its comments are
blanked. The text of bare code tells what the code tells: where its blanks end at the front and at
the back, and whether it holds a quoted unit. So a text can be stripped or searched for quotes in
place of the code.
-/

namespace StyleAudit

/-- Code without comments. -/
def Bare (code : Code) : Prop := ∀ text, Lexeme.comment text ∉ code

theorem Bare.of_slice {a b : Code} (h : Bare b) (hslice : a <:+: b) : Bare a :=
  fun text hmem => h text (hslice.subset hmem)

theorem bare_blanked (code : Code) : Bare code.blanked := by
  intro text hmem
  obtain ⟨lexeme, -, hlexeme⟩ := List.mem_flatMap.mp hmem
  cases lexeme with
  | comment comment =>
    have hblank := isBlank_of_mem_blanked_comment hlexeme
    cases hblank
  | _ => simp [Lexeme.blanked] at hlexeme

/-- A lexeme of bare code is a character or starts and ends with a quote. -/
theorem char_or_quoted {lexeme : Lexeme} {next : Option Char} (h : lexeme.FaithfulBefore next)
    (hbare : ∀ text, lexeme ≠ .comment text) :
    (∃ c, lexeme = .char c ∧ isQuote c = false)
      ∨ ∃ quote body, lexeme.quote? = some quote ∧ lexeme.text = quote :: (body ++ [quote])
        ∧ isQuote quote = true := by
  cases lexeme with
  | char c => exact .inl ⟨c, rfl, h.1⟩
  | comment text => exact absurd rfl (hbare text)
  | literal quote body => exact .inr ⟨quote, body, rfl, rfl, h.1.isQuote⟩
  | template parts => exact .inr ⟨backtick, partsText parts, rfl, rfl, isQuote_backtick⟩

theorem isBlank_of_quote? {lexeme : Lexeme} {quote : Char} (h : lexeme.quote? = some quote) :
    lexeme.isBlank = false := by
  cases lexeme <;> simp_all [Lexeme.quote?, Lexeme.isBlank]

theorem isQuoted_of_quote? {lexeme : Lexeme} {quote : Char} (h : lexeme.quote? = some quote) :
    lexeme.isQuoted = true := by
  cases lexeme <;> simp_all [Lexeme.quote?, Lexeme.isQuoted]

section Texts

variable {code : Code}

theorem Bare.head (h : Bare code) {lexeme : Lexeme} (hmem : lexeme ∈ code) (text : List Char) :
    lexeme ≠ .comment text := by
  rintro rfl
  exact h text hmem

/-- The blanks at the front of bare code are those at the front of its text. -/
theorem front_codeText (hcode : Faithful (.code code none)) (hbare : Bare code) :
    (codeText code).takeWhile isBlank = codeText code.lead
      ∧ (codeText code).dropWhile isBlank = codeText (code.dropWhile Lexeme.isBlank) := by
  rw [Code.lead]
  induction code with
  | nil => exact ⟨rfl, rfl⟩
  | cons lexeme code ih =>
    obtain ⟨hlexeme, hrest⟩ := faithful_cons.mp hcode
    have hmore := ih hrest (hbare.of_slice (List.suffix_cons _ _).isInfix)
    rcases char_or_quoted hlexeme (hbare.head List.mem_cons_self) with ⟨c, rfl, -⟩ |
      ⟨quote, body, hquote, htext, hisQuote⟩
    · by_cases hblank : isBlank c = true
      · simpa [codeText, Lexeme.text, Lexeme.isBlank, hblank] using hmore
      · simp [codeText, Lexeme.text, Lexeme.isBlank, hblank]
    · have hblank := quote_not_blank hisQuote
      simp [codeText, htext, isBlank_of_quote? hquote, hblank]

/-- The blanks at the back of bare code are those at the back of its text. -/
theorem back_codeText (hcode : Faithful (.code code none)) (hbare : Bare code) :
    (codeText code).reverse.dropWhile isBlank
      = (codeText (code.reverse.dropWhile Lexeme.isBlank).reverse).reverse := by
  induction code using List.reverseRecOn with
  | nil => rfl
  | append_singleton code lexeme ih =>
    obtain ⟨hrest, hlast⟩ := faithful_append.mp hcode
    have hmore := ih hrest.at_end (hbare.of_slice (List.prefix_append _ _).isInfix)
    rcases char_or_quoted (faithful_cons.mp hlast).1 (hbare.head (by simp)) with ⟨c, rfl, -⟩ |
      ⟨quote, body, hquote, htext, hisQuote⟩
    · by_cases hblank : isBlank c = true
      · simpa [codeText_append, codeText, Lexeme.text, Lexeme.isBlank, hblank] using hmore
      · simp [codeText_append, codeText, Lexeme.text, Lexeme.isBlank, hblank]
    · have hblank := quote_not_blank hisQuote
      simp [codeText_append, codeText, htext, isBlank_of_quote? hquote, hblank]

/-- How many blanks a text starts with. -/
def leadOf (text : List Char) : Nat := (text.takeWhile isBlank).length

theorem leadOf_codeText (hcode : Faithful (.code code none)) (hbare : Bare code) :
    leadOf (codeText code) = code.lead.width := by
  rw [leadOf, (front_codeText hcode hbare).1, Code.width]

theorem strip_codeText (hcode : Faithful (.code code none)) (hbare : Bare code) :
    strip (codeText code) = codeText code.trim := by
  have hfront : code.dropWhile Lexeme.isBlank <:+: code := (List.dropWhile_suffix _).isInfix
  rw [strip, (front_codeText hcode hbare).2,
    back_codeText (hcode.of_slice hfront) (hbare.of_slice hfront), List.reverse_reverse, Code.trim]

/-- Bare code has a quote in its text where it has a quoted unit. -/
theorem any_isQuote_codeText (hcode : Faithful (.code code none)) (hbare : Bare code) :
    (codeText code).any isQuote = code.any Lexeme.isQuoted := by
  induction code with
  | nil => rfl
  | cons lexeme code ih =>
    obtain ⟨hlexeme, hrest⟩ := faithful_cons.mp hcode
    have hmore := ih hrest (hbare.of_slice (List.suffix_cons _ _).isInfix)
    rw [codeText, List.any_append, List.any_cons, hmore]
    congr 1
    rcases char_or_quoted hlexeme (hbare.head List.mem_cons_self) with ⟨c, rfl, hc⟩ |
      ⟨quote, body, hquote, htext, hisQuote⟩
    · simp [Lexeme.text, Lexeme.isQuoted, hc]
    · rw [isQuoted_of_quote? hquote, htext]
      simp [hisQuote]

end Texts

end StyleAudit
