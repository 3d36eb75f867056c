import StyleAudit.Proofs.Expression.Agreement

/-!
# When an expression cannot be interpreted

An expression is interpreted unless the first pass over it meets a quote that nothing closes, and
the line of that quote is the one reported. Past this point nothing can fail: the slices that the
interpretation cuts out of the expression are scanned one by one, each from its own first character
on, and every scan at every depth succeeds.
-/

namespace StyleAudit

/-- An expression fails to be interpreted exactly where the pass that blanks its comments meets an
open quote. If that pass succeeds, every slice that is cut out on the way can be scanned, with the
holes of templates closed, and the expression has the pieces that the slices give. If it fails, the
line reported is that of a quote from which a scan finds no closing quote. -/
theorem interpret?_fails_at_openQuote (expression : List Char) (line : Int) (path : String) :
    ((∃ fault, interpret? expression line path = .error fault)
      ↔ ∃ place, blankComments expression = .error (.openQuote place))
    ∧ (∀ shown, blankComments expression = .ok shown →
      (∀ slice, Slice.Reaches ⟨.expression, expression, 0⟩ slice → ∃ items, slice.items = .ok items)
      ∧ ∃ found, Slice.pieces ⟨.expression, expression, 0⟩ = .ok found
        ∧ interpret? expression line path
          = .ok (found.flatMap (Piece.occurrences line path expression)))
    ∧ ∀ fault, interpret? expression line path = .error fault →
      ∃ place quote, expression[place]? = some quote ∧ isQuote quote = true
        ∧ closingQuote expression place = .error (.openQuote place)
        ∧ fault = ⟨.expression, line + lineFeeds (expression.take place), path⟩ := by
  rw [blankComments_eq, interpret?]
  cases hread : Code.ofText? expression with
  | ok code =>
    obtain ⟨rfl, hcode⟩ := ofText?_eq_ok hread
    have hpieces := (Stage.expression code).pieces_slice hcode 0
    refine ⟨by simp, fun shown _ => ⟨fun slice hreach => hreach.exists_items hpieces, ?_⟩, by simp⟩
    exact ⟨pieces 0 code, hpieces, rfl⟩
  | error unit =>
    obtain ⟨front, rfl, hopen⟩ := ofText?_eq_error hread
    refine ⟨by simp, by simp, fun fault hfault => ?_⟩
    obtain ⟨quote, rest, rfl, hquote⟩ := hopen.starts
    refine ⟨front.length, quote, by simp, hquote, hopen.closingQuote_eq front, ?_⟩
    have hplace : (front ++ quote :: rest).length - (quote :: rest).length = front.length := by
      rw [List.length_append, Nat.add_sub_cancel]
    rw [← Except.error.inj hfault, hplace]

/-- A sum with a template in a group, a conditional in its hole, and a quote that is left open on
the second line. -/
def openSum : List Char := "(\x60a$\x7bb?'c':d\x7d\x60) +\n \"e".toList

/-- The same sum with its last literal closed. -/
def closedSum : List Char := openSum ++ ['"']

set_option maxRecDepth 10000 in
theorem interpret?_fails_at_openQuote_openSum :
    interpret? openSum 3 "p" = .error ⟨.expression, 4, "p"⟩
      ∧ (∃ place quote, openSum[place]? = some quote ∧ isQuote quote = true
        ∧ closingQuote openSum place = .error (.openQuote place)
        ∧ (⟨.expression, 4, "p"⟩ : MalformedExpression)
          = ⟨.expression, 3 + lineFeeds (openSum.take place), "p"⟩)
      ∧ blankComments closedSum = .ok closedSum
      ∧ (∃ items, Slice.items ⟨.expression, closedSum, 0⟩ = .ok items)
      ∧ ∃ found, Slice.pieces ⟨.expression, closedSum, 0⟩ = .ok found
        ∧ interpret? closedSum 3 "p" = .ok (found.flatMap (Piece.occurrences 3 "p" closedSum)) := by
  have hfault : interpret? openSum 3 "p" = .error ⟨.expression, 4, "p"⟩ := by cbv
  have hblank : blankComments closedSum = .ok closedSum := by
    rw [blankComments_eq]
    cbv
  obtain ⟨hslices, hpieces⟩ := (interpret?_fails_at_openQuote closedSum 3 "p").2.1 closedSum hblank
  exact ⟨hfault, (interpret?_fails_at_openQuote openSum 3 "p").2.2 _ hfault, hblank,
    hslices _ .refl, hpieces⟩

end StyleAudit
