import Mathlib.Data.List.Basic
import StyleAudit.Proofs.Expression.Padding

/-!
# What stood in place of blanks

An expression is cut after its comments are blanked. Blanks are all that a comment leaves, so a cut
at any other lexeme is a cut of the source as well (`exists_source_append_cons`): trimmed code, the
branches of a conditional, the operands of a sum and what parentheses enclose all have a source of
their own, a slice of the whole.
-/

namespace StyleAudit

theorem quote_not_blank {c : Char} (h : isQuote c = true) : isBlank c = false := by
  rcases isQuote_iff.mp h with rfl | rfl | rfl <;> decide

theorem isBlank_of_mem_blanked_comment {text : List Char} {lexeme : Lexeme}
    (h : lexeme ∈ (Lexeme.comment text).blanked) : lexeme.isBlank = true := by
  obtain ⟨c, -, rfl⟩ := List.mem_map.mp h
  show isBlank (if c = '\n' then c else ' ') = true
  split
  · next hc =>
    subst hc
    decide
  · decide

/-- Blanks stay as they are. -/
theorem blanked_blanked (code : Code) : code.blanked.blanked = code.blanked := by
  induction code with
  | nil => rfl
  | cons lexeme code ih =>
    rw [blanked_cons, blanked_append, ih]
    congr 1
    cases lexeme with
    | comment text =>
      have hblank : ∀ lexeme ∈ (Lexeme.comment text).blanked, lexeme.isBlank = true :=
        fun lexeme => isBlank_of_mem_blanked_comment
      obtain ⟨blanks, -, hblanks⟩ := exists_asCode hblank
      rw [hblanks, blanked_asCode]
    | _ => rfl

/-- Code that leaves nothing when it is blanked has no text. -/
theorem codeText_eq_nil_of_blanked {code : Code} (h : code.blanked = []) : codeText code = [] := by
  have hwidth := Code.width_blanked code
  rw [h] at hwidth
  exact List.length_eq_zero_iff.mp hwidth.symm

/-- A lexeme of blanked code that is no blank is a lexeme of the source, between the sources of what
is around it. -/
theorem exists_source_append_cons {code a b : Code} {lexeme : Lexeme}
    (h : code.blanked = a ++ lexeme :: b) (hlexeme : lexeme.isBlank = false) :
    ∃ before behind : Code, code = before ++ lexeme :: behind ∧ before.blanked = a
      ∧ behind.blanked = b ∧ lexeme.blanked = [lexeme] := by
  induction code generalizing a with
  | nil =>
    have hlength := congrArg List.length h
    simp [Code.blanked] at hlength
  | cons first code ih =>
    rw [blanked_cons] at h
    -- a first lexeme that stays as it is, is the one looked for or in front of it
    have unit : first.blanked = [first] → ∃ before behind : Code,
        first :: code = before ++ lexeme :: behind ∧ before.blanked = a ∧ behind.blanked = b
          ∧ lexeme.blanked = [lexeme] := by
      intro hfirst
      rw [hfirst, List.singleton_append] at h
      cases a with
      | nil =>
        obtain ⟨rfl, hcode⟩ := List.cons.inj h
        exact ⟨[], code, rfl, rfl, hcode, hfirst⟩
      | cons other a =>
        obtain ⟨rfl, hcode⟩ := List.cons.inj h
        obtain ⟨before, behind, rfl, rfl, hbehind, hunit⟩ := ih hcode
        refine ⟨first :: before, behind, rfl, ?_, hbehind, hunit⟩
        rw [blanked_cons, hfirst, List.singleton_append]
    cases first with
    | comment text =>
      rcases List.append_eq_append_iff.mp h with ⟨rest, rfl, hcode⟩ | ⟨rest, hcomment, hcode⟩
      · obtain ⟨before, behind, rfl, rfl, hbehind, hunit⟩ := ih hcode
        exact ⟨.comment text :: before, behind, rfl, blanked_cons _ _, hbehind, hunit⟩
      · -- otherwise the lexeme is one of the blanks, or stands right behind them
        cases rest with
        | nil =>
          obtain ⟨before, behind, rfl, hbefore, hbehind, hunit⟩ := ih (a := []) hcode.symm
          refine ⟨.comment text :: before, behind, rfl, ?_, hbehind, hunit⟩
          rw [blanked_cons, hbefore, hcomment]
          simp
        | cons other rest =>
          obtain ⟨rfl, -⟩ := List.cons.inj hcode
          have hmem : lexeme ∈ (Lexeme.comment text).blanked := by simp [hcomment]
          simp [isBlank_of_mem_blanked_comment hmem] at hlexeme
    | _ => exact unit rfl

/-! ## Trimmed code -/

theorem isBlank_of_dropWhile_cons {code rest : Code} {first : Lexeme}
    (h : code.dropWhile Lexeme.isBlank = first :: rest) : first.isBlank = false := by
  have hhead := List.head?_dropWhile_not Lexeme.isBlank code
  rw [h] at hhead
  exact hhead

theorem isBlank_of_trim_cons {code rest : Code} {first : Lexeme} (h : code.trim = first :: rest) :
    first.isBlank = false := by
  have hprefix : code.trim <+: code.dropWhile Lexeme.isBlank := by
    rw [Code.trim, ← List.reverse_suffix, List.reverse_reverse]
    exact List.dropWhile_suffix _
  rw [h] at hprefix
  obtain ⟨more, hmore⟩ := hprefix
  exact isBlank_of_dropWhile_cons hmore.symm

theorem isBlank_of_trim_concat {code rest : Code} {last : Lexeme} (h : code.trim = rest ++ [last]) :
    last.isBlank = false := by
  have hreverse := congrArg List.reverse h
  rw [Code.trim, List.reverse_reverse, List.reverse_append, List.reverse_singleton,
    List.singleton_append] at hreverse
  exact isBlank_of_dropWhile_cons hreverse

/-- The source of trimmed code is a slice of the source. It starts where the trimmed code starts,
and with the same lexeme. -/
theorem exists_source_trim {code : Code} (h : code.blanked.trim ≠ []) :
    ∃ (before : Code) (first : Lexeme) (rest after : Code), code = before ++ first :: rest ++ after
      ∧ before.width = code.blanked.lead.width ∧ Code.blanked (first :: rest) = code.blanked.trim
      ∧ first.blanked = [first] ∧ first.isBlank = false := by
  obtain ⟨front, back, -, -, hlead, hcode⟩ := exists_padding code.blanked
  obtain ⟨first, inner, htrim⟩ := List.exists_cons_of_ne_nil h
  have hfirst := isBlank_of_trim_cons htrim
  rw [htrim, List.append_assoc, List.cons_append] at hcode
  obtain ⟨before, behind, hsource, hbefore, hbehind, hunit⟩ :=
    exists_source_append_cons hcode hfirst
  have hwidth : before.width = code.blanked.lead.width := by
    rw [hlead, ← hbefore, Code.width_blanked]
  rcases List.eq_nil_or_concat' inner with rfl | ⟨inner, last, rfl⟩
  · refine ⟨before, first, [], behind, by simp [hsource], hwidth, ?_, hunit, hfirst⟩
    rw [htrim, blanked_cons, hunit]
    rfl
  · -- the last lexeme is no blank either, so the source is cut behind it
    have hlast : last.isBlank = false := @isBlank_of_trim_concat _ (first :: inner) _ htrim
    rw [List.append_assoc, List.singleton_append] at hbehind
    obtain ⟨middle, after, rfl, hmiddle, -, hlastUnit⟩ := exists_source_append_cons hbehind hlast
    refine ⟨before, first, middle ++ [last], after, by simp [hsource], hwidth, ?_, hunit, hfirst⟩
    rw [htrim, blanked_cons, blanked_append, blanked_cons, hunit, hmiddle, hlastUnit]
    simp [Code.blanked]

/-! ## Sums -/

/-- Only operators are marked. -/
theorem mem_of_mem_flagged {operators : List Char} {depth : Int} {code : Code} {lexeme : Lexeme}
    (h : (lexeme, true) ∈ code.flagged operators depth) : ∃ c ∈ operators, lexeme = .char c := by
  fun_induction Code.flagged operators depth code with
  | case5 _ c _ _ hmark _ _ _ ih =>
    rcases List.mem_cons.mp h with heq | h
    · exact ⟨c, hmark.2, congrArg Prod.fst heq⟩
    · exact ih h
  | case6 _ c _ _ hmark _ _ ih =>
    rcases List.mem_cons.mp h with heq | h
    · exact ⟨c, hmark.2, congrArg Prod.fst heq⟩
    · exact ih h
  | _ => simp_all

theorem intercalate_cutAtMarks {mark : Lexeme} {marked : List (Lexeme × Bool)}
    (h : ∀ lexeme, (lexeme, true) ∈ marked → lexeme = mark) :
    [mark].intercalate (Code.cutAtMarks marked) = marked.map (·.1) := by
  induction marked with
  | nil => rfl
  | cons entry marked ih =>
    obtain ⟨lexeme, isMark⟩ := entry
    have hrest := ih fun other hmem => h other (List.mem_cons_of_mem _ hmem)
    obtain ⟨first, operands, hcut⟩ := exists_cutAtMarks marked
    rw [hcut] at hrest
    cases isMark with
    | true =>
      obtain rfl := h lexeme List.mem_cons_self
      rw [Code.cutAtMarks, hcut, List.map_cons, ← hrest]
      simp [List.intercalate]
    | false =>
      simp only [Code.cutAtMarks, hcut, List.map_cons, ← hrest]
      cases operands <;> simp [List.intercalate]

/-- The operands of a sum with plus signs between them are the code. -/
theorem intercalate_operands (code : Code) : [.char '+'].intercalate code.operands = code := by
  rw [Code.operands, intercalate_cutAtMarks, Code.map_flagged]
  intro lexeme hmem
  obtain ⟨c, hc, rfl⟩ := mem_of_mem_flagged hmem
  obtain rfl := List.mem_singleton.mp hc
  rfl

end StyleAudit
