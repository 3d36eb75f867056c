import Mathlib.Data.List.Basic
import StyleAudit.Proofs.Code.Bare
import StyleAudit.Proofs.Code.Pass

/-!
# What comments say does not matter

The comments of an expression are blanked before it is cut, and blanks have no part in what the
expression gives. So it makes no difference what a comment says, be it quotes, brackets or operators
(`comments_transparent`): an expression is interpreted as what is left when its comments are
blanked, down to the line numbers.

Blanking is safe to do because the blanked text reads as the blanked code. No two characters that
come to stand next to each other start a comment, and no literal starts or ends at another place
(`Faithful.blanked`). `IsBlanking` says without a scan what becomes of each character.
-/

namespace StyleAudit

/-! ## Places in comments -/

/-- A place in a comment of a text. The comment stands outside literals and templates: the text in
front of it is made of whole units of code. -/
def InComment (text : List Char) (place : Nat) : Prop :=
  ∃ (before : Code) (comment rest : List Char), text = codeText before ++ (comment ++ rest)
    ∧ Faithful (.code before (comment ++ rest).head?) ∧ IsComment comment rest.head?
    ∧ before.width ≤ place ∧ place < before.width + comment.length

/-- Code is determined by its text. -/
theorem eq_of_codeText_eq {a b : Code} (ha : Faithful (.code a none))
    (hb : Faithful (.code b none)) (h : codeText a = codeText b) : a = b := by
  have hread := ha.ofText?_text
  rw [Code.text, h, hb.ofText?_text] at hread
  exact (Except.ok.inj hread).symm

section Places

variable {code : Code} {place : Nat}

/-- In the text of faithful code the comments are the lexemes that are comments. -/
theorem inComment_codeText_iff (h : Faithful (.code code none)) :
    InComment (codeText code) place
      ↔ ∃ (before : Code) (comment : List Char) (behind : Code),
        code = before ++ .comment comment :: behind
        ∧ before.width ≤ place ∧ place < before.width + comment.length := by
  constructor
  · rintro ⟨before, comment, rest, htext, hbefore, hcomment, hle, hlt⟩
    -- in front of what is behind the comment stand the units before it and the comment
    have passed : ∀ {behind : Code} {unit : List Char}, rest = codeText behind ++ unit →
        Faithful (.code behind unit.head?) →
        codeText code = codeText (before ++ .comment comment :: behind) ++ unit
          ∧ Faithful (.code (before ++ .comment comment :: behind) unit.head?) := by
      rintro behind unit rfl hbehind
      rw [List.head?_append] at hcomment
      rw [← List.append_assoc, List.head?_append] at hbefore
      refine ⟨by simp [htext, codeText_append, codeText, Lexeme.text], ?_⟩
      exact faithful_append.mpr ⟨hbefore, faithful_cons.mpr ⟨hcomment, hbehind⟩⟩
    rcases ofText?_cases rest with ⟨behind, hrest, hbehind, -⟩ |
      ⟨behind, unit, innermost, hrest, hbehind, hunit, -⟩
    · obtain ⟨hcode, hfaithful⟩ := @passed behind [] (by rw [List.append_nil, hrest]) hbehind
      rw [List.append_nil] at hcode
      exact ⟨before, comment, behind, eq_of_codeText_eq h hfaithful hcode, hle, hlt⟩
    · -- an open quote behind the comment would be open in the code
      obtain ⟨hcode, hfaithful⟩ := passed hrest hbehind
      have hread := h.ofText?_text
      have hpast := read_code ⟨.wholeText, []⟩ [] unit hfaithful trivial
      rw [Code.ofText?, Code.text, hcode, hpast, hunit.read_eq] at hread
      cases hread
  · rintro ⟨before, comment, behind, rfl, hle, hlt⟩
    obtain ⟨hbefore, hrest⟩ := faithful_append.mp h
    obtain ⟨hcomment, -⟩ := faithful_cons.mp hrest
    rw [Option.or_none] at hbefore hcomment
    exact ⟨before, comment, codeText behind, codeText_append _ _, hbefore, hcomment, hle, hlt⟩

/-- Every place of a text stands in one of its lexemes. -/
theorem exists_lexeme_at (h : place < code.width) :
    ∃ (before : Code) (lexeme : Lexeme) (behind : Code) (offset : Nat),
      code = before ++ lexeme :: behind ∧ place = before.width + offset
        ∧ offset < lexeme.text.length := by
  induction code generalizing place with
  | nil => exact absurd h (Nat.not_lt_zero _)
  | cons first code ih =>
    by_cases hplace : place < first.text.length
    · exact ⟨[], first, code, place, rfl, (Nat.zero_add _).symm, hplace⟩
    · rw [Code.width_cons] at h
      obtain ⟨before, lexeme, behind, offset, rfl, hbefore, hoffset⟩ :=
        @ih (place - first.text.length) (by omega)
      refine ⟨first :: before, lexeme, behind, offset, rfl, ?_, hoffset⟩
      rw [Code.width_cons]
      omega

theorem getElem?_between (before unit behind : List Char) {offset : Nat}
    (h : offset < unit.length) :
    (before ++ (unit ++ behind))[before.length + offset]? = unit[offset]? := by
  rw [List.getElem?_append_right (Nat.le_add_right _ _), Nat.add_sub_cancel_left,
    List.getElem?_append_left h]

/-- A character of a lexeme, and what is shown for it. -/
theorem getElem?_blanked {before behind : Code} {lexeme : Lexeme} {offset : Nat}
    (h : offset < lexeme.text.length) :
    (codeText (before ++ lexeme :: behind))[before.width + offset]? = lexeme.text[offset]?
      ∧ (codeText (Code.blanked (before ++ lexeme :: behind)))[before.width + offset]?
        = (lexeme.passUnit.shown lexeme.text)[offset]? := by
  constructor
  · rw [codeText_append, codeText, Code.width, getElem?_between _ _ _ h]
  · have hshown : offset < (lexeme.passUnit.shown lexeme.text).length := by
      cases lexeme <;> simpa [Lexeme.passUnit, PassUnit.shown] using h
    rw [blanked_append, codeText_append, codeText_blanked_cons, ← Code.width_blanked, Code.width,
      getElem?_between _ _ _ hshown]

end Places

/-! ## What blanking leaves -/

/-- A text with blanks for its comments: a line feed stays a line feed, and any other character of a
comment is a space. -/
structure IsBlanking (text shown : List Char) : Prop where
  length_eq : shown.length = text.length
  lineFeed_iff : ∀ place : Nat, shown[place]? = some '\n' ↔ text[place]? = some '\n'
  outside : ∀ place : Nat, ¬ InComment text place → shown[place]? = text[place]?
  inside : ∀ place : Nat, InComment text place →
    shown[place]? = some '\n' ∨ shown[place]? = some ' '
  noComment : ∀ place, ¬ InComment shown place

section Blanking

variable {code : Code}

theorem map_lineFeed_blanked (code : Code) :
    (codeText code.blanked).map (· == '\n') = (codeText code).map (· == '\n') := by
  induction code with
  | nil => rfl
  | cons lexeme code ih =>
    rw [codeText_blanked_cons, codeText, List.map_append, List.map_append, ih]
    congr 1
    cases lexeme with
    | comment text =>
      simp only [Lexeme.passUnit, PassUnit.shown, Lexeme.text, List.map_map]
      refine List.map_congr_left fun c _ => ?_
      by_cases hline : c = '\n'
      · simp [hline]
      · simp [hline]
    | _ => rfl

/-- Up to any place the blanked text has as many line feeds as the text. -/
theorem lineFeeds_take_blanked (code : Code) (place : Nat) :
    lineFeeds ((codeText code.blanked).take place) = lineFeeds ((codeText code).take place) := by
  have hcount : ∀ text : List Char, lineFeeds text = (text.map (· == '\n')).count true := by
    intro text
    simp [lineFeeds, List.count, List.countP_map, Function.comp_def]
  rw [hcount, hcount, List.map_take, List.map_take, map_lineFeed_blanked]

theorem not_inComment_of_bare (h : Faithful (.code code none)) (hbare : Bare code) (place : Nat) :
    ¬ InComment (codeText code) place := by
  rw [inComment_codeText_iff h]
  rintro ⟨before, comment, behind, rfl, -, -⟩
  exact hbare comment (by simp)

theorem isBlanking_blanked (h : Faithful (.code code none)) :
    IsBlanking (codeText code) (codeText code.blanked) where
  length_eq := Code.width_blanked code
  lineFeed_iff := by
    intro place
    have hsame := congrArg (·[place]?) (map_lineFeed_blanked code)
    simp only [List.getElem?_map] at hsame
    generalize (codeText code.blanked)[place]? = shown at hsame ⊢
    generalize (codeText code)[place]? = source at hsame ⊢
    cases shown <;> cases source <;> simp_all
  outside := by
    intro place houtside
    by_cases hplace : place < code.width
    · obtain ⟨before, lexeme, behind, offset, rfl, rfl, hoffset⟩ := exists_lexeme_at hplace
      obtain ⟨hsource, hshown⟩ := @getElem?_blanked before behind lexeme offset hoffset
      rw [hsource, hshown]
      cases lexeme with
      | comment comment =>
        refine absurd ?_ houtside
        exact (inComment_codeText_iff h).mpr
          ⟨before, comment, behind, rfl, Nat.le_add_right _ _, Nat.add_lt_add_left hoffset _⟩
      | _ => rfl
    · rw [List.getElem?_eq_none (Nat.le_of_not_lt hplace), List.getElem?_eq_none]
      rw [← Code.width, Code.width_blanked]
      exact Nat.le_of_not_lt hplace
  inside := by
    intro place hinside
    obtain ⟨before, comment, behind, rfl, hle, hlt⟩ := (inComment_codeText_iff h).mp hinside
    obtain ⟨offset, rfl⟩ := Nat.exists_eq_add_of_le hle
    have hoffset : offset < comment.length := by omega
    rw [(@getElem?_blanked before behind (.comment comment) offset hoffset).2]
    simp only [Lexeme.passUnit, PassUnit.shown, Lexeme.text, List.getElem?_map,
      List.getElem?_eq_getElem hoffset, Option.map_some]
    split
    · next hline => exact .inl (congrArg some hline)
    · exact .inr rfl
  noComment := not_inComment_of_bare h.blanked (bare_blanked code)

/-! ## Interpretation -/

theorem pieces_blanked (start : Nat) (code : Code) :
    pieces start code.blanked = pieces start code := by
  rw [pieces_eq, pieces_eq, blanked_blanked]

/-- Blanked code has the occurrences of the code, on the same lines. -/
theorem occurrencesIn_blanked (line : Int) (path : String) (code : Code) :
    occurrencesIn line path code.blanked = occurrencesIn line path code := by
  rw [occurrencesIn, occurrencesIn, pieces_blanked]
  refine List.flatMap_congr fun piece _ => ?_
  cases piece with
  | literal chars start => rfl
  | dynamic chars start =>
    rw [Piece.occurrences, Piece.occurrences, Code.text, Code.text, lineFeeds_take_blanked]

theorem blankComments_codeText (h : Faithful (.code code none)) :
    blankComments (codeText code) = .ok (codeText code.blanked) := by
  rw [blankComments_eq, h.ofText?_text]

/-- A text whose comments can be blanked is the text of faithful code. -/
theorem exists_code_of_blankComments {text shown : List Char}
    (h : blankComments text = .ok shown) :
    ∃ code, Faithful (.code code none) ∧ text = codeText code ∧ shown = codeText code.blanked := by
  rw [blankComments_eq] at h
  cases hread : Code.ofText? text with
  | error unit => simp [hread] at h
  | ok code =>
    obtain ⟨rfl, hcode⟩ := ofText?_eq_ok hread
    rw [hread] at h
    exact ⟨code, hcode, rfl, (Except.ok.inj h).symm⟩

theorem interpret?_blankComments {expression shown : List Char}
    (h : blankComments expression = .ok shown) (line : Int) (path : String) :
    ∃ found, interpret? expression line path = .ok found
      ∧ interpret? shown line path = .ok found := by
  obtain ⟨code, hcode, rfl, rfl⟩ := exists_code_of_blankComments h
  refine ⟨occurrencesIn line path code, interpret?_text hcode line path, ?_⟩
  rw [← occurrencesIn_blanked]
  exact interpret?_text hcode.blanked line path

end Blanking

/-- Where the comments of an expression can be blanked, blanking them touches nothing else and
leaves no comment, so it does nothing the second time. The expression is interpreted as its blanked
text is. So two expressions are interpreted alike if they differ only in what their comments say. -/
theorem comments_transparent (expression shown : List Char)
    (h : blankComments expression = .ok shown) :
    IsBlanking expression shown ∧ blankComments shown = .ok shown
      ∧ ∀ (line : Int) (path : String),
        (∃ found, interpret? expression line path = .ok found
          ∧ interpret? shown line path = .ok found)
        ∧ ∀ other, blankComments other = .ok shown →
          interpret? other line path = interpret? expression line path := by
  obtain ⟨code, hcode, rfl, rfl⟩ := exists_code_of_blankComments h
  have hagain := blankComments_codeText hcode.blanked
  rw [blanked_blanked] at hagain
  refine ⟨isBlanking_blanked hcode, hagain, fun line path => ?_⟩
  obtain ⟨found, hexpression, hshown⟩ := interpret?_blankComments h line path
  refine ⟨⟨found, hexpression, hshown⟩, fun other hblank => ?_⟩
  obtain ⟨found', hother, hshown'⟩ := interpret?_blankComments hblank line path
  rw [hother, ← hshown', hshown, hexpression]

/-- A conditional with a comment behind its condition, one at the end of a line, and one in the hole
of a template. -/
def commentedChoice : List Char :=
  "a/* '? */? 'b' : // ([\n\x60c $\x7bd/*+*/\x7d\x60".toList

/-- The same conditional with other comments of the same length. -/
def otherwiseCommented : List Char :=
  "a/* \": */? 'b' : //*\x60+\n\x60c $\x7bd/*+*/\x7d\x60".toList

/-- The conditional without its comments. -/
def uncommentedChoice : List Char :=
  "a        ? 'b' :      \n\x60c $\x7bd/*+*/\x7d\x60".toList

set_option maxRecDepth 10000 in
theorem comments_transparent_commentedChoice :
    blankComments commentedChoice = .ok uncommentedChoice
      ∧ IsBlanking commentedChoice uncommentedChoice
      ∧ blankComments uncommentedChoice = .ok uncommentedChoice
      ∧ interpret? uncommentedChoice 3 "p"
        = .ok [.named ⟨"b", 3, "p"⟩, .named ⟨"c", 3, "p"⟩, .dynamic ⟨"d", 4, "p"⟩]
      ∧ blankComments otherwiseCommented = .ok uncommentedChoice
      ∧ interpret? otherwiseCommented 3 "p" = interpret? commentedChoice 3 "p" := by
  have hblank : blankComments commentedChoice = .ok uncommentedChoice := by
    rw [blankComments_eq]
    cbv
  have hother : blankComments otherwiseCommented = .ok uncommentedChoice := by
    rw [blankComments_eq]
    cbv
  have hfound : interpret? commentedChoice 3 "p"
      = .ok [.named ⟨"b", 3, "p"⟩, .named ⟨"c", 3, "p"⟩, .dynamic ⟨"d", 4, "p"⟩] := by cbv
  obtain ⟨hblanking, hagain, hinterpret⟩ :=
    comments_transparent commentedChoice uncommentedChoice hblank
  obtain ⟨⟨found, hcommented, huncommented⟩, hsame⟩ := hinterpret 3 "p"
  obtain rfl := Except.ok.inj (hcommented.symm.trans hfound)
  exact ⟨hblank, hblanking, hagain, huncommented, hother, hsame otherwiseCommented hother⟩

end StyleAudit
