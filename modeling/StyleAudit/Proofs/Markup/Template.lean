import StyleAudit.Proofs.Expression.Interpretation
import StyleAudit.Proofs.Expression.Shift
import StyleAudit.Proofs.Markup.Failure

/-!
# A template alone in braces

A value that is a template and nothing else is read on its own, so that each class name counts for
its own line. Read as any other expression it would give the same class names and expressions, in
the same order and from the same file (`readValue_template`). The two readings differ in the lines.
-/

namespace StyleAudit

/-! ## Occurrences without lines -/

/-- What an occurrence says apart from its line: a class name on the left or an expression on the
right, and the file. -/
def Occurrence.content : Occurrence → (String ⊕ String) × String
  | named occurrence => (.inl occurrence.name, occurrence.path)
  | dynamic occurrence => (.inr occurrence.text, occurrence.path)

/-- What a piece says apart from its place. -/
def Piece.contents (path : String) : Piece → List ((String ⊕ String) × String)
  | .literal chars _ => (classNames chars).map fun name => (.inl name, path)
  | .dynamic chars _ => [(.inr (String.ofList (collapse chars)), path)]

section Contents

variable (line : Int) (path : String)

theorem content_classListAt (text : List Char) :
    (classListAt line path text).map Occurrence.content
      = (classNames text).map fun name => (.inl name, path) := by
  rw [classListAt, List.map_map]
  rfl

theorem contents_eq (text : List Char) (piece : Piece) :
    (piece.occurrences line path text).map Occurrence.content = piece.contents path := by
  cases piece with
  | literal chars start => exact content_classListAt line path chars
  | dynamic chars start => rfl

theorem contents_shift (n : Nat) (piece : Piece) :
    (piece.shift n).contents path = piece.contents path := by
  cases piece <;> rfl

theorem contents_occurrencesIn (code : Code) :
    (occurrencesIn line path code).map Occurrence.content
      = (pieces 0 code).flatMap (Piece.contents path) := by
  rw [occurrencesIn, List.map_flatMap]
  exact List.flatMap_congr fun piece _ => contents_eq line path code.text piece

/-- Where an expression starts has no part in what it says. -/
theorem contents_pieces (start : Nat) (code : Code) :
    (pieces start code).flatMap (Piece.contents path)
      = (pieces 0 code).flatMap (Piece.contents path) := by
  have hshift := pieces_add start 0 code
  rw [Nat.zero_add] at hshift
  rw [hshift, List.flatMap_map]
  exact List.flatMap_congr fun piece _ => contents_shift path start piece

/-- A class list that spans lines names the same classes as on one line. -/
theorem content_classListFrom (text : List Char) :
    (classListFrom line path text).map Occurrence.content
      = (classNames text).map fun name => (.inl name, path) := by
  rw [classListFrom, List.map_flatMap]
  simp only [content_classListAt]
  rw [classNames_of_words (words_lines text), List.map_flatMap]
  nth_rewrite 2 [← List.zipIdx_map_fst 0 (lines text)]
  rw [List.flatMap_map]

/-- The occurrences in a template say what its pieces say. -/
theorem contents_templateOccurrences (start : Nat) (parts : List Part) :
    (templateOccurrences line path parts).map Occurrence.content
      = (templatePieces start parts).flatMap (Piece.contents path) := by
  have hspans := @spans_add start 0 [] (Nat.zero_le 0) parts
  rw [Nat.zero_add] at hspans
  rw [templateOccurrences, templatePieces_eq, hspans, List.map_flatMap, List.flatMap_assoc,
    List.flatMap_map]
  apply List.flatMap_congr
  intro span _
  cases span with
  | text chars place =>
    simp only [content_classListFrom, Span.shift, List.flatMap_singleton]
    rfl
  | hole code place =>
    have hcode := contents_occurrencesIn (line + lineFeeds ((partsText parts).take place)) path code
    exact hcode.trans (contents_pieces path (place + start) code).symm

end Contents

/-! ## Both readings of a template -/

/-- An expression that is a template has the pieces of the template. -/
theorem pieces_template (start : Nat) (parts : List Part) :
    pieces start [.template parts] = templatePieces (start + 1) parts := by
  have hpieces : pieces start [.template parts]
      = operandPieces start [.template parts] ++ [] := by
    rw [pieces_eq_untrimmed]
    rfl
  rw [hpieces, List.append_nil, Tree.template_operandPieces]

/-- What the scan from an opening backtick takes for a template is one. -/
theorem exists_parts_of_closingQuote {text : List Char} {opening closing : Nat}
    (hopening : text[opening]? = some backtick) (h : closingQuote text opening = .ok closing) :
    opening < closing ∧ closing < text.length ∧ ∃ parts : List Part,
      Faithful (.template parts (some backtick))
        ∧ text.drop opening = (Lexeme.template parts).text ++ text.drop (closing + 1)
        ∧ text.extract (opening + 1) closing = partsText parts := by
  obtain ⟨hlt, hderives⟩ := (closingQuote_eq_ok_iff hopening isQuote_backtick).mp h
  obtain ⟨lexeme, hlexeme, hquote, hfaithful⟩ := hderives.spelled
  have hne : text.extract opening (closing + 1) ≠ [] := by
    rw [hlexeme]
    exact List.length_pos_iff.mp (lexeme_text_length_pos hquote)
  have hdrop := drop_eq_extract_append text opening (closing + 1) hne
  rw [hlexeme] at hdrop
  cases lexeme with
  | char c => simp [Lexeme.quote?] at hquote
  | comment comment => simp [Lexeme.quote?] at hquote
  | literal quote body =>
    -- a backtick opens no literal
    obtain rfl : quote = backtick := by simpa [Lexeme.quote?] using hquote
    exact absurd rfl (hfaithful none).1.ne_backtick
  | template parts =>
    have hlength := congrArg List.length hdrop
    simp only [Lexeme.text, List.length_append, List.length_cons, List.length_drop,
      List.length_nil] at hlength
    have htail : text.drop (opening + 1)
        = partsText parts ++ backtick :: text.drop (closing + 1) := by
      rw [← List.tail_drop, hdrop]
      simp [Lexeme.text]
    refine ⟨by omega, hlt, parts, hfaithful none, hdrop, ?_⟩
    rw [List.extract_eq_take_drop, htail]
    exact List.take_left' (by omega)

/-- A value of braces, blanks, a template and blanks ends at the brace that a scan for the closing
bracket finds. The template is read on its own, and the class names and expressions found in it are
those of the code in the braces, one by one; only their lines differ. -/
theorem readValue_template (text : List Char) (start opening closing stop : Nat)
    (hstart : text[start]? = some '\x7b') (hfront : start < opening)
    (hbefore : ∀ c ∈ text.extract (start + 1) opening, isBlank c = true)
    (hopening : text[opening]? = some backtick) (hclosing : closingQuote text opening = .ok closing)
    (hback : closing < stop) (hafter : ∀ c ∈ text.extract (closing + 1) stop, isBlank c = true)
    (hstop : text[stop]? = some '\x7d') (line : Int) (path : String) :
    closingBracket? text start = .ok (some stop)
      ∧ ∃ (parts : List Part) (general : List Occurrence),
        partsText parts = text.extract (opening + 1) closing
          ∧ readValue line path (text.drop start)
            = .ok (templateOccurrences line path parts, text.drop (stop + 1))
          ∧ interpret? (text.extract (start + 1) stop) line path = .ok general
          ∧ (templateOccurrences line path parts).map Occurrence.content
            = general.map Occurrence.content := by
  obtain ⟨horder, hlt, parts, hparts, htemplate, hinner⟩ :=
    exists_parts_of_closingQuote hopening hclosing
  have hlast : stop < text.length := (List.getElem?_eq_some_iff.mp hstop).1
  -- the code in the braces is the template with blanks around it
  generalize hbeforeText : text.extract (start + 1) opening = before at hbefore
  generalize hafterText : text.extract (closing + 1) stop = after at hafter
  have hprints : Prints [.template parts] (Lexeme.template parts).text :=
    .unit rfl (fun _ => hparts) rfl
  have hcode := hprints.padded ⟨before, hbefore⟩ ⟨after, hafter⟩
  generalize hgeneral : asCode before ++ [.template parts] ++ asCode after = code at hcode
  have hclosed : Enclosed code '\x7d' := ⟨rfl, hcode.holds, hcode.rise, hcode.faithful _⟩
  have hdrop : text.drop (start + 1) = codeText code ++ '\x7d' :: text.drop (stop + 1) := by
    rw [drop_eq_extract_append_of_le text hfront, htemplate,
      drop_eq_extract_append_of_le text hback, drop_eq_cons hstop, hbeforeText, hafterText,
      hcode.text_eq]
    simp
  have hvalue : text.drop start = '\x7b' :: (codeText code ++ '\x7d' :: text.drop (stop + 1)) := by
    rw [drop_eq_cons hstart, hdrop]
  have hslice := (extract_enclosed hvalue (length_sub_drop hlast).symm).2
  refine ⟨?_, parts, occurrencesIn line path code, hinner.symm, ?_, ?_, ?_⟩
  · rw [closingBracket?, hvalue, read_group (by decide) hclosed]
    simp only [length_sub_drop hlast]
  · have hsole : soleTemplate? code = some parts := by
      rw [soleTemplate?, ← hgeneral, List.append_assoc, trim_padded hbefore hafter]
      rfl
    rw [hvalue, readValue_braced, hclosed.read_eq]
    simp only [bracedOccurrences, hsole, if_true]
  · rw [hslice]
    exact interpret?_text (hcode.faithful none) line path
  · have hpieces := pieces_padded hbefore hafter 0 [.template parts]
    rw [pieces_template, hgeneral] at hpieces
    rw [contents_occurrencesIn, hpieces]
    exact contents_templateOccurrences line path _ parts

/-- A value that is a template, with blanks around it and a line feed inside. -/
def spacedTemplate : List Char := "class=\x7b \x60a\n$\x7bb\x7d\x60 \x7d".toList

set_option maxRecDepth 10000 in
theorem readValue_template_spacedTemplate :
    spacedTemplate[6]? = some '\x7b' ∧ spacedTemplate[8]? = some backtick
      ∧ closingQuote spacedTemplate 8 = .ok 15 ∧ spacedTemplate[17]? = some '\x7d'
      ∧ closingBracket? spacedTemplate 6 = .ok (some 17)
      ∧ readValue 1 "p" (spacedTemplate.drop 6)
        = .ok ([.named ⟨"a", 1, "p"⟩, .dynamic ⟨"b", 2, "p"⟩], [])
      ∧ ∃ general, interpret? (spacedTemplate.extract 7 17) 1 "p" = .ok general
        ∧ general.map Occurrence.content = [(.inl "a", "p"), (.inr "b", "p")] := by
  have hstart : spacedTemplate[6]? = some '\x7b' := by cbv
  have hopening : spacedTemplate[8]? = some backtick := by cbv
  have hclosing : closingQuote spacedTemplate 8 = .ok 15 := by cbv
  have hstop : spacedTemplate[17]? = some '\x7d' := by cbv
  have hread : readValue 1 "p" (spacedTemplate.drop 6)
      = .ok ([.named ⟨"a", 1, "p"⟩, .dynamic ⟨"b", 2, "p"⟩], []) := by
    cbv
  have hblanks : spacedTemplate.extract 7 8 = [' '] ∧ spacedTemplate.extract 16 17 = [' '] := by
    cbv
  have hbefore : ∀ c ∈ spacedTemplate.extract 7 8, isBlank c = true :=
    hblanks.1 ▸ List.forall_mem_singleton.mpr (by decide)
  have hafter : ∀ c ∈ spacedTemplate.extract 16 17, isBlank c = true :=
    hblanks.2 ▸ List.forall_mem_singleton.mpr (by decide)
  obtain ⟨hbracket, parts, general, -, htemplate, hgeneral, hcontents⟩ :=
    readValue_template spacedTemplate 6 8 15 17 hstart (by decide) hbefore hopening hclosing
      (by decide) hafter hstop 1 "p"
  rw [htemplate] at hread
  obtain ⟨hfound, -⟩ := Prod.mk.inj (Except.ok.inj hread)
  rw [hfound] at hcontents
  exact ⟨hstart, hopening, hclosing, hstop, hbracket, hread ▸ htemplate, general, hgeneral,
    hcontents.symm⟩

end StyleAudit
