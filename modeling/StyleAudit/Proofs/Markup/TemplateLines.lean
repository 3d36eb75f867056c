import StyleAudit.Proofs.Markup.Bounds
import StyleAudit.Proofs.Markup.Sites
import StyleAudit.Proofs.Markup.Template
import StyleAudit.Proofs.Text.WordPlaces

/-!
# Lines of class names in templates

A template names the same classes in every slot of a value in braces, but not on the same lines. A
class name of its own text is reported on the line where it stands if the template is alone in the
braces. In every other slot all of them are reported on the line where the template starts
(`template_gives`).
-/

namespace StyleAudit

/-- A template: a backtick, and the backtick that closes it at the end. -/
structure TemplateText where
  text : List Char
  opened : text[0]? = some backtick
  closed : closingQuote text 0 = .ok (text.length - 1)

namespace TemplateText

variable (template : TemplateText)

theorem exists_parts : ∃ parts : List Part,
    Faithful (.template parts (some backtick)) ∧ template.text = (Lexeme.template parts).text := by
  obtain ⟨-, hlt, parts, hparts, htext, -⟩ :=
    exists_parts_of_closingQuote template.opened template.closed
  have hback : template.text.drop (template.text.length - 1 + 1) = [] :=
    List.drop_eq_nil_of_le (by omega)
  rw [List.drop_zero, hback, List.append_nil] at htext
  exact ⟨parts, hparts, htext⟩

end TemplateText

/-- The class names in a stretch of text that starts at a position of a file: each is reported on
the line of the place that `reported` gives for its own. -/
def stretchOccurrences (file : List Char) (path : String) (reported : Nat → Nat) (start : Nat)
    (chars : List Char) : List Occurrence :=
  (wordPlaces chars).flatMap fun place =>
    classListAt (1 + lineFeeds (file.take (reported (start + place)))) path (wordAt chars place)

namespace Slot

/-- Where the quoted unit of a slot starts in a file. -/
def opening {dialect : Dialect} {path : String} (site : Site dialect path) (slot : Slot)
    (before : Tree.Blanks) : Nat :=
  (site.text ('\x7b' :: (slot.front ++ before.text))).length

/-- The place that is reported for a class name at `place`, in a template that starts at
`opening`. -/
def reported (opening place : Nat) : Slot → Nat
  | sole => place
  | _ => opening

end Slot

/-- The occurrences in a template, stretch by stretch. -/
def spanOccurrences (parts : List Part) (own : List Char → Nat → List Occurrence)
    (inHole : Code → Nat → List Occurrence) : List Occurrence :=
  (spans 0 [] parts).flatMap fun
    | .text chars start => own chars start
    | .hole code start => inHole code start

section Readings

variable (line : Int) (path : String) (parts : List Part)

/-- The occurrences in code that starts at a position of an expression with the given text. -/
def occurrencesFrom (text : List Char) (start : Nat) (code : Code) : List Occurrence :=
  (pieces start code).flatMap (Piece.occurrences line path text)

/-- They say what the code says by itself. -/
theorem contents_occurrencesFrom (line' : Int) (text : List Char) (start : Nat) (code : Code) :
    (occurrencesFrom line path text start code).map Occurrence.content
      = (occurrencesIn line' path code).map Occurrence.content := by
  rw [contents_occurrencesIn, ← contents_pieces path start code, occurrencesFrom,
    List.map_flatMap]
  exact List.flatMap_congr fun piece _ => contents_eq line path text piece

/-- A template that is read like any other expression: all its class names are on one line. -/
theorem flatMap_templatePieces (start : Nat) (text : List Char) :
    (templatePieces start parts).flatMap (Piece.occurrences line path text)
      = spanOccurrences parts (fun chars _ => classListAt line path chars) fun code place =>
        occurrencesFrom line path text (place + start) code := by
  have hspans := @spans_add start 0 [] (Nat.zero_le 0) parts
  rw [Nat.zero_add] at hspans
  rw [templatePieces_eq, hspans, List.flatMap_map, List.flatMap_assoc, spanOccurrences]
  refine List.flatMap_congr fun span _ => ?_
  cases span with
  | text chars place => exact List.flatMap_singleton _ _
  | hole code place => rfl

theorem spanOccurrences_congr (inHole : Code → Nat → List Occurrence)
    {own own' : List Char → Nat → List Occurrence}
    (h : ∀ chars start, .text chars start ∈ spans 0 [] parts → own chars start = own' chars start) :
    spanOccurrences parts own inHole = spanOccurrences parts own' inHole := by
  refine List.flatMap_congr fun span hspan => ?_
  cases span with
  | text chars start => exact h chars start hspan
  | hole code start => rfl

end Readings

section Places

variable {parts : List Part} {chars : List Char} {start : Nat}

/-- Where a stretch of text of a template stands in a file. -/
theorem take_of_mem_spans (h : .text chars start ∈ spans 0 [] parts) (front rest : List Char) :
    chars <+: (front ++ (Lexeme.template parts).text ++ rest).drop (front.length + 1 + start)
      ∧ ∀ place ≤ chars.length,
        (front ++ (Lexeme.template parts).text ++ rest).take (front.length + 1 + start + place)
          = front ++ backtick :: ((partsText parts).take start ++ chars.take place) := by
  obtain ⟨ahead, behind, htext, rfl⟩ := exists_text_of_mem_spans (Nat.zero_le 0) h
  simp only [List.reverse_nil, List.nil_append, List.length_nil, Nat.sub_zero, Nat.zero_add]
    at htext ⊢
  have hsplit : front ++ (Lexeme.template parts).text ++ rest
      = (front ++ backtick :: ahead) ++ (chars ++ (behind ++ backtick :: rest)) := by
    simp [Lexeme.text, htext]
  have hlength : front.length + 1 + ahead.length = (front ++ backtick :: ahead).length := by
    simp only [List.length_append, List.length_cons]
    omega
  rw [hsplit, hlength, htext]
  refine ⟨by simp, fun place hplace => ?_⟩
  rw [List.take_length_add_append, List.take_append_of_le_length hplace, List.append_assoc ahead,
    List.take_left]
  simp

/-- A class list that starts where its stretch does is on the lines of its words. -/
theorem classListFrom_eq_stretch (h : .text chars start ∈ spans 0 [] parts) (path : String)
    {line : Nat} {front : List Char} (hline : line = 1 + lineFeeds front) (rest : List Char) :
    classListFrom (line + lineFeeds ((partsText parts).take start)) path chars
      = stretchOccurrences (front ++ (Lexeme.template parts).text ++ rest) path (fun place => place)
        (front.length + 1 + start) chars := by
  rw [classListFrom_eq_flatMap, stretchOccurrences]
  refine List.flatMap_congr fun place hplace => ?_
  have hle : place ≤ chars.length := (List.mem_range.mp (List.mem_of_mem_filter hplace)).le
  rw [(take_of_mem_spans h front rest).2 place hle, lineFeeds_append, lineFeeds_cons_of_ne
    (by decide), lineFeeds_append, hline]
  congr 1
  omega

/-- A class list on one line is on the line of the place it is reported for. -/
theorem classListAt_eq_stretch (path : String) {line : Nat} {front : List Char}
    (hline : line = 1 + lineFeeds front) (rest : List Char) (start : Nat) (chars : List Char) :
    classListAt line path chars
      = stretchOccurrences (front ++ rest) path (fun _ => front.length) start chars := by
  rw [classListAt_eq_flatMap, stretchOccurrences, List.take_left, hline]
  rfl

end Places

section Slots

variable (line : Int) (path : String) {slot : Slot} (before after : Tree.Blanks) {parts : List Part}

/-- Alone in braces, a template is read stretch by stretch from its own lines. -/
theorem bracedOccurrences_sole :
    bracedOccurrences line path (Slot.sole.code before after (.template parts)) '\x7d'
      = spanOccurrences parts
        (fun chars start =>
          classListFrom (line + lineFeeds ((partsText parts).take start)) path chars)
        fun code start =>
          occurrencesIn (line + lineFeeds ((partsText parts).take start)) path code := by
  have hsole : soleTemplate? (Slot.sole.code before after (.template parts)) = some parts := by
    rw [soleTemplate?, Slot.trim_sole before after (by simp)]
  rw [bracedOccurrences, hsole]
  rfl

/-- In any other slot it is read as a part of the expression. -/
theorem bracedOccurrences_beside (hslot : slot ≠ .sole)
    (hparts : Faithful (.template parts (some backtick))) :
    bracedOccurrences line path (slot.code before after (.template parts)) '\x7d'
      = slot.withWords before after line path (Lexeme.template parts).text
        (spanOccurrences parts (fun chars _ => classListAt line path chars) fun code start =>
          occurrencesFrom line path (slot.text before after (Lexeme.template parts).text)
            (start + ((slot.front ++ before.text).length + 1)) code) := by
  have hprints := Prints.template hparts
  have hunit : ∀ c, Lexeme.template parts ≠ .char c := by simp
  have hnone := slot.soleTemplate?_code before after hunit fun h => absurd h hslot
  have hpieces (start : Nat) :
      slot.unitPieces start (.template parts) = templatePieces (start + 1) parts := by
    cases slot with
    | branch condition other => exact Tree.template_branchPieces start parts
    | _ => exact Tree.template_operandPieces start parts
  rw [bracedOccurrences, hnone, ← flatMap_templatePieces, ← hpieces]
  exact slot.occurrencesIn_code before after hprints hunit line path

end Slots

/-- Without a line feed in front of it, the quoted unit starts on the attribute's line. -/
theorem Site.line_opening {dialect : Dialect} {path : String} (site : Site dialect path)
    {slot : Slot} {before : Tree.Blanks} (hline : '\n' ∉ slot.front ++ before.text) :
    site.line = 1 + lineFeeds (site.text ('\x7b' :: (slot.front ++ before.text))) := by
  have hzero : lineFeeds (slot.front ++ before.text) = 0 := List.count_eq_zero.mpr hline
  have htext := site.text_append [] ('\x7b' :: (slot.front ++ before.text))
  rw [List.nil_append] at htext
  rw [site.line_eq, htext, lineFeeds_append, lineFeeds_cons_of_ne (by decide), hzero, Nat.add_zero]

/-- What is found in a template in braces, with the lines of its class names told by their places in
a file where the template stands behind `front`. -/
theorem exists_bracedOccurrences (path : String) {parts : List Part} {line : Nat}
    {front : List Char} (hparts : Faithful (.template parts (some backtick)))
    (hline : line = 1 + lineFeeds front) (rest : List Char) (slot : Slot)
    (before after : Tree.Blanks) :
    ∃ inHole : Code → Nat → List Occurrence,
      (∀ code start, (inHole code start).map Occurrence.content
        = (occurrencesIn line path code).map Occurrence.content)
      ∧ bracedOccurrences line path (slot.code before after (.template parts)) '\x7d'
        = slot.withWords before after line path (Lexeme.template parts).text
          (spanOccurrences parts (fun chars start => stretchOccurrences
            (front ++ (Lexeme.template parts).text ++ rest) path (slot.reported front.length)
            (front.length + 1 + start) chars) inHole) := by
  by_cases hslot : slot = .sole
  · subst hslot
    refine ⟨fun code start => occurrencesIn (line + lineFeeds ((partsText parts).take start)) path
      code, fun code start => ?_, ?_⟩
    · rw [contents_occurrencesIn, contents_occurrencesIn]
    · have hown (inHole : Code → Nat → List Occurrence) :=
        spanOccurrences_congr parts inHole fun chars start h =>
          classListFrom_eq_stretch h path hline rest
      rw [bracedOccurrences_sole, hown]
      simp only [Slot.withWords, Slot.ahead, Slot.behind, List.map_nil, List.nil_append,
        List.append_nil]
      rfl
  · have hreported : slot.reported front.length = fun _ => front.length := by
      cases slot with
      | sole => exact absurd rfl hslot
      | _ => rfl
    refine ⟨fun code start => occurrencesFrom line path
      (slot.text before after (Lexeme.template parts).text)
      (start + ((slot.front ++ before.text).length + 1)) code, fun code start => ?_, ?_⟩
    · exact contents_occurrencesFrom line path line _ _ code
    · have hown (inHole : Code → Nat → List Occurrence) :=
        spanOccurrences_congr parts inHole fun chars start _ =>
          classListAt_eq_stretch path hline ((Lexeme.template parts).text ++ rest)
            (front.length + 1 + start) chars
      rw [bracedOccurrences_beside line path before after hslot hparts, hreported, hown,
        List.append_assoc front]

/-- A template names the same classes in every slot of a value in braces. Those of its own text are
reported on their own lines if it is alone in the braces, and elsewhere on the line where it
starts. -/
theorem template_gives {dialect : Dialect} {path : String} (site : Site dialect path)
    (template : TemplateText) :
    ∃ parts : List Part, Code.ofText? template.text = .ok [.template parts]
      ∧ ∀ (slot : Slot) (before after : Tree.Blanks), '\n' ∉ slot.front ++ before.text →
        (∀ chars start, .text chars start ∈ spans 0 [] parts →
            chars <+: (site.text (slot.value before after template.text)).drop
              (slot.opening site before + 1 + start))
          ∧ ∃ inHole : Code → Nat → List Occurrence,
            (∀ code start, (inHole code start).map Occurrence.content
              = (occurrencesIn site.line path code).map Occurrence.content)
            ∧ site.Gives (slot.value before after template.text)
              (slot.withWords before after site.line path template.text
                (spanOccurrences parts (fun chars start => stretchOccurrences
                  (site.text (slot.value before after template.text)) path
                  (slot.reported (slot.opening site before))
                  (slot.opening site before + 1 + start) chars) inHole)) := by
  obtain ⟨parts, hparts, htext⟩ := template.exists_parts
  have hprints := Prints.template hparts
  have hcode := (hprints.faithful none).ofText?_text
  rw [Code.text, hprints.text_eq, ← htext] at hcode
  refine ⟨parts, hcode, fun slot before after hline => ?_⟩
  have hfile : site.text (slot.value before after (Lexeme.template parts).text)
      = site.text ('\x7b' :: (slot.front ++ before.text)) ++ (Lexeme.template parts).text
        ++ (after.text ++ slot.back ++ ['\x7d']) := by
    simp [Slot.value, Slot.text, Site.text]
  obtain ⟨inHole, hcontents, hfound⟩ := exists_bracedOccurrences path hparts
    (site.line_opening hline) (after.text ++ slot.back ++ ['\x7d']) slot before after
  have hgives := site.gives_braced (slot.prints before after hprints)
  rw [htext, hfile, Slot.opening]
  rw [hfound] at hgives
  exact ⟨fun chars start h => (take_of_mem_spans h _ _).1, inHole, hcontents, hgives⟩

/-- A template with a class name on each of two lines. -/
def twoLines : TemplateText where
  text := "\x60a\nb\x60".toList
  opened := by cbv
  closed := by cbv

theorem template_gives_twoLines :
    '\n' ∉ Slot.group.front ++ []
      ∧ secondParagraph.Gives (Slot.group.value ⟨[], nil_blank⟩ ⟨[], nil_blank⟩ twoLines.text)
        [.named ⟨"a", 2, "p"⟩, .named ⟨"b", 2, "p"⟩] := by
  have hline : '\n' ∉ Slot.group.front ++ [] := by decide
  obtain ⟨parts, hparts, hslots⟩ := template_gives secondParagraph twoLines
  obtain ⟨-, inHole, -, hgives⟩ := hslots .group ⟨[], nil_blank⟩ ⟨[], nil_blank⟩ hline
  have hread : Code.ofText? twoLines.text = .ok [.template [.char 'a', .char '\n', .char 'b']] := by
    cbv
  obtain rfl : [.char 'a', .char '\n', .char 'b'] = parts := by simpa [hread] using hparts
  refine ⟨hline, ?_⟩
  convert hgives using 1
  cbv

set_option maxRecDepth 10000 in
/-- The class name on the second line of a template in parentheses is reported on the first. Without
the parentheses it is reported where it stands. -/
theorem groupedTemplate_line :
    markupOccurrences? .html "<p class=\x7b(\x60a\nb\x60)\x7d>".toList "p"
        = .ok [.named ⟨"a", 1, "p"⟩, .named ⟨"b", 1, "p"⟩]
      ∧ "<p class=\x7b(\x60a\nb\x60)\x7d>".toList[14]? = some 'b'
      ∧ 1 + lineFeeds ("<p class=\x7b(\x60a\nb\x60)\x7d>".toList.take 14) = 2
      ∧ markupOccurrences? .html "<p class=\x7b\x60a\nb\x60\x7d>".toList "p"
        = .ok [.named ⟨"a", 1, "p"⟩, .named ⟨"b", 2, "p"⟩] := by
  refine ⟨?_, ?_, ?_, ?_⟩ <;> cbv

end StyleAudit
