import StyleAudit.Proofs.Code.Pass
import StyleAudit.Proofs.Expression.Layout
import StyleAudit.Proofs.Text.Words

/-!
# Pieces as spans of the source

The pieces of an expression are spans of its text, in order and without overlap (`Traced`). What a
piece shows is what stands in its span, up to blanks in place of comments and, for an operand, up to
quotes. So the occurrences of an expression hold no letter that is not in the expression, none of
them twice, and come in its order (`interpret?_traced`).
-/

namespace StyleAudit

/-! ## Showing a span -/

/-- A character shown for a character of the source: the same, or a space for a character of a
comment. Line feeds are shown as they are. -/
def Shows (shown : Char) (source : Char × Bool) : Prop :=
  shown = source.1 ∨ source.2 = true ∧ source.1 ≠ '\n' ∧ shown = ' '

theorem shows_self (tagged : List (Char × Bool)) :
    List.Forall₂ Shows (tagged.map (·.1)) tagged := by
  rw [List.forall₂_map_left_iff, List.forall₂_same]
  exact fun _ _ => .inl rfl

/-- Code with its comments blanked shows the code. -/
theorem shows_blanked (code : Code) :
    List.Forall₂ Shows (codeText code.blanked) (codeTagged code) := by
  induction code with
  | nil => exact .nil
  | cons lexeme code ih =>
    rw [codeText_blanked_cons, codeTagged]
    refine List.rel_append ?_ ih
    cases lexeme with
    | comment text =>
      show List.Forall₂ Shows (text.map _) (text.map _)
      rw [List.forall₂_map_left_iff, List.forall₂_map_right_iff, List.forall₂_same]
      intro c _
      split
      · exact .inl rfl
      · next hline => exact .inr ⟨rfl, hline, rfl⟩
    | char c => exact shows_self (Lexeme.char c).tagged
    | literal quote body =>
      have hself := shows_self (Lexeme.literal quote body).tagged
      rwa [Lexeme.map_fst_tagged] at hself
    | template parts =>
      have hself := shows_self (Lexeme.template parts).tagged
      rwa [Lexeme.map_fst_tagged] at hself

/-- What is shown without its blanks stands in the source. -/
theorem sublist_of_shows {shown : List Char} {tagged : List (Char × Bool)}
    (h : List.Forall₂ Shows shown tagged) :
    (shown.filter fun c => !isBlank c).Sublist (tagged.map (·.1)) := by
  induction h with
  | nil => exact List.Sublist.slnil
  | @cons c entry shown tagged hc _ ih =>
    rw [List.map_cons]
    rcases hc with rfl | ⟨-, -, rfl⟩
    · cases hblank : isBlank entry.1 with
      | true =>
        rw [List.filter_cons_of_neg (by simp [hblank])]
        exact ih.cons _
      | false =>
        rw [List.filter_cons_of_pos (by simp [hblank])]
        exact ih.cons_cons _
    · rw [List.filter_cons_of_neg (by decide)]
      exact ih.cons _

/-- What a piece has to do with the span it is taken from, by the rule that gives it. -/
def Source.Fits (span : List (Char × Bool)) (source : Source) : Prop :=
  match source.origin, source.piece with
  | .dynamic, .dynamic text _ => List.Forall₂ Shows text span
  | .branch, .literal text _ | .template, .literal text _ => span = untagged text
  | .operand, .literal text _ =>
    ∃ shown, List.Forall₂ Shows shown span ∧ text = shown.filter fun c => !isQuote c
  | _, _ => False

/-- A text with tags on the characters of its comments, and sources that are spans of it, one behind
the other. -/
structure Traced (tagged : List (Char × Bool)) (sources : List Source) : Prop where
  ordered : sources.Pairwise fun first second => first.stop ≤ second.piece.start
  within : ∀ source ∈ sources, source.piece.start ≤ source.stop ∧ source.stop ≤ tagged.length
  fits : ∀ source ∈ sources, source.Fits (tagged.extract source.piece.start source.stop)

theorem Stands.fits {stretch : List (Char × Bool)} {start : Nat} {source : Source}
    (h : Stands stretch start source) :
    source.piece.start = start ∧ source.stop = start + stretch.length ∧ source.Fits stretch := by
  cases h with
  | @dynamic slice _ _ _ _ _ start =>
    exact ⟨rfl, by rw [length_codeTagged], shows_blanked slice⟩
  | branch text start => exact ⟨rfl, by rw [length_untagged], rfl⟩
  | template text start => exact ⟨rfl, by rw [length_untagged], rfl⟩
  | @operand slice _ start =>
    exact ⟨rfl, by rw [length_codeTagged], _, shows_blanked slice, rfl⟩

section Layout

variable {text : List (Char × Bool)} {start : Nat} {sources : List Source}

theorem Layout.bounds {source : Source} (h : Layout text start sources) (hmem : source ∈ sources) :
    start ≤ source.piece.start ∧ source.piece.start ≤ source.stop
      ∧ source.stop ≤ start + text.length := by
  obtain ⟨front, stretch, back, rfl, hstands⟩ := h.exists_of_mem hmem
  obtain ⟨hstart, hstop, -⟩ := hstands.fits
  simp only [List.length_append]
  omega

theorem Layout.ordered (h : Layout text start sources) :
    sources.Pairwise fun first second => first.stop ≤ second.piece.start := by
  induction h with
  | none => exact .nil
  | one => exact List.pairwise_singleton _ _
  | append ha hb iha ihb =>
    rw [List.pairwise_append]
    refine ⟨iha, ihb, fun first hfirst second hsecond => ?_⟩
    exact (ha.bounds hfirst).2.2.trans (hb.bounds hsecond).1

/-- Sources that lie in a text are spans of it. -/
theorem Layout.traced (h : Layout text 0 sources) : Traced text sources where
  ordered := h.ordered
  within := fun source hmem => by
    obtain ⟨-, hle, hstop⟩ := h.bounds hmem
    exact ⟨hle, by omega⟩
  fits := fun source hmem => by
    obtain ⟨front, stretch, back, rfl, hstands⟩ := h.exists_of_mem hmem
    obtain ⟨hstart, hstop, hfits⟩ := hstands.fits
    have hextract :
        (front ++ stretch ++ back).extract source.piece.start source.stop = stretch := by
      rw [hstop, hstart, Nat.zero_add, List.append_assoc, List.extract_eq_take_drop, List.drop_left,
        Nat.add_sub_cancel_left, List.take_left]
    rwa [hextract]

end Layout

/-! ## The letters of occurrences -/

/-- The characters of an occurrence that are no blanks: those of a class name, or those of a dynamic
expression. -/
def Occurrence.letters : Occurrence → List Char
  | .named occurrence => occurrence.name.toList
  | .dynamic occurrence => occurrence.text.toList.filter fun c => !isBlank c

/-- The letters of the occurrences that a piece gives. -/
def Piece.letters : Piece → List Char
  | .literal text _ => ((words text).map className).flatten
  | .dynamic text _ => text.filter fun c => !isBlank c

theorem flatMap_letters_classListAt (line : Int) (path : String) (text : List Char) :
    (classListAt line path text).flatMap Occurrence.letters
      = ((words text).map className).flatten := by
  rw [classListAt, List.flatMap_map, classNames]
  induction (words text).map className with
  | nil => rfl
  | cons name names ih =>
    cases name with
    | nil => simpa using ih
    | cons c name => simpa [Occurrence.letters] using ih

theorem flatMap_letters (line : Int) (path : String) (text : List Char) (piece : Piece) :
    (piece.occurrences line path text).flatMap Occurrence.letters = piece.letters := by
  cases piece with
  | literal chars start => exact flatMap_letters_classListAt line path chars
  | dynamic chars start =>
    rw [Piece.occurrences, List.flatMap_singleton, Occurrence.letters, String.toList_ofList,
      filter_collapse]
    rfl

/-- The names in a text are made of its characters. -/
theorem sublist_classNames (text : List Char) :
    ((words text).map className).flatten.Sublist (text.filter fun c => !isBlank c) := by
  have hname : ∀ word : List Char, (className word).Sublist word := by
    intro word
    unfold className
    split
    · exact List.sublist_cons_self _ _
    · exact List.Sublist.refl _
  rw [← flatten_words]
  induction words text with
  | nil => exact List.Sublist.slnil
  | cons word found ih => exact (hname word).append ih

theorem Source.Fits.letters_sublist {source : Source} {span : List (Char × Bool)}
    (h : source.Fits span) : source.piece.letters.Sublist (span.map (·.1)) := by
  obtain ⟨origin, piece, stop⟩ := source
  cases piece with
  | dynamic text start =>
    cases origin with
    | dynamic => exact sublist_of_shows h
    | _ => cases h
  | literal text start =>
    have hnames := sublist_classNames text
    cases origin with
    | dynamic => cases h
    | branch =>
      obtain rfl : span = untagged text := h
      rw [map_fst_untagged]
      exact hnames.trans List.filter_sublist
    | template =>
      obtain rfl : span = untagged text := h
      rw [map_fst_untagged]
      exact hnames.trans List.filter_sublist
    | operand =>
      obtain ⟨shown, hshown, rfl⟩ := h
      -- the letters of the operand are letters of what is shown
      have hfilter := (List.filter_sublist (l := shown) (p := fun c => !isQuote c)).filter
        (fun c => !isBlank c)
      exact (hnames.trans hfilter).trans (sublist_of_shows hshown)

theorem Layout.letters_sublist {text : List (Char × Bool)} {start : Nat} {sources : List Source}
    (h : Layout text start sources) :
    (sources.flatMap fun source => source.piece.letters).Sublist (text.map (·.1)) := by
  induction h with
  | none => exact List.nil_sublist _
  | one h =>
    rw [List.flatMap_singleton]
    exact h.fits.2.2.letters_sublist
  | append _ _ iha ihb =>
    rw [List.flatMap_append, List.map_append]
    exact iha.append ihb

/-- The pieces of an expression are spans of its text, each from the position of the piece on. The
occurrences are those of the pieces in this order, and their letters, one behind the other, are
characters of the expression in its own order. -/
theorem interpret?_traced (expression : List Char) (line : Int) (path : String)
    (found : List Occurrence) (h : interpret? expression line path = .ok found) :
    ∃ code sources, Code.ofText? expression = .ok code
      ∧ (codeTagged code).map (·.1) = expression
      ∧ sources = (Stage.expression code).sources 0
      ∧ sources.map Source.piece = pieces 0 code
      ∧ Traced (codeTagged code) sources
      ∧ found = sources.flatMap (fun source => source.piece.occurrences line path expression)
      ∧ (∀ source ∈ sources,
        ((source.piece.occurrences line path expression).flatMap Occurrence.letters).Sublist
          (expression.extract source.piece.start source.stop))
      ∧ (found.flatMap Occurrence.letters).Sublist expression := by
  rw [interpret?] at h
  cases hread : Code.ofText? expression with
  | error unit => simp [hread] at h
  | ok code =>
    obtain ⟨rfl, hcode⟩ := ofText?_eq_ok hread
    rw [hread] at h
    have hpieces := (Stage.expression code).map_piece_sources 0
    have hlayout := sources_layout 0 hcode
    have hfound : found = ((Stage.expression code).sources 0).flatMap fun source =>
        source.piece.occurrences line path (codeText code) := by
      rw [← Except.ok.inj h, occurrencesIn]
      show List.flatMap _ ((Stage.expression code).pieces 0) = _
      rw [← hpieces, List.flatMap_map]
    refine ⟨code, _, rfl, map_fst_codeTagged code, rfl, hpieces, hlayout.traced, hfound, ?_, ?_⟩
    · intro source hmem
      have hfits := (hlayout.traced.fits source hmem).letters_sublist
      rw [flatMap_letters, ← map_fst_codeTagged code]
      rwa [List.extract_eq_take_drop, List.map_take, List.map_drop, ← List.extract_eq_take_drop]
        at hfits
    · have hletters := hlayout.letters_sublist
      rw [map_fst_codeTagged] at hletters
      rw [hfound, List.flatMap_assoc]
      simpa only [flatMap_letters] using hletters

/-- A conditional with a literal, an operand that holds a quote and a comment, and a template with a
sum of two dynamic operands in its hole. -/
def tracedChoice : List Char := "x?'a':('b'/**/g+\x60c$\x7bd /*'*/+f\x7d\x60)".toList

/-- The occurrences of that conditional. -/
def tracedOccurrences : List Occurrence :=
  [.named ⟨"a", 1, "p"⟩, .named ⟨"b", 1, "p"⟩, .named ⟨"g", 1, "p"⟩, .named ⟨"c", 1, "p"⟩,
    .dynamic ⟨"d", 1, "p"⟩, .dynamic ⟨"f", 1, "p"⟩]

set_option maxRecDepth 10000 in
theorem interpret?_traced_tracedChoice :
    interpret? tracedChoice 1 "p" = .ok tracedOccurrences
      ∧ (∃ code sources, Code.ofText? tracedChoice = .ok code ∧ Traced (codeTagged code) sources
        ∧ sources.map Source.piece = pieces 0 code
        ∧ tracedOccurrences
          = sources.flatMap fun source => source.piece.occurrences 1 "p" tracedChoice)
      ∧ (tracedOccurrences.flatMap Occurrence.letters).Sublist tracedChoice := by
  have hfound : interpret? tracedChoice 1 "p" = .ok tracedOccurrences := by cbv
  obtain ⟨code, sources, hread, -, -, hpieces, htraced, hoccurrences, -, hletters⟩ :=
    interpret?_traced tracedChoice 1 "p" tracedOccurrences hfound
  exact ⟨hfound, ⟨code, sources, hread, htraced, hpieces, hoccurrences⟩, hletters⟩

end StyleAudit
