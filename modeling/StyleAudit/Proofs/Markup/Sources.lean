import StyleAudit.Proofs.Expression.Layout
import StyleAudit.Proofs.Markup.Failure

/-!
# Where the occurrences in markup come from

An occurrence is found in the value of one attribute: a list of class names in quotes, or code in
braces (`exists_value_of_mem_scanMarkup`, `readValue_eq_ok`). A dynamic expression is shown as a
slice of that code, which starts at a character that is no blank (`ShownIn`).

The line of a dynamic expression is counted from two places at once. The line of the attribute's
name is taken, and the line feeds from behind the opening brace on are added, or from behind the
backtick of a template that is all there is in the braces. What lies between those places is left
out, so the line is that of the slice if no line feed lies there (`markupOccurrences?_dynamic`), and
too low otherwise (`gappedMarkup_line`).
-/

namespace StyleAudit

/-! ## The values of attributes -/

/-- Every occurrence that a scan finds is found in the value of an attribute, read on the line that
the attribute starts on. -/
theorem exists_value_of_mem_scanMarkup {dialect : Dialect} {path : String} {line : Nat}
    {before : Option Char} {skip : Nat} {text : List Char} {found : List Occurrence}
    {occurrence : Occurrence} (h : scanMarkup dialect path line before skip text = .ok found)
    (hmem : occurrence ∈ found) :
    ∃ front tail value here behind, text = front ++ tail
      ∧ valueText? dialect (front.getLast?.or before) tail = some value
      ∧ readValue (line + lineFeeds front : Nat) path value = .ok (here, behind)
      ∧ occurrence ∈ here := by
  induction text generalizing line before skip found with
  | nil =>
    obtain rfl : [] = found := Except.ok.inj h
    simp at hmem
  | cons c rest ih =>
    -- an attribute further on starts as many lines down as there are line feeds in between
    have later : ∀ {skip : Nat} {found : List Occurrence},
        scanMarkup dialect path (line + lineFeeds [c]) (some c) skip rest = .ok found →
        occurrence ∈ found → ∃ front tail value here behind, c :: rest = front ++ tail
          ∧ valueText? dialect (front.getLast?.or before) tail = some value
          ∧ readValue (line + lineFeeds front : Nat) path value = .ok (here, behind)
          ∧ occurrence ∈ here := by
      intro skip found h hmem
      obtain ⟨front, tail, value, here, behind, rfl, hvalue, hread, hhere⟩ := ih h hmem
      refine ⟨c :: front, tail, value, here, behind, rfl, ?_, ?_, hhere⟩
      · rw [← hvalue, getLast?_cons_or]
      · rwa [lineFeeds_cons c front, ← Nat.add_assoc]
    cases skip with
    | succ skip =>
      rw [scanMarkup_skip] at h
      exact later h hmem
    | zero =>
      cases hvalue : valueText? dialect before (c :: rest) with
      | none =>
        rw [scanMarkup_pass hvalue] at h
        exact later h hmem
      | some value =>
        cases hread : readValue line path value with
        | error unit => simp [scanMarkup_stop hvalue hread] at h
        | ok entry =>
          obtain ⟨here, behind⟩ := entry
          rw [scanMarkup_value hvalue hread] at h
          cases hmore : scanMarkup dialect path (line + lineFeeds [c]) (some c)
              (rest.length - behind.length) rest with
          | error fault => simp [hmore, Except.map] at h
          | ok more =>
            obtain rfl : here ++ more = found := by simpa [hmore, Except.map] using h
            rcases List.mem_append.mp hmem with hhere | hhere
            · exact ⟨[], c :: rest, value, here, behind, rfl, hvalue, hread, hhere⟩
            · exact later hmore hhere

/-- A value in which occurrences are found is a class list between quotes or code in braces. -/
theorem readValue_eq_ok {line : Int} {path : String} {value behind : List Char}
    {here : List Occurrence} (h : readValue line path value = .ok (here, behind)) :
    here = []
      ∨ (∃ mark names, IsPlainQuote mark ∧ value = mark :: (names ++ mark :: behind)
        ∧ here = classListAt line path names)
      ∨ ∃ code closer, Enclosed code closer ∧ value = '\x7b' :: (codeText code ++ closer :: behind)
        ∧ here = bracedOccurrences line path code closer := by
  cases value with
  | nil =>
    exact .inl (Prod.mk.inj (Except.ok.inj h)).1.symm
  | cons mark rest =>
    by_cases hmark : IsPlainQuote mark
    · by_cases hrest : mark ∈ rest
      · obtain ⟨names, tail, rfl, hnames⟩ := List.eq_append_cons_of_mem hrest
        rw [readValue_list hmark hnames] at h
        obtain ⟨rfl, rfl⟩ := Prod.mk.inj (Except.ok.inj h)
        exact .inr (.inl ⟨mark, names, hmark, rfl, rfl⟩)
      · rw [readValue_openList hmark hrest] at h
        exact .inl (Prod.mk.inj (Except.ok.inj h)).1.symm
    by_cases hbrace : mark = '\x7b'
    · subst hbrace
      rw [readValue_braced] at h
      split at h
      · next code closer tail hread =>
        obtain ⟨rfl, hfaithful, hholds, hraise, hclose⟩ := read_eq_closed (by simp) hread
        obtain ⟨rfl, rfl⟩ := Prod.mk.inj (Except.ok.inj h)
        have hrise : code.rise = 0 := by
          have hone : 1 + code.rise = 1 := by simpa [Extent.raise] using hraise
          omega
        exact .inr (.inr ⟨code, closer, ⟨hclose, hholds, hrise, hfaithful⟩, rfl, rfl⟩)
      · exact .inl (Prod.mk.inj (Except.ok.inj h)).1.symm
      · cases h
    · rw [readValue_other hmark hbrace] at h
      exact .inl (Prod.mk.inj (Except.ok.inj h)).1.symm

/-! ## Dynamic expressions -/

/-- A dynamic expression is the slice of a text that it is shown as: the words of the slice, the
comments blanked, and the line the slice starts on if the text starts on `line`. -/
def DynamicOccurrence.ShownIn (occurrence : DynamicOccurrence) (line : Int) (path : String)
    (text : List Char) : Prop :=
  ∃ (front : List Char) (slice : Code) (rest : List Char) (c : Char),
    text = front ++ codeText slice ++ rest ∧ Faithful (.code slice none) ∧ isBlank c = false
      ∧ (codeText slice).head? = some c ∧ (codeText slice.blanked).head? = some c
      ∧ occurrence
        = ⟨String.ofList (collapse slice.blanked.text), line + lineFeeds front, path⟩

section Dynamic

variable {occurrence : DynamicOccurrence} {line : Int} {path : String}

/-- Text on both sides, the line of the whole further up. -/
theorem DynamicOccurrence.ShownIn.within {text : List Char} (before after : List Char)
    (h : occurrence.ShownIn (line + lineFeeds before) path text) :
    occurrence.ShownIn line path (before ++ text ++ after) := by
  obtain ⟨front, slice, rest, c, rfl, hfaithful, hblank, hsource, hshown, rfl⟩ := h
  refine ⟨before ++ front, slice, rest ++ after, c, by simp, hfaithful, hblank, hsource, hshown, ?_⟩
  rw [lineFeeds_append, Int.natCast_add, Int.add_assoc]

theorem dynamic_not_mem_classListAt (text : List Char) :
    .dynamic occurrence ∉ classListAt line path text := by
  simp [classListAt]

theorem shownIn_of_mem_occurrencesIn {code : Code} (hfaithful : Faithful (.code code none))
    (hmem : .dynamic occurrence ∈ occurrencesIn line path code) :
    occurrence.ShownIn line path code.text := by
  obtain ⟨piece, hpiece, hfound⟩ := List.mem_flatMap.mp hmem
  cases piece with
  | literal chars start => exact absurd hfound (dynamic_not_mem_classListAt chars)
  | dynamic chars start =>
    obtain ⟨front, slice, rest, c, htext, hslice, hblank, hsource, hshown, rfl, rfl⟩ :=
      exists_slice_of_dynamic_mem hfaithful hpiece
    refine ⟨front, slice, rest, c, htext, hslice, hblank, hsource, hshown, ?_⟩
    have htake : code.text.take front.length = front := by
      rw [Code.text, htext, List.append_assoc, List.take_left]
    rw [Piece.occurrences, htake, List.mem_singleton] at hfound
    exact Occurrence.dynamic.inj hfound

theorem shownIn_of_mem_templateOccurrences {parts : List Part}
    (hparts : Faithful (.template parts (some backtick)))
    (hmem : .dynamic occurrence ∈ templateOccurrences line path parts) :
    occurrence.ShownIn line path (partsText parts) := by
  obtain ⟨span, hspan, hfound⟩ := List.mem_flatMap.mp hmem
  cases span with
  | text chars start =>
    obtain ⟨entry, -, hentry⟩ := List.mem_flatMap.mp hfound
    exact absurd hentry (dynamic_not_mem_classListAt entry.1)
  | hole code start =>
    obtain ⟨closer, behind, hhole, hdrop⟩ := drop_code_of_mem_spans hspan
    have hcode := (enclosed_of_hole hparts hhole).faithful.at_end
    have hshown := (shownIn_of_mem_occurrencesIn hcode hfound).within _ (closer :: behind)
    rwa [Code.text, List.append_assoc, ← hdrop, List.take_append_drop] at hshown

/-- How many characters in the braces of a value are passed before line feeds are counted: in a
template that is all there is, the blanks in front of it and its backtick. -/
def uncounted (code : Code) (closer : Char) : Nat :=
  if (soleTemplate? code).isSome ∧ closer = '\x7d' then code.lead.width + 1 else 0

theorem exists_text_of_soleTemplate? {code : Code} {parts : List Part}
    (h : soleTemplate? code = some parts) : ∃ before after : List Char,
      before.length = code.lead.width
        ∧ codeText code = before ++ [backtick] ++ partsText parts ++ (backtick :: after) := by
  unfold soleTemplate? at h
  split at h
  · next htrim =>
    obtain rfl := Option.some.inj h
    obtain ⟨before, after, -, -, hlead, hcode⟩ := exists_padding code
    refine ⟨before, after, by rw [hlead, width_asCode], ?_⟩
    have htext := congrArg codeText hcode
    rw [htrim, codeText_append, codeText_append, codeText_asCode, codeText_asCode] at htext
    rw [htext]
    simp [codeText, Lexeme.text]
  · cases h

/-- A dynamic expression in braces is shown in the part of the code that line feeds are counted
in. -/
theorem exists_shownIn_of_mem_bracedOccurrences {code : Code} {closer : Char}
    (henclosed : Enclosed code closer)
    (hmem : .dynamic occurrence ∈ bracedOccurrences line path code closer) :
    ∃ before inside after, codeText code = before ++ inside ++ after
      ∧ before.length = uncounted code closer ∧ occurrence.ShownIn line path inside := by
  have hfaithful := henclosed.faithful.at_end
  have whole : .dynamic occurrence ∈ occurrencesIn line path code → uncounted code closer = 0 →
      ∃ before inside after, codeText code = before ++ inside ++ after
        ∧ before.length = uncounted code closer ∧ occurrence.ShownIn line path inside := by
    intro hmem hzero
    refine ⟨[], codeText code, [], by simp, hzero.symm, ?_⟩
    exact shownIn_of_mem_occurrencesIn hfaithful hmem
  unfold bracedOccurrences at hmem
  split at hmem
  · next parts hsole =>
    split at hmem
    · next hcloser =>
      obtain ⟨before, after, hlength, htext⟩ := exists_text_of_soleTemplate? hsole
      refine ⟨before ++ [backtick], partsText parts, backtick :: after, htext, ?_, ?_⟩
      · simp [uncounted, hsole, hcloser, hlength]
      · exact shownIn_of_mem_templateOccurrences (sound_of_soleTemplate? hfaithful hsole) hmem
    · next hcloser => exact whole hmem (by simp [uncounted, hcloser])
  · next hsole => exact whole hmem (by simp [uncounted, hsole])

end Dynamic

/-! ## Lines of dynamic expressions -/

/-- A class attribute in a text: its name starts at the position `name`, and its value is code in
braces, the first of them at the position `value`. -/
structure BracedAttribute (dialect : Dialect) (text : List Char) (name value : Nat) (code : Code)
    (closer : Char) : Prop where
  found : valueText? dialect (text.take name).getLast? (text.drop name) = some (text.drop value)
  opened : text[value]? = some '\x7b'
  closed : ∃ behind,
    read (.code ⟨.bracket 1, []⟩ []) (text.drop (value + 1)) = .closed code closer behind

theorem bracedAttribute_append {dialect : Dialect} {front gap behind : List Char} {code : Code}
    {closer : Char} (henclosed : Enclosed code closer)
    (hvalue : valueText? dialect front.getLast?
        (gap ++ '\x7b' :: (codeText code ++ closer :: behind))
      = some ('\x7b' :: (codeText code ++ closer :: behind))) :
    BracedAttribute dialect (front ++ (gap ++ '\x7b' :: (codeText code ++ closer :: behind)))
      front.length (front.length + gap.length) code closer where
  found := by
    rw [List.take_left, List.drop_left, hvalue, ← List.append_assoc, ← List.length_append,
      List.drop_left]
  opened := by
    rw [← List.append_assoc, ← List.length_append]
    simp
  closed := by
    have hdrop : (front ++ (gap ++ '\x7b' :: (codeText code ++ closer :: behind))).drop
        (front.length + gap.length + 1) = codeText code ++ closer :: behind := by
      rw [← List.append_assoc, ← List.length_append, ← List.tail_drop, List.drop_left,
        List.tail_cons]
    exact ⟨behind, by rw [hdrop, henclosed.read_eq]⟩

theorem extract_append_left (a b c : List Char) :
    (a ++ b ++ c).extract a.length (a.length + b.length) = b := by
  rw [List.extract_eq_take_drop, List.append_assoc, List.drop_left, Nat.add_sub_cancel_left,
    List.take_left]

/-- Every dynamic expression in markup is a slice of the code in the braces of a class attribute,
which starts at the position `place` with a character that is no blank. Its line is the line of
that position, less the line feeds that lie between the attribute's name and the first character
that is counted: the one behind the opening brace, or behind the backtick of a template that is all
there is in the braces. -/
theorem markupOccurrences?_dynamic (dialect : Dialect) (text : List Char) (path : String)
    (found : List Occurrence) (h : markupOccurrences? dialect text path = .ok found)
    (occurrence : DynamicOccurrence) (hmem : .dynamic occurrence ∈ found) :
    ∃ (name value : Nat) (code : Code) (closer : Char) (place last : Nat) (slice : Code) (c : Char),
      BracedAttribute dialect text name value code closer
        ∧ value + 1 + uncounted code closer ≤ place ∧ place < last
        ∧ last ≤ value + 1 + code.width
        ∧ Code.ofText? (text.extract place last) = .ok slice
        ∧ text[place]? = some c ∧ slice.blanked.text.head? = some c ∧ isBlank c = false
        ∧ occurrence.text = String.ofList (collapse slice.blanked.text) ∧ occurrence.path = path
        ∧ occurrence.line
            + lineFeeds (text.extract name (value + 1 + uncounted code closer))
          = 1 + lineFeeds (text.take place) := by
  obtain ⟨front, tail, value, here, behind, rfl, hvalue, hread, hhere⟩ :=
    exists_value_of_mem_scanMarkup h hmem
  rcases readValue_eq_ok hread with rfl | ⟨mark, names, -, -, rfl⟩ | ⟨code, closer, henclosed, rfl,
    rfl⟩
  · simp at hhere
  · exact absurd hhere (dynamic_not_mem_classListAt names)
  obtain ⟨gap, rfl⟩ := valueText?_suffix hvalue
  obtain ⟨before, inside, after, htext, hlength, ahead, slice, rest, c, rfl, hslice, hblank,
    hsource, hshown, rfl⟩ := exists_shownIn_of_mem_bracedOccurrences henclosed hhere
  rw [Option.or_none] at hvalue
  -- the text up to the first character counted, up to the slice, the slice, and the rest
  have hwhole : front ++ (gap ++ '\x7b' :: (codeText code ++ closer :: behind))
      = front ++ (gap ++ '\x7b' :: before) ++ ahead ++ codeText slice
        ++ (rest ++ after ++ closer :: behind) := by
    rw [htext]
    simp
  have hanchor : front.length + gap.length + 1 + before.length
      = front.length + (gap ++ '\x7b' :: before).length := by
    simp only [List.length_append, List.length_cons]
    omega
  have hwidth := congrArg List.length htext
  obtain ⟨source, hhead⟩ := List.head?_eq_some_iff.mp hsource
  have hpos : 0 < slice.width := by simp [Code.width, hhead]
  refine ⟨front.length, front.length + gap.length, code, closer,
    (front ++ (gap ++ '\x7b' :: before) ++ ahead).length,
    (front ++ (gap ++ '\x7b' :: before) ++ ahead).length + slice.width, slice, c,
    bracedAttribute_append henclosed hvalue, ?_, by omega, ?_, ?_, ?_, hshown, hblank, rfl, rfl, ?_⟩
  · rw [← hlength, hanchor]
    simp
  · simp only [List.length_append, List.length_cons, Code.width] at hwidth ⊢
    omega
  · rw [hwhole, Code.width, extract_append_left]
    exact hslice.ofText?_text
  · rw [hwhole, hhead]
    simp
  · have htake : (front ++ (gap ++ '\x7b' :: (codeText code ++ closer :: behind))).take
        (front ++ (gap ++ '\x7b' :: before) ++ ahead).length
          = front ++ (gap ++ '\x7b' :: before) ++ ahead := by
      rw [hwhole, List.append_assoc _ (codeText slice), List.take_left]
    have hgap : (front ++ (gap ++ '\x7b' :: (codeText code ++ closer :: behind))).extract
        front.length (front.length + (gap ++ '\x7b' :: before).length)
          = gap ++ '\x7b' :: before := by
      rw [hwhole, List.append_assoc _ ahead, List.append_assoc _ (ahead ++ _), extract_append_left]
    rw [← hlength, hanchor, htake, hgap]
    simp only [lineFeeds_append]
    omega

/-- Markup with a line feed between the brace of a value and the template in it. -/
def gappedMarkup : List Char := "<p class=\x7b\n\x60$\x7bx\x7d\x60\x7d>".toList

set_option maxRecDepth 10000 in
theorem markupOccurrences?_dynamic_gappedMarkup :
    markupOccurrences? .html gappedMarkup "p" = .ok [.dynamic ⟨"x", 1, "p"⟩]
      ∧ ∃ (name value : Nat) (code : Code) (closer : Char) (place : Nat) (c : Char),
        BracedAttribute .html gappedMarkup name value code closer
          ∧ gappedMarkup[place]? = some c ∧ isBlank c = false
          ∧ (1 : Int) + lineFeeds (gappedMarkup.extract name (value + 1 + uncounted code closer))
            = 1 + lineFeeds (gappedMarkup.take place) := by
  have hfound : markupOccurrences? .html gappedMarkup "p" = .ok [.dynamic ⟨"x", 1, "p"⟩] := by
    cbv
  obtain ⟨name, value, code, closer, place, -, -, c, hattribute, -, -, -, -, hplace, -, hblank, -,
    -, hlines⟩ := markupOccurrences?_dynamic .html gappedMarkup "p" _ hfound ⟨"x", 1, "p"⟩
      List.mem_cons_self
  exact ⟨hfound, name, value, code, closer, place, c, hattribute, hplace, hblank, hlines⟩

set_option maxRecDepth 10000 in
/-- The line feed in front of the template is not counted: the expression is reported on the first
line and stands on the second. -/
theorem gappedMarkup_line :
    markupOccurrences? .html gappedMarkup "p" = .ok [.dynamic ⟨"x", 1, "p"⟩]
      ∧ ∀ place, gappedMarkup[place]? = some 'x' → 1 + lineFeeds (gappedMarkup.take place) = 2 := by
  have hplaces : ∀ place < gappedMarkup.length, gappedMarkup[place]? = some 'x' →
      1 + lineFeeds (gappedMarkup.take place) = 2 := by
    decide +kernel
  refine ⟨by cbv, ?_⟩
  intro place hplace
  exact hplaces place (List.getElem?_eq_some_iff.mp hplace).1 hplace

end StyleAudit
