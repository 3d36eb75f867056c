import StyleAudit.Proofs.Code.Pass
import StyleAudit.Proofs.Expression.Equations
import StyleAudit.Proofs.Expression.Stages
import StyleAudit.Proofs.Markup.Scan

/-!
# When markup cannot be read

The scan for attributes fails for one reason, a quote that nothing closes, and the line it reports
is the line of such a quote (`scanMarkup_eq_error`). Once the bracket that closes a value is
found, nothing in the value can fail any more: its code reads back from its own text, and so does
every slice that is taken of it later on (`Stage.rereads_of_reached`).
-/

namespace StyleAudit

theorem readValue_eq_error {line : Int} {path : String} {value unit : List Char}
    (h : readValue line path value = .error unit) : unit <:+ value ∧ OpenQuote unit := by
  cases value with
  | nil => cases h
  | cons mark rest =>
    by_cases hmark : IsPlainQuote mark
    · by_cases hrest : mark ∈ rest
      · obtain ⟨names, behind, rfl, hnames⟩ := List.eq_append_cons_of_mem hrest
        simp [readValue_list hmark hnames] at h
      · simp [readValue_openList hmark hrest] at h
    by_cases hbrace : mark = '\x7b'
    · subst hbrace
      rw [readValue_braced] at h
      split at h
      · cases h
      · cases h
      · next unit' hread =>
        obtain rfl : unit' = unit := by simpa using h
        obtain ⟨code, text, rfl, -, -, hunit⟩ := read_eq_openQuote (by simp) hread
        obtain ⟨hsuffix, hunclosed, hstarts⟩ := hunit.innermost
        refine ⟨hsuffix.trans ?_, hunclosed, hstarts⟩
        exact ⟨'\x7b' :: codeText code, by simp⟩
    · simp [readValue_other hmark hbrace] at h

/-- A scan that fails names the line of an open quote in its text. -/
theorem scanMarkup_eq_error {dialect : Dialect} {path : String} {line : Nat}
    {before : Option Char} {skip : Nat} {text : List Char} {fault : MalformedExpression}
    (h : scanMarkup dialect path line before skip text = .error fault) :
    ∃ front unit, text = front ++ unit ∧ OpenQuote unit
      ∧ fault = ⟨.attribute, line + lineFeeds front, path⟩ := by
  induction text generalizing line before skip with
  | nil => cases h
  | cons c rest ih =>
    -- an open quote further on is as many line feeds away as there are in between
    have later : ∀ {before : Option Char} {skip : Nat},
        scanMarkup dialect path (line + lineFeeds [c]) before skip rest = .error fault →
        ∃ front unit, c :: rest = front ++ unit ∧ OpenQuote unit
          ∧ fault = ⟨.attribute, line + lineFeeds front, path⟩ := by
      intro before skip h
      obtain ⟨front, unit, rfl, hopen, rfl⟩ := ih h
      refine ⟨c :: front, unit, rfl, hopen, ?_⟩
      rw [lineFeeds_cons c front, Int.natCast_add, Int.natCast_add, Int.add_assoc]
    cases skip with
    | succ skip => exact later (by rwa [scanMarkup_skip] at h)
    | zero =>
      cases hvalue : valueText? dialect before (c :: rest) with
      | none => exact later (by rwa [scanMarkup_pass hvalue] at h)
      | some value =>
        cases hread : readValue line path value with
        | ok entry =>
          obtain ⟨found, behind⟩ := entry
          rw [scanMarkup_value hvalue hread] at h
          cases hmore : scanMarkup dialect path (line + lineFeeds [c]) (some c)
              (rest.length - behind.length) rest with
          | ok more => simp [hmore, Except.map] at h
          | error fault' =>
            obtain rfl : fault' = fault := by simpa [hmore, Except.map] using h
            exact later hmore
        | error unit =>
          rw [scanMarkup_stop hvalue hread] at h
          obtain ⟨hsuffix, hopen⟩ := readValue_eq_error hread
          obtain ⟨front, hsplit⟩ := hsuffix.trans (valueText?_suffix hvalue)
          refine ⟨front, unit, hsplit.symm, hopen, ?_⟩
          rw [← hsplit, List.length_append, Nat.add_sub_cancel, List.take_left] at h
          simpa using h.symm

/-! ## Values that are closed -/

/-- A template that stands alone in faithful code is faithful. -/
theorem sound_of_soleTemplate? {code : Code} {parts : List Part} (h : Faithful (.code code none))
    (hsole : soleTemplate? code = some parts) : (Stage.template parts).Sound := by
  unfold soleTemplate? at hsole
  split at hsole
  · next htrim =>
    cases hsole
    exact Stage.sound_of_template h htrim
  · cases hsole

/-- The slice between an opening bracket and the position found for its closing one. -/
theorem extract_enclosed {text behind : List Char} {start stop : Nat} {c closer : Char}
    {code : Code} (hdrop : text.drop start = c :: (codeText code ++ closer :: behind))
    (hstop : stop = text.length - behind.length - 1) :
    text.drop (start + 1) = codeText code ++ closer :: behind
      ∧ text.extract (start + 1) stop = code.text := by
  have hbehind : text.drop (start + 1) = codeText code ++ closer :: behind := by
    rw [← List.tail_drop, hdrop, List.tail_cons]
  have hlength := congrArg List.length hdrop
  simp only [List.length_drop, List.length_cons, List.length_append] at hlength
  refine ⟨hbehind, ?_⟩
  rw [List.extract_eq_take_drop, hbehind]
  exact List.take_left' (by omega)

/-- A scan for attributes fails only for a quote that is open, and names its line. Where the brace
of a value is closed, nothing inside can fail any more: the value is interpreted, each hole of a
template that stands alone is, and at every stage of taking these apart the text reads back and
the holes are closed. -/
theorem markupOccurrences?_fails_at_openQuote (dialect : Dialect) (text : List Char)
    (path : String) :
    (∀ fault, markupOccurrences? dialect text path = .error fault →
      ∃ place quote, text[place]? = some quote ∧ isQuote quote = true
        ∧ closingQuote text place = .error (.openQuote place)
        ∧ fault = ⟨.attribute, 1 + lineFeeds (text.take place), path⟩)
    ∧ ∀ start stop, text[start]? = some '\x7b' → closingBracket? text start = .ok (some stop) →
      ∃ code closer behind,
        read (.code ⟨.bracket 1, []⟩ []) (text.drop (start + 1)) = .closed code closer behind
        ∧ (∀ line path, interpret? (text.extract (start + 1) stop) line path
            = .ok (occurrencesIn line path code))
        ∧ (∀ stage, Stage.Reaches (.expression code) stage → stage.Rereads)
        ∧ ∀ parts, soleTemplate? code = some parts →
          (∀ hole place, Span.hole hole place ∈ spans 0 [] parts → ∀ line path,
            interpret? ((partsText parts).extract place (place + hole.width)) line path
              = .ok (occurrencesIn line path hole))
          ∧ ∀ stage, Stage.Reaches (.template parts) stage → stage.Rereads := by
  constructor
  · intro fault h
    obtain ⟨front, unit, rfl, hopen, rfl⟩ := scanMarkup_eq_error h
    obtain ⟨quote, rest, rfl, hquote⟩ := hopen.starts
    refine ⟨front.length, quote, by simp, hquote, hopen.closingQuote_eq front, ?_⟩
    rw [List.take_left]
    rfl
  · intro start stop hbrace hstop
    obtain ⟨code, closer, behind, hcode, hdrop, hbehind⟩ :=
      exists_enclosed_of_closingBracket? hbrace (by decide) hstop
    obtain ⟨htail, hslice⟩ := extract_enclosed hdrop hbehind
    -- cut off in front of its closing brace, the code is faithful all the more
    have hfaithful : Faithful (.code code none) := hcode.faithful.at_end
    refine ⟨code, closer, behind, ?_, ?_, ?_, ?_⟩
    · rw [htail, hcode.read_eq]
    · rw [hslice]
      exact interpret?_text hfaithful
    · intro stage hreach
      exact @Stage.rereads_of_reached (.expression code) stage hfaithful hreach
    · intro parts hsole
      have hparts := sound_of_soleTemplate? hfaithful hsole
      constructor
      · intro hole place hmem
        obtain ⟨closer', hhole⟩ := hole_mem_of_mem_spans hmem
        rw [extract_of_hole hmem]
        exact interpret?_text (enclosed_of_hole hparts hhole).faithful.at_end
      · intro stage hreach
        exact Stage.rereads_of_reached hparts hreach

/-- A value with an open quote inside the hole of a template, on the second line. -/
def openMarkup : List Char := "<p class=\x7b\x60a\n$\x7bb('\x7d\x60\x7d>".toList

/-- A value that is a template with a conditional in its hole. -/
def templateMarkup : List Char := "class=\x7b\x60$\x7ba?'b':c\x7d\x60\x7d".toList

/-- The parts of that template. -/
def templateMarkupParts : List Part :=
  [.hole [.char 'a', .char '?', .literal '\'' ['b'], .char ':', .char 'c'] '\x7d']

set_option maxRecDepth 10000 in
theorem markupOccurrences?_fails_at_openQuote_openMarkup :
    markupOccurrences? .html openMarkup "p" = .error ⟨.attribute, 2, "p"⟩
      ∧ (∃ place quote, openMarkup[place]? = some quote ∧ isQuote quote = true
        ∧ closingQuote openMarkup place = .error (.openQuote place)
        ∧ (⟨.attribute, 2, "p"⟩ : MalformedExpression)
          = ⟨.attribute, 1 + lineFeeds (openMarkup.take place), "p"⟩)
      ∧ templateMarkup[6]? = some '\x7b' ∧ closingBracket? templateMarkup 6 = .ok (some 19)
      ∧ ∃ code closer behind,
        read (.code ⟨.bracket 1, []⟩ []) (templateMarkup.drop 7) = .closed code closer behind
        ∧ soleTemplate? code = some templateMarkupParts
        ∧ ∀ stage, Stage.Reaches (.template templateMarkupParts) stage → stage.Rereads := by
  have hfault : markupOccurrences? .html openMarkup "p" = .error ⟨.attribute, 2, "p"⟩ := by cbv
  have hbrace : templateMarkup[6]? = some '\x7b' := by cbv
  have hstop : closingBracket? templateMarkup 6 = .ok (some 19) := by cbv
  have hread : read (.code ⟨.bracket 1, []⟩ []) (templateMarkup.drop 7)
      = .closed [.template templateMarkupParts] '\x7d' [] := by cbv
  have hsole : soleTemplate? [.template templateMarkupParts] = some templateMarkupParts := by rfl
  obtain ⟨code, closer, behind, hcode, -, -, hparts⟩ :=
    (markupOccurrences?_fails_at_openQuote .html templateMarkup "p").2 6 19 hbrace hstop
  obtain ⟨rfl, -, -⟩ : [.template templateMarkupParts] = code ∧ '\x7d' = closer ∧ [] = behind := by
    simpa [hread] using hcode
  exact ⟨hfault, (markupOccurrences?_fails_at_openQuote .html openMarkup "p").1 _ hfault, hbrace,
    hstop, _, _, _, hread, hsole, (hparts _ hsole).2⟩

end StyleAudit
