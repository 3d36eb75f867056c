import StyleAudit.Proofs.Expression.Slots
import StyleAudit.Proofs.Markup.Compose

/-!
# Sites of class attributes

A `Site` is a file up to the value of one of its class attributes, so that different values can be
compared at the same site. Where the text of a value tells where it ends, the value is read there by
itself: what it gives stands between what is in front of it and what is behind it
(`Site.gives_of_readValue`).
-/

namespace StyleAudit

/-- The markup in front of a class attribute: a text that ends with a tag, or is empty, and leaves
no value open; and the start of the tag that the attribute stands in, in which its name does not
come before. -/
structure Site (dialect : Dialect) (path : String) where
  front : List Char
  tag : List Char
  ended : ∀ c ∈ front.getLast?, c = '>'
  closed : ∀ value ∈ metValues dialect path 1 none 0 front, ClosedValue value
  first : ¬ dialect.attribute.toList <:+: tag
  starts : startsName tag.getLast? = true

namespace Site

variable {dialect : Dialect} {path : String} (site : Site dialect path)

/-- The text up to the end of a value. -/
def text (value : List Char) : List Char :=
  site.front ++ (site.tag ++ (dialect.attribute.toList ++ '=' :: value))

/-- The line that the attribute starts on. -/
def line : Nat := 1 + lineFeeds site.front + lineFeeds site.tag

/-- What a value gives at a site: whatever follows, its occurrences stand behind those of the text
in front and before those of the text behind, which are found as in a file of their own, only
further down. -/
def Gives (value : List Char) (here : List Occurrence) : Prop :=
  ∃ found, markupOccurrences? dialect site.front path = .ok found
    ∧ ∀ back, markupOccurrences? dialect (site.text value ++ back) path
      = (lowered (lineFeeds (site.text value)) (markupOccurrences? dialect back path)).map
          (found ++ here ++ ·)

/-! ## In front of the attribute -/

theorem text_append (a b : List Char) : site.text (a ++ b) = site.text a ++ b := by
  simp [text]

theorem lineFeeds_attribute (dialect : Dialect) : lineFeeds dialect.attribute.toList = 0 := by
  cases dialect <;> decide

/-- The attribute's line is the one that its value starts on. -/
theorem line_eq : site.line = 1 + lineFeeds (site.text []) := by
  rw [text, lineFeeds_append, lineFeeds_append, lineFeeds_append, lineFeeds_attribute,
    show lineFeeds ['='] = 0 from rfl, line]
  omega

/-- The text in front of the tag is read by itself. -/
theorem exists_front : ∃ found, markupOccurrences? dialect site.front path = .ok found
    ∧ ∀ rest, markupOccurrences? dialect (site.front ++ rest) path
      = (scanMarkup dialect path (1 + lineFeeds site.front) none 0 rest).map (found ++ ·) := by
  cases hlast : site.front.getLast? with
  | none =>
    have hnil := List.getLast?_eq_none_iff.mp hlast
    refine ⟨[], by rw [hnil]; rfl, fun rest => ?_⟩
    rw [hnil, List.nil_append, markupOccurrences?]
    cases hrest : scanMarkup dialect path 1 none 0 rest <;> simp [hrest, Except.map]
  | some c =>
    obtain rfl := site.ended c hlast
    have happend (rest : List Char) :=
      scanMarkup_append rest (by simp [hlast]) (Nat.zero_le _) site.closed
    obtain ⟨found, hfound, -⟩ := happend []
    refine ⟨found, hfound, fun rest => ?_⟩
    obtain ⟨same, hsame, hrest⟩ := happend rest
    obtain rfl := Except.ok.inj (hfound.symm.trans hsame)
    rw [markupOccurrences?, hrest, scanMarkup_behind_tag]

/-- The first character of the attribute's name does not come again in it. -/
theorem exists_attribute_cons (dialect : Dialect) :
    ∃ c name, dialect.attribute.toList = c :: name ∧ c ∉ name := by
  cases dialect with
  | html => exact ⟨'c', "lass".toList, rfl, by decide⟩
  | jsx => exact ⟨'c', "lassName".toList, rfl, by decide⟩

/-- The attribute's name is not met before its place. -/
theorem not_prefix_tag {place : Nat} (hplace : place < site.tag.length) (rest : List Char) :
    ¬ dialect.attribute.toList <+: site.tag.drop place ++ (dialect.attribute.toList ++ rest) := by
  intro hprefix
  rcases List.prefix_or_prefix_of_prefix hprefix (List.prefix_append _ _) with hshort | hlong
  · exact site.first (hshort.isInfix.trans (List.drop_suffix place site.tag).isInfix)
  · -- the name would start in the tag and again where it stands
    obtain ⟨c, name, hname, hc⟩ := exists_attribute_cons dialect
    obtain ⟨back, hback⟩ := hlong
    rw [← hback, List.prefix_append_right_inj, hback] at hprefix
    obtain ⟨d, more, hmore⟩ := List.exists_cons_of_ne_nil
      (List.ne_nil_of_length_pos (show 0 < (site.tag.drop place).length by simpa using hplace))
    rw [hmore, hname, List.cons_append, List.cons.injEq] at hback
    cases back with
    | nil =>
      rw [List.append_nil] at hback
      refine site.first (.trans ?_ (List.drop_suffix place site.tag).isInfix)
      rw [hmore, hname, hback.1, hback.2]
    | cons first back =>
      rw [hname, List.cons_append, List.cons_prefix_cons] at hprefix
      exact hc (hback.2 ▸ hprefix.1 ▸ List.mem_append_right more List.mem_cons_self)

theorem scanMarkup_tag (rest : List Char) :
    scanMarkup dialect path (1 + lineFeeds site.front) none 0
        (site.tag ++ (dialect.attribute.toList ++ rest))
      = scanMarkup dialect path site.line site.tag.getLast? 0
        (dialect.attribute.toList ++ rest) := by
  rw [scanMarkup_pass_append, Option.or_none, line]
  intro place hplace
  simp [valueText?, dropWord?, site.not_prefix_tag hplace rest]

/-! ## At the attribute -/

theorem valueText?_attribute (dialect : Dialect) {before : Option Char}
    (hbefore : startsName before = true) {c : Char} (hc : isBlank c = false) (rest : List Char) :
    valueText? dialect before (dialect.attribute.toList ++ '=' :: c :: rest)
      = some (c :: rest) := by
  have hdrop : dropWord? dialect.attribute.toList (dialect.attribute.toList ++ '=' :: c :: rest)
      = some ('=' :: c :: rest) := by
    simp [dropWord?]
  have hequals : isBlank '=' = false := by decide
  rw [valueText?, if_pos hbefore, hdrop]
  simp [hequals, hc]

/-- A value whose end shows in its own text gives what is read off it. -/
theorem gives_of_readValue {c : Char} {value : List Char} {here : List Occurrence}
    (hc : isBlank c = false) (hlast : startsName (c :: value).getLast? = true)
    (hread : ∀ back, readValue site.line path (c :: value ++ back) = .ok (here, back)) :
    site.Gives (c :: value) here := by
  obtain ⟨found, hfound, hfront⟩ := site.exists_front
  obtain ⟨n, name, hname, -⟩ := exists_attribute_cons dialect
  refine ⟨found, hfound, fun back => ?_⟩
  have htext : site.text (c :: value) ++ back
      = site.front ++ (site.tag ++ (dialect.attribute.toList ++ '=' :: c :: (value ++ back))) := by
    simp [text]
  have hvalue := valueText?_attribute dialect site.starts hc (value ++ back)
  rw [htext, hfront, scanMarkup_tag]
  rw [hname, List.cons_append] at hvalue ⊢
  -- what is skipped is the attribute from its second character on
  have hskip : (name ++ '=' :: c :: (value ++ back)).length - back.length
      = (name ++ '=' :: c :: value).length := by
    simp only [List.length_append, List.length_cons]
    omega
  have hrest : name ++ '=' :: c :: (value ++ back) = (name ++ '=' :: c :: value) ++ back := by simp
  rw [scanMarkup_value hvalue (hread back), hskip, hrest, scanMarkup_skip_append]
  have hbefore : (name ++ '=' :: c :: value).getLast?.or (some n) = (c :: value).getLast? := by
    simp [List.getLast?_append, List.getLast?_cons]
  have hline : site.line + lineFeeds [n] + lineFeeds (name ++ '=' :: c :: value)
      = 1 + lineFeeds (site.text (c :: value)) := by
    rw [text, hname, List.cons_append, lineFeeds_append site.front, lineFeeds_append site.tag,
      lineFeeds_cons n (name ++ _), line]
    omega
  rw [hbefore, scanMarkup_of_startsName hlast, hline, scanMarkup_lower, ← markupOccurrences?]
  cases lowered (lineFeeds (site.text (c :: value))) (markupOccurrences? dialect back path)
    <;> simp [Except.map]

/-- A name may start behind the end of a value. -/
theorem startsName_of_isPlainQuote {mark : Char} (h : IsPlainQuote mark) :
    isBlank mark = false ∧ startsName (some mark) = true := by
  rcases h with rfl | rfl <;> decide +kernel

/-- A class list in quotes. -/
theorem gives_quoted {mark : Char} (hmark : IsPlainQuote mark) {names : List Char}
    (hnames : mark ∉ names) :
    site.Gives (mark :: (names ++ [mark])) (classListAt site.line path names) := by
  obtain ⟨hblank, hstarts⟩ := startsName_of_isPlainQuote hmark
  apply site.gives_of_readValue hblank
  · simpa [List.getLast?_cons] using hstarts
  · intro back
    rw [List.cons_append, List.append_assoc, List.singleton_append]
    exact readValue_list hmark hnames back

/-- Code in braces. -/
theorem gives_braced {code : Code} {text : List Char} (h : Prints code text) :
    site.Gives ('\x7b' :: (text ++ ['\x7d'])) (bracedOccurrences site.line path code '\x7d') := by
  have hclosed : Enclosed code '\x7d' := ⟨rfl, h.holds, h.rise, h.faithful _⟩
  apply site.gives_of_readValue (by decide)
  · have hstarts : startsName (some '\x7d') = true := by decide +kernel
    simpa [List.getLast?_cons] using hstarts
  · intro back
    rw [List.cons_append, List.append_assoc, ← h.text_eq, List.singleton_append, readValue_braced,
      hclosed.read_eq]

end Site

/-- A paragraph with a value in quotes, over two lines. -/
def firstParagraph : List Char := "<p class='x'>\n</p>".toList

-- the tests for word characters run through long lists of ranges
set_option maxRecDepth 10000 in
theorem firstParagraph_closed :
    ∀ value ∈ metValues .html "p" 1 none 0 firstParagraph, ClosedValue value := by
  have hmet : metValues .html "p" 1 none 0 firstParagraph = ['\'' :: "x'>\n</p>".toList] := by cbv
  rw [hmet, List.forall_mem_singleton]
  exact .quoted (.inr rfl) (by decide)

theorem firstParagraph_ended : ∀ c ∈ firstParagraph.getLast?, c = '>' := by
  have hlast : firstParagraph.getLast? = some '>' := by decide
  rw [hlast]
  simp

/-- The start of a tag. -/
def paragraphTag : List Char := "<p id='y' ".toList

theorem paragraphTag_first : ¬ Dialect.html.attribute.toList <:+: paragraphTag := by decide

theorem paragraphTag_starts : startsName paragraphTag.getLast? = true := by decide +kernel

/-- The second paragraph of a text, up to the value of its class attribute. -/
def secondParagraph : Site .html "p" :=
  ⟨firstParagraph, paragraphTag, firstParagraph_ended, firstParagraph_closed, paragraphTag_first,
    paragraphTag_starts⟩

/-! ## Quoted units in braces -/

/-- Code with a character in it that is no blank is no template alone. -/
theorem soleTemplate?_of_mem {code : Code} {c : Char} (hmem : .char c ∈ code)
    (hc : isBlank c = false) : soleTemplate? code = none := by
  obtain ⟨before, after, hbefore, hafter, -, hcode⟩ := exists_padding code
  unfold soleTemplate?
  split
  · next parts htrim =>
    rw [hcode, htrim, List.mem_append, List.mem_append] at hmem
    rcases hmem with (hmem | hmem) | hmem
    · have hblank := isBlank_of_mem_asCode hbefore _ hmem
      simp [Lexeme.isBlank, hc] at hblank
    · simp at hmem
    · have hblank := isBlank_of_mem_asCode hafter _ hmem
      simp [Lexeme.isBlank, hc] at hblank
  · rfl

namespace Slot

variable {unit : Lexeme} (slot : Slot) (before after : Tree.Blanks)

/-- The text of the value in braces. -/
def value (unit : List Char) : List Char :=
  '\x7b' :: (slot.text before after unit ++ ['\x7d'])

theorem trim_sole (hunit : ∀ c, unit ≠ .char c) :
    Code.trim (sole.code before after unit) = [unit] := by
  have hcode : sole.code before after unit
      = asCode before.text ++ ([unit] ++ asCode after.text) := by simp [code, front, back]
  have hblank : unit.isBlank = false := by
    cases unit with
    | char c => exact absurd rfl (hunit c)
    | _ => rfl
  rw [hcode, trim_padded before.blank after.blank, trim_singleton hblank]

theorem soleTemplate?_code (hunit : ∀ c, unit ≠ .char c)
    (hsole : slot = sole → ∀ parts, unit ≠ .template parts) :
    soleTemplate? (slot.code before after unit) = none := by
  cases slot with
  | sole =>
    rw [soleTemplate?, trim_sole before after hunit]
    split
    · next parts heq => exact absurd (List.singleton_inj.mp heq) (hsole rfl parts)
    · rfl
  | group =>
    exact soleTemplate?_of_mem (c := '(') (by simp [code, front]) (by decide)
  | operand first =>
    exact soleTemplate?_of_mem (c := '+') (by simp [code, front]) (by decide)
  | branch condition other =>
    exact soleTemplate?_of_mem (c := '?') (by simp [code, front]) (by decide)

end Slot

end StyleAudit
