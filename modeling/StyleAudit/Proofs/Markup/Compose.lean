import StyleAudit.Proofs.Code.Grammar
import StyleAudit.Proofs.Markup.Lines

/-!
# Markup in front of markup

Where a text ends with the end of a tag and leaves no value open, text behind it is scanned as if
it stood alone (`markupOccurrences?_append`). Two facts carry this: what `valueText?` finds and
what `readValue` makes of it does not change when text is added behind
(`valueText?_append`, `ClosedValue.readValue_append`), and the first character behind a tag sees
no word in front of it.
-/

namespace StyleAudit

/-- The texts of the values that a scan meets, each from its first character on. It goes through
the text the way `scanMarkup` does. -/
def metValues (dialect : Dialect) (path : String) (line : Nat) (before : Option Char)
    (skip : Nat) : List Char → List (List Char)
  | [] => []
  | c :: rest =>
    let nextLine := line + lineFeeds [c]
    match skip with
    | skip + 1 => metValues dialect path nextLine (some c) skip rest
    | 0 =>
      match valueText? dialect before (c :: rest) with
      | none => metValues dialect path nextLine (some c) 0 rest
      | some value =>
        match readValue line path value with
        | .error _ => [value]
        | .ok (_, behind) =>
          value :: metValues dialect path nextLine (some c) (rest.length - behind.length) rest

/-- A value that the text it stands in decides: it starts with a character that opens no value,
its quote comes again, or its brace is closed. -/
inductive ClosedValue : List Char → Prop where
  | other {mark : Char} (hmark : ¬ IsPlainQuote mark) (hbrace : mark ≠ '\x7b') (rest : List Char) :
      ClosedValue (mark :: rest)
  | quoted {mark : Char} (hmark : IsPlainQuote mark) {rest : List Char} (hrest : mark ∈ rest) :
      ClosedValue (mark :: rest)
  | braced {rest : List Char} {stop : Nat}
      (hstop : closingBracket? ('\x7b' :: rest) 0 = .ok (some stop)) :
      ClosedValue ('\x7b' :: rest)

/-- A closed value is read alike whatever follows the text. -/
theorem ClosedValue.readValue_append {value : List Char} (h : ClosedValue value) (line : Int)
    (path : String) : ∃ found behind, readValue line path value = .ok (found, behind)
      ∧ ∀ text, readValue line path (value ++ text) = .ok (found, behind ++ text) := by
  cases h with
  | @other mark hmark hbrace rest =>
    refine ⟨[], mark :: rest, readValue_other hmark hbrace rest, ?_⟩
    intro text
    exact readValue_other hmark hbrace (rest ++ text)
  | quoted hmark hrest =>
    -- the first copy of the quote ends the value, and it stands in front of what is added
    obtain ⟨names, behind, rfl, hnames⟩ := List.eq_append_cons_of_mem hrest
    refine ⟨_, behind, readValue_list hmark hnames behind, ?_⟩
    intro text
    rw [List.cons_append, List.append_assoc, List.cons_append,
      readValue_list hmark hnames (behind ++ text)]
  | @braced rest stop hstop =>
    obtain ⟨code, closer, behind, hcode, hdrop, -⟩ :=
      exists_enclosed_of_closingBracket? (c := '\x7b') rfl (by decide) hstop
    obtain rfl : rest = codeText code ++ closer :: behind := by simpa using hdrop
    have hread : ∀ text, readValue line path ('\x7b' :: (codeText code ++ closer :: behind) ++ text)
        = .ok (bracedOccurrences line path code closer, behind ++ text) := by
      intro text
      rw [List.cons_append, List.append_assoc, List.cons_append, readValue_braced, hcode.read_eq]
    exact ⟨_, behind, by simpa using hread [], hread⟩

/-! ## Text behind a tag -/

section Tag

variable {text : List Char}

/-- The last character of a tag is no blank, so blanks in front of it are all dropped before. -/
theorem dropWhile_isBlank_append (h : text.getLast? = some '>') (more : List Char) :
    (text ++ more).dropWhile isBlank = text.dropWhile isBlank ++ more
      ∧ (text.dropWhile isBlank).getLast? = some '>' := by
  induction text with
  | nil => simp at h
  | cons c rest ih =>
    by_cases hc : isBlank c = true
    · rw [List.cons_append, List.dropWhile_cons_of_pos hc, List.dropWhile_cons_of_pos hc]
      cases rest with
      | nil =>
        obtain rfl : c = '>' := by simpa using h
        exact absurd hc (by decide)
      | cons d rest => exact ih (by rwa [List.getLast?_cons_cons] at h)
    · rw [List.cons_append, List.dropWhile_cons_of_neg hc, List.dropWhile_cons_of_neg hc]
      exact ⟨rfl, h⟩

theorem dropWord?_nil (text : List Char) : dropWord? [] text = some text := by
  simp [dropWord?]

theorem dropWord?_cons_cons (w c : Char) (word text : List Char) :
    dropWord? (w :: word) (c :: text) = if w = c then dropWord? word text else none := by
  by_cases h : w = c <;> simp [dropWord?, List.isPrefixOf, h]

/-- A word without the last character of a tag does not reach over the end of the tag. -/
theorem dropWord?_append {word : List Char} (hword : '>' ∉ word) (h : text.getLast? = some '>')
    (more : List Char) :
    dropWord? word (text ++ more) = (dropWord? word text).map (· ++ more)
      ∧ ∀ rest ∈ dropWord? word text, rest.getLast? = some '>' := by
  induction word generalizing text with
  | nil => simp [dropWord?_nil, h]
  | cons w word ih =>
    obtain ⟨hw, hword⟩ := List.ne_and_not_mem_of_not_mem_cons hword
    cases text with
    | nil => simp at h
    | cons c rest =>
      rw [List.cons_append, dropWord?_cons_cons, dropWord?_cons_cons]
      by_cases hc : w = c
      · rw [if_pos hc, if_pos hc]
        cases rest with
        | nil =>
          obtain rfl : c = '>' := by simpa using h
          exact absurd hc.symm hw
        | cons d rest => exact ih hword (by rwa [List.getLast?_cons_cons] at h)
      · rw [if_neg hc, if_neg hc]
        simp

theorem Dialect.not_mem_attribute (dialect : Dialect) : '>' ∉ dialect.attribute.toList := by
  cases dialect <;> decide

/-- Whether a value is found, and where it starts, is settled in front of the end of a tag. -/
theorem valueText?_append (dialect : Dialect) (before : Option Char)
    (h : text.getLast? = some '>') (more : List Char) :
    valueText? dialect before (text ++ more)
      = (valueText? dialect before text).map (· ++ more) := by
  unfold valueText?
  split
  · obtain ⟨hdrop, hlast⟩ := dropWord?_append dialect.not_mem_attribute h more
    rw [hdrop]
    cases hrest : dropWord? dialect.attribute.toList text with
    | none => rfl
    | some rest =>
      obtain ⟨happend, hend⟩ := dropWhile_isBlank_append (hlast rest hrest) more
      simp only [Option.map_some, happend]
      -- the end of the tag is still ahead at every step, so none of them runs out of text
      cases hblank : rest.dropWhile isBlank with
      | nil => simp [hblank] at hend
      | cons c value =>
        by_cases hc : c = '='
        · subst hc
          cases value with
          | nil => simp [hblank] at hend
          | cons d value =>
            rw [hblank, List.getLast?_cons_cons] at hend
            simp only [List.cons_append, Option.map_some]
            rw [← List.cons_append, (dropWhile_isBlank_append hend more).1]
        · simp [hc]
  · rfl

end Tag

/-! ## The scan -/

/-- A tag in front of a text is as good as nothing in front of it. -/
theorem scanMarkup_behind_tag (dialect : Dialect) (path : String) (line : Nat) (text : List Char) :
    scanMarkup dialect path line (some '>') 0 text = scanMarkup dialect path line none 0 text :=
  scanMarkup_of_startsName (by decide +kernel) text

/-- The scan of a text that leaves no value open, from any of its characters on, and the scan of
more text behind it. -/
theorem scanMarkup_append {dialect : Dialect} {path : String} {line : Nat} {before : Option Char}
    {skip : Nat} {text : List Char} (more : List Char)
    (hend : text.getLast?.or before = some '>') (hskip : skip ≤ text.length)
    (hclosed : ∀ value ∈ metValues dialect path line before skip text, ClosedValue value) :
    ∃ found, scanMarkup dialect path line before skip text = .ok found
      ∧ scanMarkup dialect path line before skip (text ++ more)
        = (scanMarkup dialect path (line + lineFeeds text) (some '>') 0 more).map (found ++ ·) := by
  induction text generalizing line before skip with
  | nil =>
    obtain rfl : skip = 0 := by simpa using hskip
    obtain rfl : before = some '>' := by simpa using hend
    refine ⟨[], rfl, ?_⟩
    cases hmore : scanMarkup dialect path line (some '>') 0 more <;> simp [hmore, Except.map]
  | cons c rest ih =>
    have hlast : (c :: rest).getLast? = some '>' := by simpa [List.getLast?_cons] using hend
    have hnext : rest.getLast?.or (some c) = some '>' := by rwa [getLast?_cons_or] at hend
    have hlines : line + lineFeeds (c :: rest) = line + lineFeeds [c] + lineFeeds rest := by
      rw [lineFeeds_cons, Nat.add_assoc]
    rw [hlines, List.cons_append]
    cases skip with
    | succ skip =>
      rw [metValues] at hclosed
      rw [scanMarkup_skip, scanMarkup_skip]
      exact ih hnext (by simpa using hskip) hclosed
    | zero =>
      have hsame : valueText? dialect before (c :: (rest ++ more))
          = (valueText? dialect before (c :: rest)).map (· ++ more) :=
        valueText?_append dialect before hlast more
      rw [metValues] at hclosed
      cases hvalue : valueText? dialect before (c :: rest) with
      | none =>
        rw [hvalue] at hsame hclosed
        rw [scanMarkup_pass hvalue, scanMarkup_pass hsame]
        exact ih hnext (Nat.zero_le _) hclosed
      | some value =>
        rw [hvalue] at hsame hclosed
        -- the value is read alike with and without the text behind it
        have hmet : ClosedValue value := hclosed value (by simp only; split <;> simp)
        obtain ⟨found, behind, hread, hreadMore⟩ := hmet.readValue_append line path
        simp only [hread, List.mem_cons, forall_eq_or_imp] at hclosed
        obtain ⟨others, hothers, happend⟩ := ih hnext (Nat.sub_le _ _) hclosed.2
        refine ⟨found ++ others, ?_, ?_⟩
        · rw [scanMarkup_value hvalue hread, hothers]
          rfl
        · -- what is skipped lies in the first text, and its length does not change
          have hpassed : (rest ++ more).length - (behind ++ more).length
              = rest.length - behind.length := by
            simp only [List.length_append]
            omega
          rw [scanMarkup_value hsame (hreadMore more), hpassed, happend]
          generalize scanMarkup dialect path _ (some '>') 0 more = result
          cases result with
          | ok _ => simp [Except.map]
          | error _ => rfl

/-- Scanning is compositional. Behind a text that ends with a tag and leaves no value open, more
text gives what it gives alone, only further down: the same occurrences behind those of the first
text, or the same open quote. -/
theorem markupOccurrences?_append (dialect : Dialect) (path : String) (front back : List Char)
    (hend : front.getLast? = some '>')
    (hclosed : ∀ value ∈ metValues dialect path 1 none 0 front, ClosedValue value) :
    ∃ found, markupOccurrences? dialect front path = .ok found
      ∧ markupOccurrences? dialect (front ++ back) path =
        match markupOccurrences? dialect back path with
        | .ok more => .ok (found ++ more.map (Occurrence.lower (lineFeeds front)))
        | .error fault => .error (fault.lower (lineFeeds front)) := by
  obtain ⟨found, hfront, happend⟩ := scanMarkup_append back (by simp [hend]) (Nat.zero_le _) hclosed
  refine ⟨found, hfront, ?_⟩
  rw [markupOccurrences?, happend, scanMarkup_lower, scanMarkup_behind_tag, markupOccurrences?]
  cases scanMarkup dialect path 1 none 0 back <;> rfl

/-- Markup with a value in quotes and a value in braces that goes over two lines. -/
def closedMarkup : List Char := "<p class='a'><i class=\x7bb\n? 'c' : d\x7d>".toList

-- the tests for word characters run through long lists of ranges
set_option maxRecDepth 10000 in
theorem markupOccurrences?_append_closedMarkup :
    closedMarkup.getLast? = some '>'
      ∧ (∀ value ∈ metValues .html "p" 1 none 0 closedMarkup, ClosedValue value)
      ∧ ∃ found, markupOccurrences? .html closedMarkup "p" = .ok found
        ∧ markupOccurrences? .html (closedMarkup ++ "<b class='e'>".toList) "p" =
          match markupOccurrences? .html "<b class='e'>".toList "p" with
          | .ok more => .ok (found ++ more.map (Occurrence.lower (lineFeeds closedMarkup)))
          | .error fault => .error (fault.lower (lineFeeds closedMarkup)) := by
  have hend : closedMarkup.getLast? = some '>' := by decide
  have hmet : metValues .html "p" 1 none 0 closedMarkup
      = ['\'' :: "a'><i class=\x7bb\n? 'c' : d\x7d>".toList,
        '\x7b' :: "b\n? 'c' : d\x7d>".toList] := by cbv
  have hbrace : closingBracket? ('\x7b' :: "b\n? 'c' : d\x7d>".toList) 0 = .ok (some 12) := by cbv
  have hclosed : ∀ value ∈ metValues .html "p" 1 none 0 closedMarkup, ClosedValue value := by
    rw [hmet]
    simp only [List.mem_cons, List.not_mem_nil, or_false, forall_eq_or_imp, forall_eq]
    exact ⟨.quoted (.inr rfl) (by decide), .braced hbrace⟩
  exact ⟨hend, hclosed,
    markupOccurrences?_append .html "p" closedMarkup "<b class='e'>".toList hend hclosed⟩

end StyleAudit
