import StyleAudit.Markup
import StyleAudit.Proofs.Code.Endings

/-!
# One step of the scan for attributes

`scanMarkup` looks at one character after the other. The equations here say what it does with
one: passes it, reads the value of an attribute that starts there, or stops at an open quote.
They give the line of the next character as the line of this one and the line feeds in between.
-/

namespace StyleAudit

theorem nextLine_eq (line : Nat) (c : Char) :
    (if c = '\n' then line + 1 else line) = line + lineFeeds [c] := by
  by_cases h : c = '\n'
  · subst h
    rfl
  · rw [if_neg h, lineFeeds, List.count_singleton, if_neg (by simpa using h), Nat.add_zero]

/-- The character in front of what follows a text: its last one, or the one in front of it. -/
theorem getLast?_cons_or (c : Char) (text : List Char) (before : Option Char) :
    (c :: text).getLast?.or before = text.getLast?.or (some c) := by
  rw [List.getLast?_cons]
  cases text.getLast? <;> rfl

/-- The text of a value ends with the text it was found in. -/
theorem valueText?_suffix {dialect : Dialect} {before : Option Char} {text value : List Char}
    (h : valueText? dialect before text = some value) : value <:+ text := by
  unfold valueText? at h
  split at h
  · split at h
    · next heq =>
      -- the name, the blanks, the equals sign and the blanks are taken off, one after the other
      obtain ⟨rest, hdrop, hblank⟩ := Option.map_eq_some_iff.1 heq
      have hrest : rest <:+ text := by
        unfold dropWord? at hdrop
        split at hdrop
        · cases hdrop
          exact List.drop_suffix _ _
        · cases hdrop
      have hequals := hblank ▸ List.dropWhile_suffix (l := rest) isBlank
      cases h
      exact (List.dropWhile_suffix _).trans
        (((List.suffix_cons _ _).trans hequals).trans hrest)
    · cases h
  · cases h

section Values

variable {line : Int} {path : String} {mark : Char}

/-- A class list ends at the next quote of its kind. -/
theorem readValue_list (hmark : IsPlainQuote mark) {names : List Char} (hnames : mark ∉ names)
    (behind : List Char) :
    readValue line path (mark :: (names ++ mark :: behind))
      = .ok (classListAt line path names, behind) := by
  have hkeep : ∀ c ∈ names, (c != mark) = true := by
    intro c hc
    rw [bne_iff_ne]
    intro h
    exact hnames (h ▸ hc)
  rw [readValue, if_pos (show mark = '"' ∨ mark = '\'' from hmark),
    List.dropWhile_append_of_pos hkeep, List.takeWhile_append_of_pos hkeep,
    List.dropWhile_cons_of_neg (by simp), List.takeWhile_cons_of_neg (by simp), List.append_nil]

/-- A quote that does not come again starts no value. -/
theorem readValue_openList (hmark : IsPlainQuote mark) {rest : List Char} (hrest : mark ∉ rest) :
    readValue line path (mark :: rest) = .ok ([], rest) := by
  have hkeep : ∀ c ∈ rest, (c != mark) = true := by
    intro c hc
    rw [bne_iff_ne]
    intro h
    exact hrest (h ▸ hc)
  have hdrop : rest.dropWhile (· != mark) = [] := by
    rw [← List.append_nil rest, List.dropWhile_append_of_pos hkeep]
    rfl
  rw [readValue, if_pos (show mark = '"' ∨ mark = '\'' from hmark), hdrop]

theorem readValue_braced (rest : List Char) :
    readValue line path ('\x7b' :: rest) =
      match read (.code ⟨.bracket 1, []⟩ []) rest with
      | .closed code closer behind => .ok (bracedOccurrences line path code closer, behind)
      | .ended _ => .ok ([], rest)
      | .openQuote quote => .error quote := by
  rw [readValue, if_neg (by decide)]
  exact if_pos rfl

theorem readValue_other (hmark : ¬ IsPlainQuote mark) (hbrace : mark ≠ '\x7b')
    (rest : List Char) : readValue line path (mark :: rest) = .ok ([], mark :: rest) := by
  rw [readValue, if_neg (show ¬ (mark = '"' ∨ mark = '\'') from hmark), if_neg hbrace]

end Values

section Steps

variable {dialect : Dialect} {path : String} {line : Nat} {before : Option Char} {c : Char}
  {rest : List Char}

theorem scanMarkup_skip (skip : Nat) :
    scanMarkup dialect path line before (skip + 1) (c :: rest)
      = scanMarkup dialect path (line + lineFeeds [c]) (some c) skip rest := by
  rw [scanMarkup, nextLine_eq]

theorem scanMarkup_pass (h : valueText? dialect before (c :: rest) = none) :
    scanMarkup dialect path line before 0 (c :: rest)
      = scanMarkup dialect path (line + lineFeeds [c]) (some c) 0 rest := by
  rw [scanMarkup, h, nextLine_eq]

theorem scanMarkup_value {value behind : List Char} {found : List Occurrence}
    (h : valueText? dialect before (c :: rest) = some value)
    (hread : readValue line path value = .ok (found, behind)) :
    scanMarkup dialect path line before 0 (c :: rest)
      = (scanMarkup dialect path (line + lineFeeds [c]) (some c) (rest.length - behind.length)
          rest).map (found ++ ·) := by
  rw [scanMarkup, h, nextLine_eq]
  simp only [hread]
  cases scanMarkup dialect path (line + lineFeeds [c]) (some c) (rest.length - behind.length) rest
    <;> rfl

theorem scanMarkup_stop {value quote : List Char}
    (h : valueText? dialect before (c :: rest) = some value)
    (hread : readValue line path value = .error quote) :
    scanMarkup dialect path line before 0 (c :: rest)
      = .error ⟨.attribute,
          line + lineFeeds ((c :: rest).take ((c :: rest).length - quote.length)), path⟩ := by
  rw [scanMarkup, h]
  simp only [hread]

end Steps

section Stretches

variable {dialect : Dialect} {path : String} {line : Nat} {before : Option Char}
  {front : List Char}

/-- The text of an attribute that is dealt with is passed at once. -/
theorem scanMarkup_skip_append (front rest : List Char) :
    scanMarkup dialect path line before front.length (front ++ rest)
      = scanMarkup dialect path (line + lineFeeds front) (front.getLast?.or before) 0 rest := by
  induction front generalizing line before with
  | nil => rfl
  | cons c front ih =>
    rw [List.length_cons, List.cons_append, scanMarkup_skip, ih, lineFeeds_cons c front,
      Nat.add_assoc, getLast?_cons_or]

/-- So is text in which no attribute starts. -/
theorem scanMarkup_pass_append {rest : List Char}
    (h : ∀ place < front.length,
      valueText? dialect ((front.take place).getLast?.or before) (front.drop place ++ rest)
        = none) :
    scanMarkup dialect path line before 0 (front ++ rest)
      = scanMarkup dialect path (line + lineFeeds front) (front.getLast?.or before) 0 rest := by
  induction front generalizing line before with
  | nil => rfl
  | cons c front ih =>
    have hlater : ∀ place < front.length,
        valueText? dialect ((front.take place).getLast?.or (some c)) (front.drop place ++ rest)
          = none := by
      intro place hplace
      have hnone := h (place + 1) (by simpa using hplace)
      rwa [List.take_succ_cons, List.drop_succ_cons, getLast?_cons_or] at hnone
    have hfirst : valueText? dialect before (c :: (front ++ rest)) = none := h 0 (by simp)
    rw [List.cons_append, scanMarkup_pass hfirst, ih hlater, lineFeeds_cons c front,
      Nat.add_assoc, getLast?_cons_or]

/-- Of the text in front, a scan sees no more than whether a name may start behind it. -/
theorem scanMarkup_of_startsName (h : startsName before = true) (text : List Char) :
    scanMarkup dialect path line before 0 text = scanMarkup dialect path line none 0 text := by
  cases text with
  | nil => rfl
  | cons c rest =>
    have hvalue : valueText? dialect before (c :: rest) = valueText? dialect none (c :: rest) := by
      unfold valueText?
      rw [h, show startsName none = true from rfl]
    simp only [scanMarkup, hvalue]

end Stretches

end StyleAudit
