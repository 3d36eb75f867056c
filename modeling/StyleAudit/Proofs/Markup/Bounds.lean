import StyleAudit.Proofs.Groups
import StyleAudit.Proofs.Markup.Sources
import StyleAudit.Proofs.Text.Words
import StyleAudit.Stylesheet

/-!
# Occurrences are in their files

Whatever is found in a text has the path it is looked for under, and a line of that text. A class
name is not empty and has no blanks in it; the text of a dynamic expression is single spaced
(`markupOccurrences?_valid`, `stylesheetOccurrences_valid`).

The lines of markup are sums: the line of the attribute, the line feeds in front of a hole or a
class list, those in front of the expression or the class name. Each summand counts a stretch of the
text that the others do not reach, so their sum stays within the text.
-/

namespace StyleAudit

/-- Whether an occurrence has a name or a text that can be shown. -/
def Occurrence.IsShown : Occurrence → Prop
  | named occurrence =>
    occurrence.name ≠ "" ∧ ∀ c ∈ occurrence.name.toList, isBlank c = false
  | dynamic occurrence => SingleSpaced occurrence.text.toList

/-- An occurrence of a file, on one of the lines from `first` to `last`. -/
structure Occurrence.Valid (path : String) (first last : Int) (occurrence : Occurrence) : Prop where
  path_eq : occurrence.path = path
  first_le : first ≤ occurrence.line
  le_last : occurrence.line ≤ last
  shown : occurrence.IsShown

theorem Occurrence.Valid.mono {path : String} {first last first' last' : Int}
    {occurrence : Occurrence} (h : occurrence.Valid path first last) (hfirst : first' ≤ first)
    (hlast : last ≤ last') : occurrence.Valid path first' last' :=
  ⟨h.path_eq, Int.le_trans hfirst h.first_le, Int.le_trans h.le_last hlast, h.shown⟩

section Valid

variable {line : Int} {path : String} {occurrence : Occurrence}

/-! ## Class lists -/

theorem mem_className {word : List Char} {c : Char} (h : c ∈ className word) : c ∈ word := by
  unfold className at h
  split at h
  · exact List.mem_cons_of_mem _ h
  · exact h

/-- The class names of a list are words, so they have no blanks. -/
theorem shown_of_mem_classNames {text : List Char} {name : String} (h : name ∈ classNames text) :
    name ≠ "" ∧ ∀ c ∈ name.toList, isBlank c = false := by
  obtain ⟨chars, hchars, hname⟩ := List.mem_filterMap.mp h
  obtain ⟨word, hword, rfl⟩ := List.mem_map.mp hchars
  split at hname
  · cases hname
  · next hne =>
    obtain rfl := Option.some.inj hname
    rw [String.toList_ofList]
    refine ⟨?_, fun c hc => not_blank_of_mem_words hword c (mem_className hc)⟩
    intro hempty
    have htext := congrArg String.toList hempty
    rw [String.toList_ofList] at htext
    simp [htext] at hne

theorem valid_of_mem_classListAt {text : List Char} (h : occurrence ∈ classListAt line path text) :
    occurrence.Valid path line line := by
  obtain ⟨name, hname, rfl⟩ := List.mem_map.mp h
  exact ⟨rfl, Int.le_refl _, Int.le_refl _, shown_of_mem_classNames hname⟩

/-- A class list that spans lines has no more of them than its text. -/
theorem valid_of_mem_classListFrom {text : List Char}
    (h : occurrence ∈ classListFrom line path text) :
    occurrence.Valid path line (line + lineFeeds text) := by
  obtain ⟨⟨part, index⟩, hentry, hfound⟩ := List.mem_flatMap.mp h
  have hindex : index < (lines text).length := by
    have hlt := (List.mem_zipIdx hentry).2.1
    omega
  rw [length_lines] at hindex
  refine (valid_of_mem_classListAt hfound).mono ?_ ?_
  · simp only
    omega
  · simp only
    omega

/-! ## Expressions -/

theorem DynamicOccurrence.ShownIn.valid {occurrence : DynamicOccurrence} {text : List Char}
    (h : occurrence.ShownIn line path text) :
    (Occurrence.dynamic occurrence).Valid path line (line + lineFeeds text) := by
  obtain ⟨front, slice, rest, c, rfl, -, hblank, -, hshown, rfl⟩ := h
  refine ⟨rfl, ?_, ?_, ?_⟩
  · simp only [Occurrence.line]
    omega
  · simp only [Occurrence.line, lineFeeds_append]
    omega
  · have hmem : c ∈ codeText slice.blanked := List.mem_of_mem_head? hshown
    simp only [Occurrence.IsShown, String.toList_ofList]
    exact singleSpaced_collapse ⟨c, hmem, hblank⟩

theorem valid_of_mem_occurrencesIn {code : Code} (hfaithful : Faithful (.code code none))
    (h : occurrence ∈ occurrencesIn line path code) :
    occurrence.Valid path line (line + lineFeeds code.text) := by
  cases occurrence with
  | dynamic occurrence => exact (shownIn_of_mem_occurrencesIn hfaithful h).valid
  | named occurrence =>
    obtain ⟨piece, -, hfound⟩ := List.mem_flatMap.mp h
    cases piece with
    | literal chars start => exact (valid_of_mem_classListAt hfound).mono (Int.le_refl _) (by omega)
    | dynamic chars start => simp [Piece.occurrences] at hfound

/-! ## Templates -/

/-- The stretches of text in a template are stretches of its text. -/
theorem exists_text_of_mem_spans {start place : Nat} {done chars : List Char} {parts : List Part}
    (hdone : done.length ≤ start) (h : Span.text chars place ∈ spans start done parts) :
    ∃ front rest, done.reverse ++ partsText parts = front ++ chars ++ rest
      ∧ place = start - done.length + front.length := by
  fun_induction spans start done parts with
  | case1 start done =>
    obtain ⟨rfl, rfl⟩ := Span.text.inj (List.mem_singleton.mp h)
    exact ⟨[], [], by simp [partsText], rfl⟩
  | case2 start done c parts ih =>
    obtain ⟨front, rest, htext, hplace⟩ := ih (by simpa using hdone) h
    refine ⟨front, rest, by rw [← htext]; simp [partsText, Part.text], ?_⟩
    rw [hplace, List.length_cons]
    omega
  | case3 start done code closer parts ih =>
    rcases List.mem_cons.mp h with h | h
    · obtain ⟨rfl, rfl⟩ := Span.text.inj h
      exact ⟨[], partsText (.hole code closer :: parts), rfl, rfl⟩
    · obtain ⟨front, rest, htext, rfl⟩ := ih (Nat.zero_le _) (by simpa using h)
      refine ⟨done.reverse ++ (Part.hole code closer).text ++ front, rest, ?_, ?_⟩
      · simp only [List.reverse_nil, List.nil_append] at htext
        simp [partsText, htext]
      · simp only [List.length_append, List.length_reverse, List.length_nil]
        omega

theorem valid_of_mem_templateOccurrences {parts : List Part}
    (hparts : Faithful (.template parts (some backtick)))
    (h : occurrence ∈ templateOccurrences line path parts) :
    occurrence.Valid path line (line + lineFeeds (partsText parts)) := by
  obtain ⟨span, hspan, hfound⟩ := List.mem_flatMap.mp h
  cases span with
  | text chars start =>
    obtain ⟨front, rest, htext, rfl⟩ := exists_text_of_mem_spans (Nat.zero_le 0) hspan
    simp only [List.reverse_nil, List.nil_append, List.length_nil, Nat.sub_zero, Nat.zero_add]
      at htext hfound
    have hfront : (partsText parts).take front.length = front := by
      rw [htext, List.append_assoc, List.take_left]
    rw [hfront] at hfound
    refine (valid_of_mem_classListFrom hfound).mono (by omega) ?_
    rw [htext, lineFeeds_append, lineFeeds_append]
    omega
  | hole code start =>
    obtain ⟨closer, behind, hhole, hdrop⟩ := drop_code_of_mem_spans hspan
    have hcode := (enclosed_of_hole hparts hhole).faithful.at_end
    refine (valid_of_mem_occurrencesIn hcode hfound).mono (by omega) ?_
    -- the code of the hole stands behind what is in front of the hole
    have hsplit := congrArg lineFeeds (List.take_append_drop start (partsText parts))
    rw [hdrop, lineFeeds_append, lineFeeds_append] at hsplit
    rw [Code.text]
    omega

/-! ## Markup -/

theorem valid_of_mem_bracedOccurrences {code : Code} {closer : Char}
    (henclosed : Enclosed code closer) (h : occurrence ∈ bracedOccurrences line path code closer) :
    occurrence.Valid path line (line + lineFeeds code.text) := by
  have hfaithful := henclosed.faithful.at_end
  unfold bracedOccurrences at h
  split at h
  · next parts hsole =>
    split at h
    · -- the text of a template is a part of the text of its code
      obtain ⟨before, after, -, htext⟩ := exists_text_of_soleTemplate? hsole
      have hparts := sound_of_soleTemplate? hfaithful hsole
      refine (valid_of_mem_templateOccurrences hparts h).mono (Int.le_refl _) ?_
      rw [Code.text, htext, lineFeeds_append, lineFeeds_append]
      omega
    · exact valid_of_mem_occurrencesIn hfaithful h
  · exact valid_of_mem_occurrencesIn hfaithful h

theorem valid_of_readValue {value behind : List Char} {here : List Occurrence}
    (hread : readValue line path value = .ok (here, behind)) (h : occurrence ∈ here) :
    occurrence.Valid path line (line + lineFeeds value) := by
  rcases readValue_eq_ok hread with rfl | ⟨mark, names, -, -, rfl⟩ | ⟨code, closer, henclosed, rfl,
    rfl⟩
  · simp at h
  · exact (valid_of_mem_classListAt h).mono (Int.le_refl _) (by omega)
  · refine (valid_of_mem_bracedOccurrences henclosed h).mono (Int.le_refl _) ?_
    rw [lineFeeds_cons, lineFeeds_append, Code.text]
    omega

theorem markupOccurrences?_valid {dialect : Dialect} {text : List Char} {found : List Occurrence}
    (h : markupOccurrences? dialect text path = .ok found) (hmem : occurrence ∈ found) :
    occurrence.Valid path 1 (1 + lineFeeds text) := by
  obtain ⟨front, tail, value, here, behind, rfl, hvalue, hread, hhere⟩ :=
    exists_value_of_mem_scanMarkup h hmem
  obtain ⟨gap, rfl⟩ := valueText?_suffix hvalue
  refine (valid_of_readValue hread hhere).mono (by omega) ?_
  rw [lineFeeds_append, lineFeeds_append]
  omega

/-! ## Stylesheets -/

theorem not_isBlank_of_isNameChar {c : Char} (h : isNameChar c = true) : isBlank c = false := by
  simp only [isNameChar, Char.isAlphanum, Char.isAlpha, Char.isUpper, Char.isLower, Char.isDigit,
    Bool.or_eq_true, Bool.and_eq_true, decide_eq_true_eq, UInt32.le_iff_toNat_le, ge_iff_le,
    beq_iff_eq] at h
  change ((((65 ≤ c.toNat ∧ c.toNat ≤ 90) ∨ (97 ≤ c.toNat ∧ c.toNat ≤ 122))
    ∨ (48 ≤ c.toNat ∧ c.toNat ≤ 57)) ∨ c = '-') ∨ c = '_' at h
  rcases h with (h | rfl) | rfl
  · simp only [isBlank, Bool.or_eq_false_iff, Bool.and_eq_false_iff, decide_eq_false_iff_not,
      beq_eq_false_iff_ne]
    omega
  · decide
  · decide

/-- The name of a selector starts with a letter and has no blanks. -/
theorem shown_of_mem_selectorNames {text name : List Char} (h : name ∈ selectorNames text) :
    name ≠ [] ∧ ∀ c ∈ name, isBlank c = false := by
  fun_induction selectorNames text with
  | case1 => simp at h
  | case2 => simp at h
  | case3 c rest _ hselector ih =>
    rcases List.mem_cons.mp h with rfl | h
    · -- the letter behind the dot is the first character of the name
      have hletter := (Bool.and_eq_true_iff.mp hselector).2
      cases rest with
      | nil => simp at hletter
      | cons letter rest =>
        have hfirst : isNameChar letter = true := by
          simp only [List.head?_cons, Option.any_some] at hletter
          simp [isNameChar, Char.isAlphanum, hletter]
        refine ⟨by simp [hfirst], fun c hc => ?_⟩
        exact not_isBlank_of_isNameChar (List.all_eq_true.mp List.all_takeWhile c hc)
    · exact ih h
  | case4 c rest _ _ ih => exact ih h

theorem stylesheetOccurrences_valid {text : List Char} {definition : ClassOccurrence}
    (h : definition ∈ stylesheetOccurrences text path) :
    (Occurrence.named definition).Valid path 1 (1 + lineFeeds text) := by
  obtain ⟨⟨part, number⟩, hentry, hfound⟩ := List.mem_flatMap.mp h
  obtain ⟨name, hname, rfl⟩ := List.mem_map.mp hfound
  obtain ⟨hfirst, hlast, -⟩ := List.mem_zipIdx hentry
  rw [length_lines] at hlast
  have hselector : name ∈ definedNames text := (List.mem_filter.mp hname).1
  rw [definedNames, List.mem_eraseDups] at hselector
  obtain ⟨selectors, -, hmem⟩ := List.mem_flatMap.mp hselector
  obtain ⟨hne, hblank⟩ := shown_of_mem_selectorNames hmem
  refine ⟨rfl, ?_, ?_, ?_, ?_⟩
  · simp only [Occurrence.line]
    omega
  · simp only [Occurrence.line]
    omega
  · intro hempty
    have htext := congrArg String.toList hempty
    rw [String.toList_ofList] at htext
    exact hne htext
  · simpa using hblank

theorem nodup_definedNames (text : List Char) : (definedNames text).Nodup := by
  have hnodup := nodup_eraseDups ((lines text).flatMap selectorNames)
  -- lists of characters have two tests for equality
  rwa [lawful_beq_subsingleton instBEqOfDecidableEq List.instBEq] at hnodup

/-- A stylesheet defines a class once on a line. -/
theorem nodup_stylesheetOccurrences (text : List Char) (path : String) :
    (stylesheetOccurrences text path).Nodup := by
  have hnumbers : ((lines text).zipIdx 1).Pairwise fun a b => a.2 ≠ b.2 := by
    have hrange : (((lines text).zipIdx 1).map (·.2)).Nodup := by
      rw [List.zipIdx_map_snd]
      exact List.nodup_range'
    exact List.pairwise_map.mp hrange
  rw [stylesheetOccurrences, List.nodup_flatMap]
  constructor
  · intro entry _
    -- the names are distinct, and so are the occurrences of them on one line
    refine List.Nodup.map ?_ ((nodup_definedNames text).filter _)
    intro name other heq
    exact String.ofList_injective (ClassOccurrence.mk.inj heq).1
  · refine hnumbers.imp fun {a b} hne => ?_
    intro definition hfirst hsecond
    obtain ⟨name, -, rfl⟩ := List.mem_map.mp hfirst
    obtain ⟨other, -, heq⟩ := List.mem_map.mp hsecond
    have hline := (ClassOccurrence.mk.inj heq).2.1
    exact hne (by omega)

end Valid

end StyleAudit
