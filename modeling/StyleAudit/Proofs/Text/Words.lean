import Mathlib.Data.List.Chain
import StyleAudit.Occurrence

/-!
# Words and lines

A blank separates words wherever it stands, so a text has the words of its lines (`words_lines`).
What the audit shows of a text, its words with single spaces, starts and ends with a word and has
no blanks side by side (`singleSpaced_collapse`).
-/

namespace StyleAudit

/-! ## Words -/

theorem words_append_cons (front back : List Char) {c : Char} (h : isBlank c = true) :
    words (front ++ c :: back) = words front ++ words back := by
  unfold words
  rw [List.splitOnP_append_cons front back h, List.filter_append]

theorem words_blank {blanks : List Char} (h : ∀ c ∈ blanks, isBlank c = true) :
    words blanks = [] := by
  induction blanks with
  | nil => rfl
  | cons c blanks ih =>
    have hsplit := words_append_cons [] blanks (h c List.mem_cons_self)
    rwa [List.nil_append, ih fun d hd => h d (List.mem_cons_of_mem _ hd)] at hsplit

/-- Blanks around a text hold no words. -/
theorem words_padded {before after : List Char} (hbefore : ∀ c ∈ before, isBlank c = true)
    (hafter : ∀ c ∈ after, isBlank c = true) (text : List Char) :
    words (before ++ text ++ after) = words text := by
  have hback : words (text ++ after) = words text := by
    cases after with
    | nil => rw [List.append_nil]
    | cons c after =>
      rw [words_append_cons text after (hafter c List.mem_cons_self),
        words_blank fun d hd => hafter d (List.mem_cons_of_mem _ hd), List.append_nil]
  rw [List.append_assoc]
  induction before with
  | nil => exact hback
  | cons c before ih =>
    have hsplit := words_append_cons [] (before ++ (text ++ after)) (hbefore c List.mem_cons_self)
    rw [List.cons_append]
    rw [List.nil_append] at hsplit
    rw [hsplit, ih fun d hd => hbefore d (List.mem_cons_of_mem _ hd)]
    rfl

/-- No piece of a text that is split holds a character it is split at. -/
theorem not_of_mem_splitOnP {p : Char → Bool} {text piece : List Char}
    (h : piece ∈ text.splitOnP p) : ∀ c ∈ piece, p c = false := by
  induction text generalizing piece with
  | nil =>
    obtain rfl : piece = [] := by simpa using h
    simp
  | cons c text ih =>
    rw [List.splitOnP_cons_eq_if_modifyHead] at h
    split at h
    · rcases List.mem_cons.mp h with rfl | h
      · simp
      · exact ih h
    · next hc =>
      -- the character goes to the front of the first piece
      obtain ⟨first, others, hsplit⟩ :=
        List.exists_cons_of_ne_nil (List.splitOnP_ne_nil p text)
      rw [hsplit, List.modifyHead_cons] at h
      rcases List.mem_cons.mp h with rfl | h
      · intro d hd
        rcases List.mem_cons.mp hd with rfl | hd
        · simpa using hc
        · exact ih (by simp [hsplit]) d hd
      · exact ih (by simp [hsplit, h])

theorem ne_nil_of_mem_words {text word : List Char} (h : word ∈ words text) : word ≠ [] := by
  have hword := (List.mem_filter.mp h).2
  simpa using hword

theorem not_blank_of_mem_words {text word : List Char} (h : word ∈ words text) :
    ∀ c ∈ word, isBlank c = false :=
  not_of_mem_splitOnP (List.mem_filter.mp h).1

/-- Without its blanks a text is its words, one behind the other. -/
theorem flatten_words (text : List Char) :
    (words text).flatten = text.filter fun c => !isBlank c := by
  have hdrop : ∀ pieces : List (List Char),
      (pieces.filter fun piece => !piece.isEmpty).flatten = pieces.flatten := by
    intro pieces
    induction pieces with
    | nil => rfl
    | cons piece pieces ih => cases piece <;> simp [ih]
  rw [words, hdrop]
  induction text with
  | nil => rfl
  | cons c text ih =>
    obtain ⟨first, pieces, hsplit⟩ :=
      List.exists_cons_of_ne_nil (List.splitOnP_ne_nil isBlank text)
    rw [hsplit] at ih
    cases hc : isBlank c with
    | true => simp [List.splitOnP_cons_eq_if_modifyHead, hc, hsplit, ← ih]
    | false => simp [List.splitOnP_cons_eq_if_modifyHead, hc, hsplit, ← ih]

theorem words_cons_blank {c : Char} (hc : isBlank c = true) (text : List Char) :
    words (c :: text) = words text := by
  have hsplit := words_append_cons [] text hc
  rwa [List.nil_append, show words [] = [] from rfl, List.nil_append] at hsplit

/-- A text with the words of other texts names the same classes as they. -/
theorem classNames_of_words {text : List Char} {parts : List (List Char)}
    (h : words text = parts.flatMap words) : classNames text = parts.flatMap classNames := by
  rw [classNames, h, List.map_flatMap, List.filterMap_flatMap]
  rfl

/-- A text with more than blanks in it has words. -/
theorem words_ne_nil {text : List Char} (h : ∃ c ∈ text, isBlank c = false) :
    words text ≠ [] := by
  induction text with
  | nil => simp at h
  | cons c text ih =>
    by_cases hc : isBlank c = true
    · rw [words_cons_blank hc]
      apply ih
      obtain ⟨d, hd, hblank⟩ := h
      rcases List.mem_cons.mp hd with rfl | hd
      · simp [hc] at hblank
      · exact ⟨d, hd, hblank⟩
    · -- the first word starts with this character
      obtain ⟨first, others, hsplit⟩ :=
        List.exists_cons_of_ne_nil (List.splitOnP_ne_nil isBlank text)
      have hfirst : (c :: first) ∈ words (c :: text) := by
        rw [words, List.splitOnP_cons_eq_if_modifyHead, if_neg hc, hsplit]
        simp
      exact List.ne_nil_of_mem hfirst

/-! ## Single spaces -/

/-- A text that starts and ends with a character which is no blank, and has no two blanks side by
side. -/
structure SingleSpaced (text : List Char) : Prop where
  head : ∃ c, text.head? = some c ∧ isBlank c = false
  last : ∃ c, text.getLast? = some c ∧ isBlank c = false
  single : text.IsChain fun c d => ¬ (isBlank c = true ∧ isBlank d = true)

theorem SingleSpaced.ne_nil {text : List Char} (h : SingleSpaced text) : text ≠ [] := by
  obtain ⟨c, hc, -⟩ := h.head
  intro hnil
  simp [hnil] at hc

theorem singleSpaced_word {word : List Char} (hne : word ≠ [])
    (hword : ∀ c ∈ word, isBlank c = false) : SingleSpaced word where
  head := by
    obtain ⟨c, rest, rfl⟩ := List.exists_cons_of_ne_nil hne
    exact ⟨c, rfl, hword c List.mem_cons_self⟩
  last := ⟨word.getLast hne, List.getLast?_eq_some_getLast hne, hword _ (List.getLast_mem hne)⟩
  single := by
    refine List.Pairwise.isChain (List.pairwise_of_forall_mem_list fun c hc d _ => ?_)
    simp [hword c hc]

theorem SingleSpaced.append_space {a b : List Char} (ha : SingleSpaced a) (hb : SingleSpaced b) :
    SingleSpaced (a ++ ' ' :: b) where
  head := by
    obtain ⟨c, hc, hblank⟩ := ha.head
    exact ⟨c, by simp [List.head?_append, hc], hblank⟩
  last := by
    obtain ⟨c, hc, hblank⟩ := hb.last
    exact ⟨c, by simp [List.getLast?_append, List.getLast?_cons, hc], hblank⟩
  single := by
    obtain ⟨c, hc, hlast⟩ := ha.last
    obtain ⟨d, hd, hhead⟩ := hb.head
    rw [List.isChain_append, List.isChain_cons]
    refine ⟨ha.single, ⟨?_, hb.single⟩, ?_⟩
    · simp [hd, hhead]
    · simp [hc, hlast]

/-- The words of a text with single spaces between them are single spaced, if there are any. -/
theorem singleSpaced_collapse {text : List Char} (h : ∃ c ∈ text, isBlank c = false) :
    SingleSpaced (collapse text) := by
  have hwords : ∀ word ∈ words text, SingleSpaced word := fun word hmem =>
    singleSpaced_word (ne_nil_of_mem_words hmem) (not_blank_of_mem_words hmem)
  have hne := words_ne_nil h
  rw [collapse]
  generalize words text = found at hwords hne
  induction found with
  | nil => exact absurd rfl hne
  | cons word found ih =>
    have hword := hwords word List.mem_cons_self
    cases found with
    | nil => simpa using hword
    | cons next found =>
      have hrest := ih (fun word hmem => hwords word (List.mem_cons_of_mem _ hmem)) (by simp)
      rw [List.intercalate_cons_cons, List.append_assoc, List.singleton_append]
      exact hword.append_space hrest

/-- Single spaces between words change none of the characters that are no blanks. -/
theorem filter_collapse (text : List Char) :
    (collapse text).filter (fun c => !isBlank c) = text.filter fun c => !isBlank c := by
  have hwords : ∀ word ∈ words text, (word.filter fun c => !isBlank c) = word := by
    intro word hmem
    rw [List.filter_eq_self]
    intro c hc
    rw [not_blank_of_mem_words hmem c hc]
    rfl
  rw [← flatten_words text, collapse]
  generalize words text = found at hwords
  induction found with
  | nil => rfl
  | cons word found ih =>
    have hword := hwords word List.mem_cons_self
    have hrest := ih fun other hmem => hwords other (List.mem_cons_of_mem _ hmem)
    cases found with
    | nil => simpa using hword
    | cons next found =>
      have hspace : ([' '].filter fun c => !isBlank c) = [] := by decide
      rw [List.intercalate_cons_cons, List.filter_append, List.filter_append, hword, hspace,
        List.append_nil, hrest]
      rfl

/-! ## Lines -/

theorem words_intercalate (parts : List (List Char)) :
    words (['\n'].intercalate parts) = parts.flatMap words := by
  induction parts with
  | nil => rfl
  | cons part parts ih =>
    cases parts with
    | nil => simp
    | cons next parts =>
      rw [List.intercalate_cons_cons, List.append_assoc, List.singleton_append,
        words_append_cons _ _ (by decide), ih]
      rfl

/-- A text has the words of its lines. -/
theorem words_lines (text : List Char) : words text = (lines text).flatMap words := by
  rw [← words_intercalate, lines, List.intercalate_splitOn]

theorem length_lines (text : List Char) : (lines text).length = lineFeeds text + 1 := by
  induction text with
  | nil => rfl
  | cons c text ih =>
    rw [lines, List.splitOn_cons_eq_if_modifyHead, lineFeeds_cons, lineFeeds,
      List.count_singleton]
    split
    · rw [List.length_cons, ← lines, ih]
      omega
    · rw [List.length_modifyHead, ← lines, ih]
      omega

end StyleAudit
