import StyleAudit.Proofs.Text.Lines
import StyleAudit.Proofs.Text.Words

/-!
# Places of words

The words of a text are those that start at its places (`words_eq_map`). So what is read off a class
list, on one line or over several, can be told word by word, each with the place where it stands
(`classListAt_eq_flatMap`, `classListFrom_eq_flatMap`).
-/

namespace StyleAudit

/-- Whether a word of a text starts at a place: a character that is no blank stands there, and none
in front of it. -/
def startsWord (text : List Char) (place : Nat) : Bool :=
  text[place]?.any (fun c => !isBlank c) && (text.take place).getLast?.all isBlank

/-- The places where the words of a text start, in order. -/
def wordPlaces (text : List Char) : List Nat :=
  (List.range text.length).filter (startsWord text)

/-- The characters of a text from a place on, up to the next blank. -/
def wordAt (text : List Char) (place : Nat) : List Char :=
  (text.drop place).takeWhile fun c => !isBlank c

section Cut

variable {front : List Char} {c : Char} {place : Nat}

theorem startsWord_front (hplace : place < front.length) (rest : List Char) :
    startsWord (front ++ rest) place = startsWord front place := by
  rw [startsWord, List.getElem?_append_left hplace, List.take_append_of_le_length hplace.le,
    startsWord]

theorem startsWord_blank (hc : isBlank c = true) (front rest : List Char) :
    startsWord (front ++ c :: rest) front.length = false := by
  simp [startsWord, hc]

/-- A blank in front of a text hides no word of it. -/
theorem startsWord_behind (hc : isBlank c = true) (front rest : List Char) (place : Nat) :
    startsWord (front ++ c :: rest) (front.length + 1 + place) = startsWord rest place := by
  have htake : (front ++ c :: rest).take (front.length + 1 + place)
      = front ++ c :: rest.take place := by
    rw [Nat.add_assoc, List.take_length_add_append, Nat.add_comm 1, List.take_succ_cons]
  rw [startsWord, getElem?_behind, htake, startsWord, List.getLast?_append, List.getLast?_cons]
  cases (rest.take place).getLast? <;> simp [hc]

theorem wordAt_front (hc : isBlank c = true) (hplace : place ≤ front.length) (rest : List Char) :
    wordAt (front ++ c :: rest) place = wordAt front place := by
  rw [wordAt, List.drop_append_of_le_length hplace, List.takeWhile_append, wordAt]
  split
  · next hfull =>
    rw [List.takeWhile_cons_of_neg (by simp [hc]), List.append_nil]
    exact ((List.takeWhile_prefix _).eq_of_length hfull).symm
  · rfl

theorem wordAt_behind (front rest : List Char) (place : Nat) :
    wordAt (front ++ c :: rest) (front.length + 1 + place) = wordAt rest place := by
  rw [wordAt, drop_behind, wordAt]

/-- What is found at the words of a text that is cut at a blank. -/
theorem map_wordPlaces_cut {α : Type} (hc : isBlank c = true) (rest : List Char)
    {f f₁ f₂ : Nat → α} (hfront : ∀ place < front.length, f place = f₁ place)
    (hback : ∀ place, f (front.length + 1 + place) = f₂ place) :
    (wordPlaces (front ++ c :: rest)).map f
      = (wordPlaces front).map f₁ ++ (wordPlaces rest).map f₂ := by
  have hlength : (front ++ c :: rest).length = front.length + 1 + rest.length := by
    rw [List.length_append, List.length_cons]
    omega
  rw [wordPlaces, hlength]
  apply map_filter_range_cut
  · intro place hplace
    exact ⟨startsWord_front hplace _, hfront place hplace⟩
  · exact startsWord_blank hc front rest
  · intro place _
    exact ⟨startsWord_behind hc front rest place, hback place⟩

end Cut

/-- A stretch without blanks is a word, unless it is empty. -/
theorem words_of_not_blank {stretch : List Char} (h : ∀ c ∈ stretch, isBlank c = false) :
    words stretch = (wordPlaces stretch).map (wordAt stretch) := by
  have hsplit : stretch.splitOnP isBlank = [stretch] := List.splitOnP_eq_singleton h
  cases stretch with
  | nil => rfl
  | cons c rest =>
    -- behind the first character there is always one in front that is no blank
    have hplaces : wordPlaces (c :: rest) = [0] := by
      have hfirst : startsWord (c :: rest) 0 = true := by simp [startsWord, h c List.mem_cons_self]
      have hothers : (List.range rest.length).filter (startsWord (c :: rest) ∘ Nat.succ) = [] := by
        rw [List.filter_eq_nil_iff]
        intro place _ hstarts
        obtain ⟨-, hlast⟩ := Bool.and_eq_true_iff.mp hstarts
        have hne : (c :: rest).take (place + 1) ≠ [] := by simp
        rw [List.getLast?_eq_some_getLast hne, Option.all_some] at hlast
        rw [h _ (List.mem_of_mem_take (List.getLast_mem hne))] at hlast
        cases hlast
      rw [wordPlaces, List.length_cons, List.range_succ_eq_map, List.filter_cons_of_pos hfirst,
        List.filter_map, hothers, List.map_nil]
    have hword : wordAt (c :: rest) 0 = c :: rest := by
      rw [wordAt, List.drop_zero, List.takeWhile_eq_self_iff]
      intro d hd
      simp [h d hd]
    rw [words, hsplit, hplaces, List.map_singleton, hword]
    rfl

/-- The words of a text, each by the place where it starts. -/
theorem words_eq_map (text : List Char) : words text = (wordPlaces text).map (wordAt text) := by
  induction text using cut_induction isBlank with
  | last stretch hstretch => exact words_of_not_blank hstretch
  | more stretch c rest hstretch hc ih =>
    rw [words_append_cons _ _ hc, words_of_not_blank hstretch, ih]
    refine (map_wordPlaces_cut hc rest ?_ (wordAt_behind stretch rest)).symm
    intro place hplace
    exact wordAt_front hc hplace.le rest

/-! ## Class lists -/

theorem words_word {text word : List Char} (h : word ∈ words text) : words word = [word] := by
  have hsplit : word.splitOnP isBlank = [word] :=
    List.splitOnP_eq_singleton (not_blank_of_mem_words h)
  have hne : word.isEmpty = false := by simpa using ne_nil_of_mem_words h
  simp [words, hsplit, hne]

section ClassLists

variable (line : Int) (path : String) (text : List Char)

/-- A class list, word by word. -/
theorem classListAt_eq_flatMap :
    classListAt line path text
      = (wordPlaces text).flatMap fun place => classListAt line path (wordAt text place) := by
  have hwords : (words text).flatMap words = words text := by
    rw [List.flatMap_congr fun word hword => words_word hword, List.flatMap_singleton']
  rw [classListAt, classNames_of_words hwords.symm, words_eq_map, List.flatMap_map,
    List.map_flatMap]
  rfl

theorem classListFrom_of_not_mem (h : '\n' ∉ text) :
    classListFrom line path text = classListAt line path text := by
  simp [classListFrom, lines_of_not_mem h]

theorem classListFrom_append_cons {front : List Char} (h : '\n' ∉ front) (rest : List Char) :
    classListFrom line path (front ++ '\n' :: rest)
      = classListAt line path front ++ classListFrom (line + 1) path rest := by
  rw [classListFrom, lines_append_cons, lines_of_not_mem h, classListFrom]
  simp [List.zipIdx_succ, List.flatMap_map, Int.add_assoc, Int.add_comm 1]

/-- A class list over several lines, word by word: each word counts for its own line. -/
theorem classListFrom_eq_flatMap :
    classListFrom line path text
      = (wordPlaces text).flatMap fun place =>
          classListAt (line + lineFeeds (text.take place)) path (wordAt text place) := by
  induction text using lines_induction generalizing line with
  | last text htext =>
    rw [classListFrom_of_not_mem line path text htext, classListAt_eq_flatMap]
    refine List.flatMap_congr fun place hplace => ?_
    have hle : place ≤ text.length := (List.mem_range.mp (List.mem_of_mem_filter hplace)).le
    have hfeeds := lineFeeds_take_of_le htext hle []
    rw [List.append_nil] at hfeeds
    rw [hfeeds, Int.natCast_zero, Int.add_zero]
  | more front rest hfront ih =>
    rw [classListFrom_append_cons line path hfront, classListAt_eq_flatMap, ih, List.flatMap_def,
      List.flatMap_def, List.flatMap_def, ← List.flatten_append]
    congr 1
    refine (map_wordPlaces_cut (by decide) rest ?_ ?_).symm
    · intro place hplace
      rw [lineFeeds_take_of_le hfront hplace.le, wordAt_front (by decide) hplace.le,
        Int.natCast_zero, Int.add_zero]
    · intro place
      rw [lineFeeds_take_behind hfront, wordAt_behind, Int.natCast_add, Int.add_comm _ (1 : Nat),
        ← Int.add_assoc]
      rfl

end ClassLists

end StyleAudit
