import StyleAudit.Proofs.Markup.Bounds
import StyleAudit.Proofs.Text.Lines

/-!
# Where a stylesheet has selectors

A stylesheet is read line by line. Here its selectors are places of the whole text: a place where a
dot and a letter stand (`IsSelector`), and the longest name behind the dot (`selectorName`). A
selector counts if no `@import` stands in front of it on its line (`Counts`).

The names collected from the lines are those of the selectors that count, in the order of their
places (`flatMap_selectorNames`), so the definitions of a stylesheet are known exactly
(`stylesheetOccurrences_exact`).
-/

namespace StyleAudit

/-- A class selector starts at a place of a text: a dot in front of an ASCII letter. -/
def IsSelector (text : List Char) (place : Nat) : Prop :=
  text[place]? = some '.' ∧ text[place + 1]?.any Char.isAlpha = true

/-- The name of the selector at a place: the longest run of ASCII letters, digits, hyphens and low
lines behind the dot. -/
def selectorName (text : List Char) (place : Nat) : List Char :=
  (text.drop (place + 1)).takeWhile isNameChar

/-- An `@import` stands in front of a place on its line. -/
def BehindImport (text : List Char) (place : Nat) : Prop :=
  importMark <:+: lineBefore text place

/-- A selector with no `@import` in front of it on its line. -/
def Counts (text : List Char) (place : Nat) : Prop :=
  IsSelector text place ∧ ¬ BehindImport text place

instance (text : List Char) (place : Nat) : Decidable (IsSelector text place) :=
  inferInstanceAs (Decidable (_ ∧ _))

instance (text : List Char) (place : Nat) : Decidable (BehindImport text place) :=
  inferInstanceAs (Decidable (_ <:+: _))

instance (text : List Char) (place : Nat) : Decidable (Counts text place) :=
  inferInstanceAs (Decidable (_ ∧ _))

/-- The names of the selectors that count, in the order of their places. -/
def countedNames (text : List Char) : List (List Char) :=
  ((List.range text.length).filter (Counts text ·)).map (selectorName text)

theorem occursIn_iff {word text : List Char} : occursIn word text = true ↔ word <:+: text := by
  induction text with
  | nil => simp [occursIn]
  | cons c rest ih => simp [occursIn, ih, List.infix_cons_iff]

/-! ## The selectors of one line -/

section Line

variable {c : Char} {rest : List Char} {place : Nat}

theorem isSelector_zero :
    IsSelector (c :: rest) 0 ↔ c = '.' ∧ rest.head?.any Char.isAlpha = true := by
  simp [IsSelector, List.head?_eq_getElem?]

theorem isSelector_succ : IsSelector (c :: rest) (place + 1) ↔ IsSelector rest place := by
  simp [IsSelector]

theorem selectorName_succ : selectorName (c :: rest) (place + 1) = selectorName rest place := rfl

/-- `@import` stands in front of a dot if it starts at an earlier place: a dot is no part of it. -/
theorem infix_take_iff {text : List Char} (hdot : text[place]? = some '.') :
    importMark <:+: text.take place ↔ ∃ start < place, importMark <+: text.drop start := by
  constructor
  · rintro ⟨front, back, hsplit⟩
    have htext : text = front ++ (importMark ++ (back ++ text.drop place)) := by
      rw [← List.append_assoc, ← List.append_assoc, hsplit, List.take_append_drop]
    have hlength := congrArg List.length hsplit
    have hmark : importMark.length = 7 := by decide
    simp only [List.length_append, List.length_take] at hlength
    refine ⟨front.length, by omega, back ++ text.drop place, ?_⟩
    conv_rhs => rw [htext, List.drop_left]
  · rintro ⟨start, hstart, back, hdrop⟩
    have hbehind : start + importMark.length ≤ place := by
      by_contra hlt
      -- otherwise the dot is one of the characters of the mark
      have hinside : (importMark ++ back)[place - start]? = some '.' := by
        rw [hdrop, List.getElem?_drop, Nat.add_sub_cancel' (Nat.le_of_lt hstart), hdot]
      rw [List.getElem?_append_left (by omega)] at hinside
      exact absurd (List.mem_of_getElem? hinside) (by decide)
    have hprefix : importMark <+: (text.take place).drop start := by
      rw [List.drop_take, List.prefix_take_iff]
      exact ⟨⟨back, hdrop⟩, by omega⟩
    exact hprefix.isInfix.trans (List.drop_suffix start _).isInfix

/-- A selector of a line in front of which no `@import` starts. -/
def IsAhead (line : List Char) (place : Nat) : Prop :=
  IsSelector line place ∧ ∀ start < place, ¬ importMark <+: line.drop start

instance (line : List Char) (place : Nat) : Decidable (IsAhead line place) :=
  inferInstanceAs (Decidable (_ ∧ _))

theorem isAhead_zero : IsAhead (c :: rest) 0 ↔ c = '.' ∧ rest.head?.any Char.isAlpha = true := by
  simp [IsAhead, isSelector_zero]

theorem isAhead_succ :
    IsAhead (c :: rest) (place + 1) ↔ ¬ importMark <+: c :: rest ∧ IsAhead rest place := by
  rw [IsAhead, IsAhead, isSelector_succ, and_left_comm]
  refine and_congr_right fun _ => ⟨fun h => ?_, fun h start hstart => ?_⟩
  · refine ⟨h 0 (Nat.succ_pos place), fun start hstart => ?_⟩
    exact h (start + 1) (Nat.succ_lt_succ hstart)
  · cases start with
    | zero => exact h.1
    | succ start => exact h.2 start (Nat.lt_of_succ_lt_succ hstart)

/-- Whether the first character of a line starts a selector, and what is left of the line. -/
theorem filter_isAhead_cons (h : ¬ importMark <+: c :: rest) :
    (List.range (c :: rest).length).filter (IsAhead (c :: rest) ·)
      = (if c = '.' ∧ rest.head?.any Char.isAlpha = true then [0] else [])
        ++ ((List.range rest.length).filter (IsAhead rest ·)).map Nat.succ := by
  have hlater : ((fun place => decide (IsAhead (c :: rest) place)) ∘ Nat.succ)
      = fun place => decide (IsAhead rest place) := by
    funext place
    simp [isAhead_succ, h]
  rw [List.length_cons, List.range_succ_eq_map, List.filter_cons, List.filter_map, hlater]
  by_cases hfirst : IsAhead (c :: rest) 0
  · rw [if_pos (decide_eq_true hfirst), if_pos (isAhead_zero.mp hfirst), List.singleton_append]
  · rw [if_neg (by simpa using hfirst), if_neg fun hselector => hfirst (isAhead_zero.mpr hselector),
      List.nil_append]

/-- The names found in a line are those of its selectors in front of the first `@import`. -/
theorem selectorNames_eq_isAhead (line : List Char) :
    selectorNames line
      = ((List.range line.length).filter (IsAhead line ·)).map (selectorName line) := by
  have later : ∀ (c : Char) (rest : List Char) (places : List Nat),
      (places.map Nat.succ).map (selectorName (c :: rest)) = places.map (selectorName rest) := by
    intro c rest places
    rw [List.map_map]
    exact List.map_congr_left fun _ _ => selectorName_succ
  fun_induction selectorNames line with
  | case1 => rfl
  | case2 c rest himport =>
    -- the mark hides every later place, and starts with no dot itself
    have hmark := List.isPrefixOf_iff_prefix.mp himport
    have hnone : ∀ place, ¬ IsAhead (c :: rest) place := by
      intro place
      cases place with
      | zero =>
        rw [isAhead_zero]
        rintro ⟨rfl, -⟩
        exact absurd (List.cons_prefix_cons.mp hmark).1 (by decide)
      | succ place => exact fun h => (isAhead_succ.mp h).1 hmark
    simp [hnone]
  | case3 c rest himport hselector ih =>
    have hmark := fun h => himport (List.isPrefixOf_iff_prefix.mpr h)
    have hfirst : c = '.' ∧ rest.head?.any Char.isAlpha = true := by simpa using hselector
    rw [filter_isAhead_cons hmark, if_pos hfirst, List.map_append, later, ← ih]
    rfl
  | case4 c rest himport hselector ih =>
    have hmark := fun h => himport (List.isPrefixOf_iff_prefix.mpr h)
    have hfirst : ¬ (c = '.' ∧ rest.head?.any Char.isAlpha = true) := by simpa using hselector
    rw [filter_isAhead_cons hmark, if_neg hfirst, List.nil_append, later, ← ih]

theorem counts_iff_isAhead {line : List Char} (hline : '\n' ∉ line) (hplace : place ≤ line.length) :
    Counts line place ↔ IsAhead line place := by
  have hbefore := lineBefore_of_le hline hplace []
  rw [List.append_nil] at hbefore
  refine and_congr_right fun hselector => ?_
  rw [BehindImport, hbefore, infix_take_iff hselector.1]
  push Not
  rfl

theorem selectorNames_eq_countedNames {line : List Char} (hline : '\n' ∉ line) :
    selectorNames line = countedNames line := by
  rw [selectorNames_eq_isAhead, countedNames]
  congr 1
  refine List.filter_congr fun place hplace => ?_
  rw [decide_eq_decide]
  exact (counts_iff_isAhead hline (Nat.le_of_lt (List.mem_range.mp hplace))).symm

end Line

/-! ## The selectors of a text -/

section Text

variable {front : List Char} {place : Nat}

/-- A line feed is no part of a selector: a place on the first line has the selector it has on the
line alone. -/
theorem counts_front (hfront : '\n' ∉ front) (rest : List Char) (hplace : place < front.length) :
    (Counts (front ++ '\n' :: rest) place ↔ Counts front place)
      ∧ selectorName (front ++ '\n' :: rest) place = selectorName front place := by
  have hbefore := lineBefore_of_le hfront (Nat.le_of_lt hplace) ('\n' :: rest)
  have halone := lineBefore_of_le hfront (Nat.le_of_lt hplace) []
  rw [List.append_nil] at halone
  have hnext : (front ++ '\n' :: rest)[place + 1]?.any Char.isAlpha
      = front[place + 1]?.any Char.isAlpha := by
    by_cases hlast : place + 1 < front.length
    · rw [List.getElem?_append_left hlast]
    · obtain hlast : place + 1 = front.length := by omega
      simp [hlast, Char.isAlpha, Char.isUpper, Char.isLower]
  constructor
  · rw [Counts, Counts, IsSelector, IsSelector, List.getElem?_append_left hplace, hnext,
      BehindImport, BehindImport, hbefore, halone]
  · rw [selectorName, selectorName, List.drop_append_of_le_length hplace, List.takeWhile_append]
    split
    · next hfull =>
      have hself := (List.takeWhile_prefix (l := front.drop (place + 1)) isNameChar).eq_of_length
        hfull
      rw [List.takeWhile_cons_of_neg (by decide), List.append_nil, hself]
    · rfl

/-- A selector behind a line feed is one of the text behind it. -/
theorem counts_behind (front rest : List Char) (place : Nat) :
    (Counts (front ++ '\n' :: rest) (front.length + 1 + place) ↔ Counts rest place)
      ∧ selectorName (front ++ '\n' :: rest) (front.length + 1 + place)
        = selectorName rest place := by
  have hnext : front.length + 1 + place + 1 = front.length + 1 + (place + 1) := by omega
  constructor
  · rw [Counts, Counts, IsSelector, IsSelector, BehindImport, BehindImport, lineBefore_behind,
      hnext, getElem?_behind, getElem?_behind]
  · rw [selectorName, selectorName, hnext, drop_behind]

/-- The names on the first line of a text and those in the text behind it. -/
theorem countedNames_append (hfront : '\n' ∉ front) (rest : List Char) :
    countedNames (front ++ '\n' :: rest) = countedNames front ++ countedNames rest := by
  have hlength : (front ++ '\n' :: rest).length = front.length + 1 + rest.length := by
    simp only [List.length_append, List.length_cons]
    omega
  have hbreak : ¬ Counts (front ++ '\n' :: rest) front.length := by
    intro hcounts
    simpa using hcounts.1.1
  rw [countedNames, hlength]
  apply map_filter_range_cut
  · intro place hplace
    have hsame := counts_front hfront rest hplace
    exact ⟨decide_eq_decide.mpr hsame.1, hsame.2⟩
  · exact decide_eq_false hbreak
  · intro place _
    have hsame := counts_behind front rest place
    exact ⟨decide_eq_decide.mpr hsame.1, hsame.2⟩

/-- The names collected from the lines of a text are those of its selectors that count, in the order
of their places. -/
theorem flatMap_selectorNames (text : List Char) :
    (lines text).flatMap selectorNames = countedNames text := by
  induction text using lines_induction with
  | last line hline =>
    rw [lines_of_not_mem hline, List.flatMap_singleton, selectorNames_eq_countedNames hline]
  | more line rest hline ih =>
    rw [lines_append_cons, lines_of_not_mem hline, List.flatMap_append, List.flatMap_singleton, ih,
      selectorNames_eq_countedNames hline, countedNames_append hline]

end Text

/-! ## The definitions of a stylesheet -/

section Definitions

variable {text : List Char} {path : String}

theorem mem_countedNames_iff {name : List Char} :
    name ∈ countedNames text ↔ ∃ place, Counts text place ∧ selectorName text place = name := by
  rw [countedNames, List.mem_map]
  refine exists_congr fun place => ?_
  rw [List.mem_filter, decide_eq_true_iff, List.mem_range, and_congr_left_iff]
  intro _
  refine and_iff_right_of_imp fun hcounts => ?_
  exact (List.getElem?_eq_some_iff.mp hcounts.1.1).1

/-- The names that a stylesheet defines are those of its selectors that count, each once, in the
order of the first selector of each. -/
theorem inFirstOrder_definedNames (text : List Char) :
    InFirstOrder (countedNames text) (definedNames text) := by
  have hnames : definedNames text = (countedNames text).eraseDups := by
    rw [definedNames, flatMap_selectorNames]
  have hfirst := inFirstOrder_eraseDups (countedNames text)
  -- lists of characters have two tests for equality
  rwa [lawful_beq_subsingleton instBEqOfDecidableEq List.instBEq, ← hnames] at hfirst

theorem mem_stylesheetOccurrences_iff {definition : ClassOccurrence} :
    definition ∈ stylesheetOccurrences text path ↔ ∃ name ∈ countedNames text,
      ∃ (index : Nat) (line : List Char), (lines text)[index]? = some line
        ∧ '.' :: name <:+: line ∧ definition = ⟨String.ofList name, 1 + index, path⟩ := by
  have hdefined : ∀ name, name ∈ definedNames text ↔ name ∈ countedNames text :=
    (inFirstOrder_definedNames text).mem_iff
  rw [stylesheetOccurrences, List.mem_flatMap]
  constructor
  · rintro ⟨⟨line, number⟩, hentry, hfound⟩
    obtain ⟨name, hname, rfl⟩ := List.mem_map.mp hfound
    obtain ⟨hmem, hoccurs⟩ := List.mem_filter.mp hname
    obtain ⟨hfirst, hline⟩ := List.mem_zipIdx_iff_le_and_getElem?_sub.mp hentry
    refine ⟨name, (hdefined name).mp hmem, number - 1, line, hline, occursIn_iff.mp hoccurs, ?_⟩
    have hnumber : (number : Int) = 1 + ((number - 1 : Nat) : Int) := by
      simp only at hfirst
      omega
    rw [← hnumber]
  · rintro ⟨name, hname, index, line, hline, hinfix, rfl⟩
    refine ⟨(line, 1 + index), ?_, List.mem_map.mpr ⟨name, ?_, ?_⟩⟩
    · rw [List.mem_zipIdx_iff_le_and_getElem?_sub, Nat.add_sub_cancel_left]
      exact ⟨Nat.le_add_right 1 index, hline⟩
    · exact List.mem_filter.mpr ⟨(hdefined name).mpr hname, occursIn_iff.mpr hinfix⟩
    · rw [Int.natCast_add]
      rfl

/-- The text of a selector stands on the line of its dot. -/
theorem selector_infix_line {place : Nat} (h : IsSelector text place) :
    '.' :: selectorName text place <:+: lineBefore text place ++ lineBehind text place := by
  have hdrop : text.drop place = '.' :: text.drop (place + 1) := drop_eq_cons h.1
  have hkeep : (fun c => decide (isNameChar c = true ∧ (c != '\n') = true)) = isNameChar := by
    funext c
    by_cases hc : c = '\n'
    · subst hc
      rfl
    · simp [hc]
  have hname : selectorName text place <+: (text.drop (place + 1)).takeWhile (· != '\n') := by
    have htwice := List.takeWhile_takeWhile isNameChar (· != '\n') (text.drop (place + 1))
    rw [hkeep] at htwice
    rw [selectorName, ← htwice]
    exact List.takeWhile_prefix _
  have hbehind : '.' :: selectorName text place <+: lineBehind text place := by
    rw [lineBehind, hdrop, List.takeWhile_cons_of_pos (by decide), List.cons_prefix_cons]
    exact ⟨rfl, hname⟩
  exact hbehind.isInfix.trans (List.suffix_append _ _).isInfix

/-- A selector that counts defines its class on its own line. -/
theorem mem_of_counts {place : Nat} (h : Counts text place) :
    ⟨String.ofList (selectorName text place), 1 + lineFeeds (text.take place), path⟩
      ∈ stylesheetOccurrences text path := by
  have hplace : place < text.length := (List.getElem?_eq_some_iff.mp h.1.1).1
  exact mem_stylesheetOccurrences_iff.mpr ⟨_, mem_countedNames_iff.mpr ⟨place, h, rfl⟩, _, _,
    getElem?_lines (Nat.le_of_lt hplace), selector_infix_line h.1, rfl⟩

theorem exists_counts_of_mem {definition : ClassOccurrence}
    (h : definition ∈ stylesheetOccurrences text path) :
    ∃ place, Counts text place ∧ definition.name = String.ofList (selectorName text place) := by
  obtain ⟨name, hname, index, line, -, -, rfl⟩ := mem_stylesheetOccurrences_iff.mp h
  obtain ⟨place, hcounts, rfl⟩ := mem_countedNames_iff.mp hname
  exact ⟨place, hcounts, rfl⟩

end Definitions

/-- The definitions of a stylesheet, exactly. Line by line, they are the names of the selectors that
count, in the order of the first selector of each, as far as the line contains the name behind a
dot. So every selector that counts defines its class on its own line, no class is defined twice on a
line, and every class that is defined has a selector that counts. -/
theorem stylesheetOccurrences_exact (text : List Char) (path : String) :
    (∃ names, InFirstOrder (countedNames text) names
      ∧ stylesheetOccurrences text path = ((lines text).zipIdx 1).flatMap fun entry =>
        (names.filter fun name => '.' :: name <:+: entry.1).map fun name =>
          ⟨String.ofList name, entry.2, path⟩)
    ∧ (∀ place, Counts text place →
      ⟨String.ofList (selectorName text place), 1 + lineFeeds (text.take place), path⟩
        ∈ stylesheetOccurrences text path)
    ∧ ((stylesheetOccurrences text path).map fun definition =>
        (definition.name, definition.line)).Nodup
    ∧ ∀ definition ∈ stylesheetOccurrences text path, ∃ place, Counts text place
      ∧ definition.name = String.ofList (selectorName text place) := by
  refine ⟨⟨definedNames text, inFirstOrder_definedNames text, ?_⟩, fun place => mem_of_counts, ?_,
    fun definition => exists_counts_of_mem⟩
  · have hcontains : ∀ (name line : List Char),
        occursIn ('.' :: name) line = decide ('.' :: name <:+: line) := by
      intro name line
      rw [Bool.eq_iff_iff, occursIn_iff, decide_eq_true_iff]
    simp only [stylesheetOccurrences, hcontains]
  · refine List.Nodup.map_on ?_ (nodup_stylesheetOccurrences text path)
    intro a ha b hb hsame
    obtain ⟨name, -, index, line, -, -, rfl⟩ := mem_stylesheetOccurrences_iff.mp ha
    obtain ⟨other, -, index', line', -, -, rfl⟩ := mem_stylesheetOccurrences_iff.mp hb
    -- all of them have the path that the stylesheet is read under
    obtain ⟨hname, hline⟩ := Prod.mk.inj hsame
    exact congrArg₂ (ClassOccurrence.mk · · path) hname hline

-- the first name occurs again as a part of the other, and the name behind the mark does not count
example : stylesheetOccurrences "..a @import .b\n.ab".toList "p"
    = [⟨"a", 1, "p"⟩, ⟨"a", 2, "p"⟩, ⟨"ab", 2, "p"⟩] := by
  decide +kernel

end StyleAudit
