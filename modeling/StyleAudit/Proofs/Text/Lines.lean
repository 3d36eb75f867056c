import Mathlib.Data.List.Basic
import Mathlib.Data.List.Range
import Mathlib.Data.List.TakeWhile
import StyleAudit.Text.Blank

/-!
# Lines and places

A text is its lines with line feeds in between, so what is to hold of every text can be shown line
by line (`lines_induction`). A place of a text is a number of characters in front of it. It stands
on one of the lines: the number of line feeds in front of it says on which, and `lineBefore` and
`lineBehind` are the parts of that line in front of the place and from the place on
(`getElem?_lines`).
-/

namespace StyleAudit

/-! ## Line by line -/

theorem lines_append_cons (front back : List Char) :
    lines (front ++ '\n' :: back) = lines front ++ lines back :=
  List.splitOnP_append_cons front back (by decide)

theorem lines_of_not_mem {text : List Char} (h : '\n' ∉ text) : lines text = [text] := by
  have hkeep : ∀ c ∈ text, (c == '\n') = false := by
    intro c hc
    rw [beq_eq_false_iff_ne]
    intro hline
    exact h (hline ▸ hc)
  exact List.splitOnP_eq_singleton hkeep

/-- A text has none of the characters it is cut at, or it is a stretch without any, one of them, and
more text. -/
theorem cut_induction (p : Char → Bool) {motive : List Char → Prop}
    (last : ∀ stretch, (∀ c ∈ stretch, p c = false) → motive stretch)
    (more : ∀ stretch c rest, (∀ d ∈ stretch, p d = false) → p c = true → motive rest →
      motive (stretch ++ c :: rest))
    (text : List Char) : motive text := by
  induction hlength : text.length using Nat.strong_induction_on generalizing text with
  | h length ih =>
    have hfront : ∀ c ∈ text.takeWhile (!p ·), p c = false := by
      intro c hc
      simpa using List.all_eq_true.mp List.all_takeWhile c hc
    cases hback : text.dropWhile (!p ·) with
    | nil =>
      have hall := List.takeWhile_append_dropWhile (p := (!p ·)) (l := text)
      rw [hback, List.append_nil] at hall
      exact last text (hall ▸ hfront)
    | cons c rest =>
      have hcut : p c = true := by
        have hhead := List.head?_dropWhile_not (!p ·) text
        simpa [hback] using hhead
      have hsplit : text.takeWhile (!p ·) ++ c :: rest = text := by
        rw [← hback, List.takeWhile_append_dropWhile]
      have hshort : rest.length < length := by
        rw [← hlength, ← hsplit, List.length_append, List.length_cons]
        omega
      exact hsplit ▸ more _ c rest hfront hcut (ih rest.length hshort rest rfl)

/-- A text is one line, or a line, a line feed and more text. -/
theorem lines_induction {motive : List Char → Prop}
    (last : ∀ line, '\n' ∉ line → motive line)
    (more : ∀ line rest, '\n' ∉ line → motive rest → motive (line ++ '\n' :: rest))
    (text : List Char) : motive text := by
  have absent : ∀ {line : List Char}, (∀ c ∈ line, (c == '\n') = false) → '\n' ∉ line := by
    intro line h hmem
    exact absurd (h '\n' hmem) (by decide)
  induction text using cut_induction (· == '\n') with
  | last line hline => exact last line (absent hline)
  | more line c rest hline hc ih =>
    obtain rfl := beq_iff_eq.mp hc
    exact more line rest (absent hline) ih

/-! ## Places -/

/-- What is found at the places of a text that is cut at one of its characters: what is found in
front of the cut and behind it, if nothing is found at the cut itself. -/
theorem map_filter_range_cut {α : Type} {m : Nat} (n : Nat) {p p₁ p₂ : Nat → Bool}
    {f f₁ f₂ : Nat → α} (hfront : ∀ place < m, p place = p₁ place ∧ f place = f₁ place)
    (hcut : p m = false)
    (hback : ∀ place < n, p (m + 1 + place) = p₂ place ∧ f (m + 1 + place) = f₂ place) :
    ((List.range (m + 1 + n)).filter p).map f
      = ((List.range m).filter p₁).map f₁ ++ ((List.range n).filter p₂).map f₂ := by
  have hfirst : (List.range m).filter p = (List.range m).filter p₁ :=
    List.filter_congr fun place hplace => (hfront place (List.mem_range.mp hplace)).1
  have hlater : (List.range n).filter (p ∘ (m + 1 + ·)) = (List.range n).filter p₂ :=
    List.filter_congr fun place hplace => (hback place (List.mem_range.mp hplace)).1
  have hnone : [m].filter p = [] := by simp [hcut]
  rw [List.range_add, List.filter_append, List.filter_map, hlater, List.range_succ,
    List.filter_append, hfirst, hnone, List.append_nil, List.map_append, List.map_map]
  congr 1
  · refine List.map_congr_left fun place hplace => ?_
    exact (hfront place (List.mem_range.mp (List.mem_of_mem_filter hplace))).2
  · refine List.map_congr_left fun place hplace => ?_
    exact (hback place (List.mem_range.mp (List.mem_of_mem_filter hplace))).2

/-- The characters in front of a place on the line that the place stands on. -/
def lineBefore (text : List Char) (place : Nat) : List Char :=
  ((text.take place).reverse.takeWhile (· != '\n')).reverse

/-- The characters from a place on, up to the end of the line that the place stands on. -/
def lineBehind (text : List Char) (place : Nat) : List Char :=
  (text.drop place).takeWhile (· != '\n')

section Places

variable {line : List Char} {place : Nat}

theorem not_mem_take (hline : '\n' ∉ line) : ∀ c ∈ line.take place, (c != '\n') = true := by
  intro c hc
  rw [bne_iff_ne]
  intro h
  exact hline (List.mem_of_mem_take (h ▸ hc))

/-- On the first line of a text, what is in front of a place is on the line. -/
theorem lineBefore_of_le (hline : '\n' ∉ line) (hplace : place ≤ line.length) (rest : List Char) :
    lineBefore (line ++ rest) place = line.take place := by
  have htake : (line ++ rest).take place = line.take place := List.take_append_of_le_length hplace
  rw [lineBefore, htake, List.takeWhile_eq_self_iff.mpr, List.reverse_reverse]
  intro c hc
  exact not_mem_take hline c (List.mem_reverse.mp hc)

/-- What stands in front of a line feed is not on the lines behind it. -/
theorem lineBefore_behind (front rest : List Char) (place : Nat) :
    lineBefore (front ++ '\n' :: rest) (front.length + 1 + place) = lineBefore rest place := by
  have htake : (front ++ '\n' :: rest).take (front.length + 1 + place)
      = front ++ '\n' :: rest.take place := by
    rw [Nat.add_assoc, List.take_length_add_append, Nat.add_comm 1, List.take_succ_cons]
  rw [lineBefore, htake, List.reverse_append, List.reverse_cons, List.append_assoc,
    List.takeWhile_append]
  split
  · next hfull =>
    have hself := (List.takeWhile_prefix (l := (rest.take place).reverse) (· != '\n')).eq_of_length
      hfull
    rw [lineBefore, hself, List.singleton_append, List.takeWhile_cons_of_neg (by decide),
      List.append_nil]
  · rfl

theorem lineBehind_of_le (hline : '\n' ∉ line) (hplace : place ≤ line.length) :
    lineBehind line place = line.drop place
      ∧ ∀ rest, lineBehind (line ++ '\n' :: rest) place = line.drop place := by
  have hkeep : ∀ c ∈ line.drop place, (c != '\n') = true := by
    intro c hc
    rw [bne_iff_ne]
    intro h
    exact hline (List.mem_of_mem_drop (h ▸ hc))
  refine ⟨List.takeWhile_eq_self_iff.mpr hkeep, fun rest => ?_⟩
  rw [lineBehind, List.drop_append_of_le_length hplace, List.takeWhile_append_of_pos hkeep,
    List.takeWhile_cons_of_neg (by decide), List.append_nil]

theorem drop_behind (front rest : List Char) (c : Char) (place : Nat) :
    (front ++ c :: rest).drop (front.length + 1 + place) = rest.drop place := by
  rw [Nat.add_assoc, List.drop_length_add_append, Nat.add_comm 1, List.drop_succ_cons]

theorem getElem?_behind (front rest : List Char) (c : Char) (place : Nat) :
    (front ++ c :: rest)[front.length + 1 + place]? = rest[place]? := by
  rw [← List.head?_drop, drop_behind, List.head?_drop]

theorem lineFeeds_take_of_le (hline : '\n' ∉ line) (hplace : place ≤ line.length)
    (rest : List Char) : lineFeeds ((line ++ rest).take place) = 0 := by
  rw [List.take_append_of_le_length hplace]
  exact List.count_eq_zero.mpr fun hmem => hline (List.mem_of_mem_take hmem)

theorem lineFeeds_take_behind (hline : '\n' ∉ line) (rest : List Char) (place : Nat) :
    lineFeeds ((line ++ '\n' :: rest).take (line.length + 1 + place))
      = lineFeeds (rest.take place) + 1 := by
  have htake : (line ++ '\n' :: rest).take (line.length + 1 + place)
      = line ++ '\n' :: rest.take place := by
    rw [Nat.add_assoc, List.take_length_add_append, Nat.add_comm 1, List.take_succ_cons]
  have hzero : lineFeeds line = 0 := List.count_eq_zero.mpr hline
  have hone : lineFeeds ['\n'] = 1 := rfl
  rw [htake, lineFeeds_append, hzero, lineFeeds_cons, hone]
  omega

end Places

/-- The line that a place stands on, by the number of line feeds in front of the place. -/
theorem getElem?_lines {text : List Char} {place : Nat} (h : place ≤ text.length) :
    (lines text)[lineFeeds (text.take place)]?
      = some (lineBefore text place ++ lineBehind text place) := by
  induction text using lines_induction generalizing place with
  | last line hline =>
    have hfront := lineBefore_of_le hline h []
    have hfeeds := lineFeeds_take_of_le hline h []
    rw [List.append_nil] at hfront hfeeds
    rw [hfeeds, hfront, (lineBehind_of_le hline h).1, lines_of_not_mem hline,
      List.take_append_drop]
    rfl
  | more line rest hline ih =>
    rw [lines_append_cons, lines_of_not_mem hline]
    by_cases hplace : place ≤ line.length
    · rw [lineFeeds_take_of_le hline hplace, lineBefore_of_le hline hplace,
        (lineBehind_of_le hline hplace).2, List.take_append_drop]
      rfl
    · -- the place stands behind the line feed
      obtain ⟨place, rfl⟩ := Nat.exists_eq_add_of_le (show line.length + 1 ≤ place by omega)
      have hrest : place ≤ rest.length := by
        simp only [List.length_append, List.length_cons] at h
        omega
      rw [lineFeeds_take_behind hline, lineBefore_behind, lineBehind, drop_behind,
        List.singleton_append, List.getElem?_cons_succ, ih hrest]
      rfl

end StyleAudit
