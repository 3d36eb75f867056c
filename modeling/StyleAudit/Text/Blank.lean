/-!
# Blank characters, words and lines

Texts are lists of characters here, one entry per code point. This file holds the three ways
the audit cuts them: into *words* at blank characters, into *lines* at line feeds, and free of
the blanks at both ends.

Blank means the white space of Unicode together with the four information separators
U+001C to U+001F; zero width characters and the byte order mark are not blank.
-/

namespace StyleAudit

/-- Whether a character separates words. -/
def isBlank (c : Char) : Bool :=
  let n := c.toNat
  (9 ≤ n && n ≤ 13) || (0x1c ≤ n && n ≤ 0x20) || n == 0x85 || n == 0xa0 || n == 0x1680
    || (0x2000 ≤ n && n ≤ 0x200a) || n == 0x2028 || n == 0x2029 || n == 0x202f || n == 0x205f
    || n == 0x3000

/-- A blank character is none that is not blank. -/
theorem ne_of_isBlank {c : Char} (h : isBlank c = true) (d : Char) (hd : isBlank d = false) :
    c ≠ d := by
  rintro rfl
  exact Bool.false_ne_true (hd.symm.trans h)

/-- The words of a text: its longest runs without a blank character, in order. -/
def words (text : List Char) : List (List Char) :=
  (text.splitOnP isBlank).filter fun word => !word.isEmpty

/-- The text without the blanks at its front and at its back. -/
def strip (text : List Char) : List Char :=
  ((text.dropWhile isBlank).reverse.dropWhile isBlank).reverse

/-- The words of a text with a single space between them. -/
def collapse (text : List Char) : List Char :=
  [' '].intercalate (words text)

/-- How many line feeds a text holds. -/
def lineFeeds (text : List Char) : Nat :=
  text.count '\n'

@[simp] theorem lineFeeds_nil : lineFeeds [] = 0 := rfl

@[simp] theorem lineFeeds_append (a b : List Char) :
    lineFeeds (a ++ b) = lineFeeds a + lineFeeds b :=
  List.count_append

theorem lineFeeds_cons (c : Char) (text : List Char) :
    lineFeeds (c :: text) = lineFeeds [c] + lineFeeds text :=
  lineFeeds_append [c] text

theorem lineFeeds_cons_of_ne {c : Char} (h : c ≠ '\n') (text : List Char) :
    lineFeeds (c :: text) = lineFeeds text :=
  List.count_cons_of_ne h

/-- The lines of a text. A line feed ends a line and nothing else does, so a text has one line
more than it has line feeds. -/
def lines (text : List Char) : List (List Char) :=
  text.splitOn '\n'

/-- Writes every line end as one line feed: a carriage return, alone or before a line feed,
counts as one line end. -/
def joinLineEnds : List Char → List Char
  | [] => []
  | '\r' :: '\n' :: rest => '\n' :: joinLineEnds rest
  | '\r' :: rest => '\n' :: joinLineEnds rest
  | c :: rest => c :: joinLineEnds rest

/-- Whether a word occurs in a text, its characters side by side. -/
def occursIn (word : List Char) : List Char → Bool
  | [] => word.isEmpty
  | c :: rest => word.isPrefixOf (c :: rest) || occursIn word rest

end StyleAudit
