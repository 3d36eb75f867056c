import StyleAudit.Proofs.Markup.Scan

/-!
# Markup further down in a file

Reading a text from a later line on gives the same occurrences, and the same open quote, each so
many lines later: the reading uses the line it starts on for nothing but the lines it reports.
-/

namespace StyleAudit

/-- The occurrence, `count` lines further down. -/
def Occurrence.lower (count : Nat) : Occurrence → Occurrence
  | named occurrence => named { occurrence with line := occurrence.line + count }
  | dynamic occurrence => dynamic { occurrence with line := occurrence.line + count }

/-- The report, `count` lines further down. -/
def MalformedExpression.lower (count : Nat) (fault : MalformedExpression) : MalformedExpression :=
  { fault with line := fault.line + count }

/-- What a scan returns, `count` lines further down. -/
def lowered (count : Nat) :
    Except MalformedExpression (List Occurrence) → Except MalformedExpression (List Occurrence)
  | .ok found => .ok (found.map (Occurrence.lower count))
  | .error fault => .error (fault.lower count)

section Values

variable (line : Int) (path : String) (count : Nat)

theorem classListAt_lower (text : List Char) :
    classListAt (line + count) path text
      = (classListAt line path text).map (Occurrence.lower count) := by
  simp [classListAt, Occurrence.lower]

theorem classListFrom_lower (text : List Char) :
    classListFrom (line + count) path text
      = (classListFrom line path text).map (Occurrence.lower count) := by
  rw [classListFrom, classListFrom, List.map_flatMap]
  congr 1
  funext entry
  rw [Int.add_right_comm, classListAt_lower]

theorem Piece.occurrences_lower (text : List Char) (piece : Piece) :
    piece.occurrences (line + count) path text
      = (piece.occurrences line path text).map (Occurrence.lower count) := by
  cases piece with
  | literal chars start => exact classListAt_lower line path count chars
  | dynamic chars start => simp [Piece.occurrences, Occurrence.lower, Int.add_right_comm]

theorem occurrencesIn_lower (code : Code) :
    occurrencesIn (line + count) path code
      = (occurrencesIn line path code).map (Occurrence.lower count) := by
  rw [occurrencesIn, occurrencesIn, List.map_flatMap]
  congr 1
  funext piece
  exact piece.occurrences_lower line path count code.text

theorem templateOccurrences_lower (parts : List Part) :
    templateOccurrences (line + count) path parts
      = (templateOccurrences line path parts).map (Occurrence.lower count) := by
  simp only [templateOccurrences, List.map_flatMap]
  congr 1
  funext span
  cases span with
  | text chars start =>
    simp only [Int.add_right_comm line count]
    exact classListFrom_lower _ path count chars
  | hole code start =>
    simp only [Int.add_right_comm line count]
    exact occurrencesIn_lower _ path count code

theorem bracedOccurrences_lower (code : Code) (closer : Char) :
    bracedOccurrences (line + count) path code closer
      = (bracedOccurrences line path code closer).map (Occurrence.lower count) := by
  unfold bracedOccurrences
  split
  · split
    · exact templateOccurrences_lower line path count _
    · exact occurrencesIn_lower line path count _
  · exact occurrencesIn_lower line path count _

/-- The line of an attribute has no part in where its value ends. -/
theorem readValue_lower (value : List Char) :
    readValue (line + count) path value
      = (readValue line path value).map fun entry =>
          (entry.1.map (Occurrence.lower count), entry.2) := by
  cases value with
  | nil => rfl
  | cons mark rest =>
    by_cases hmark : IsPlainQuote mark
    · by_cases hrest : mark ∈ rest
      · obtain ⟨names, behind, rfl, hnames⟩ := List.eq_append_cons_of_mem hrest
        rw [readValue_list hmark hnames, readValue_list hmark hnames, classListAt_lower]
        rfl
      · rw [readValue_openList hmark hrest, readValue_openList hmark hrest]
        rfl
    by_cases hbrace : mark = '\x7b'
    · subst hbrace
      rw [readValue_braced, readValue_braced]
      cases read (.code ⟨.bracket 1, []⟩ []) rest with
      | closed code closer behind =>
        simp only [bracedOccurrences_lower]
        rfl
      | ended code => rfl
      | openQuote quote => rfl
    · rw [readValue_other hmark hbrace, readValue_other hmark hbrace]
      rfl

end Values

theorem lowered_map_append (count : Nat) (found : List Occurrence)
    (result : Except MalformedExpression (List Occurrence)) :
    lowered count (result.map (found ++ ·))
      = (lowered count result).map (found.map (Occurrence.lower count) ++ ·) := by
  cases result with
  | ok more => simp [lowered, Except.map]
  | error fault => rfl

/-- A scan that starts `count` lines further down. -/
theorem scanMarkup_lower (dialect : Dialect) (path : String) (count line : Nat)
    (before : Option Char) (skip : Nat) (text : List Char) :
    scanMarkup dialect path (line + count) before skip text
      = lowered count (scanMarkup dialect path line before skip text) := by
  induction text generalizing line before skip with
  | nil => rfl
  | cons c rest ih =>
    have hnext : line + count + lineFeeds [c] = line + lineFeeds [c] + count := by omega
    cases skip with
    | succ skip => rw [scanMarkup_skip, scanMarkup_skip, hnext, ih]
    | zero =>
      cases hvalue : valueText? dialect before (c :: rest) with
      | none => rw [scanMarkup_pass hvalue, scanMarkup_pass hvalue, hnext, ih]
      | some value =>
        -- both scans find the value and read it up to the same place
        have hlower := readValue_lower line path count value
        rw [← Int.natCast_add] at hlower
        cases hread : readValue line path value with
        | ok entry =>
          rw [hread] at hlower
          rw [scanMarkup_value hvalue hread, scanMarkup_value hvalue hlower, hnext, ih,
            lowered_map_append]
        | error quote =>
          rw [hread] at hlower
          rw [scanMarkup_stop hvalue hread, scanMarkup_stop hvalue hlower, lowered,
            MalformedExpression.lower, Int.natCast_add, Int.add_right_comm]

end StyleAudit
