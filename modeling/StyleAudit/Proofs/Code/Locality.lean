import Mathlib.Data.List.Basic
import StyleAudit.Proofs.Code.Grammar

/-!
# Scans are local

A scan for a closing bracket or a closing quote reads on from one position of a text. What stands in
front of the position has no part in it, and neither has what stands behind the bracket or the quote
that is found: in a longer text the scan finds the same one (`scans_local`). A scan that finds none
can find one if the text goes on, but not if more text is put in front of it.

A scan is a reading of the rest of the text and a count from there. `IsLocal` says what a reading
owes to the scan. It is shown for a start at any character: brackets may be closed that were never
opened, and a literal may be read up to any delimiter.
-/

namespace StyleAudit

/-! ## Readings of a rest -/

/-- What a scan for a closing bracket reads, from the first character of a text on. -/
def bracketReading (text : List Char) : Reading :=
  read (.code ⟨.bracket 0, []⟩ []) text

/-- What a scan for a closing quote reads, if the first character of the text is the quote. -/
def quoteReading : List Char → Reading
  | [] => .ended []
  | quote :: rest =>
    if quote = backtick then read (.template [] (quote :: rest) ⟨.oneUnit, []⟩ []) rest
    else read (.literal quote [] (quote :: rest) ⟨.oneUnit, []⟩ []) rest

/-- The position that a reading ends at, in a text of which it read the rest. -/
def Reading.place (length : Nat) : Reading → Except ScanError (Option Nat)
  | .closed _ _ rest => .ok (some (length - rest.length - 1))
  | .openQuote unit => .error (.openQuote (length - unit.length))
  | .ended _ => .ok none

/-- A reading is local: where it comes to an end, it has read two characters or more and would read
them in the same way in front of any other text, and a quote that it blames is in the text. -/
structure IsLocal (reading : List Char → Reading) : Prop where
  closed : ∀ {text : List Char} {code : Code} {closer : Char} {behind : List Char},
    reading text = .closed code closer behind →
    ∃ unit, text = unit ++ behind ∧ 2 ≤ unit.length
      ∧ ∀ more, reading (unit ++ more) = .closed code closer more
  openQuote : ∀ {text unit : List Char}, reading text = .openQuote unit → unit <:+ text

/-! ## Brackets -/

/-- Every bracket takes a character. -/
theorem Code.rise_le_width (code : Code) : code.rise ≤ code.width := by
  induction code with
  | nil => exact Int.le_refl _
  | cons lexeme code ih =>
    have hlexeme : lexeme.rise ≤ lexeme.text.length := by
      cases lexeme with
      | char c =>
        simp only [Lexeme.rise, Lexeme.text, List.length_singleton]
        split
        · decide
        · split <;> decide
      | _ => exact Int.natCast_nonneg _
    rw [rise_cons, width_cons, Int.natCast_add]
    exact Int.add_le_add hlexeme ih

theorem bracketReading_isLocal : IsLocal bracketReading where
  closed := by
    intro text code closer behind h
    obtain ⟨rfl, hcode, hholds, hraise, hclose⟩ := read_eq_closed (by simp) h
    -- a bracket was opened in front of the one that closes it
    have hrise : code.rise = 1 := by simpa [Extent.raise] using hraise
    have hwidth := code.rise_le_width
    refine ⟨codeText code ++ [closer], by simp, ?_, fun more => ?_⟩
    · rw [Code.width] at hwidth
      rw [List.length_append, List.length_singleton]
      omega
    · have hread := read_code ⟨.bracket 0, []⟩ [] (closer :: more) hcode hholds
      rw [bracketReading, List.append_assoc, List.singleton_append, hread,
        read_closer hclose hraise]
      simp [Frame.past, Frame.code]
  openQuote := by
    intro text unit h
    obtain ⟨code, whole, rfl, -, -, hunit⟩ := read_eq_openQuote (by simp) h
    exact hunit.innermost.1.trans (List.suffix_append _ _)

/-! ## Quotes -/

/-- Inside a literal with any delimiter, a reading comes to the delimiter and does not look behind
it, or it finds the literal open. -/
def LiteralEnds (quote : Char) (done text : List Char) : Prop :=
  (∃ unit behind code, text = unit ++ behind ∧ unit ≠ []
    ∧ ∀ start more, read (.literal quote done start ⟨.oneUnit, []⟩ []) (unit ++ more)
      = .closed code quote more)
  ∨ ∀ start, read (.literal quote done start ⟨.oneUnit, []⟩ []) text = .openQuote start

theorem LiteralEnds.append {quote : Char} {done done' passed rest : List Char}
    (hpass : ∀ start more, read (.literal quote done start ⟨.oneUnit, []⟩ []) (passed ++ more)
      = read (.literal quote done' start ⟨.oneUnit, []⟩ []) more)
    (h : LiteralEnds quote done' rest) : LiteralEnds quote done (passed ++ rest) := by
  rcases h with ⟨unit, behind, code, rfl, hunit, hread⟩ | hread
  · refine .inl ⟨passed ++ unit, behind, code, (List.append_assoc _ _ _).symm, by simp [hunit], ?_⟩
    intro start more
    rw [List.append_assoc, hpass, hread]
  · exact .inr fun start => by rw [hpass, hread]

theorem literalEnds (quote : Char) (done text : List Char) : LiteralEnds quote done text := by
  match text with
  | [] => exact .inr fun start => read_nil _
  | c :: text =>
    by_cases hslash : c = '\\'
    · subst hslash
      cases text with
      | nil => exact .inr fun start => by rw [read_literal_cons, if_pos rfl]
      | cons escaped text =>
        refine @LiteralEnds.append quote done (escaped :: '\\' :: done) ['\\', escaped] text
          (fun start more => ?_) (literalEnds quote _ text)
        exact (read_literal_cons _ _ _ _ _ _ _).trans (if_pos rfl)
    by_cases hquote : c = quote
    · subst hquote
      have hread : ∀ start more, read (.literal c done start ⟨.oneUnit, []⟩ []) ([c] ++ more)
          = .closed [.literal c done.reverse] c more := fun start more => by
        rw [List.singleton_append, read_literal_cons, if_neg hslash, if_pos rfl, if_pos rfl]
        rfl
      exact .inl ⟨[c], text, _, rfl, by simp, hread⟩
    by_cases hline : c = '\n'
    · exact .inr fun start => by
        rw [read_literal_cons, if_neg hslash, if_neg hquote, if_pos hline]
    · refine @LiteralEnds.append quote done (c :: done) [c] text (fun start more => ?_)
        (literalEnds quote _ text)
      rw [List.singleton_append, read_literal_cons, if_neg hslash, if_neg hquote, if_neg hline]
termination_by text.length

/-- A scan from a character on comes to its closing quote and does not look behind that, or it
blames a quote in the text. -/
theorem quoteReading_cases (quote : Char) (rest : List Char) :
    (∃ unit behind code, quote :: rest = unit ++ behind ∧ 2 ≤ unit.length
      ∧ ∀ more, quoteReading (unit ++ more) = .closed code quote more)
    ∨ ∃ unit, unit <:+ quote :: rest ∧ quoteReading (quote :: rest) = .openQuote unit := by
  by_cases htick : quote = backtick
  · subst htick
    -- from a backtick on, a template is read as one unit of code
    have hread : ∀ rest, quoteReading (backtick :: rest)
        = read (.code ⟨.oneUnit, []⟩ []) (backtick :: rest) := fun rest => by
      rw [quoteReading, if_pos rfl, read_code_cons, if_pos rfl]
    rcases @quotedSplit _ rest isQuote_backtick with ⟨lexeme, behind, htext, hquote, hlexeme⟩ |
      ⟨innermost, hunit⟩
    · cases lexeme with
      | template parts =>
        have hclosed : ∀ more, quoteReading ((Lexeme.template parts).text ++ more)
            = .closed [.template parts] backtick more := fun more => by
          rw [Lexeme.text, List.cons_append, hread]
          exact (read_quoted hquote (hlexeme none) more).trans (if_pos rfl)
        exact .inl ⟨_, behind, _, htext, by simp [Lexeme.text], hclosed⟩
      | literal quote body =>
        cases hquote
        exact absurd rfl (hlexeme none).1.ne_backtick
      | _ => cases hquote
    · exact .inr ⟨innermost, hunit.innermost.1, by rw [hread, hunit.read_eq]⟩
  · rcases literalEnds quote [] rest with ⟨unit, behind, code, rfl, hunit, hread⟩ | hread
    · refine .inl ⟨quote :: unit, behind, code, rfl, ?_, fun more => ?_⟩
      · have hpos := List.length_pos_iff.mpr hunit
        rw [List.length_cons]
        omega
      · rw [List.cons_append, quoteReading, if_neg htick, hread]
    · exact .inr ⟨quote :: rest, List.suffix_rfl, by rw [quoteReading, if_neg htick, hread]⟩

theorem quoteReading_isLocal : IsLocal quoteReading where
  closed := by
    intro text code closer behind h
    cases text with
    | nil => cases h
    | cons quote rest =>
      rcases quoteReading_cases quote rest with ⟨unit, behind', code', htext, hunit, hread⟩ |
        ⟨unit, -, hread⟩
      · rw [htext, hread] at h
        cases h
        exact ⟨unit, htext, hunit, hread⟩
      · rw [hread] at h
        cases h
  openQuote := by
    intro text unit h
    cases text with
    | nil => cases h
    | cons quote rest =>
      rcases quoteReading_cases quote rest with ⟨unit', behind, code, htext, -, hread⟩ |
        ⟨unit', hunit, hread⟩
      · rw [htext, hread] at h
        cases h
      · rw [hread] at h
        cases h
        exact hunit

/-! ## Positions -/

section Positions

variable {front text behind : List Char} {start stop index : Nat}

theorem Reading.place_eq_none {length length' : Nat} (reading : Reading)
    (h : reading.place length = .ok none) : reading.place length' = .ok none := by
  cases reading with
  | ended code => rfl
  | _ => simp [Reading.place] at h

namespace IsLocal

variable {reading : List Char → Reading}

/-- A position that is found lies in the text, and is found in a longer text. -/
theorem place_eq_ok (h : IsLocal reading)
    (hstop : (reading (text.drop start)).place text.length = .ok (some stop)) :
    start < stop ∧ stop < text.length
      ∧ (reading ((front ++ text ++ behind).drop (front.length + start))).place
          (front ++ text ++ behind).length = .ok (some (front.length + stop)) := by
  cases hread : reading (text.drop start) with
  | openQuote unit => simp [hread, Reading.place] at hstop
  | ended code => simp [hread, Reading.place] at hstop
  | closed code closer rest =>
    obtain ⟨unit, hdrop, hunit, hmore⟩ := h.closed hread
    obtain rfl : text.length - rest.length - 1 = stop := by simpa [hread, Reading.place] using hstop
    have hlength := congrArg List.length hdrop
    rw [List.length_drop, List.length_append] at hlength
    have hlonger : (front ++ text ++ behind).drop (front.length + start)
        = unit ++ (rest ++ behind) := by
      rw [List.append_assoc, List.drop_length_add_append,
        List.drop_append_of_le_length (by omega), hdrop, List.append_assoc]
    refine ⟨by omega, by omega, ?_⟩
    rw [hlonger, hmore, Reading.place]
    simp only [List.length_append]
    congr 2
    omega

/-- With more text in front of it, a position that is blamed is as much further on. -/
theorem place_eq_error (h : IsLocal reading)
    (hfault : (reading (text.drop start)).place text.length = .error (.openQuote index)) :
    (reading ((front ++ text).drop (front.length + start))).place (front ++ text).length
      = .error (.openQuote (front.length + index)) := by
  rw [List.drop_length_add_append]
  cases hread : reading (text.drop start) with
  | closed code closer rest => simp [hread, Reading.place] at hfault
  | ended code => simp [hread, Reading.place] at hfault
  | openQuote unit =>
    have hlength := (h.openQuote hread).length_le
    obtain rfl : text.length - unit.length = index := by simpa [hread, Reading.place] using hfault
    rw [List.length_drop] at hlength
    rw [Reading.place, List.length_append]
    congr 2
    omega

end IsLocal

theorem closingBracket?_eq_place (text : List Char) (start : Nat) :
    closingBracket? text start = (bracketReading (text.drop start)).place text.length := by
  rw [closingBracket?, bracketReading]
  cases read (.code ⟨.bracket 0, []⟩ []) (text.drop start) <;> rfl

/-- A scan for a quote comes to a position or blames a quote. -/
theorem closingQuote_eq_place (hstart : start < text.length) :
    (closingQuote text start).map some = (quoteReading (text.drop start)).place text.length := by
  have hdrop := List.drop_eq_getElem_cons hstart
  generalize text[start] = quote at hdrop
  have hended : ∀ code, quoteReading (text.drop start) ≠ .ended code := by
    intro code h
    rw [hdrop] at h
    rcases quoteReading_cases quote (text.drop (start + 1)) with
      ⟨unit, behind, code', htext, -, hread⟩ | ⟨unit, -, hread⟩
    · rw [htext, hread] at h
      cases h
    · rw [hread] at h
      cases h
  have hread : quoteReading (text.drop start) = read
      (if quote = backtick then .template [] (quote :: text.drop (start + 1)) ⟨.oneUnit, []⟩ []
        else .literal quote [] (quote :: text.drop (start + 1)) ⟨.oneUnit, []⟩ [])
      (text.drop (start + 1)) := by
    rw [hdrop, quoteReading, apply_ite (read · _)]
  unfold closingQuote
  split
  · next hnil => simp [hdrop] at hnil
  · next heq =>
    obtain ⟨rfl, rfl⟩ := List.cons.inj (hdrop.symm.trans heq)
    simp only
    rw [← hread]
    cases hreading : quoteReading (text.drop start) with
    | ended code => exact absurd hreading (hended code)
    | _ => rfl

theorem closingQuote_eq_ok_iff_place (hstart : start < text.length) :
    closingQuote text start = .ok stop
      ↔ (quoteReading (text.drop start)).place text.length = .ok (some stop) := by
  rw [← closingQuote_eq_place hstart]
  cases closingQuote text start <;> simp [Except.map]

theorem closingQuote_eq_error_iff_place (hstart : start < text.length) {fault : ScanError} :
    closingQuote text start = .error fault
      ↔ (quoteReading (text.drop start)).place text.length = .error fault := by
  rw [← closingQuote_eq_place hstart]
  cases closingQuote text start <;> simp [Except.map]

/-- The scans for a closing bracket and a closing quote are local. The position that one finds from
a position on lies between there and the end of the text, and whatever is put around the text, the
scan from the same place finds it again. If no such position is found, the answer stays the same
with more text in front of it, except that a quote that is blamed is as much further on. -/
theorem scans_local (front text behind : List Char) (start : Nat) (hstart : start < text.length) :
    (∀ stop, closingQuote text start = .ok stop →
      start < stop ∧ stop < text.length
        ∧ closingQuote (front ++ text ++ behind) (front.length + start)
          = .ok (front.length + stop))
    ∧ (∀ stop, closingBracket? text start = .ok (some stop) →
      start < stop ∧ stop < text.length
        ∧ closingBracket? (front ++ text ++ behind) (front.length + start)
          = .ok (some (front.length + stop)))
    ∧ (∀ index, closingQuote text start = .error (.openQuote index) →
      closingQuote (front ++ text) (front.length + start)
        = .error (.openQuote (front.length + index)))
    ∧ (∀ index, closingBracket? text start = .error (.openQuote index) →
      closingBracket? (front ++ text) (front.length + start)
        = .error (.openQuote (front.length + index)))
    ∧ (closingBracket? text start = .ok none →
      closingBracket? (front ++ text) (front.length + start) = .ok none) := by
  have hfront : front.length + start < (front ++ text).length := by
    rw [List.length_append]
    omega
  have haround : front.length + start < (front ++ text ++ behind).length := by
    rw [List.length_append]
    omega
  refine ⟨fun stop h => ?_, fun stop h => ?_, fun index h => ?_, fun index h => ?_, fun h => ?_⟩
  · rw [closingQuote_eq_ok_iff_place haround]
    exact quoteReading_isLocal.place_eq_ok ((closingQuote_eq_ok_iff_place hstart).mp h)
  · rw [closingBracket?_eq_place] at h ⊢
    exact bracketReading_isLocal.place_eq_ok h
  · rw [closingQuote_eq_error_iff_place hfront]
    exact quoteReading_isLocal.place_eq_error ((closingQuote_eq_error_iff_place hstart).mp h)
  · rw [closingBracket?_eq_place] at h ⊢
    exact bracketReading_isLocal.place_eq_error h
  · rw [closingBracket?_eq_place] at h ⊢
    rw [List.drop_length_add_append]
    exact Reading.place_eq_none _ h

end Positions

/-- A bracket in front of a template that an escaped backtick does not close, with a hole in it that
is left open. -/
def openTemplate : List Char := "(\x60\\\x60$\x7b[)".toList

set_option maxRecDepth 10000 in
theorem scans_local_nestedGroup :
    1 < nestedGroup.length ∧ closingBracket? nestedGroup 1 = .ok (some 28)
      ∧ closingBracket? ("//'".toList ++ nestedGroup ++ "/*\x60".toList) 4 = .ok (some 31)
      ∧ 2 < nestedGroup.length ∧ closingQuote nestedGroup 2 = .ok 10
      ∧ closingQuote ("//'".toList ++ nestedGroup ++ "/*\x60".toList) 5 = .ok 13
      ∧ 0 < openTemplate.length ∧ closingBracket? openTemplate 0 = .error (.openQuote 1)
      ∧ closingBracket? ("//'".toList ++ openTemplate) 3 = .error (.openQuote 4)
      ∧ 1 < openTemplate.length ∧ closingQuote openTemplate 1 = .error (.openQuote 1)
      ∧ closingQuote ("//'".toList ++ openTemplate) 4 = .error (.openQuote 4)
      ∧ 5 < openTemplate.length ∧ closingBracket? openTemplate 5 = .ok none
      ∧ closingBracket? ("//'".toList ++ openTemplate) 8 = .ok none := by
  have hbracket : closingBracket? nestedGroup 1 = .ok (some 28) := by cbv
  have hquote : closingQuote nestedGroup 2 = .ok 10 := by cbv
  have hopen : closingBracket? openTemplate 0 = .error (.openQuote 1) := by cbv
  have htick : closingQuote openTemplate 1 = .error (.openQuote 1) := by cbv
  have hnone : closingBracket? openTemplate 5 = .ok none := by cbv
  have hnested : 2 < nestedGroup.length := by decide
  have htemplate : 5 < openTemplate.length := by decide
  have around (start : Nat) := scans_local "//'".toList nestedGroup "/*\x60".toList start
  have front (start : Nat) := scans_local "//'".toList openTemplate [] start
  exact ⟨by omega, hbracket, ((around 1 (by omega)).2.1 28 hbracket).2.2,
    hnested, hquote, ((around 2 hnested).1 10 hquote).2.2,
    by omega, hopen, (front 0 (by omega)).2.2.2.1 1 hopen,
    by omega, htick, (front 1 (by omega)).2.2.1 1 htick,
    htemplate, hnone, (front 5 htemplate).2.2.2.2 hnone⟩

end StyleAudit
