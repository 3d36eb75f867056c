import StyleAudit.Proofs.Code.Grammar
import StyleAudit.Proofs.Code.Slices

/-!
# Passing over a text

A text can be passed over without being taken apart: a quoted unit is skipped up to its closing
quote, a comment up to its end, and any other character counts for itself. `blankComments` passes
over a text in this way and blanks its comments, `topLevelPlaces` collects the places of the
operators outside brackets.

Both scan the text at positions. On the text of faithful code they give what the code has:
`blankComments_eq` says so for every text, with the open quote that a pass stops at, and
`topLevelPlaces_codeText` for the operators.
-/

namespace StyleAudit

/-! ## Whole texts -/

/-- A text reads as faithful code, or it is faithful code up to an unclosed unit, and the innermost
open quote of that is reported. -/
theorem ofText?_cases (text : List Char) :
    (∃ code, codeText code = text ∧ Faithful (.code code none) ∧ Code.ofText? text = .ok code)
      ∨ ∃ code unit innermost, text = codeText code ++ unit ∧ Faithful (.code code unit.head?)
        ∧ Unclosed unit innermost ∧ Code.ofText? text = .error innermost := by
  obtain ⟨code, rest, rfl, hcode, -, hend⟩ := @read_cases .wholeText (by simp) text
  rcases hend with ⟨rfl, hread⟩ | ⟨closer, behind, rfl, -, hraise, -⟩ | ⟨innermost, hunit, hread⟩
  · refine .inl ⟨code, (List.append_nil _).symm, hcode, ?_⟩
    rw [Code.ofText?, hread]
  · -- no bracket ends a whole text
    cases hraise
  · refine .inr ⟨code, rest, innermost, rfl, hcode, hunit, ?_⟩
    rw [Code.ofText?, hread]

theorem ofText?_eq_ok {text : List Char} {code : Code} (h : Code.ofText? text = .ok code) :
    codeText code = text ∧ Faithful (.code code none) := by
  rcases ofText?_cases text with ⟨code', htext, hcode, hok⟩ | ⟨-, -, innermost, -, -, -, herror⟩
  · obtain rfl := Except.ok.inj (hok.symm.trans h)
    exact ⟨htext, hcode⟩
  · rw [herror] at h
    cases h

/-- A text that starts with a quote which is the innermost one left open. -/
structure OpenQuote (unit : List Char) : Prop where
  unclosed : Unclosed unit unit
  starts : ∃ quote rest, unit = quote :: rest ∧ isQuote quote = true

/-- A scan from an open quote blames that quote. -/
theorem OpenQuote.closingQuote_eq {unit : List Char} (h : OpenQuote unit) (front : List Char) :
    closingQuote (front ++ unit) front.length = .error (.openQuote front.length) := by
  obtain ⟨quote, rest, rfl, hquote⟩ := h.starts
  have hdrop : (front ++ quote :: rest).drop front.length = quote :: rest := List.drop_left
  rw [StyleAudit.closingQuote_eq hquote hdrop, h.unclosed.read_eq]
  simp

/-- Where the reading of a text as code stops, there is an open quote. -/
theorem ofText?_eq_error {text unit : List Char} (h : Code.ofText? text = .error unit) :
    ∃ front, text = front ++ unit ∧ OpenQuote unit := by
  rcases ofText?_cases text with
    ⟨code, -, -, hok⟩ | ⟨code, whole, innermost, rfl, -, hwhole, herror⟩
  · rw [hok] at h
    cases h
  · obtain rfl := Except.error.inj (herror.symm.trans h)
    obtain ⟨⟨between, rfl⟩, hunclosed, hstarts⟩ := hwhole.innermost
    exact ⟨codeText code ++ between, (List.append_assoc _ _ _).symm, hunclosed, hstarts⟩

/-! ## Comments -/

/-- How many characters of a text belong to a comment that began in front of it: those up to the
first asterisk and slash, or all of them. -/
def blockWidth : List Char → Nat
  | [] => 0
  | '*' :: '/' :: _ => 2
  | _ :: rest => blockWidth rest + 1

/-- The position behind the comment that starts at a position, if there is one. -/
def commentEnd? (text : List Char) (start : Nat) : Option Nat :=
  match text.drop start with
  | '/' :: '/' :: rest => some (start + 2 + (rest.takeWhile (· != '\n')).length)
  | '/' :: '*' :: rest => some (start + 2 + blockWidth rest)
  | _ => none

theorem lt_of_commentEnd? {text : List Char} {start stop : Nat}
    (h : commentEnd? text start = some stop) : start < stop := by
  unfold commentEnd? at h
  split at h
  · obtain rfl := Option.some.inj h
    omega
  · obtain rfl := Option.some.inj h
    omega
  · cases h

theorem blockWidth_cons {c : Char} {rest : List Char} (h : ¬ (c = '*' ∧ rest.head? = some '/')) :
    blockWidth (c :: rest) = blockWidth rest + 1 := by
  rw [blockWidth.eq_def]
  split
  · next heq => cases heq
  · next heq =>
    obtain ⟨rfl, rfl⟩ := List.cons.inj heq
    exact absurd ⟨rfl, rfl⟩ h
  · next heq =>
    obtain ⟨-, rfl⟩ := List.cons.inj heq
    rfl

theorem blockWidth_closed {body : List Char} (hbody : ¬ ['*', '/'] <:+: body ++ ['*'])
    (rest : List Char) : blockWidth (body ++ '*' :: '/' :: rest) = body.length + 2 := by
  induction body with
  | nil => rfl
  | cons c body ih =>
    have hstep : ¬ (c = '*' ∧ (body ++ '*' :: '/' :: rest).head? = some '/') := by
      rintro ⟨rfl, hhead⟩
      cases body with
      | nil => simp at hhead
      | cons d body =>
        obtain rfl : d = '/' := by simpa using hhead
        exact hbody ⟨[], body ++ ['*'], rfl⟩
    rw [List.cons_append, blockWidth_cons hstep,
      ih fun hslice => hbody (hslice.trans (List.suffix_cons c _).isInfix), List.length_cons]

theorem blockWidth_open {body : List Char} (hbody : ¬ ['*', '/'] <:+: body) :
    blockWidth body = body.length := by
  induction body with
  | nil => rfl
  | cons c body ih =>
    have hstep : ¬ (c = '*' ∧ body.head? = some '/') := by
      rintro ⟨rfl, hhead⟩
      obtain ⟨rest, rfl⟩ := List.head?_eq_some_iff.mp hhead
      exact hbody ⟨[], rest, rfl⟩
    rw [blockWidth_cons hstep, ih fun hslice => hbody (hslice.trans (List.suffix_cons c _).isInfix),
      List.length_cons]

theorem takeWhile_of_line {body rest : List Char} (hbody : '\n' ∉ body)
    (hrest : rest.head? = none ∨ rest.head? = some '\n') :
    (body ++ rest).takeWhile (· != '\n') = body := by
  have hall : ∀ c ∈ body, (c != '\n') = true := by
    intro c hc
    simp only [bne_iff_ne, ne_eq]
    rintro rfl
    exact hbody hc
  rw [List.takeWhile_append_of_pos hall]
  rcases hrest with hnone | hline
  · rw [List.head?_eq_none_iff.mp hnone, List.takeWhile_nil, List.append_nil]
  · obtain ⟨rest, rfl⟩ := List.head?_eq_some_iff.mp hline
    simp

section At

variable {before rest : List Char}

/-- A comment ends where its text does. -/
theorem commentEnd?_comment {comment : List Char} (h : IsComment comment rest.head?) :
    commentEnd? (before ++ (comment ++ rest)) before.length
      = some (before.length + comment.length) := by
  unfold commentEnd?
  rw [List.drop_left]
  generalize hnext : rest.head? = next at h
  cases h with
  | line hbody hend =>
    subst hnext
    simp only [List.cons_append, takeWhile_of_line hbody hend, List.length_cons]
    congr 1
    omega
  | block _ hbody =>
    simp only [List.cons_append, List.append_assoc, List.nil_append, blockWidth_closed hbody,
      List.length_cons, List.length_append, List.length_nil]
    congr 1
    omega
  | openBlock hbody =>
    obtain rfl : rest = [] := List.head?_eq_none_iff.mp hnext
    simp only [List.append_nil, blockWidth_open hbody, List.length_cons]
    congr 1
    omega

theorem commentEnd?_char {c : Char} (h : ¬ OpensComment c rest.head?) :
    commentEnd? (before ++ c :: rest) before.length = none := by
  unfold commentEnd?
  rw [List.drop_left]
  split
  · next heq =>
    obtain ⟨rfl, rfl⟩ := List.cons.inj heq
    exact absurd ⟨rfl, .inl rfl⟩ h
  · next heq =>
    obtain ⟨rfl, rfl⟩ := List.cons.inj heq
    exact absurd ⟨rfl, .inr rfl⟩ h
  · rfl

/-! ## Quoted units -/

/-- A quoted unit ends with its last character. -/
theorem closingQuote_unit {lexeme : Lexeme} {quote : Char} (hquote : lexeme.quote? = some quote)
    (hfaithful : lexeme.FaithfulBefore none) :
    closingQuote (before ++ (lexeme.text ++ rest)) before.length
      = .ok (before.length + lexeme.text.length - 1) := by
  obtain ⟨body, htext, hisQuote⟩ : ∃ body, lexeme.text = quote :: body ∧ isQuote quote = true := by
    cases lexeme with
    | literal =>
      cases hquote
      exact ⟨_, rfl, hfaithful.1.isQuote⟩
    | template =>
      cases hquote
      exact ⟨_, rfl, isQuote_backtick⟩
    | _ => cases hquote
  have hdrop : (before ++ (lexeme.text ++ rest)).drop before.length = quote :: (body ++ rest) := by
    rw [List.drop_left, htext, List.cons_append]
  rw [closingQuote_eq hisQuote hdrop, ← List.cons_append, ← htext, read_quoted hquote hfaithful,
    if_pos rfl]
  simp only [List.length_append]
  congr 1
  omega

/-- The closing quote stands behind the opening one, in the text. -/
theorem lt_of_closingQuote {text : List Char} {start stop : Nat} {quote : Char}
    (hc : text[start]? = some quote) (hquote : isQuote quote = true)
    (h : closingQuote text start = .ok stop) : start < stop ∧ stop < text.length := by
  obtain ⟨hlt, hderives⟩ := (closingQuote_eq_ok_iff hc hquote).mp h
  obtain ⟨lexeme, htext, hlexeme, -⟩ := hderives.spelled
  have hwidth : 2 ≤ (text.extract start (stop + 1)).length := by
    rw [htext]
    cases lexeme <;> simp_all [Lexeme.quote?, Lexeme.text]
  rw [List.extract_eq_take_drop, List.length_take, List.length_drop] at hwidth
  omega

/-- A scan from an unclosed unit blames the innermost one. -/
theorem closingQuote_unclosed {unit innermost : List Char} (h : Unclosed unit innermost)
    (before : List Char) :
    ∃ quote body, unit = quote :: body ∧ isQuote quote = true
      ∧ closingQuote (before ++ unit) before.length
        = .error (.openQuote ((before ++ unit).length - innermost.length)) := by
  obtain ⟨quote, body, hunit, hquote⟩ :
      ∃ quote body, unit = quote :: body ∧ isQuote quote = true := by
    cases h with
    | literal hquote => exact ⟨_, _, rfl, hquote.isQuote⟩
    | _ => exact ⟨_, _, rfl, isQuote_backtick⟩
  refine ⟨quote, body, hunit, hquote, ?_⟩
  have hdrop : (before ++ unit).drop before.length = quote :: body := by
    rw [List.drop_left, hunit]
  rw [closingQuote_eq hquote hdrop, ← hunit, h.read_eq]

end At

/-! ## One unit of a pass -/

/-- What a pass distinguishes. -/
inductive PassUnit where
  | quoted
  | comment
  | char
deriving DecidableEq, Repr

/-- The unit at a position where the character `c` stands, and the position behind it. -/
def unitAt (text : List Char) (start : Nat) (c : Char) : Except ScanError (PassUnit × Nat) :=
  if isQuote c then (closingQuote text start).map fun stop => (.quoted, stop + 1)
  else
    match commentEnd? text start with
    | some stop => .ok (.comment, stop)
    | none => .ok (.char, start + 1)

theorem lt_of_unitAt {text : List Char} {start stop : Nat} {c : Char} {unit : PassUnit}
    (hc : text[start]? = some c) (h : unitAt text start c = .ok (unit, stop)) : start < stop := by
  unfold unitAt at h
  split at h
  · next hquote =>
    cases hstop : closingQuote text start with
    | error fault => simp [hstop, Except.map] at h
    | ok place =>
      obtain ⟨-, rfl⟩ : PassUnit.quoted = unit ∧ place + 1 = stop := by
        simpa [hstop, Except.map] using h
      have hlt := (lt_of_closingQuote hc hquote hstop).1
      omega
  · split at h
    · next hstop =>
      cases h
      exact lt_of_commentEnd? hstop
    · cases h
      omega

/-- What a pass takes a lexeme for. -/
def Lexeme.passUnit : Lexeme → PassUnit
  | .char _ => .char
  | .comment _ => .comment
  | .literal .. | .template _ => .quoted

/-- A faithful lexeme is one unit of a pass, from its first character on. -/
theorem unitAt_lexeme (before : List Char) {lexeme : Lexeme} {rest : List Char}
    (h : lexeme.FaithfulBefore rest.head?) :
    ∃ c, (before ++ (lexeme.text ++ rest))[before.length]? = some c
      ∧ unitAt (before ++ (lexeme.text ++ rest)) before.length c
        = .ok (lexeme.passUnit, before.length + lexeme.text.length) := by
  have quoted : ∀ {quote : Char} {body : List Char}, lexeme.quote? = some quote →
      lexeme.text = quote :: body → isQuote quote = true → lexeme.passUnit = .quoted →
      ∃ c, (before ++ (lexeme.text ++ rest))[before.length]? = some c
        ∧ unitAt (before ++ (lexeme.text ++ rest)) before.length c
          = .ok (lexeme.passUnit, before.length + lexeme.text.length) := by
    intro quote body hlexeme htext hquote hunit
    have hpos := lexeme_text_length_pos hlexeme
    have hstop := @closingQuote_unit before rest _ _ hlexeme h.at_end
    refine ⟨quote, by simp [htext], ?_⟩
    rw [unitAt, if_pos hquote, hstop, hunit]
    simp only [Except.map]
    congr 2
    omega
  cases lexeme with
  | char c =>
    have hnone : commentEnd? (before ++ ([c] ++ rest)) before.length = none :=
      commentEnd?_char h.2
    refine ⟨c, by simp [Lexeme.text], ?_⟩
    rw [unitAt, if_neg (by simp [h.1]), Lexeme.text, hnone]
    rfl
  | comment comment =>
    have hhead := IsComment.head?_eq h
    obtain ⟨body, rfl⟩ := List.head?_eq_some_iff.mp hhead
    refine ⟨'/', by simp [Lexeme.text], ?_⟩
    rw [unitAt, if_neg (by decide), Lexeme.text, commentEnd?_comment h]
    rfl
  | literal quote body => exact quoted rfl rfl h.1.isQuote rfl
  | template parts => exact quoted rfl rfl isQuote_backtick rfl

/-- Where an unclosed unit stands, there is no unit: its innermost open quote is to blame. -/
theorem unitAt_unclosed {unit innermost : List Char} (h : Unclosed unit innermost)
    (before : List Char) :
    ∃ c, (before ++ unit)[before.length]? = some c
      ∧ unitAt (before ++ unit) before.length c
        = .error (.openQuote ((before ++ unit).length - innermost.length)) := by
  obtain ⟨quote, body, hunit, hquote, hscan⟩ := closingQuote_unclosed h before
  refine ⟨quote, by simp [hunit], ?_⟩
  rw [unitAt, if_pos hquote, hscan]
  rfl

/-! ## Blanking in one pass -/

/-- The text of a unit with comments turned into blanks: a line feed stays, any other character of
a comment becomes a space. -/
def PassUnit.shown (text : List Char) : PassUnit → List Char
  | .comment => text.map fun c => if c = '\n' then c else ' '
  | _ => text

/-- The text from a position on with its comments turned into blanks. -/
def blankCommentsFrom (text : List Char) (start : Nat) : Except ScanError (List Char) :=
  match _hc : text[start]? with
  | none => .ok []
  | some c =>
    match _hunit : unitAt text start c with
    | .error fault => .error fault
    | .ok (unit, stop) =>
      (blankCommentsFrom text stop).map (unit.shown (text.extract start stop) ++ ·)
termination_by text.length - start
decreasing_by
  obtain ⟨hlt, -⟩ := List.getElem?_eq_some_iff.mp _hc
  have hstop := lt_of_unitAt _hc _hunit
  omega

/-- The text with its comments turned into blanks. -/
def blankComments (text : List Char) : Except ScanError (List Char) :=
  blankCommentsFrom text 0

section Steps

variable {text : List Char} {start stop : Nat} {c : Char} {unit : PassUnit} {fault : ScanError}

theorem blankCommentsFrom_unit (hc : text[start]? = some c)
    (hunit : unitAt text start c = .ok (unit, stop)) :
    blankCommentsFrom text start
      = (blankCommentsFrom text stop).map (unit.shown (text.extract start stop) ++ ·) := by
  rw [blankCommentsFrom.eq_def]
  split
  · next hnone => simp [hnone] at hc
  · next heq =>
    obtain rfl := Option.some.inj (heq.symm.trans hc)
    split
    · next hfault => simp [hfault] at hunit
    · next hok =>
      rw [hunit] at hok
      cases hok
      rfl

theorem blankCommentsFrom_fault (hc : text[start]? = some c)
    (hunit : unitAt text start c = .error fault) :
    blankCommentsFrom text start = .error fault := by
  rw [blankCommentsFrom.eq_def]
  split
  · next hnone => simp [hnone] at hc
  · next heq =>
    obtain rfl := Option.some.inj (heq.symm.trans hc)
    split
    · next hfault =>
      obtain rfl := Except.error.inj (hunit.symm.trans hfault)
      rfl
    · next hok => simp [hunit] at hok

end Steps

theorem blankCommentsFrom_end (text : List Char) : blankCommentsFrom text text.length = .ok [] := by
  rw [blankCommentsFrom.eq_def]
  split
  · rfl
  · next heq => simp at heq

theorem extract_unit (before unit rest : List Char) :
    (before ++ (unit ++ rest)).extract before.length (before.length + unit.length) = unit := by
  rw [List.extract_eq_take_drop, List.drop_left, Nat.add_sub_cancel_left, List.take_left]

theorem codeText_blanked_cons (lexeme : Lexeme) (code : Code) :
    codeText (Code.blanked (lexeme :: code)) = lexeme.passUnit.shown lexeme.text
      ++ codeText code.blanked := by
  rw [blanked_cons, codeText_append]
  congr 1
  cases lexeme with
  | comment text =>
    have hchars := codeText_asCode (text.map fun c => if c = '\n' then c else ' ')
    rwa [asCode, List.map_map] at hchars
  | _ => simp [Lexeme.blanked, codeText, Lexeme.passUnit, PassUnit.shown]

/-- A pass blanks the comments of faithful code and goes on behind it. -/
theorem blankCommentsFrom_code {code : Code} {rest : List Char}
    (h : Faithful (.code code rest.head?)) (before : List Char) :
    blankCommentsFrom (before ++ (codeText code ++ rest)) before.length
      = (blankCommentsFrom (before ++ (codeText code ++ rest)) (before.length + code.width)).map
        (codeText code.blanked ++ ·) := by
  induction code generalizing before with
  | nil =>
    rw [Code.width_nil, Nat.add_zero]
    generalize blankCommentsFrom (before ++ (codeText [] ++ rest)) before.length = shown
    cases shown <;> rfl
  | cons lexeme code ih =>
    obtain ⟨hlexeme, hcode⟩ := faithful_cons.mp h
    rw [← List.head?_append] at hlexeme
    obtain ⟨c, hc, hunit⟩ := unitAt_lexeme before hlexeme
    have hrest := ih hcode (before ++ lexeme.text)
    rw [codeText, List.append_assoc]
    rw [List.append_assoc, List.length_append] at hrest
    rw [blankCommentsFrom_unit hc hunit, hrest, extract_unit, codeText_blanked_cons,
      Code.width_cons, Nat.add_assoc]
    generalize blankCommentsFrom (before ++ (lexeme.text ++ (codeText code ++ rest)))
      (before.length + (lexeme.text.length + Code.width code)) = shown
    cases shown <;> simp [Except.map]

/-- A pass over a text blanks the comments of the code that the text reads as. It stops only at the
quote that the reading of the text stops at. -/
theorem blankComments_eq (text : List Char) :
    blankComments text = match Code.ofText? text with
      | .ok code => .ok code.blanked.text
      | .error unit => .error (.openQuote (text.length - unit.length)) := by
  rcases ofText?_cases text with ⟨code, rfl, hcode, hread⟩ | ⟨code, unit, innermost, rfl, hcode,
    hunit, hread⟩
  · have hpass := @blankCommentsFrom_code code [] hcode []
    rw [List.nil_append, List.append_nil, List.length_nil, Nat.zero_add, Code.width,
      blankCommentsFrom_end] at hpass
    rw [blankComments, hpass, hread]
    simp [Except.map]
  · have hpass := blankCommentsFrom_code hcode []
    obtain ⟨c, hc, hfault⟩ := unitAt_unclosed hunit (codeText code)
    rw [List.nil_append, List.length_nil, Nat.zero_add, Code.width,
      blankCommentsFrom_fault hc hfault] at hpass
    rw [blankComments, hpass, hread]
    rfl

theorem length_of_blankComments {text shown : List Char} (h : blankComments text = .ok shown) :
    shown.length = text.length := by
  rw [blankComments_eq] at h
  cases hread : Code.ofText? text with
  | error unit => simp [hread] at h
  | ok code =>
    obtain ⟨rfl, -⟩ := ofText?_eq_ok hread
    rw [hread] at h
    obtain rfl := Except.ok.inj h
    exact Code.width_blanked code

/-! ## Operators in one pass -/

/-- The places, from a position on, of the operators that stand outside brackets, where `depth`
brackets are open at the position. An operator of two characters is passed over. -/
def topLevelPlacesFrom (operators text : List Char) (depth : Int) (start : Nat) :
    Except ScanError (List Nat) :=
  match _hc : text[start]? with
  | none => .ok []
  | some c =>
    match _hunit : unitAt text start c with
    | .error fault => .error fault
    | .ok (.char, stop) =>
      if isOpener c then topLevelPlacesFrom operators text (depth + 1) stop
      else if isCloser c then topLevelPlacesFrom operators text (depth - 1) stop
      else if depth = 0 ∧ c ∈ operators then
        if text[stop]?.any (Code.isLongOperator c) then
          topLevelPlacesFrom operators text depth (stop + 1)
        else (topLevelPlacesFrom operators text depth stop).map (start :: ·)
      else topLevelPlacesFrom operators text depth stop
    | .ok (_, stop) => topLevelPlacesFrom operators text depth stop
termination_by text.length - start
decreasing_by
  all_goals
    obtain ⟨hlt, -⟩ := List.getElem?_eq_some_iff.mp _hc
    have hstop := lt_of_unitAt _hc _hunit
    omega

/-- The places of the operators that stand outside brackets. -/
def topLevelPlaces (operators text : List Char) : Except ScanError (List Nat) :=
  topLevelPlacesFrom operators text 0 0

section Steps

variable {operators text : List Char} {depth : Int} {start stop : Nat} {c : Char}

theorem topLevelPlacesFrom_char (hc : text[start]? = some c)
    (hunit : unitAt text start c = .ok (.char, stop)) :
    topLevelPlacesFrom operators text depth start =
      if isOpener c then topLevelPlacesFrom operators text (depth + 1) stop
      else if isCloser c then topLevelPlacesFrom operators text (depth - 1) stop
      else if depth = 0 ∧ c ∈ operators then
        if text[stop]?.any (Code.isLongOperator c) then
          topLevelPlacesFrom operators text depth (stop + 1)
        else (topLevelPlacesFrom operators text depth stop).map (start :: ·)
      else topLevelPlacesFrom operators text depth stop := by
  rw [topLevelPlacesFrom.eq_def]
  split
  · next hnone => simp [hnone] at hc
  · next heq =>
    obtain rfl := Option.some.inj (heq.symm.trans hc)
    split
    · next hfault => simp [hfault] at hunit
    · next hchar =>
      rw [hunit] at hchar
      cases hchar
      rfl
    · next hother hskip =>
      rw [hunit] at hskip
      cases hskip
      exact absurd rfl hother

theorem topLevelPlacesFrom_skip {unit : PassUnit} (hc : text[start]? = some c)
    (hunit : unitAt text start c = .ok (unit, stop)) (hskip : unit ≠ .char) :
    topLevelPlacesFrom operators text depth start
      = topLevelPlacesFrom operators text depth stop := by
  rw [topLevelPlacesFrom.eq_def]
  split
  · next hnone => simp [hnone] at hc
  · next heq =>
    obtain rfl := Option.some.inj (heq.symm.trans hc)
    split
    · next hfault => simp [hfault] at hunit
    · next hchar =>
      rw [hunit] at hchar
      cases hchar
      exact absurd rfl hskip
    · next hother =>
      rw [hunit] at hother
      cases hother
      rfl

end Steps

theorem topLevelPlacesFrom_end (operators text : List Char) (depth : Int) :
    topLevelPlacesFrom operators text depth text.length = .ok [] := by
  rw [topLevelPlacesFrom.eq_def]
  split
  · rfl
  · next heq => simp at heq

/-- The places of the marks in a marked list that starts at a position. -/
def markedPlaces (start : Nat) : List (Lexeme × Bool) → List Nat
  | [] => []
  | (lexeme, true) :: rest => start :: markedPlaces (start + lexeme.text.length) rest
  | (lexeme, false) :: rest => markedPlaces (start + lexeme.text.length) rest

/-- Only a character can follow another one in an operator of two characters. -/
theorem any_isLongOperator {code : Code} (h : Faithful (.code code none)) (c : Char) :
    (codeText code).head?.any (Code.isLongOperator c)
      = match code with
        | .char d :: _ => Code.isLongOperator c d
        | _ => false := by
  have plain : ∀ d, isQuote d = true ∨ d = '/' → Code.isLongOperator c d = false := by
    intro d hd
    rw [isQuote_iff, IsPlainQuote] at hd
    rcases hd with (rfl | rfl | rfl) | rfl <;> simp [Code.isLongOperator, backtick]
  cases code with
  | nil => rfl
  | cons lexeme code =>
    obtain ⟨hlexeme, -⟩ := faithful_cons.mp h
    cases lexeme with
    | char d => rfl
    | comment comment =>
      obtain ⟨body, rfl⟩ := List.head?_eq_some_iff.mp (IsComment.head?_eq hlexeme)
      exact plain '/' (.inr rfl)
    | literal quote body => exact plain quote (.inl hlexeme.1.isQuote)
    | template parts => exact plain backtick (.inl isQuote_backtick)

section FaithfulSteps

variable {operators : List Char} {code : Code} {depth : Int}

/-- A pass goes from a character to what stands behind it. -/
theorem topLevelPlacesFrom_cons_char {c : Char} (h : Faithful (.code (.char c :: code) none))
    (before : List Char) :
    topLevelPlacesFrom operators (before ++ codeText (.char c :: code)) depth before.length =
      let onward (depth : Int) :=
        topLevelPlacesFrom operators (before ++ [c] ++ codeText code) depth (before ++ [c]).length
      if isOpener c then onward (depth + 1)
      else if isCloser c then onward (depth - 1)
      else if depth = 0 ∧ c ∈ operators then
        if (codeText code).head?.any (Code.isLongOperator c) then
          topLevelPlacesFrom operators (before ++ [c] ++ codeText code) depth
            ((before ++ [c]).length + 1)
        else (onward depth).map (before.length :: ·)
      else onward depth := by
  have hlexeme := (faithful_cons.mp h).1
  rw [Option.or_none] at hlexeme
  obtain ⟨d, hc, hunit⟩ := unitAt_lexeme before hlexeme
  obtain rfl : c = d := by simpa [Lexeme.text] using hc
  have hnext : (before ++ ([c] ++ codeText code))[before.length + 1]? = (codeText code).head? := by
    rw [List.getElem?_append_right (Nat.le_add_right _ _), Nat.add_sub_cancel_left,
      List.head?_eq_getElem?]
    rfl
  rw [codeText, topLevelPlacesFrom_char hc hunit]
  simp only [Lexeme.text, List.length_singleton, hnext, List.append_assoc, List.length_append]

/-- A pass skips a lexeme that is no character. -/
theorem topLevelPlacesFrom_cons_unit {lexeme : Lexeme}
    (h : Faithful (.code (lexeme :: code) none)) (hunit : lexeme.passUnit ≠ .char)
    (before : List Char) :
    topLevelPlacesFrom operators (before ++ codeText (lexeme :: code)) depth before.length
      = topLevelPlacesFrom operators (before ++ lexeme.text ++ codeText code) depth
        (before ++ lexeme.text).length := by
  have hlexeme := (faithful_cons.mp h).1
  rw [Option.or_none] at hlexeme
  obtain ⟨c, hc, hskip⟩ := unitAt_lexeme before hlexeme
  rw [codeText, topLevelPlacesFrom_skip hc hskip hunit, List.append_assoc, List.length_append]

end FaithfulSteps

/-- A pass over faithful code finds the operators that are marked in it. -/
theorem topLevelPlacesFrom_code (operators : List Char) {code : Code} (depth : Int)
    (h : Faithful (.code code none)) (before : List Char) :
    topLevelPlacesFrom operators (before ++ codeText code) depth before.length
      = .ok (markedPlaces before.length (code.flagged operators depth)) := by
  fun_induction Code.flagged operators depth code generalizing before with
  | case1 depth =>
    rw [codeText, List.append_nil, topLevelPlacesFrom_end]
    rfl
  | case2 depth c rest hopen ih =>
    have hrest := ih (faithful_cons.mp h).2 (before ++ [c])
    rw [topLevelPlacesFrom_cons_char h]
    simp only [if_pos hopen, hrest]
    simp [markedPlaces, Lexeme.text]
  | case3 depth c rest hopen hclose ih =>
    have hrest := ih (faithful_cons.mp h).2 (before ++ [c])
    rw [topLevelPlacesFrom_cons_char h]
    simp only [if_neg hopen, if_pos hclose, hrest]
    simp [markedPlaces, Lexeme.text]
  | case4 depth c hopen hclose hmark d rest hlong ih =>
    -- both characters of a long operator are passed over at once
    have htail := (faithful_cons.mp h).2
    have hrest := ih (faithful_cons.mp htail).2 (before ++ [c] ++ [d])
    rw [topLevelPlacesFrom_cons_char h, any_isLongOperator htail]
    simp only [if_neg hopen, if_neg hclose, if_pos hmark, if_pos hlong]
    simpa [codeText, markedPlaces, Lexeme.text] using hrest
  | case5 depth c hopen hclose hmark d rest hlong ih =>
    have htail := (faithful_cons.mp h).2
    have hrest := ih htail (before ++ [c])
    rw [topLevelPlacesFrom_cons_char h, any_isLongOperator htail]
    simp only [if_neg hopen, if_neg hclose, if_pos hmark, if_neg hlong, hrest]
    simp [Except.map, markedPlaces, Lexeme.text]
  | case6 depth c hopen hclose hmark rest hchar ih =>
    have htail := (faithful_cons.mp h).2
    have hrest := ih htail (before ++ [c])
    have hlong : (codeText rest).head?.any (Code.isLongOperator c) = false := by
      rw [any_isLongOperator htail]
      split
      · next d rest _ => exact absurd rfl (hchar d rest)
      · rfl
    rw [topLevelPlacesFrom_cons_char h, hlong]
    simp only [if_neg hopen, if_neg hclose, if_pos hmark, hrest]
    simp [Except.map, markedPlaces, Lexeme.text]
  | case7 depth c rest hopen hclose hmark ih =>
    have hrest := ih (faithful_cons.mp h).2 (before ++ [c])
    rw [topLevelPlacesFrom_cons_char h]
    simp only [if_neg hopen, if_neg hclose, if_neg hmark, hrest]
    simp [markedPlaces, Lexeme.text]
  | case8 depth lexeme rest hchar ih =>
    have hrest := ih (faithful_cons.mp h).2 (before ++ lexeme.text)
    have hunit : lexeme.passUnit ≠ .char := by
      cases lexeme with
      | char c => exact absurd rfl (hchar c)
      | _ => simp [Lexeme.passUnit]
    rw [topLevelPlacesFrom_cons_unit h hunit, hrest, markedPlaces, List.length_append]

/-- A pass over the text of faithful code finds the operators that are marked in the code. -/
theorem topLevelPlaces_codeText (operators : List Char) {code : Code}
    (h : Faithful (.code code none)) :
    topLevelPlaces operators (codeText code) = .ok (markedPlaces 0 (code.flagged operators 0)) :=
  topLevelPlacesFrom_code operators 0 h []

end StyleAudit
